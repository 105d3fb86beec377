/-
  `f2fs_map_blocks` with `F2FS_GET_BLOCK_PRECACHE`: what it puts into the extent cache.

  The walk passes on the part of the run that each direct node has added, when it leaves the
  node and once more at `sync_out`.  When it comes to `sync_out` from the first block of a
  direct node, that node has added nothing.  So the ranges are what the dnodes say, and they
  are not empty, unless the run ends with a direct node and the walk finds the next one.
-/
import F2fs.File.MapBlocks

namespace F2fs.File

open F2fs.Node F2fs.Truncate F2fs.Extent

/-! ## What a call may say -/

/-- `f2fs_update_extent_cache_range` of `fofs`, `blkaddr` and `len` tells the truth: the range
    is not empty and lies in the request, and its blocks are stored where it says. -/
structure Truthful (file : MappedFile) (map : MapRequest) (u : Nat × Nat × Nat) : Prop where
  pos : 1 ≤ u.2.2
  start_le : map.mLblk ≤ u.1
  stop_le : u.1 + u.2.2 ≤ map.mLblk + map.mLen
  stored : ∀ i, i < u.2.2 → file.StoredAt (u.1 + i) (u.2.1 + i)

/-- The run at the start of the request has `n` blocks and ends with a direct node, before
    the end of the request; all its direct nodes and the next one can be read. -/
structure RunEndsWithDnode (file : MappedFile) (read : Nat → NodeReads) (map : MapRequest)
    (n : Nat) : Prop where
  pos : 0 < n
  lt : n < map.mLen
  run : ∀ i, i < n → file.StoredAt (map.mLblk + i) (file.blockAddr map.mLblk + i)
  ends : ¬file.StoredAt (map.mLblk + n) (file.blockAddr map.mLblk + n)
  first : FirstInDnode file.layout (map.mLblk + n)
  found : ∀ i, i ≤ n → i = 0 ∨ FirstInDnode file.layout (map.mLblk + i) →
    ∃ r, getDnodeOfData file (read (map.mLblk + i)) (map.mLblk + i) = .ok r

/-- What is to be shown of the calls that a walk makes. -/
def CallsTold (file : MappedFile) (read : Nat → NodeReads) (map : MapRequest)
    (updates : List (Nat × Nat × Nat)) : Prop :=
  ((∀ u ∈ updates, Truthful file map u) ∧ ∀ m, ¬RunEndsWithDnode file read map m) ∨
    ((∃ u ∈ updates, u.2.2 = 0) ∧ ∃ m, RunEndsWithDnode file read map m)

theorem CallsTold.truthful_iff {file : MappedFile} {read : Nat → NodeReads} {map : MapRequest}
    {updates : List (Nat × Nat × Nat)} (h : CallsTold file read map updates) :
    (∀ u ∈ updates, Truthful file map u) ↔ ∀ m, ¬RunEndsWithDnode file read map m := by
  rcases h with ⟨htrue, hnone⟩ | ⟨⟨u, hu, h0⟩, m, hm⟩
  · exact iff_of_true htrue hnone
  · refine iff_of_false (fun htrue => ?_) fun hnone => hnone m hm
    have hpos := (htrue u hu).pos
    omega

/-! ## The walk -/

/-- What a precaching walk knows besides `Walked`, before it looks for the next block. -/
structure Precached (file : MappedFile) (read : Nat → NodeReads) (map : MapRequest)
    (st : MapWalk) : Prop where
  /-- there is no page before the first block -/
  started : st.page = none → st.map.mLen = 0
  within : ∀ page, st.page = some page → 0 < st.ofsInNode ∧
    st.ofsInNode ≤ addrsPerPage file.layout page ∧
    AtSlot file.layout page st.pgofs st.ofsInNode
  /-- the direct node has added at least one block -/
  added : st.page.isSome → map.mLblk ≤ st.startPgofs ∧ st.startPgofs < st.pgofs
  truthful : ∀ u ∈ st.updates, Truthful file map u
  found : ∀ i, i < st.map.mLen → i = 0 ∨ FirstInDnode file.layout (map.mLblk + i) →
    ∃ r, getDnodeOfData file (read (map.mLblk + i)) (map.mLblk + i) = .ok r

section

variable {file : MappedFile} {read : Nat → NodeReads} {map : MapRequest} {n m : Nat}
  {st st' : MapWalk} {page : DataPage}

theorem mapBlock_precache_hole {a : Nat} (st : MapWalk) (h : a = newAddr ∨ a = nullAddr) :
    mapBlock .precache st a = (st, false) := by
  simp only [mapBlock, reduceCtorEq, and_false, if_false, and_true, if_pos h]

/-- The range that is passed on. -/
theorem precacheRange_updates (h : Walked file map n st) (hstart : map.mLblk ≤ st.startPgofs)
    (hle : st.startPgofs ≤ st.pgofs) (hpos : 0 < st.map.mLen) (hlt : st.pgofs < 2 ^ 32) :
    (precacheRange .precache st).updates = st.updates ++
      [(st.startPgofs, st.map.mPblk + (st.startPgofs - map.mLblk), st.pgofs - st.startPgofs)] := by
  have hpgofs := h.pgofs
  have hmapped : st.map.mFlags.mapped = true := by rw [h.flags, decide_eq_true hpos]
  have hofs : u32Sub st.startPgofs st.map.mLblk = st.startPgofs - map.mLblk := by
    rw [h.lblk, u32Sub_of_le hstart (by omega)]
  have hlen : u32Sub st.map.mLen (st.startPgofs - map.mLblk) = st.pgofs - st.startPgofs := by
    rw [u32Sub_of_le (by omega) (by omega)]
    omega
  have hblk : u32 (st.map.mPblk + (st.startPgofs - map.mLblk)) =
      st.map.mPblk + (st.startPgofs - map.mLblk) := by
    -- the last block of the run has an address that is at least as large
    obtain ⟨haddr, -, hnew⟩ := h.stored (st.map.mLen - 1) (by omega)
    have hword := blockAddr_lt file (map.mLblk + (st.map.mLen - 1))
    rw [haddr] at hword
    unfold newAddr at hnew
    exact u32_of_lt (by omega)
  rw [precacheRange, if_pos ⟨rfl, hmapped⟩]
  simp only [hofs, hlen, hblk]

/-- A range that is not empty is passed on truthfully. -/
theorem precacheRange_truthful (h : Walked file map n st) (hstart : map.mLblk ≤ st.startPgofs)
    (hlt' : st.startPgofs < st.pgofs) (hlt : st.pgofs < 2 ^ 32)
    (htrue : ∀ u ∈ st.updates, Truthful file map u) :
    ∀ u ∈ (precacheRange .precache st).updates, Truthful file map u := by
  have hpgofs := h.pgofs
  have hleft := h.left
  intro u hu
  rw [precacheRange_updates h hstart (Nat.le_of_lt hlt') (by omega) hlt] at hu
  rcases List.mem_append.mp hu with hu | hu
  · exact htrue u hu
  · obtain rfl := List.mem_singleton.mp hu
    refine ⟨by show 1 ≤ st.pgofs - st.startPgofs; omega, hstart, ?_, fun i hi => ?_⟩
    · show st.startPgofs + (st.pgofs - st.startPgofs) ≤ map.mLblk + map.mLen
      omega
    · have hi : i < st.pgofs - st.startPgofs := hi
      have hstored := h.stored (st.startPgofs - map.mLblk + i) (by omega)
      have hblock : map.mLblk + (st.startPgofs - map.mLblk + i) = st.startPgofs + i := by omega
      have haddr : st.map.mPblk + (st.startPgofs - map.mLblk + i) =
          st.map.mPblk + (st.startPgofs - map.mLblk) + i := by omega
      rw [hblock, haddr] at hstored
      exact hstored

theorem syncOut_updates (st : MapWalk) :
    (syncOut .precache st).updates = (precacheRange .precache st).updates := rfl

/-! ## No empty range -/

/-- The run cannot end before the block that the walk has come to. -/
theorem Walked.not_endsBefore (h : Walked file map n st) (hm : m < st.map.mLen) :
    ¬RunEndsWithDnode file read map m := by
  intro hend
  have hfirst := (h.stored 0 (by omega)).1
  rw [Nat.add_zero, Nat.add_zero] at hfirst
  have hstored := h.stored m hm
  rw [← hfirst] at hstored
  exact hend.ends hstored

/-- The run cannot go on behind a block that breaks it off. -/
theorem not_endsBehind
    (hbreak : ¬file.StoredAt (map.mLblk + st.map.mLen) (file.blockAddr map.mLblk + st.map.mLen))
    (hm : st.map.mLen < m) : ¬RunEndsWithDnode file read map m :=
  fun hend => hbreak (hend.run st.map.mLen hm)

/-- The block that the walk does not take in breaks off the run. -/
theorem Walked.break_of_stop {a : Nat} (h : Walked file map (n + 1) st)
    (ha : file.blockAddr st.pgofs = a) (hblock : mapBlock .precache st a = (st', false)) :
    st' = st ∧
      ¬file.StoredAt (map.mLblk + st.map.mLen) (file.blockAddr map.mLblk + st.map.mLen) := by
  have hpgofs := h.pgofs
  rw [hpgofs] at ha
  by_cases hhole : a = newAddr ∨ a = nullAddr
  · rw [mapBlock_precache_hole st hhole] at hblock
    cases hblock
    refine ⟨rfl, fun hstored => ?_⟩
    obtain ⟨haddr, hnull, hnew⟩ := hstored
    rw [ha] at haddr
    rcases hhole with rfl | rfl
    · exact hnew haddr.symm
    · exact hnull haddr.symm
  · obtain ⟨hnew, hnull⟩ := not_or.mp hhole
    obtain ⟨rfl, hpos, hne⟩ := h.breaks hnew hnull hblock
    refine ⟨rfl, fun hstored => hne ?_⟩
    have hfirst := (h.stored 0 hpos).1
    rw [Nat.add_zero, Nat.add_zero] at hfirst
    rw [← ha, hstored.1, hfirst]

/-! ## Step and run -/

/-- All blocks that were seen have addresses, so the walk is not behind the tree. -/
theorem Walked.pgofs_le (h : Walked file map n st) (hlblk : map.mLblk < 2 ^ 32)
    (hlen : map.mLen < 2 ^ 32) (hpos : 0 < st.map.mLen) : st.pgofs < 2 ^ 32 := by
  have hpgofs := h.pgofs
  have hle := h.len_le
  have hlong := api_add_maxFileBlocks_lt file.layout
  obtain ⟨haddr, hnull, -⟩ := h.stored (st.map.mLen - 1) (by omega)
  have hlt : map.mLblk + (st.map.mLen - 1) < file.layout.addrsPerInode + maxFileBlocks := by
    refine lt_of_address (by omega) fun hc => hnull ?_
    rw [← haddr, hc]
  omega

theorem Precached.hasPage (hp : Precached file read map st) (hpos : 0 < st.map.mLen) :
    ∃ page, st.page = some page :=
  Option.ne_none_iff_exists'.mp fun hnone => by
    have h0 := hp.started hnone
    omega

/-- What is passed on when the walk stops in its direct node is true. -/
theorem Precached.sync (hp : Precached file read map st) (h : Walked file map n st)
    (hlblk : map.mLblk < 2 ^ 32) (hlen : map.mLen < 2 ^ 32) :
    ∀ u ∈ (precacheRange .precache st).updates, Truthful file map u := by
  rcases Nat.eq_zero_or_pos st.map.mLen with h0 | hpos
  · have hmapped : st.map.mFlags.mapped = false := by rw [h.flags, h0]; rfl
    rw [precacheRange, if_neg (by simp [hmapped])]
    exact hp.truthful
  · obtain ⟨page, hpage⟩ := hp.hasPage hpos
    obtain ⟨hstart, hlt⟩ := hp.added (by rw [hpage]; rfl)
    exact precacheRange_truthful h hstart hlt (h.pgofs_le hlblk hlen hpos) hp.truthful

theorem Precached.leave (hp : Precached file read map st) (h : Walked file map n st)
    (hlblk : map.mLblk < 2 ^ 32) (hlen : map.mLen < 2 ^ 32) :
    ∀ u ∈ (leaveDnode .precache st).updates, Truthful file map u := by
  unfold leaveDnode
  split
  · exact hp.sync h hlblk hlen
  · exact hp.truthful

/-- A walk that has used up its direct node is at the start of the next one. -/
theorem Precached.first (hp : Precached file read map st) (h : Walked file map n st)
    (hused : ∀ page, st.page = some page → addrsPerPage file.layout page ≤ st.ofsInNode) :
    st.map.mLen = 0 ∨ FirstInDnode file.layout (map.mLblk + st.map.mLen) := by
  cases hpage : st.page with
  | none => exact Or.inl (hp.started hpage)
  | some page =>
    obtain ⟨-, hle, hslot⟩ := hp.within page hpage
    have hofs : st.ofsInNode = addrsPerPage file.layout page :=
      Nat.le_antisymm hle (hused page hpage)
    rw [hofs] at hslot
    rw [← h.pgofs]
    exact Or.inr hslot.firstInDnode

/-- One more block of the direct node. -/
theorem Precached.next {a : Nat} {st₁ st₂ : MapWalk} (hp : Precached file read map st)
    (h₁ : Walked file map (n + 1) st₁) (h₂ : Walked file map n (skipBlock st₂))
    (hmap : st₁.map = st.map) (hpage : st₁.page = some page)
    (hofs : st₁.ofsInNode < addrsPerPage file.layout page)
    (hslot : AtSlot file.layout page st₁.pgofs st₁.ofsInNode)
    (hstart : map.mLblk ≤ st₁.startPgofs ∧ st₁.startPgofs ≤ st₁.pgofs)
    (htrue : ∀ u ∈ st₁.updates, Truthful file map u)
    (hfound : st.map.mLen = 0 ∨ FirstInDnode file.layout (map.mLblk + st.map.mLen) →
      ∃ r, getDnodeOfData file (read st₁.pgofs) st₁.pgofs = .ok r)
    (hblock : mapBlock .precache st₁ a = (st₂, true)) :
    Precached file read map (skipBlock st₂) := by
  obtain ⟨hpage₂, hpgofs₂, hofs₂⟩ := skipBlock_mapBlock hblock
  obtain ⟨-, -, -, hstart₂, hupdates₂⟩ := mapBlock_keeps .precache st₁ a
  rw [hblock] at hstart₂ hupdates₂
  have hsome : (skipBlock st₂).page = some page := hpage₂.trans hpage
  have hlen : (skipBlock st₂).map.mLen = st.map.mLen + 1 := by
    have hp₁ := h₁.pgofs
    have hp₂ := h₂.pgofs
    rw [hmap] at hp₁
    omega
  refine ⟨fun hnone => ?_, fun page' hpage' => ?_, fun _ => ⟨?_, ?_⟩, ?_, fun i hi hfirst => ?_⟩
  · rw [hsome] at hnone
    cases hnone
  · obtain rfl : page = page' := Option.some.inj (hsome.symm.trans hpage')
    rw [hofs₂, hpgofs₂]
    exact ⟨Nat.succ_pos _, hofs, hslot.add 1⟩
  · exact hstart₂.symm ▸ hstart.1
  · rw [hpgofs₂]
    exact Nat.lt_succ_of_le (hstart₂.symm ▸ hstart.2)
  · exact hupdates₂.symm ▸ htrue
  · rw [hlen] at hi
    rcases Nat.lt_succ_iff_lt_or_eq.mp hi with hlt | rfl
    · exact hp.found i hlt hfirst
    · have hp₁ := h₁.pgofs
      rw [hmap] at hp₁
      rw [← hp₁]
      exact hfound hfirst

/-- The walk stops in a direct node it was in before. -/
theorem Precached.stopInside {a : Nat} {st₂ : MapWalk} (hp : Precached file read map st)
    (h : Walked file map (n + 1) st) (hlblk : map.mLblk < 2 ^ 32) (hlen : map.mLen < 2 ^ 32)
    (hpage : st.page = some page) (hofs : st.ofsInNode < addrsPerPage file.layout page)
    (ha : file.blockAddr st.pgofs = a) (hblock : mapBlock .precache st a = (st₂, false)) :
    CallsTold file read map (syncOut .precache st₂).updates := by
  obtain ⟨rfl, hbreak⟩ := h.break_of_stop ha hblock
  refine Or.inl ⟨hp.sync h hlblk hlen, fun m hend => ?_⟩
  rcases Nat.lt_trichotomy m st₂.map.mLen with hlt | rfl | hgt
  · exact h.not_endsBefore hlt hend
  · obtain ⟨hpos, -, hslot⟩ := hp.within page hpage
    have hfirst := hend.first
    rw [← h.pgofs] at hfirst
    exact hslot.not_firstInDnode hpos hofs hfirst
  · exact not_endsBehind hbreak hgt hend

/-- The walk stops at the first block of a direct node that it has just looked up. -/
theorem Precached.stopFirst {a : Nat} {st₁ st₂ : MapWalk} (hp : Precached file read map st)
    (h : Walked file map (n + 1) st) (h₁ : Walked file map (n + 1) st₁)
    (hlblk : map.mLblk < 2 ^ 32) (hlen : map.mLen < 2 ^ 32) (hmap : st₁.map = st.map)
    (hstart : st₁.startPgofs = st₁.pgofs)
    (hupdates : st₁.updates = (leaveDnode .precache st).updates)
    (hfirst : st.map.mLen = 0 ∨ FirstInDnode file.layout (map.mLblk + st.map.mLen))
    (hfound : ∃ r, getDnodeOfData file (read st₁.pgofs) st₁.pgofs = .ok r)
    (ha : file.blockAddr st₁.pgofs = a) (hblock : mapBlock .precache st₁ a = (st₂, false)) :
    CallsTold file read map (syncOut .precache st₂).updates := by
  obtain ⟨rfl, hbreak⟩ := h₁.break_of_stop ha hblock
  have hpgofs := h₁.pgofs
  have htrue := hp.leave h hlblk hlen
  rw [← hupdates] at htrue
  rw [hmap] at hpgofs hbreak
  rcases Nat.eq_zero_or_pos st.map.mLen with h0 | hpos
  · -- nothing was mapped, so nothing is passed on
    have hmapped : st₂.map.mFlags.mapped = false := by rw [h₁.flags, hmap, h0]; rfl
    refine Or.inl ⟨?_, fun m hend => ?_⟩
    · rw [syncOut_updates, precacheRange, if_neg (by simp [hmapped])]
      exact htrue
    · have hend' := hend.pos
      exact hbreak (hend.run st.map.mLen (by omega))
  · have hcalls := precacheRange_updates h₁ (by omega) (Nat.le_of_eq hstart) (hmap ▸ hpos)
      (h₁.pgofs_le hlblk hlen (hmap ▸ hpos))
    have hempty : ∃ u ∈ (syncOut .precache st₂).updates, u.2.2 = 0 := by
      rw [syncOut_updates, hcalls]
      refine ⟨_, List.mem_append_right _ (List.mem_singleton_self _), ?_⟩
      show st₂.pgofs - st₂.startPgofs = 0
      omega
    refine Or.inr ⟨hempty, st.map.mLen, ?_⟩
    have hleft := h.left
    have haddr := (h.stored 0 hpos).1
    rw [Nat.add_zero, Nat.add_zero] at haddr
    refine ⟨hpos, by omega, fun i hi => ?_, hbreak, hfirst.resolve_left (by omega),
      fun i hi hstarts => ?_⟩
    · rw [haddr]
      exact h.stored i hi
    · rcases Nat.lt_or_eq_of_le hi with hlt | rfl
      · exact hp.found i hlt hstarts
      · rw [← hpgofs]
        exact hfound

/-- The walk with `n` blocks to go, between two blocks. -/
structure PrecacheInv (file : MappedFile) (read : Nat → NodeReads) (map : MapRequest) (n : Nat)
    (st : MapWalk) : Prop where
  walked : Walked file map n st
  precached : Precached file read map st
  inPage : ∀ page, st.page = some page → InPage file st page

/-- What one round of the walk comes to: the end, or the next block. -/
def RoundTold (file : MappedFile) (read : Nat → NodeReads) (map : MapRequest) (n : Nat)
    (r : MapResult) : Prop :=
  CallsTold file read map r.updates ∨
    ∃ st, r = mapRest file read .precache n st ∧ PrecacheInv file read map n st

/-- A round in a direct node that has more slots. -/
theorem PrecacheInv.roundInside (h : PrecacheInv file read map (n + 1) st)
    (hlblk : map.mLblk < 2 ^ 32) (hlen : map.mLen < 2 ^ 32) (hpage : st.page = some page)
    (hofs : st.ofsInNode < addrsPerPage file.layout page)
    (hnext : nextDnode file read .precache st = (st, .ok page)) :
    RoundTold file read map n (mapRest file read .precache (n + 1) st) := by
  have hin := h.inPage page hpage
  have ha : file.blockAddr st.pgofs = dataAddr file.layout file.index page st.ofsInNode :=
    hin 0 hofs
  obtain ⟨hpos, -, hslot⟩ := h.precached.within page hpage
  obtain ⟨hstart, hstart'⟩ := h.precached.added (by rw [hpage]; rfl)
  rw [mapRest, hnext]
  cases hblock : mapBlock .precache st (dataAddr file.layout file.index page st.ofsInNode) with
  | mk st₂ goOn =>
    simp only [hblock]
    cases goOn with
    | false => exact Or.inl (h.precached.stopInside h.walked hlblk hlen hpage hofs ha hblock)
    | true =>
      have hstored := not_or.mp fun hhole => by
        rw [mapBlock_precache_hole st hhole] at hblock
        cases hblock
      have h₂ := h.walked.extend ha hstored.1 hstored.2 hblock
      refine Or.inr ⟨skipBlock st₂, rfl, h₂, ?_, fun page' hpage' => ?_⟩
      · refine h.precached.next h.walked h₂ rfl hpage hofs hslot ⟨hstart, Nat.le_of_lt hstart'⟩
          h.precached.truthful (fun hfirst => ?_) hblock
        -- no direct node starts here
        have hpgofs := h.walked.pgofs
        rcases hfirst with h0 | hfirst
        · omega
        · rw [← hpgofs] at hfirst
          exact absurd hfirst (hslot.not_firstInDnode hpos hofs)
      · rw [(skipBlock_mapBlock hblock).1, hpage] at hpage'
        cases hpage'
        exact inPage_next hblock hin

/-- A round that does not find its direct node. -/
theorem PrecacheInv.roundMissing {dn : LookupError} (h : PrecacheInv file read map (n + 1) st)
    (hlblk : map.mLblk < 2 ^ 32) (hlen : map.mLen < 2 ^ 32)
    (hused : ∀ page, st.page = some page → addrsPerPage file.layout page ≤ st.ofsInNode)
    (hget : getDnodeOfData file (read st.pgofs) st.pgofs = .error dn)
    (hnext : nextDnode file read .precache st = (leaveDnode .precache st, .error dn)) :
    RoundTold file read map n (mapRest file read .precache (n + 1) st) := by
  have hend : ∀ m, ¬RunEndsWithDnode file read map m := by
    intro m hend
    rcases Nat.lt_or_ge m st.map.mLen with hm | hm
    · exact h.walked.not_endsBefore hm hend
    · obtain ⟨r, hr⟩ := hend.found st.map.mLen hm (h.precached.first h.walked hused)
      rw [← h.walked.pgofs, hget] at hr
      cases hr
  have htrue := h.precached.leave h.walked hlblk hlen
  rw [mapRest, hnext]
  refine Or.inl (Or.inl ⟨?_, hend⟩)
  simp only [lookupFailed]
  split
  · exact htrue
  · exact htrue

/-- A round that begins a direct node. -/
theorem PrecacheInv.roundFound {ofs : Nat} (h : PrecacheInv file read map (n + 1) st)
    (hlblk : map.mLblk < 2 ^ 32) (hlen : map.mLen < 2 ^ 32)
    (hused : ∀ page, st.page = some page → addrsPerPage file.layout page ≤ st.ofsInNode)
    (hget : getDnodeOfData file (read st.pgofs) st.pgofs = .ok (page, ofs))
    (hnext : nextDnode file read .precache st =
      enterDnode (leaveDnode .precache st) (.ok (page, ofs))) :
    RoundTold file read map n (mapRest file read .precache (n + 1) st) := by
  have hlt := h.walked.pgofs_lt hlblk hlen
  have hword : st.pgofs < 2 ^ 32 :=
    lt_trans (lt_of_found hget hlt) (api_add_maxFileBlocks_lt file.layout)
  obtain ⟨st₁, hst₁⟩ : ∃ st₁, st₁ = { leaveDnode .precache st with
    page := some page, ofsInNode := ofs, startPgofs := u32 (leaveDnode .precache st).pgofs } :=
      ⟨_, rfl⟩
  have hmap : st₁.map = st.map := by rw [hst₁]; exact leaveDnode_map .precache st
  have hpgofs : st₁.pgofs = st.pgofs := by rw [hst₁]; exact leaveDnode_pgofs .precache st
  have hofs : st₁.ofsInNode = ofs := by rw [hst₁]
  have hstart : st₁.startPgofs = st₁.pgofs := by
    rw [hpgofs, hst₁]
    show u32 (leaveDnode .precache st).pgofs = st.pgofs
    rw [leaveDnode_pgofs, u32_of_lt hword]
  have h₁ := h.walked.congr hmap hpgofs (by rw [hst₁]; exact leaveDnode_ofs .precache st)
  have hfound : ∃ r, getDnodeOfData file (read st₁.pgofs) st₁.pgofs = .ok r := by
    rw [hpgofs]
    exact ⟨_, hget⟩
  have ha : file.blockAddr st₁.pgofs = dataAddr file.layout file.index page st₁.ofsInNode := by
    rw [hpgofs, hofs]
    exact blockAddr_of_ok hget
  rw [mapRest, hnext]
  simp only [enterDnode, ← hst₁]
  cases hblock : mapBlock .precache st₁ (dataAddr file.layout file.index page st₁.ofsInNode) with
  | mk st₂ goOn =>
    cases goOn with
    | false =>
      exact Or.inl (h.precached.stopFirst h.walked h₁ hlblk hlen hmap hstart (by rw [hst₁])
        (h.precached.first h.walked hused) hfound ha hblock)
    | true =>
      have hstored := not_or.mp fun hhole => by
        rw [mapBlock_precache_hole st₁ hhole] at hblock
        cases hblock
      have h₂ := h₁.extend ha hstored.1 hstored.2 hblock
      refine Or.inr ⟨skipBlock st₂, rfl, h₂, ?_, fun page' hpage' => ?_⟩
      · refine h.precached.next h₁ h₂ hmap (by rw [hst₁]) ?_ ?_ ⟨?_, Nat.le_of_eq hstart⟩ ?_
          (fun _ => hfound) hblock
        · rw [hofs]
          exact ofs_lt_addrsPerPage hget hlt
        · rw [hofs, hpgofs]
          exact getDnodeOfData_slot hget hlt
        · rw [hstart, h₁.pgofs]
          exact Nat.le_add_right _ _
        · rw [hst₁]
          exact h.precached.leave h.walked hlblk hlen
      · rw [(skipBlock_mapBlock hblock).1, hst₁] at hpage'
        cases hpage'
        refine inPage_next hblock fun j hj => ?_
        rw [hofs] at hj ⊢
        rw [hpgofs]
        exact blockAddr_in_page hget (inlineData_of_address ha hstored.2) hlt hj

theorem PrecacheInv.round (h : PrecacheInv file read map (n + 1) st)
    (hlblk : map.mLblk < 2 ^ 32) (hlen : map.mLen < 2 ^ 32) :
    RoundTold file read map n (mapRest file read .precache (n + 1) st) := by
  rcases nextDnode_cases file read .precache st with
    ⟨page, hpage, hofs, hnext⟩ | ⟨hused, hnext⟩
  · exact h.roundInside hlblk hlen hpage hofs hnext
  · cases hget : getDnodeOfData file (read st.pgofs) st.pgofs with
    | error dn =>
      rw [hget] at hnext
      exact h.roundMissing hlblk hlen hused hget hnext
    | ok r =>
      rw [hget] at hnext
      exact h.roundFound hlblk hlen hused hget hnext

/-- The walk, from any of its blocks on. -/
theorem mapRest_told (hlblk : map.mLblk < 2 ^ 32) (hlen : map.mLen < 2 ^ 32) :
    ∀ n st, PrecacheInv file read map n st →
      CallsTold file read map (mapRest file read .precache n st).updates := by
  intro n
  induction n with
  | zero =>
    intro st h
    have hleft := h.walked.left
    rw [mapRest, syncOut_updates]
    refine Or.inl ⟨h.precached.sync h.walked hlblk hlen, fun m hend => ?_⟩
    have hlt := hend.lt
    exact h.walked.not_endsBefore (by omega) hend
  | succ n ih =>
    intro st h
    rcases h.round hlblk hlen with hdone | ⟨st', heq, h'⟩
    · exact hdone
    · rw [heq]
      exact ih st' h'

end

/-! ## `f2fs_map_blocks` -/

section

variable {file : MappedFile} {read : Nat → NodeReads} {map : MapRequest}

/-- The walk, from `m_lblk` on. -/
theorem mapDnodes_told (hlblk : map.mLblk < 2 ^ 32) (hlen : map.mLen < 2 ^ 32) :
    CallsTold file read map
      (mapDnodes file read .precache { map with mLen := 0, mFlags := {} } map.mLen).updates := by
  refine mapRest_told hlblk hlen map.mLen _
    ⟨⟨rfl, rfl, Nat.zero_add _, rfl, rfl, ?_, rfl⟩, ⟨fun _ => rfl, ?_, ?_, ?_, ?_⟩, ?_⟩
  · exact fun i hi => absurd hi (Nat.not_lt_zero i)
  · exact fun page hpage => by cases hpage
  · exact fun hsome => by cases hsome
  · exact fun u hu => absurd hu List.not_mem_nil
  · exact fun i hi => absurd hi (Nat.not_lt_zero i)
  · exact fun page hpage => by cases hpage

/-- What precaching puts into the extent cache is true exactly if the answer comes from the
    cache, or the run does not end with a direct node that another one follows. -/
theorem precache_truthful_iff (file : MappedFile) (read : Nat → NodeReads) (mayExtentTree : Bool)
    (w : LockedTree) (map : MapRequest) (hlblk : map.mLblk < 2 ^ 32) (hlen : map.mLen < 2 ^ 32) :
    (∀ u ∈ (f2fsMapBlocks file read .precache mayExtentTree w map).1.updates,
      Truthful file map u) ↔
      (lookupExtentCache mayExtentTree w map.mLblk).2.isSome = true ∨
        ∀ n, ¬RunEndsWithDnode file read map n := by
  by_cases h0 : map.mLen = 0
  · rw [f2fsMapBlocks_none _ _ _ h0]
    refine iff_of_true (fun u hu => absurd hu List.not_mem_nil) (Or.inr fun n hend => ?_)
    have hlt := hend.lt
    omega
  · simp only [f2fsMapBlocks, if_neg h0]
    cases hlook : lookupExtentCache mayExtentTree w map.mLblk with
    | mk w' hit =>
      cases hit with
      | some ei =>
        refine iff_of_true (fun u hu => ?_) (Or.inl rfl)
        exact absurd hu List.not_mem_nil
      | none =>
        rw [(mapDnodes_told hlblk hlen).truthful_iff]
        refine ⟨Or.inr, fun h => h.resolve_left fun hsome => ?_⟩
        cases hsome

end

/-! ## A run that ends with the inode -/

/-- The last block in the inode and the first one of the direct node 5 are stored at `a`
    and at `b`. -/
def acrossInode (a b : Nat) (ha : a < 2 ^ 32) (hb : b < 2 ^ 32) : MappedFile where
  ino := 4
  layout := ⟨0, 923, Truncate.InodeLayout.plain_fits⟩
  index := ⟨fun i => if i = 922 then a else 0, fun k => if k = 0 then 5 else 0,
    fun _ i => if i = 0 then b else 0, fun _ => 1, [], 0, 0, 0⟩
  inlineData := false
  addr_lt := fun page ofs => by
    cases page with
    | inode =>
      show (if 0 + ofs = 922 then a else 0) < 2 ^ 32
      split
      · exact ha
      · decide
    | node nid =>
      show (if ofs = 0 then b else 0) < 2 ^ 32
      split
      · exact hb
      · decide
  reserved := fun hinline => by cases hinline

/-- A request for the two blocks. -/
def lastTwo : MapRequest := ⟨0, 922, 2, {}, none, some 0⟩

/-- Two blocks in a row are passed on as two ranges of one block. -/
theorem acrossInode_truthful : lastTwo.mLblk < 2 ^ 32 ∧ lastTwo.mLen < 2 ^ 32 ∧
    ∀ u ∈ (f2fsMapBlocks (acrossInode 100 101 (by decide) (by decide)) (fun _ => noFailure)
      .precache true (onlyLargest ⟨0, 0, 0⟩) lastTwo).1.updates,
      Truthful (acrossInode 100 101 (by decide) (by decide)) lastTwo u := by
  have hlblk : lastTwo.mLblk < 2 ^ 32 := by decide
  have hlen : lastTwo.mLen < 2 ^ 32 := by decide
  refine ⟨hlblk, hlen, ?_⟩
  refine (precache_truthful_iff _ _ _ _ _ hlblk hlen).mpr (Or.inr fun n hend => ?_)
  -- the run has two blocks
  have hn : n = 1 := by
    have hpos := hend.pos
    have hlt : n < 2 := hend.lt
    omega
  subst hn
  exact hend.ends ⟨by decide +kernel, by decide +kernel, by decide +kernel⟩

/-- If the second block is elsewhere, no block is passed on the second time. -/
theorem acrossInode_empty : ∃ u ∈ (f2fsMapBlocks (acrossInode 100 300 (by decide) (by decide))
      (fun _ => noFailure) .precache true (onlyLargest ⟨0, 0, 0⟩) lastTwo).1.updates,
    u = (923, 101, 0) ∧ ¬Truthful (acrossInode 100 300 (by decide) (by decide)) lastTwo u := by
  have hupdates : (f2fsMapBlocks (acrossInode 100 300 (by decide) (by decide))
      (fun _ => noFailure) .precache true (onlyLargest ⟨0, 0, 0⟩) lastTwo).1.updates =
      [(922, 100, 1), (923, 101, 0)] := by decide +kernel
  refine ⟨(923, 101, 0), by rw [hupdates]; decide, rfl, fun htrue => ?_⟩
  have hpos : 1 ≤ 0 := htrue.pos
  omega

end F2fs.File

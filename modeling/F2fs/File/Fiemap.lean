/-
  `f2fs_fiemap` behind its early exits: the extents it reports of a file without inline data.

  A lookup maps a run of stored blocks or a run of preallocated ones, or finds a hole and the
  block to go on from.  One extent is held back until the next lookup has found a run or the
  end of all files, so that it is known whether it is the last one.  The runs are not cut at
  the end of the request, and neither are the extents.
-/
import F2fs.File.MapBlocks
import F2fs.Lib.Loop

namespace F2fs.File

open F2fs.Node F2fs.Truncate F2fs.Extent
open Loop (Turn)

/-! ## `f2fs_map_blocks` with `F2FS_GET_BLOCK_FIEMAP` -/

/-- The blocks of a run: stored in a row, or preallocated. -/
def RunAt (file : MappedFile) (unwritten : Bool) (b a n : Nat) : Prop :=
  ∀ i, i < n → if unwritten then file.blockAddr (b + i) = newAddr else file.StoredAt (b + i) (a + i)

/-- What a lookup of at least one block is to answer if it does not fail. -/
structure FiemapAgrees (file : MappedFile) (map : MapRequest) (r : MapResult) : Prop where
  run : r.map.mFlags.mapped = true → 1 ≤ r.map.mLen ∧ r.map.mLen ≤ map.mLen ∧
    RunAt file r.map.mFlags.unwritten map.mLblk r.map.mPblk r.map.mLen
  hole : r.map.mFlags.mapped = false → r.map.mLen = 0 ∧
    ∃ s, r.map.mNextPgofs = map.mNextPgofs.map (fun _ => s) ∧ map.mLblk < s ∧
      ∀ b, map.mLblk ≤ b → b < s → file.Hole b

/-- The walk has seen preallocated blocks only. -/
structure WalkedNew (file : MappedFile) (map : MapRequest) (n : Nat) (st : MapWalk) : Prop where
  pgofs : st.pgofs = map.mLblk + st.map.mLen
  left : st.map.mLen + n = map.mLen
  pos : 0 < st.map.mLen
  flags : st.map.mFlags.mapped = true ∧ st.map.mFlags.unwritten = true
  pblk : st.map.mPblk = newAddr
  blocks : ∀ i, i < st.map.mLen → file.blockAddr (map.mLblk + i) = newAddr
  next : st.map.mNextPgofs = map.mNextPgofs

/-- The two kinds of runs. -/
def WalkedRun (file : MappedFile) (map : MapRequest) (n : Nat) (st : MapWalk) : Prop :=
  (Walked file map n st ∧ st.map.mFlags.unwritten = false) ∨ WalkedNew file map n st

section

variable {file : MappedFile} {read : Nat → NodeReads} {map : MapRequest} {n : Nat}
  {st st' : MapWalk} {page : DataPage} {a : Nat}

theorem syncOut_fiemap (st : MapWalk) : syncOut .fiemap st = ⟨st.map, none, st.updates⟩ := by
  have hrange : precacheRange .fiemap st = st := if_neg fun h => by cases h.1
  simp only [syncOut, hrange]
  rfl

theorem leaveDnode_fiemap (st : MapWalk) : leaveDnode .fiemap st = st := by
  have hrange : precacheRange .fiemap st = st := if_neg fun h => by cases h.1
  unfold leaveDnode
  rw [hrange, ite_self]

theorem mapBlock_fiemap_null (st : MapWalk) : mapBlock .fiemap st nullAddr =
    ({ st with map := st.map.setNextPgofs (st.pgofs + 1) }, false) := by
  simp [mapBlock]

/-- What the walk makes of a preallocated block. -/
theorem mapBlock_fiemap_new (st : MapWalk) :
    (st.map.mLen = 0 ∧ mapBlock .fiemap st newAddr = ({ st with map := { st.map with
        mFlags := { st.map.mFlags with mapped := true, unwritten := true }
        mPblk := newAddr, mLen := 1 } }, true)) ∨
    (0 < st.map.mLen ∧ (st.map.mPblk = newAddr ∨ newAddr = u32 (st.map.mPblk + st.ofs)) ∧
      mapBlock .fiemap st newAddr =
        ({ st with map := { st.map with mLen := st.map.mLen + 1 }, ofs := st.ofs + 1 }, true)) ∨
    (0 < st.map.mLen ∧ st.map.mPblk ≠ newAddr ∧ mapBlock .fiemap st newAddr = (st, false)) := by
  have hnull : newAddr ≠ nullAddr := by decide
  rcases Nat.eq_zero_or_pos st.map.mLen with h0 | hpos
  · refine Or.inl ⟨h0, ?_⟩
    simp [mapBlock, hnull, h0]
  · have h0 : st.map.mLen ≠ 0 := Nat.pos_iff_ne_zero.mp hpos
    by_cases hpblk : st.map.mPblk = newAddr
    · exact Or.inr (Or.inl ⟨hpos, Or.inl hpblk, by simp [mapBlock, hnull, h0, hpblk]⟩)
    · by_cases hrun : newAddr = u32 (st.map.mPblk + st.ofs)
      · exact Or.inr (Or.inl ⟨hpos, Or.inr hrun, by simp [mapBlock, hnull, h0, hpblk, ← hrun]⟩)
      · exact Or.inr (Or.inr ⟨hpos, hpblk, by simp [mapBlock, hnull, h0, hpblk, hrun]⟩)

theorem WalkedRun.pgofs (h : WalkedRun file map n st) : st.pgofs = map.mLblk + st.map.mLen :=
  h.elim (fun hs => hs.1.pgofs) WalkedNew.pgofs

theorem WalkedRun.left (h : WalkedRun file map n st) : st.map.mLen + n = map.mLen :=
  h.elim (fun hs => hs.1.left) WalkedNew.left

theorem WalkedRun.next (h : WalkedRun file map n st) : st.map.mNextPgofs = map.mNextPgofs :=
  h.elim (fun hs => hs.1.next) WalkedNew.next

/-- The answer if the walk ends behind at least one block. -/
theorem WalkedRun.agrees {r : MapResult} (h : WalkedRun file map n st) (hpos : 0 < st.map.mLen)
    (hlen : r.map.mLen = st.map.mLen) (hpblk : r.map.mPblk = st.map.mPblk)
    (hflags : r.map.mFlags = st.map.mFlags) : FiemapAgrees file map r := by
  have hleft := h.left
  have hmapped : r.map.mFlags.mapped = true := by
    rw [hflags]
    rcases h with ⟨hs, -⟩ | hn
    · rw [hs.flags, decide_eq_true hpos]
    · exact hn.flags.1
  refine ⟨fun _ => ⟨by omega, by omega, fun i hi => ?_⟩, fun hc => ?_⟩
  · rw [hlen] at hi
    rw [hflags, hpblk]
    rcases h with ⟨hs, hunwritten⟩ | hn
    · rw [hunwritten]
      exact hs.stored i hi
    · rw [hn.flags.2]
      exact hn.blocks i hi
  · rw [hmapped] at hc
    cases hc

/-- A block that the walk takes in. -/
theorem WalkedRun.extend (h : WalkedRun file map (n + 1) st) (ha : file.blockAddr st.pgofs = a)
    (hlast : ∀ b, file.blockAddr b ≠ newAddr - 1)
    (hblock : mapBlock .fiemap st a = (st', true)) : WalkedRun file map n (skipBlock st') := by
  have hpgofs := h.pgofs
  have hleft := h.left
  by_cases hnull : a = nullAddr
  · rw [hnull, mapBlock_fiemap_null] at hblock
    cases hblock
  by_cases hnew : a = newAddr
  · subst hnew
    refine Or.inr ?_
    rcases mapBlock_fiemap_new st with ⟨h0, heq⟩ | ⟨hpos, hrun, heq⟩ | ⟨-, -, heq⟩
    · rw [heq] at hblock
      cases hblock
      rw [h0, Nat.add_zero] at hpgofs
      refine ⟨congrArg (· + 1) hpgofs, ?_, Nat.one_pos, ⟨rfl, rfl⟩, rfl, fun i hi => ?_, h.next⟩
      · show 1 + n = map.mLen
        omega
      · obtain rfl : i = 0 := Nat.lt_one_iff.mp hi
        rw [Nat.add_zero, ← hpgofs]
        exact ha
    · rw [heq] at hblock
      cases hblock
      rcases h with ⟨hs, -⟩ | hn
      · -- no stored run reaches the reserved address
        exfalso
        obtain ⟨hfirst, hnowrap⟩ := hs.run_lt hpos
        have hreach := (hrun.resolve_left hfirst).trans hnowrap
        have haddr := (hs.stored (st.map.mLen - 1) (by omega)).1
        refine hlast (map.mLblk + (st.map.mLen - 1)) (haddr.trans ?_)
        omega
      · refine ⟨?_, ?_, Nat.succ_pos _, hn.flags, hn.pblk, fun i hi => ?_, hn.next⟩
        · show st.pgofs + 1 = map.mLblk + (st.map.mLen + 1)
          omega
        · show st.map.mLen + 1 + n = map.mLen
          omega
        · rcases Nat.lt_succ_iff_lt_or_eq.mp hi with hlt | rfl
          · exact hn.blocks i hlt
          · rw [← hpgofs]
            exact ha
    · rw [heq] at hblock
      cases hblock
  · rcases h with ⟨hs, hunwritten⟩ | hn
    · refine Or.inl ⟨hs.extend ha hnew hnull hblock, ?_⟩
      rcases mapBlock_stored .fiemap st hnew hnull with ⟨-, heq⟩ | ⟨-, -, -, heq⟩ | ⟨-, -, heq⟩
      · rw [heq] at hblock
        cases hblock
        exact hunwritten
      · rw [heq] at hblock
        cases hblock
        exact hunwritten
      · rw [heq] at hblock
        cases hblock
    · rcases mapBlock_stored .fiemap st hnew hnull with ⟨h0, -⟩ | ⟨-, -, hfirst, -⟩ | ⟨-, -, heq⟩
      · exact absurd h0 (Nat.pos_iff_ne_zero.mp hn.pos)
      · exact absurd hn.pblk hfirst
      · rw [heq] at hblock
        cases hblock

/-- The walk stops at a block that it does not take in. -/
theorem WalkedRun.stop (h : WalkedRun file map (n + 1) st) (ha : file.blockAddr st.pgofs = a)
    (hblock : mapBlock .fiemap st a = (st', false)) :
    FiemapAgrees file map (syncOut .fiemap st') := by
  have hpgofs := h.pgofs
  rw [syncOut_fiemap]
  by_cases hnull : a = nullAddr
  · subst hnull
    rw [mapBlock_fiemap_null] at hblock
    cases hblock
    rcases Nat.eq_zero_or_pos st.map.mLen with h0 | hpos
    · have hs : Walked file map (n + 1) st := h.elim And.left fun hn => absurd h0
        (Nat.pos_iff_ne_zero.mp hn.pos)
      refine ⟨fun hc => ?_, fun _ => ⟨h0, st.pgofs + 1,
        congrArg (Option.map fun _ => st.pgofs + 1) h.next, by omega, fun b hb hlt => ?_⟩⟩
      · have hflags : st.map.mFlags.mapped = true := hc
        rw [hs.flags, h0] at hflags
        cases hflags
      · obtain rfl : b = st.pgofs := by omega
        exact ha
    · exact h.agrees hpos rfl rfl rfl
  · have hkeep : 0 < st.map.mLen ∧ st' = st := by
      by_cases hnew : a = newAddr
      · subst hnew
        rcases mapBlock_fiemap_new st with ⟨-, heq⟩ | ⟨-, -, heq⟩ | ⟨hpos, -, heq⟩
        all_goals
          rw [heq] at hblock
          cases hblock
        exact ⟨hpos, rfl⟩
      · rcases mapBlock_stored .fiemap st hnew hnull with ⟨-, heq⟩ | ⟨-, -, -, heq⟩ | ⟨hpos, -, heq⟩
        all_goals
          rw [heq] at hblock
          cases hblock
        exact ⟨hpos, rfl⟩
    obtain ⟨hpos, rfl⟩ := hkeep
    exact h.agrees hpos rfl rfl rfl

/-- The walk comes to a direct node that is missing. -/
theorem WalkedRun.missing {dn : LookupError} (h : WalkedRun file map (n + 1) st)
    (hlt : st.pgofs < 2 ^ 63)
    (hget : getDnodeOfData file (read st.pgofs) st.pgofs = .error dn)
    (hok : (lookupFailed file .fiemap st dn).err = none) :
    FiemapAgrees file map (lookupFailed file .fiemap st dn) := by
  have hpgofs := h.pgofs
  have hmap : (if (GetBlock.fiemap = .bmap) then { st.map with mPblk := 0 } else st.map) =
      st.map := if_neg fun hc => by cases hc
  rw [lookupFailed] at hok ⊢
  simp only [hmap] at hok ⊢
  by_cases he : dn.err = .enoent
  swap
  · rw [if_neg he] at hok
    cases hok
  rw [if_pos he]
  rcases Nat.eq_zero_or_pos st.map.mLen with h0 | hpos
  · have hs : Walked file map (n + 1) st := h.elim And.left fun hn => absurd h0
      (Nat.pos_iff_ne_zero.mp hn.pos)
    rw [h0, Nat.add_zero] at hpgofs
    refine ⟨fun hc => ?_, fun _ => ⟨h0, _, congrArg (Option.map fun _ => _) h.next, ?_,
      fun b hb hlt' => ?_⟩⟩
    · have hflags : st.map.mFlags.mapped = true := hc
      rw [hs.flags, h0] at hflags
      cases hflags
    · rw [← hpgofs]
      exact lt_getNextPageOffset hget he hlt
    · exact hole_before_next hget he hlt (hpgofs ▸ hb) hlt'
  · exact h.agrees hpos rfl rfl rfl

theorem WalkedRun.congr (h : WalkedRun file map n st) (hmap : st'.map = st.map)
    (hpgofs : st'.pgofs = st.pgofs) (hofs : st'.ofs = st.ofs) : WalkedRun file map n st' := by
  rcases h with ⟨hs, hunwritten⟩ | ⟨hp, hleft, hpos, hflags, hpblk, hblocks, hnext⟩
  · exact Or.inl ⟨hs.congr hmap hpgofs hofs, hmap ▸ hunwritten⟩
  · rw [← hmap] at hp hleft hpos hflags hpblk hblocks hnext
    exact Or.inr ⟨hpgofs.trans hp, hleft, hpos, hflags, hpblk, hblocks, hnext⟩

/-- The walk, from any of its blocks on. -/
theorem mapRest_fiemap (hlblk : map.mLblk < 2 ^ 32) (hlen : map.mLen < 2 ^ 32)
    (hlast : ∀ b, file.blockAddr b ≠ newAddr - 1) (hmap : 0 < map.mLen) :
    ∀ n st, WalkedRun file map n st →
      (∀ page, st.page = some page → InPage file st page) →
      (mapRest file read .fiemap n st).err = none →
      FiemapAgrees file map (mapRest file read .fiemap n st) := by
  intro n
  induction n with
  | zero =>
    intro st h _ _
    have hleft := h.left
    rw [mapRest, syncOut_fiemap]
    exact h.agrees (by omega) rfl rfl rfl
  | succ n ih =>
    intro st h hpage hok
    have hpgofs := h.pgofs
    have hleft := h.left
    have hlt : st.pgofs < 2 ^ 63 := by omega
    rw [mapRest] at hok ⊢
    cases hnext : nextDnode file read .fiemap st with
    | mk st₁ res =>
      cases res with
      | error dn =>
        rw [hnext] at hok
        obtain ⟨rfl, hget⟩ := nextDnode_error hnext
        rw [leaveDnode_fiemap] at hok ⊢
        exact h.missing hlt hget hok
      | ok page =>
        rw [hnext] at hok
        obtain ⟨hmap', hpgofs', hofs, hsome, haddr, hin⟩ := nextDnode_ok hlt hpage hnext
        have h₁ := h.congr hmap' hpgofs' hofs
        cases hblock : mapBlock .fiemap st₁
            (dataAddr file.layout file.index page st₁.ofsInNode) with
        | mk st₂ goOn =>
          cases goOn with
          | false =>
            simp only [hblock]
            exact h₁.stop haddr hblock
          | true =>
            simp only [hblock] at hok ⊢
            have hnull : file.blockAddr st₁.pgofs ≠ nullAddr := fun hc => by
              rw [← haddr, hc, mapBlock_fiemap_null] at hblock
              cases hblock
            refine ih (skipBlock st₂) (h₁.extend haddr hlast hblock) (fun page' hpage' => ?_) hok
            rw [(skipBlock_mapBlock hblock).1, hsome] at hpage'
            cases hpage'
            exact inPage_next hblock (hin (inlineData_of_address rfl hnull))

/-- A lookup of `fiemap`. -/
theorem f2fsMapBlocks_fiemap {mayExtentTree : Bool} {w : LockedTree} {r : MapResult}
    (hcache : SoundCache file w) (hlblk : map.mLblk < 2 ^ 32) (hlen : map.mLen < 2 ^ 32)
    (hlast : ∀ b, file.blockAddr b ≠ newAddr - 1) (hpos : 0 < map.mLen)
    (hr : r = (f2fsMapBlocks file read .fiemap mayExtentTree w map).1) (hok : r.err = none) :
    FiemapAgrees file map r := by
  rcases f2fsMapBlocks_cases hcache hpos hr with ⟨ei, hsound, hlo, hhi, hext⟩ | hdnodes
  · obtain ⟨hmapped, hone, hle, hstored⟩ := mapExtent_spec hsound hlo hhi hpos hext
    refine ⟨fun _ => ⟨hone, hle, fun i hi => ?_⟩, fun hc => ?_⟩
    · have hunwritten : r.map.mFlags.unwritten = false := by rw [hext]; rfl
      rw [hunwritten]
      exact hstored i hi
    · rw [hmapped] at hc
      cases hc
  · rw [hdnodes] at hok ⊢
    refine mapRest_fiemap hlblk hlen hlast hpos map.mLen _ (Or.inl ⟨⟨rfl, rfl, Nat.zero_add _, rfl,
      rfl, ?_, rfl⟩, rfl⟩) ?_ hok
    · exact fun i hi => absurd hi (Nat.not_lt_zero i)
    · exact fun page hpage => by cases hpage

end

/-! ## `f2fs_fiemap` -/

/-- `logical_to_blk`. -/
def logicalToBlk (offset : Nat) : Nat := offset / pageSize

/-- `blk_to_logical`. -/
def blkToLogical (blk : Nat) : Nat := blk * pageSize

/-- The flags of an extent that are set here. -/
structure ExtentFlags where
  last : Bool := false
  unwritten : Bool := false
  encrypted : Bool := false
  deriving DecidableEq

/-- `struct fiemap_extent`, in bytes. -/
structure FiemapExtent where
  logical : Nat
  phys : Nat
  size : Nat
  flags : ExtentFlags
  deriving DecidableEq

/-- What the rounds of a call meet: which node reads fail, the extent cache, and whether a
    fatal signal is pending, by the number of the round; `f2fs_encrypted_inode`; and
    `fiemap_fill_next_extent`, with the extents that were reported before. -/
structure FiemapEnv where
  read : Nat → Nat → NodeReads
  mayExtentTree : Bool
  cache : Nat → LockedTree
  signal : Nat → Bool
  encrypted : Bool
  fill : List FiemapExtent → FiemapExtent → Int × List FiemapExtent

/-- The variables of the loop, with the number of the round and what was reported. -/
structure FiemapState where
  turn : Nat
  startBlk : Nat
  nextPgofs : Nat
  logical : Nat
  phys : Nat
  size : Nat
  flags : ExtentFlags
  extents : List FiemapExtent

/-- The return value: `ret`, or the error of a lookup. -/
inductive FiemapRet where
  | value (ret : Int)
  | lookup (e : Errno)
  | eintr
  deriving DecidableEq

structure FiemapOut where
  ret : FiemapRet
  extents : List FiemapExtent
  deriving DecidableEq

section

variable (file : MappedFile) (env : FiemapEnv)

/-- `get_data_block` with `F2FS_GET_BLOCK_FIEMAP`. -/
def getDataBlock (len : Nat) (st : FiemapState) : MapResult :=
  (f2fsMapBlocks file (env.read st.turn) .fiemap env.mayExtentTree (env.cache st.turn)
    ⟨0, u32 st.startBlk, u32 (logicalToBlk len), {}, some st.nextPgofs, none⟩).1

/-- The call of `fiemap_fill_next_extent` for the extent that is held back. -/
def fillHeld (st : FiemapState) : Int × List FiemapExtent :=
  if st.size = 0 then (0, st.extents)
  else
    let flags := if env.encrypted then { st.flags with encrypted := true } else st.flags
    env.fill st.extents ⟨st.logical, st.phys, st.size, flags⟩

/-- `prep_next`. -/
def prepNext (st : FiemapState) : Turn FiemapState FiemapOut :=
  if env.signal st.turn then .done ⟨.eintr, st.extents⟩ else .next { st with turn := st.turn + 1 }

/-- From the report of the held extent on. -/
def fiemapReport (lastBlk : Nat) (map : MapRequest) (st : FiemapState) :
    Turn FiemapState FiemapOut :=
  let (ret, extents) := fillHeld env st
  if st.startBlk > lastBlk ∨ ret ≠ 0 then .done ⟨.value (if ret = 1 then 0 else ret), extents⟩
  else
    let size := blkToLogical map.mLen
    prepNext env
      { st with
        logical := blkToLogical st.startBlk
        phys := blkToLogical map.mPblk
        size := size
        flags := { unwritten := map.mFlags.unwritten }
        startBlk := st.startBlk + logicalToBlk size
        extents := extents }

/-- One round, from `next:` on. -/
def fiemapRound (len lastBlk : Nat) (st : FiemapState) : Turn FiemapState FiemapOut :=
  let r := getDataBlock file env len st
  match r.err with
  | some e => .done ⟨.lookup e, st.extents⟩
  | none =>
    let st := { st with nextPgofs := r.map.mNextPgofs.getD st.nextPgofs }
    if r.map.mFlags.mapped then fiemapReport env lastBlk r.map st
    else
      -- HOLE
      let st := { st with startBlk := st.nextPgofs }
      if blkToLogical st.startBlk < blkToLogical maxFileBlocks then prepNext env st
      else fiemapReport env lastBlk r.map { st with flags := { st.flags with last := true } }

/-- A request is for one block at least. -/
def fiemapLen (len : Nat) : Nat := if logicalToBlk len = 0 then blkToLogical 1 else len

/-- `f2fs_fiemap`, without the ways out before `inode_lock` and for attributes and inline data.
    `next_pgofs` is set before it is used. -/
def f2fsFiemap (start len fuel : Nat) : Option FiemapOut :=
  let len := fiemapLen len
  Loop.run (fiemapRound file env len (logicalToBlk ((start + len - 1) % 2 ^ 64))) fuel
    ⟨0, logicalToBlk start, 0, 0, 0, 0, {}, []⟩

end

/-! ## What is reported -/

/-- Block `b` lies in the extent. -/
def FiemapExtent.Holds (e : FiemapExtent) (b : Nat) : Prop :=
  e.logical ≤ blkToLogical b ∧ blkToLogical b < e.logical + e.size

/-- The blocks of an extent are preallocated, or stored where it says. -/
def FiemapExtent.Correct (file : MappedFile) (e : FiemapExtent) : Prop :=
  ∀ b, e.Holds b → if e.flags.unwritten then file.blockAddr b = newAddr
    else file.StoredAt b (logicalToBlk (e.phys + (blkToLogical b - e.logical)))

/-- The extents are those of the blocks from `first` to `s`. -/
structure Reports (file : MappedFile) (first s : Nat) (l : List FiemapExtent) : Prop where
  aligned : ∀ e ∈ l, pageSize ∣ e.logical ∧ pageSize ∣ e.size ∧ 0 < e.size
  increasing : l.Pairwise fun e e' => e.logical + e.size ≤ e'.logical
  within : ∀ e ∈ l, blkToLogical first ≤ e.logical ∧ e.logical + e.size ≤ blkToLogical s
  correct : ∀ e ∈ l, e.Correct file
  covers : ∀ b, first ≤ b → b < s → ¬file.Hole b → ∃ e ∈ l, e.Holds b

section

variable {file : MappedFile} {first s s' n a : Nat} {l : List FiemapExtent} {e : FiemapExtent}

theorem Reports.skip (h : Reports file first s l) (hle : s ≤ s')
    (hhole : ∀ b, s ≤ b → b < s' → file.Hole b) : Reports file first s' l where
  aligned := h.aligned
  increasing := h.increasing
  within := fun e he => by
    obtain ⟨hlo, hhi⟩ := h.within e he
    exact ⟨hlo, hhi.trans (Nat.mul_le_mul_right _ hle)⟩
  correct := h.correct
  covers := fun b hb hlt hmapped => by
    rcases Nat.lt_or_ge b s with hbs | hsb
    · exact h.covers b hb hbs hmapped
    · exact absurd (hhole b hsb hlt) hmapped

/-- The extent of a run. -/
theorem Reports.push {flags : ExtentFlags} (h : Reports file first s l) (hfirst : first ≤ s)
    (hn : 0 < n) (hrun : RunAt file flags.unwritten s a n) :
    Reports file first (s + n)
      (l ++ [⟨blkToLogical s, blkToLogical a, blkToLogical n, flags⟩]) := by
  have hholds : ∀ b, FiemapExtent.Holds ⟨blkToLogical s, blkToLogical a, blkToLogical n, flags⟩ b ↔
      s ≤ b ∧ b < s + n := by
    intro b
    unfold FiemapExtent.Holds blkToLogical pageSize
    simp only
    omega
  have hall : ∀ {P : FiemapExtent → Prop}, (∀ e ∈ l, P e) →
      P ⟨blkToLogical s, blkToLogical a, blkToLogical n, flags⟩ →
      ∀ e ∈ l ++ [⟨blkToLogical s, blkToLogical a, blkToLogical n, flags⟩], P e := by
    intro P hl hlast e he
    rcases List.mem_append.mp he with he | he
    · exact hl e he
    · rw [List.mem_singleton.mp he]
      exact hlast
  refine ⟨hall h.aligned ?_, ?_, hall (fun e he => ?_) ?_, hall h.correct fun b hb => ?_,
    fun b hb hlt hmapped => ?_⟩
  · refine ⟨Dvd.intro_left s rfl, Dvd.intro_left n rfl, ?_⟩
    unfold blkToLogical pageSize
    simp only
    omega
  · refine List.pairwise_append.mpr
      ⟨h.increasing, List.pairwise_singleton _ _, fun e he e' he' => ?_⟩
    rw [List.mem_singleton.mp he']
    exact (h.within e he).2
  · obtain ⟨hlo, hhi⟩ := h.within e he
    refine ⟨hlo, hhi.trans (Nat.mul_le_mul_right _ (Nat.le_add_right s n))⟩
  · unfold blkToLogical pageSize
    simp only
    omega
  · obtain ⟨hlo, hhi⟩ := (hholds b).mp hb
    obtain ⟨i, rfl⟩ := Nat.exists_eq_add_of_le hlo
    have hblk : logicalToBlk (blkToLogical a + (blkToLogical (s + i) - blkToLogical s)) =
        a + i := by
      unfold logicalToBlk blkToLogical pageSize
      omega
    simp only [hblk]
    exact hrun i (by omega)
  · rcases Nat.lt_or_ge b s with hbs | hsb
    · obtain ⟨e, he, hin⟩ := h.covers b hb hbs hmapped
      exact ⟨e, List.mem_append_left _ he, hin⟩
    · exact ⟨_, List.mem_append_right _ (List.mem_singleton.mpr rfl), (hholds b).mpr ⟨hsb, hlt⟩⟩

/-- The other flags of the last extent do not matter. -/
theorem Reports.reflag {flags : ExtentFlags} (h : Reports file first s (l ++ [e]))
    (hflags : flags.unwritten = e.flags.unwritten) :
    Reports file first s (l ++ [{ e with flags := flags }]) := by
  have hmem : ∀ {P : FiemapExtent → Prop}, (∀ e' ∈ l ++ [e], P e') →
      (P e → P { e with flags := flags }) → ∀ e' ∈ l ++ [{ e with flags := flags }], P e' := by
    intro P hall hlast e' he'
    rcases List.mem_append.mp he' with he' | he'
    · exact hall e' (List.mem_append_left _ he')
    · rw [List.mem_singleton.mp he']
      exact hlast (hall e (List.mem_append_right _ (List.mem_singleton.mpr rfl)))
  refine ⟨hmem h.aligned id, ?_, hmem h.within id, hmem h.correct fun htold b hb => ?_,
    fun b hb hlt hmapped => ?_⟩
  · obtain ⟨hl, -, hbefore⟩ := List.pairwise_append.mp h.increasing
    refine List.pairwise_append.mpr ⟨hl, List.pairwise_singleton _ _, fun e₁ he₁ e₂ he₂ => ?_⟩
    rw [List.mem_singleton.mp he₂]
    exact hbefore e₁ he₁ e (List.mem_singleton.mpr rfl)
  · simp only [hflags]
    exact htold b hb
  · obtain ⟨e', he', hin⟩ := h.covers b hb hlt hmapped
    rcases List.mem_append.mp he' with he' | he'
    · exact ⟨e', List.mem_append_left _ he', hin⟩
    · rw [List.mem_singleton.mp he'] at hin
      exact ⟨_, List.mem_append_right _ (List.mem_singleton.mpr rfl), hin⟩

end

/-! ## The rounds -/

/-- The extent that is held back. -/
def FiemapState.held (st : FiemapState) : List FiemapExtent :=
  if st.size = 0 then [] else [⟨st.logical, st.phys, st.size, st.flags⟩]

/-- What a round keeps. -/
structure FiemapInv (file : MappedFile) (first lastBlk : Nat) (st : FiemapState) : Prop where
  first_le : first ≤ st.startBlk
  startBlk_le : st.startBlk ≤ 2 * maxFileBlocks
  reports : Reports file first st.startBlk (st.extents ++ st.held)
  begins : ∀ e ∈ st.extents ++ st.held, e.logical ≤ blkToLogical lastBlk
  notLast : ∀ e ∈ st.extents ++ st.held, e.flags.last = false
  flags : st.flags.last = false

/-- The extents of the blocks from `first` to `last`.  The last one may go on behind them. -/
structure FiemapReport (file : MappedFile) (first last : Nat) (l : List FiemapExtent) : Prop where
  aligned : ∀ e ∈ l, pageSize ∣ e.logical ∧ pageSize ∣ e.size ∧ 0 < e.size
  increasing : l.Pairwise fun e e' => e.logical + e.size ≤ e'.logical
  begins : ∀ e ∈ l, blkToLogical first ≤ e.logical ∧ e.logical ≤ blkToLogical last
  correct : ∀ e ∈ l, e.Correct file
  covers : ∀ b, first ≤ b → b ≤ last → ¬file.Hole b → ∃ e ∈ l, e.Holds b
  last : ∀ e ∈ l, e.flags.last = true →
    ∀ b, e.logical + e.size ≤ blkToLogical b → b < maxFileBlocks → file.Hole b

/-- There is room for every extent: `fiemap_fill_next_extent` takes it, and returns 1 for the
    last one only. -/
def FiemapEnv.HasRoom (env : FiemapEnv) : Prop :=
  ∀ l e, env.fill l e = (if e.flags.last then 1 else 0, l ++ [e])

section

variable {file : MappedFile} {env : FiemapEnv} {first lastBlk len : Nat} {st st' : FiemapState}
  {r : MapResult} {map : MapRequest}

theorem FiemapReport.of_reports {l : List FiemapExtent} {s : Nat} (h : Reports file first s l)
    (hbegins : ∀ e ∈ l, e.logical ≤ blkToLogical lastBlk) (hs : lastBlk < s)
    (hlast : ∀ e ∈ l, e.flags.last = true → maxFileBlocks ≤ s ∧
      ∀ e' ∈ l, e'.logical + e'.size ≤ e.logical + e.size) :
    FiemapReport file first lastBlk l where
  aligned := h.aligned
  increasing := h.increasing
  begins := fun e he => ⟨(h.within e he).1, hbegins e he⟩
  correct := h.correct
  covers := fun b hb hle => h.covers b hb (by omega)
  last := fun e he hflag b hend hlt => by
    obtain ⟨hs', hmax⟩ := hlast e he hflag
    by_contra hmapped
    have hfirst : first ≤ b := by
      obtain ⟨hlo, -⟩ := h.within e he
      unfold blkToLogical pageSize at hlo hend
      omega
    obtain ⟨e', he', hin⟩ := h.covers b hfirst (by omega) hmapped
    have hle := hmax e' he'
    have hlt' := hin.2
    omega

/-- The report of the held extent. -/
theorem fillHeld_eq (st' : FiemapState) (hroom : env.HasRoom)
    (hinv : FiemapInv file first lastBlk st)
    (hflags : st'.flags.unwritten = st.flags.unwritten) (hext : st'.extents = st.extents)
    (hlogical : st'.logical = st.logical) (hphys : st'.phys = st.phys)
    (hsize : st'.size = st.size) :
    ∃ l, fillHeld env st' =
        (if st.size ≠ 0 ∧ st'.flags.last = true then 1 else 0, st.extents ++ l) ∧
      Reports file first st.startBlk (st.extents ++ l) ∧
      (∀ e ∈ st.extents ++ l, e.logical ≤ blkToLogical lastBlk) ∧
      (∀ e ∈ st.extents ++ l, e.flags.last = true → st'.flags.last = true ∧ l = [e]) := by
  have hreports := hinv.reports
  have hbegins := hinv.begins
  have hnot := hinv.notLast
  unfold FiemapState.held at hreports hbegins hnot
  unfold fillHeld
  rw [hsize, hext, hlogical, hphys]
  by_cases h0 : st.size = 0
  · rw [if_pos h0, List.append_nil] at hreports hbegins hnot
    refine ⟨[], ?_, by rwa [List.append_nil], by rwa [List.append_nil], fun e he hlast => ?_⟩
    · rw [if_pos h0, if_neg fun hc => hc.1 h0, List.append_nil]
    · rw [List.append_nil] at he
      rw [hnot e he] at hlast
      cases hlast
  · rw [if_neg h0] at hreports hbegins hnot
    set flags := if env.encrypted then { st'.flags with encrypted := true } else st'.flags with hf
    have hunwritten : flags.unwritten = st.flags.unwritten := by
      rw [hf, ← hflags]
      split <;> rfl
    have hlast : flags.last = st'.flags.last := by
      rw [hf]
      split <;> rfl
    refine ⟨[⟨st.logical, st.phys, st.size, flags⟩], ?_, hreports.reflag hunwritten,
      fun e he => ?_, fun e he hlast' => ?_⟩
    · rw [if_neg h0, hroom, hlast]
      simp only [h0, ne_eq, not_false_eq_true, true_and]
    · rcases List.mem_append.mp he with he | he
      · exact hbegins e (List.mem_append_left _ he)
      · rw [List.mem_singleton.mp he]
        exact hbegins ⟨st.logical, st.phys, st.size, st.flags⟩
          (List.mem_append_right _ (List.mem_singleton.mpr rfl))
    · rcases List.mem_append.mp he with he | he
      · rw [hnot e (List.mem_append_left _ he)] at hlast'
        cases hlast'
      · obtain rfl := List.mem_singleton.mp he
        exact ⟨hlast.symm.trans hlast', rfl⟩

/-- What a call may ask for: `fiemap` cuts requests off at `s_maxbytes`.  A request for less than
    a block may be for two. -/
structure FiemapRange (first lastBlk len : Nat) : Prop where
  len_pos : 0 < logicalToBlk len
  len_le : logicalToBlk len ≤ maxFileBlocks
  last_le : lastBlk ≤ maxFileBlocks
  last_lt : lastBlk < maxFileBlocks ∨ lastBlk ≤ first + 1

/-- What a round is to lead to. -/
def FiemapTurn (file : MappedFile) (first lastBlk : Nat) (turn : Turn FiemapState FiemapOut) :
    Prop :=
  (∃ st', turn = .next st' ∧ FiemapInv file first lastBlk st') ∨
  ∃ out, turn = .done out ∧ (out.ret = .value 0 → FiemapReport file first lastBlk out.extents)

/-- `prep_next` goes on or returns `-EINTR`. -/
theorem prepNext_turn (hinv : FiemapInv file first lastBlk st) :
    FiemapTurn file first lastBlk (prepNext env st) := by
  unfold prepNext
  by_cases hsignal : env.signal st.turn = true
  · rw [if_pos hsignal]
    exact Or.inr ⟨_, rfl, fun hc => by cases hc⟩
  · rw [if_neg hsignal]
    exact Or.inl ⟨_, rfl, hinv.first_le, hinv.startBlk_le, hinv.reports, hinv.begins,
      hinv.notLast, hinv.flags⟩

/-- A lookup that finds a run. -/
theorem fiemapReport_run (hroom : env.HasRoom) (hrange : FiemapRange first lastBlk len)
    (hinv : FiemapInv file first lastBlk st) (hpos : 1 ≤ map.mLen)
    (hle : map.mLen ≤ logicalToBlk len)
    (hrun : RunAt file map.mFlags.unwritten st.startBlk map.mPblk map.mLen) (nextPgofs : Nat) :
    FiemapTurn file first lastBlk
      (fiemapReport env lastBlk map { st with nextPgofs := nextPgofs }) := by
  obtain ⟨l, hfill, hreports, hbegins, hflags⟩ := fillHeld_eq
    { st with nextPgofs := nextPgofs } hroom hinv rfl rfl rfl rfl rfl
  have hnot : ∀ e ∈ st.extents ++ l, e.flags.last = false := by
    intro e he
    by_contra hc
    have hlast := (hflags e he (Bool.eq_true_of_not_eq_false hc)).1
    rw [show FiemapState.flags _ = st.flags from rfl, hinv.flags] at hlast
    cases hlast
  have hret : ¬(st.size ≠ 0 ∧ st.flags.last = true) := by
    rw [hinv.flags]
    exact fun hc => Bool.false_ne_true hc.2
  rw [show FiemapState.flags _ = st.flags from rfl, if_neg hret] at hfill
  unfold fiemapReport
  simp only [hfill, ne_eq, not_true_eq_false, or_false]
  by_cases hend : st.startBlk > lastBlk
  · rw [if_pos hend]
    refine Or.inr ⟨_, rfl, fun _ => .of_reports hreports hbegins hend fun e he hc => ?_⟩
    rw [hnot e he] at hc
    cases hc
  · rw [if_neg hend]
    have hlast := hrange.last_le
    have hlen := hrange.len_le
    have hblocks : logicalToBlk (blkToLogical map.mLen) = map.mLen :=
      Nat.mul_div_cancel _ (by decide)
    have hsize : blkToLogical map.mLen ≠ 0 := by
      unfold blkToLogical pageSize
      omega
    rw [hblocks]
    refine prepNext_turn ⟨?_, ?_, ?_, ?_, ?_, rfl⟩
    · have hfirst := hinv.first_le
      show first ≤ st.startBlk + map.mLen
      omega
    · show st.startBlk + map.mLen ≤ 2 * maxFileBlocks
      omega
    · unfold FiemapState.held
      rw [if_neg hsize]
      exact hreports.push hinv.first_le hpos hrun
    · unfold FiemapState.held
      rw [if_neg hsize]
      intro e he
      rcases List.mem_append.mp he with he | he
      · exact hbegins e he
      · rw [List.mem_singleton.mp he]
        exact Nat.mul_le_mul_right _ (Nat.not_lt.mp hend)
    · unfold FiemapState.held
      rw [if_neg hsize]
      intro e he
      rcases List.mem_append.mp he with he | he
      · exact hnot e he
      · rw [List.mem_singleton.mp he]

/-- The extent that is held back ends behind the start. -/
theorem FiemapInv.first_lt (hinv : FiemapInv file first lastBlk st) (hsize : st.size ≠ 0) :
    first < st.startBlk := by
  have hreports := hinv.reports
  unfold FiemapState.held at hreports
  rw [if_neg hsize] at hreports
  obtain ⟨hlo, hhi⟩ := hreports.within ⟨st.logical, st.phys, st.size, st.flags⟩
    (List.mem_append_right _ (List.mem_singleton.mpr rfl))
  unfold blkToLogical pageSize at hlo hhi
  simp only at hlo hhi
  omega

/-- A lookup that finds a hole up to the end of all files. -/
theorem fiemapReport_end (hroom : env.HasRoom) (hrange : FiemapRange first lastBlk len)
    (hinv : FiemapInv file first lastBlk st) (hlen : map.mLen = 0) {next : Nat}
    (hlt : st.startBlk < next) (hhole : ∀ b, st.startBlk ≤ b → b < next → file.Hole b)
    (hmax : maxFileBlocks ≤ next) :
    FiemapTurn file first lastBlk (fiemapReport env lastBlk map
      { st with nextPgofs := next, startBlk := next, flags :=
        { st.flags with last := true } }) := by
  obtain ⟨l, hfill, hreports, hbegins, hflags⟩ := fillHeld_eq
    { st with nextPgofs := next, startBlk := next, flags := { st.flags with last := true } }
    hroom hinv rfl rfl rfl rfl rfl
  have hreports' := hreports.skip (Nat.le_of_lt hlt) hhole
  have hlast := hrange.last_lt
  have hlast' := hrange.last_le
  have hdone : lastBlk < next → FiemapReport file first lastBlk (st.extents ++ l) := by
    refine fun hend => .of_reports hreports' hbegins hend fun e he hc => ⟨hmax, fun e' he' => ?_⟩
    obtain ⟨-, rfl⟩ := hflags e he hc
    rcases List.mem_append.mp he' with he' | he'
    · have hbefore := (List.pairwise_append.mp hreports.increasing).2.2 e' he' e
        (List.mem_singleton.mpr rfl)
      exact hbefore.trans (Nat.le_add_right _ _)
    · rw [List.mem_singleton.mp he']
  simp only [and_true] at hfill
  unfold fiemapReport
  simp only [hfill]
  by_cases hsize : st.size = 0
  · have hnil : st.extents ++ l = st.extents := by
      have hskip : fillHeld env { st with
          nextPgofs := next, startBlk := next, flags := { st.flags with last := true } } =
          (0, st.extents) := if_pos hsize
      exact congrArg Prod.snd (hfill.symm.trans hskip)
    simp only [hsize, not_true_eq_false, if_false, or_false, ne_eq, hnil]
    rw [hnil] at hdone hreports' hbegins
    by_cases hend : next > lastBlk
    · rw [if_pos hend]
      exact Or.inr ⟨_, rfl, fun _ => hdone hend⟩
    · rw [if_neg hend]
      have hblk : blkToLogical map.mLen = 0 := by rw [hlen]; rfl
      have hnone : logicalToBlk 0 = 0 := rfl
      have hfirst := hinv.first_le
      have hext : ∀ e ∈ st.extents, e.flags.last = false :=
        fun e he => hinv.notLast e (List.mem_append_left _ he)
      rw [hblk, hnone, Nat.add_zero]
      refine prepNext_turn ⟨?_, ?_, ?_, ?_, ?_, rfl⟩
      · show first ≤ next
        omega
      · show next ≤ 2 * maxFileBlocks
        omega
      · show Reports file first next (st.extents ++ [])
        rwa [List.append_nil]
      · show ∀ e ∈ st.extents ++ [], _
        rwa [List.append_nil]
      · show ∀ e ∈ st.extents ++ [], _
        rwa [List.append_nil]
  · -- the last extent was reported
    have hbehind := hinv.first_lt hsize
    simp only [hsize, not_false_eq_true, ne_eq, if_true, one_ne_zero, or_true]
    exact Or.inr ⟨_, rfl, fun _ => hdone (by omega)⟩

/-- What a lookup answers in a round. -/
theorem getDataBlock_agrees (hcache : ∀ t, SoundCache file (env.cache t))
    (hlast : ∀ b, file.blockAddr b ≠ newAddr - 1) (hrange : FiemapRange first lastBlk len)
    (hstart : st.startBlk ≤ 2 * maxFileBlocks) (herr : (getDataBlock file env len st).err = none) :
    FiemapAgrees file ⟨0, st.startBlk, logicalToBlk len, {}, some st.nextPgofs, none⟩
      (getDataBlock file env len st) := by
  have hmax : maxFileBlocks = 1057052516 := rfl
  have hlen := hrange.len_le
  have hlblk : u32 st.startBlk = st.startBlk := u32_of_lt (by omega)
  have hmlen : u32 (logicalToBlk len) = logicalToBlk len := u32_of_lt (by omega)
  generalize hr : getDataBlock file env len st = r at herr ⊢
  have hagrees : FiemapAgrees file ⟨0, u32 st.startBlk, u32 (logicalToBlk len), {},
      some st.nextPgofs, none⟩ r :=
        f2fsMapBlocks_fiemap (hcache st.turn) (u32_lt _) (u32_lt _) hlast
    (by rw [hmlen]; exact hrange.len_pos) hr.symm herr
  rw [hlblk, hmlen] at hagrees
  exact hagrees

theorem fiemapReport_next (h : fiemapReport env lastBlk map st = .next st') :
    st.startBlk ≤ lastBlk ∧ st'.startBlk = st.startBlk + map.mLen := by
  have hblocks : logicalToBlk (blkToLogical map.mLen) = map.mLen :=
    Nat.mul_div_cancel _ (by decide)
  unfold fiemapReport prepNext at h
  simp only [hblocks] at h
  split at h
  · cases h
  · rename_i hend
    split at h
    · cases h
    · cases h
      exact ⟨Nat.not_lt.mp (not_or.mp hend).1, rfl⟩

/-- A round that goes on has moved. -/
theorem fiemapRound_moves (hcache : ∀ t, SoundCache file (env.cache t))
    (hlast : ∀ b, file.blockAddr b ≠ newAddr - 1) (hrange : FiemapRange first lastBlk len)
    (hstart : st.startBlk ≤ 2 * maxFileBlocks)
    (h : fiemapRound file env len lastBlk st = .next st') :
    st.startBlk ≤ maxFileBlocks ∧ st.startBlk < st'.startBlk ∧
      st'.startBlk ≤ 2 * maxFileBlocks := by
  have hlen := hrange.len_le
  have hle := hrange.last_le
  have hagrees := getDataBlock_agrees hcache hlast hrange hstart
  unfold fiemapRound at h
  generalize getDataBlock file env len st = r at h hagrees
  simp only at h
  cases herr : r.err with
  | some e =>
      simp only [herr] at h
      cases h
  | none =>
      simp only [herr] at h
      cases hmapped : r.map.mFlags.mapped with
      | true =>
          obtain ⟨hpos, hlen', -⟩ := (hagrees herr).run hmapped
          rw [hmapped, if_pos rfl] at h
          obtain ⟨hend, hnext⟩ := fiemapReport_next h
          have hend' : st.startBlk ≤ lastBlk := hend
          have hnext' : st'.startBlk = st.startBlk + r.map.mLen := hnext
          have hlen' : r.map.mLen ≤ logicalToBlk len := hlen'
          omega
      | false =>
          obtain ⟨h0, s, hs, hlt, -⟩ := (hagrees herr).hole hmapped
          have hs' : r.map.mNextPgofs = some s := hs
          have hlt : st.startBlk < s := hlt
          simp only [hmapped, hs', Option.getD_some, Bool.false_eq_true, if_false] at h
          split at h
          · rename_i hend
            have hsmax : s < maxFileBlocks := Nat.lt_of_mul_lt_mul_right hend
            unfold prepNext at h
            split at h
            · cases h
            · cases h
              exact ⟨by omega, hlt, show s ≤ 2 * maxFileBlocks by omega⟩
          · obtain ⟨hend, hnext⟩ := fiemapReport_next h
            have hend' : s ≤ lastBlk := hend
            have hnext' : st'.startBlk = s + r.map.mLen := hnext
            omega

/-- A round reports the extent that is held back or passes over a hole, and goes on, or the
    request is done. -/
theorem fiemapRound_turn (hcache : ∀ t, SoundCache file (env.cache t))
    (hlast : ∀ b, file.blockAddr b ≠ newAddr - 1) (hroom : env.HasRoom)
    (hrange : FiemapRange first lastBlk len) (hinv : FiemapInv file first lastBlk st) :
    FiemapTurn file first lastBlk (fiemapRound file env len lastBlk st) := by
  have hagrees := getDataBlock_agrees hcache hlast hrange hinv.startBlk_le
  unfold fiemapRound
  generalize getDataBlock file env len st = r at hagrees
  simp only
  cases herr : r.err with
  | some e => exact Or.inr ⟨_, rfl, fun hc => by cases hc⟩
  | none =>
      cases hmapped : r.map.mFlags.mapped with
      | true =>
          obtain ⟨hpos, hle, hrun⟩ := (hagrees herr).run hmapped
          exact fiemapReport_run hroom hrange hinv hpos hle hrun _
      | false =>
          obtain ⟨h0, s, hs, hlt, hhole⟩ := (hagrees herr).hole hmapped
          have hs' : r.map.mNextPgofs = some s := hs
          have hlt : st.startBlk < s := hlt
          have hfirst := hinv.first_le
          simp only [hs', Option.getD_some, Bool.false_eq_true, if_false]
          by_cases hend : blkToLogical s < blkToLogical maxFileBlocks
          · rw [if_pos hend]
            have hsmax : s < maxFileBlocks := Nat.lt_of_mul_lt_mul_right hend
            refine prepNext_turn ⟨?_, ?_, hinv.reports.skip (Nat.le_of_lt hlt) hhole, hinv.begins,
              hinv.notLast, hinv.flags⟩
            · show first ≤ s
              omega
            · show s ≤ 2 * maxFileBlocks
              omega
          · rw [if_neg hend]
            have hsmax : maxFileBlocks ≤ s := by
              by_contra hc
              exact hend (Nat.mul_lt_mul_of_pos_right (Nat.not_le.mp hc) (by decide))
            exact fiemapReport_end hroom hrange hinv h0 hlt hhole hsmax

end

theorem fiemapLen_cases (len : Nat) :
    (len < pageSize ∧ fiemapLen len = pageSize) ∨ (pageSize ≤ len ∧ fiemapLen len = len) := by
  unfold fiemapLen
  rcases Nat.lt_or_ge len pageSize with hlt | hge
  · rw [if_pos (show logicalToBlk len = 0 from Nat.div_eq_of_lt hlt)]
    exact Or.inl ⟨hlt, Nat.one_mul _⟩
  · have hpos : 0 < logicalToBlk len := Nat.div_pos hge (by decide)
    rw [if_neg (Nat.pos_iff_ne_zero.mp hpos)]
    exact Or.inr ⟨hge, rfl⟩

/-- A request that `fiemap` lets through. -/
theorem fiemapRange_of_le {start len : Nat} (h : start + len ≤ blkToLogical maxFileBlocks) :
    (start + fiemapLen len - 1) % 2 ^ 64 = start + fiemapLen len - 1 ∧
      logicalToBlk start ≤ maxFileBlocks ∧
      FiemapRange (logicalToBlk start) (logicalToBlk (start + fiemapLen len - 1))
        (fiemapLen len) := by
  have hmax : maxFileBlocks = 1057052516 := rfl
  have hcases := fiemapLen_cases len
  generalize fiemapLen len = n at hcases ⊢
  unfold blkToLogical at h
  have hfields : 0 < n / pageSize ∧ n / pageSize ≤ maxFileBlocks ∧
      (start + n - 1) / pageSize ≤ maxFileBlocks ∧
      ((start + n - 1) / pageSize < maxFileBlocks ∨
        (start + n - 1) / pageSize ≤ start / pageSize + 1) ∧
      (start + n - 1) % 2 ^ 64 = start + n - 1 ∧ start / pageSize ≤ maxFileBlocks := by
    unfold pageSize at h hcases ⊢
    omega
  obtain ⟨hpos, hle, hlast, hlt, hbytes, hstart⟩ := hfields
  exact ⟨hbytes, hstart, hpos, hle, hlast, hlt⟩

/-- `f2fs_fiemap` ends, and with room it reports the blocks from that of `start` on to that of
    the last byte. -/
theorem fiemap_reports (file : MappedFile) (env : FiemapEnv) (start len fuel : Nat)
    (hcache : ∀ t, SoundCache file (env.cache t)) (hlast : ∀ b, file.blockAddr b ≠ newAddr - 1)
    (hmax : start + len ≤ blkToLogical maxFileBlocks) (hfuel : maxFileBlocks + 1 < fuel) :
    ∃ out, f2fsFiemap file env start len fuel = some out ∧
      (env.HasRoom → out.ret = .value 0 →
        FiemapReport file (logicalToBlk start) (logicalToBlk (start + fiemapLen len - 1))
          out.extents) := by
  obtain ⟨hbytes, hstart, hrange⟩ := fiemapRange_of_le hmax
  unfold f2fsFiemap
  simp only [hbytes]
  generalize logicalToBlk (start + fiemapLen len - 1) = lastBlk at hrange ⊢
  have hmeasure : ∀ st : FiemapState, st.startBlk = logicalToBlk start →
      maxFileBlocks + 1 - st.startBlk < fuel := fun st _ => by omega
  have hend : ∃ out, Loop.run (fiemapRound file env (fiemapLen len) lastBlk) fuel
      ⟨0, logicalToBlk start, 0, 0, 0, 0, {}, []⟩ = some out ∧ True := by
    refine Loop.run_total (P := fun st : FiemapState => st.startBlk ≤ 2 * maxFileBlocks)
      (Q := fun _ => True) (m := fun st : FiemapState => maxFileBlocks + 1 - st.startBlk)
      (fun st hst => ?_) (by simp only; omega) (hmeasure _ rfl)
    cases hround : fiemapRound file env (fiemapLen len) lastBlk st with
    | done out => exact Or.inr ⟨out, rfl, trivial⟩
    | next st' =>
        obtain ⟨hle, hlt, hst'⟩ := fiemapRound_moves hcache hlast hrange hst hround
        exact Or.inl ⟨st', rfl, hst', by omega⟩
  obtain ⟨out, hrun, -⟩ := hend
  refine ⟨out, hrun, fun hroom => ?_⟩
  have hinv : FiemapInv file (logicalToBlk start) lastBlk
      ⟨0, logicalToBlk start, 0, 0, 0, 0, {}, []⟩ := by
    refine ⟨Nat.le_refl _, by simp only; omega, ⟨?_, List.Pairwise.nil, ?_, ?_, ?_⟩, ?_, ?_, rfl⟩
    · exact fun e he => absurd he List.not_mem_nil
    · exact fun e he => absurd he List.not_mem_nil
    · exact fun e he => absurd he List.not_mem_nil
    · exact fun b hb hlt _ => absurd hb (Nat.not_le.mpr hlt)
    · exact fun e he => absurd he List.not_mem_nil
    · exact fun e he => absurd he List.not_mem_nil
  have hreport : ∃ out, Loop.run (fiemapRound file env (fiemapLen len) lastBlk) fuel
      ⟨0, logicalToBlk start, 0, 0, 0, 0, {}, []⟩ = some out ∧
        (out.ret = .value 0 → FiemapReport file (logicalToBlk start) lastBlk out.extents) := by
    refine Loop.run_total (P := FiemapInv file (logicalToBlk start) lastBlk)
      (Q := fun out : FiemapOut => out.ret = .value 0 →
        FiemapReport file (logicalToBlk start) lastBlk out.extents)
      (m := fun st : FiemapState => maxFileBlocks + 1 - st.startBlk)
      (fun st hst => ?_) hinv (hmeasure _ rfl)
    rcases fiemapRound_turn hcache hlast hroom hrange hst with ⟨st', hround, hst'⟩ | hdone
    · obtain ⟨hle, hlt, -⟩ := fiemapRound_moves hcache hlast hrange hst.startBlk_le hround
      exact Or.inl ⟨st', hround, hst', by omega⟩
    · exact Or.inr hdone
  obtain ⟨out', hrun', hout'⟩ := hreport
  obtain rfl := Option.some.inj (hrun.symm.trans hrun')
  exact hout'

/-! ## An extent that goes on behind the request -/

/-- A hole and three blocks in a row. -/
def holeThenRun : MappedFile :=
  smallFile (fun i => if 1 ≤ i ∧ i ≤ 3 then 100 + i else 0) fun i => by split <;> omega

/-- Nothing fails, nothing is cached, and there is room. -/
def roomyEnv : FiemapEnv where
  read := fun _ _ => noFailure
  mayExtentTree := false
  cache := fun _ => onlyLargest ⟨0, 0, 0⟩
  signal := fun _ => false
  encrypted := false
  fill := fun l e => (if e.flags.last then 1 else 0, l ++ [e])

theorem holeThenRun_last (b : Nat) : holeThenRun.blockAddr b ≠ newAddr - 1 := by
  rcases smallFile_blockAddr _ _ b with h | ⟨i, h⟩
  · exact fun hc => by
      rw [show holeThenRun.blockAddr b = nullAddr from h] at hc
      cases hc
  · rw [show holeThenRun.blockAddr b = _ from h]
    show (if 1 ≤ i ∧ i ≤ 3 then 100 + i else 0) ≠ 2 ^ 32 - 1 - 1
    split <;> omega

theorem holeThenRun_reports : ∃ out,
    f2fsFiemap holeThenRun roomyEnv 0 8192 (maxFileBlocks + 2) = some out ∧
      (roomyEnv.HasRoom → out.ret = .value 0 → FiemapReport holeThenRun 0 1 out.extents) :=
  fiemap_reports holeThenRun roomyEnv 0 8192 (maxFileBlocks + 2)
    (fun _ => ⟨fun i hi => absurd hi (Nat.not_lt_zero i), fun n hn => absurd hn List.not_mem_nil⟩)
    holeThenRun_last (by decide) (by omega)

/-- The blocks of the extents are the mapped blocks from `first` to `last`, and no others. -/
def CoversExactly (file : MappedFile) (first last : Nat) (l : List FiemapExtent) : Prop :=
  ∀ b, (∃ e ∈ l, e.Holds b) ↔ first ≤ b ∧ b ≤ last ∧ ¬file.Hole b

/-- Block 2 is reported with block 1. -/
theorem holeThenRun_overruns : roomyEnv.HasRoom ∧
    f2fsFiemap holeThenRun roomyEnv 0 8192 3 =
      some ⟨.value 0, [⟨4096, 101 * 4096, 8192, {}⟩]⟩ ∧
    ¬CoversExactly holeThenRun 0 1 [⟨4096, 101 * 4096, 8192, {}⟩] := by
  refine ⟨fun _ _ => rfl, by decide +kernel, fun h => ?_⟩
  have hin := (h 2).mp ⟨_, List.mem_singleton.mpr rfl, by
    unfold FiemapExtent.Holds blkToLogical pageSize
    decide⟩
  omega

end F2fs.File

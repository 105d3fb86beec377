/-
  `clear_prefree_segments`: the prefree segments are cleared run by run and discarded, then
  the small discards that `add_discard_addrs` has collected are sent.

  With sections of several segments under `LFS` the scan goes on behind the section of the
  run it has just cleared, so a prefree segment behind a gap in that section is passed over.
  `clearPrefreeSegments_drained` says when there is none.
-/
import F2fs.Lib.Loop
import F2fs.Segment.SitCounters

namespace F2fs.Segment

open Loop (Turn)

/-- `IS_CURSEC`. -/
def isCursec (sm : SmInfo) (curseg : CursegType → Nat) (secno : Nat) : Bool :=
  CursegType.all.any fun type => decide (secno = curseg type / sm.segsPerSec)

/-! ## The prefree map -/

/-- Where the loop stands: before a search, or at `next:` with a run that ends at `stop`. -/
inductive DrainPos where
  | search (start : Nat)
  | sections (start stop : Nat)
  deriving DecidableEq, Repr

/-- `dirty_segmap[PRE]`, `nr_dirty[PRE]` and the discards issued so far.  No count that the
    loop reads changes with them. -/
structure Drain where
  prefreeMap : Finset Nat
  nrDirty : Int
  discards : List (Nat × Nat)
  pos : DrainPos

section

variable (sm : SmInfo) (sit : SitInfo) (curseg : CursegType → Nat) (cpc : CpControl)

/-- The run is inside the range of a forced trim, which has discarded it already. -/
def CpControl.trims (start stop : Nat) : Bool :=
  cpc.reason.discard && decide (cpc.trimStart ≤ start) && decide (stop - 1 ≤ cpc.trimEnd)

/-- The loop's body behind the two searches, for the run from `start` to `stop`. -/
def drainRun (d : Drain) (start stop : Nat) : Drain :=
  let d := { d with
    prefreeMap := d.prefreeMap \ Finset.Ico start stop
    nrDirty := d.nrDirty - (stop - start : Nat)
    pos := .search (stop + 1) }
  if !sm.discardOpt then d
  else if cpc.trims start stop then d
  else if !sm.lfsOpt || decide (sm.segsPerSec = 1) then
    { d with discards := d.discards ++ [(startBlock sm start, (stop - start) * blocksPerSeg)] }
  else { d with pos := .sections start stop }

/-- From `next:` on, for the section of `start`. -/
def drainSection (d : Drain) (start stop : Nat) : Drain :=
  let secno := getSec sm start
  let startSegno := segFromSec sm secno
  let d := { d with
    discards :=
      if !isCursec sm curseg secno && decide (getValidBlocks sm sit start true = 0) then
        d.discards ++ [(startBlock sm startSegno, sm.segsPerSec * blocksPerSeg)]
      else d.discards }
  let start := startSegno + sm.segsPerSec
  { d with pos := if start < stop then .sections start stop else .search start }

/-- One turn of the `while (1)` loop, or of the loop over sections in it. -/
def drainTurn (d : Drain) : Turn Drain Drain :=
  match d.pos with
  | .search from_ =>
    let start := BitScan.next (fun i => decide (i ∈ d.prefreeMap)) sm.mainSegments from_
    let stop := BitScan.next (fun i => decide (i ∉ d.prefreeMap)) sm.mainSegments (start + 1)
    if sm.mainSegments ≤ start then .done d else .next (drainRun sm cpc d start stop)
  | .sections start stop => .next (drainSection sm sit curseg d start stop)

/-! ## The small discards -/

/-- The position in `discard_map`, whether its bit is set, and the discards so far. -/
structure SmallScan where
  curPos : Nat
  isValid : Bool
  discards : List (Nat × Nat)

/-- One turn of the loop `find_next:`. -/
def smallTurn (blkzoned : Bool) (entry : DiscardEntry) (s : SmallScan) :
    Turn SmallScan (List (Nat × Nat)) :=
  let nextPos := BitScan.next (fun i => testBit entry.discardMap i != s.isValid) blocksPerSeg
    s.curPos
  let len := nextPos - s.curPos
  let discards :=
    if !s.isValid || blkzoned || (cpc.reason.discard && decide (len < cpc.trimMinlen)) then
      s.discards
    else s.discards ++ [(entry.startBlkaddr + s.curPos, len)]
  if nextPos < blocksPerSeg then .next ⟨nextPos, !s.isValid, discards⟩ else .done discards

/-- The discards of one entry. -/
def smallDiscards (blkzoned : Bool) (entry : DiscardEntry) : Option (List (Nat × Nat)) :=
  Loop.run (smallTurn cpc blkzoned entry) (blocksPerSeg + 1) ⟨0, testBit entry.discardMap 0, []⟩

/-- One entry: its discards are sent, and it leaves the list. -/
def sendEntry (blkzoned : Bool) (acc : DiscardCmdControl × List (Nat × Nat))
    (entry : DiscardEntry) : Option (DiscardCmdControl × List (Nat × Nat)) :=
  (smallDiscards cpc blkzoned entry).map fun l =>
    ({ acc.1 with
        entryList := acc.1.entryList.tail
        nrDiscards := acc.1.nrDiscards - ((l.map Prod.snd).sum : Nat) }, acc.2 ++ l)

/-! ## The function -/

/-- What `clear_prefree_segments` leaves, and the discards it has issued. -/
structure Drained where
  prefreeMap : Finset Nat
  nrDirty : Int
  discards : List (Nat × Nat)
  dcc : DiscardCmdControl
  small : List (Nat × Nat)

/-- `clear_prefree_segments`, its first loop with at most `fuel` turns. -/
def clearPrefreeSegments (blkzoned : Bool) (dcc : DiscardCmdControl) (fuel : Nat)
    (prefreeMap : Finset Nat) (nrDirty : Int) : Option Drained :=
  (Loop.run (drainTurn sm sit curseg cpc) fuel ⟨prefreeMap, nrDirty, [], .search 0⟩).bind fun d =>
    (dcc.entryList.foldlM (sendEntry cpc blkzoned) (dcc, [])).map fun r =>
      ⟨d.prefreeMap, d.nrDirty, d.discards, r.1, r.2⟩

end

/-! ## What may be discarded -/

section

variable (sm : SmInfo) (sit : SitInfo) (curseg : CursegType → Nat) (cpc : CpControl)
  (pre : Finset Nat)

/-- No valid block and no current segment in the section. -/
structure IdleSection (secno : Nat) : Prop where
  notCurrent : ∀ type, getSec sm (curseg type) ≠ secno
  unused : sit.secEntries secno = 0

/-- A block of a prefree segment or of an idle section. -/
def Discardable (addr : Nat) : Prop :=
  InMain sm addr ∧
    (getSegno sm addr ∈ pre ∨ IdleSection sm sit curseg (getSec sm (getSegno sm addr)))

/-- A discard of such blocks only. -/
def DiscardOk (d : Nat × Nat) : Prop :=
  ∀ addr, d.1 ≤ addr → addr < d.1 + d.2 → Discardable sm sit curseg pre addr

/-! ## What the loop passes over -/

/-- A maximal run of prefree segments. -/
structure IsRun (start stop : Nat) : Prop where
  lt : start < stop
  mem : ∀ i, start ≤ i → i < stop → i ∈ pre
  stop_notMem : stop ∉ pre
  start_eq : start = 0 ∨ start - 1 ∉ pre

/-- The loop discards whole sections. -/
def BySection : Prop := sm.discardOpt = true ∧ sm.lfsOpt = true ∧ sm.segsPerSec ≠ 1

/-- If the run is cleared section by section, its last section has no prefree segment
    behind it. -/
def NoneBehind (start stop : Nat) : Prop :=
  BySection sm → cpc.trims start stop = false →
    ∀ i ∈ pre, stop < i → getSec sm i ≠ getSec sm (stop - 1)

/-- The loop passes over no prefree segment. -/
def NoneSkipped : Prop := ∀ start stop, IsRun pre start stop → NoneBehind sm cpc pre start stop

end

variable {sm : SmInfo} {sit : SitInfo} {curseg : CursegType → Nat} {cpc : CpControl}
  {pre : Finset Nat}

/-- The blocks of a row of segments. -/
theorem startBlock_row {start n addr : Nat} (hn : start + n ≤ sm.mainSegments)
    (hlo : startBlock sm start ≤ addr) (hhi : addr < startBlock sm start + n * blocksPerSeg) :
    InMain sm addr ∧ start ≤ getSegno sm addr ∧ getSegno sm addr < start + n := by
  obtain ⟨off, rfl⟩ := Nat.exists_eq_add_of_le hlo
  have hoff : off < n * blocksPerSeg := Nat.lt_of_add_lt_add_left hhi
  obtain ⟨k, r, hk, hr, rfl⟩ : ∃ k r, k < n ∧ r < blocksPerSeg ∧ off = k * blocksPerSeg + r :=
    ⟨off / blocksPerSeg, off % blocksPerSeg, (Nat.div_lt_iff_lt_mul (by decide)).mpr hoff,
      Nat.mod_lt _ (by decide), (Nat.div_add_mod' off blocksPerSeg).symm⟩
  have haddr : startBlock sm start + (k * blocksPerSeg + r) = startBlock sm (start + k) + r := by
    unfold startBlock
    ring
  rw [haddr, getSegno_startBlock (by omega) hr]
  exact ⟨inMain_startBlock (by omega) hr, by omega, by omega⟩

theorem discardOk_run {start stop : Nat} (hle : start ≤ stop) (hmain : stop ≤ sm.mainSegments)
    (hpre : ∀ i, start ≤ i → i < stop → i ∈ pre) :
    DiscardOk sm sit curseg pre (startBlock sm start, (stop - start) * blocksPerSeg) := by
  intro addr hlo hhi
  obtain ⟨hin, h1, h2⟩ := startBlock_row (by omega) hlo hhi
  exact ⟨hin, .inl (hpre _ h1 (by omega))⟩

theorem discardOk_section {secno : Nat} (hsec : secno < sm.totalSections)
    (h : IdleSection sm sit curseg secno) :
    DiscardOk sm sit curseg pre
      (startBlock sm (segFromSec sm secno), sm.segsPerSec * blocksPerSeg) := by
  intro addr hlo hhi
  have hend : segFromSec sm secno + sm.segsPerSec ≤ sm.mainSegments := by
    rw [← sm.sections_eq, segFromSec, ← Nat.succ_mul]
    exact Nat.mul_le_mul_right _ hsec
  obtain ⟨hin, h1, h2⟩ := startBlock_row hend hlo hhi
  refine ⟨hin, .inr ?_⟩
  rwa [getSec_eq_iff.mpr ⟨h1, h2⟩]

/-! ## One turn -/

/-- The first run of the map at or behind `pos`. -/
structure FirstRun (sm : SmInfo) (map : Finset Nat) (pos start stop : Nat) : Prop where
  le : pos ≤ start
  lt : start < stop
  stop_le : stop ≤ sm.mainSegments
  before : ∀ i, pos ≤ i → i < start → i ∉ map
  mem : ∀ i, start ≤ i → i < stop → i ∈ map
  stop_notMem : stop < sm.mainSegments → stop ∉ map

variable (sit curseg cpc) in
theorem drainTurn_search {d : Drain} {pos : Nat} (hpos : d.pos = .search pos) :
    (drainTurn sm sit curseg cpc d = .done d ∧
      ∀ i ∈ d.prefreeMap, pos ≤ i → sm.mainSegments ≤ i) ∨
    ∃ start stop, FirstRun sm d.prefreeMap pos start stop ∧
      drainTurn sm sit curseg cpc d = .next (drainRun sm cpc d start stop) := by
  set start := BitScan.next (fun i => decide (i ∈ d.prefreeMap)) sm.mainSegments pos with hstart
  set stop := BitScan.next (fun i => decide (i ∉ d.prefreeMap)) sm.mainSegments (start + 1)
    with hstop
  by_cases hend : sm.mainSegments ≤ start
  · left
    refine ⟨by simp only [drainTurn, hpos, ← hstart, if_pos hend], fun i hi hle => ?_⟩
    by_contra hlt
    have hno := BitScan.next_eq_size (le_antisymm (BitScan.next_le _ _ _) hend) i hle (by omega)
    exact absurd hi (of_decide_eq_false hno)
  · right
    have hspec := BitScan.next_spec (p := fun i => decide (i ∈ d.prefreeMap)) (not_le.mp hend)
    have hle : stop ≤ sm.mainSegments := BitScan.next_le _ _ _
    have hlt : start < stop := by
      rcases Nat.lt_or_ge stop sm.mainSegments with h | h
      · exact (BitScan.next_spec h).1
      · omega
    refine ⟨start, stop, ⟨hspec.1, hlt, hle, ?_, ?_, ?_⟩, ?_⟩
    · intro i h1 h2
      exact of_decide_eq_false (hspec.2.2 i h1 h2)
    · intro i h1 h2
      rcases h1.eq_or_lt with rfl | h1
      · exact of_decide_eq_true hspec.2.1
      · have hi : decide (i ∉ d.prefreeMap) = false := by
          rcases hle.eq_or_lt with h | h
          · exact BitScan.next_eq_size h i h1 (by omega)
          · exact (BitScan.next_spec h).2.2 i h1 h2
        exact not_not.mp (of_decide_eq_false hi)
    · intro h
      exact of_decide_eq_true (BitScan.next_spec h).2.1
    · simp only [drainTurn, hpos, ← hstart, if_neg hend, ← hstop]

theorem drainTurn_sections {d : Drain} {start stop : Nat} (hpos : d.pos = .sections start stop) :
    drainTurn sm sit curseg cpc d = .next (drainSection sm sit curseg d start stop) := by
  simp only [drainTurn, hpos]

variable (sm cpc) in
/-- A run is either left to the loop over sections, or done with. -/
theorem drainRun_cases (d : Drain) (start stop : Nat) :
    (BySection sm ∧ cpc.trims start stop = false ∧ drainRun sm cpc d start stop =
      ⟨d.prefreeMap \ Finset.Ico start stop, d.nrDirty - (stop - start : Nat), d.discards,
        .sections start stop⟩) ∨
    ¬(BySection sm ∧ cpc.trims start stop = false) ∧ ∃ l, drainRun sm cpc d start stop =
        ⟨d.prefreeMap \ Finset.Ico start stop, d.nrDirty - (stop - start : Nat), l,
          .search (stop + 1)⟩ ∧
      (l = d.discards ∨
        l = d.discards ++ [(startBlock sm start, (stop - start) * blocksPerSeg)]) := by
  unfold BySection drainRun
  cases sm.discardOpt with
  | false => exact .inr ⟨by simp, d.discards, rfl, .inl rfl⟩
  | true =>
    cases cpc.trims start stop with
    | true => exact .inr ⟨by simp, d.discards, rfl, .inl rfl⟩
    | false =>
      by_cases hwhole : sm.lfsOpt = true ∧ sm.segsPerSec ≠ 1
      · exact .inl ⟨by simpa using hwhole, rfl, by simp [hwhole]⟩
      · refine .inr ⟨by simpa using hwhole, _, ?_, .inr rfl⟩
        have hif : (!sm.lfsOpt || decide (sm.segsPerSec = 1)) = true := by
          rcases not_and_or.mp hwhole with h | h
          · simp [h]
          · simp [not_not.mp h]
        simp [hif]

/-! ## The books of the loop -/

/-- The count is right, and every discard so far is allowed. -/
structure DrainBooks (sm : SmInfo) (sit : SitInfo) (curseg : CursegType → Nat) (pre : Finset Nat)
    (d : Drain) : Prop where
  sub : d.prefreeMap ⊆ pre
  count : d.nrDirty = d.prefreeMap.card
  discards : ∀ e ∈ d.discards, DiscardOk sm sit curseg pre e
  sections : ∀ start stop, d.pos = .sections start stop →
    BySection sm ∧ start < stop ∧ stop ≤ sm.mainSegments

theorem drainRun_books {d : Drain} {pos start stop : Nat} (h : DrainBooks sm sit curseg pre d)
    (hrun : FirstRun sm d.prefreeMap pos start stop) :
    DrainBooks sm sit curseg pre (drainRun sm cpc d start stop) := by
  have hsub : d.prefreeMap \ Finset.Ico start stop ⊆ pre := Finset.sdiff_subset.trans h.sub
  have hico : Finset.Ico start stop ⊆ d.prefreeMap := by
    intro i hi
    rw [Finset.mem_Ico] at hi
    exact hrun.mem i hi.1 hi.2
  have hcount : d.nrDirty - (stop - start : Nat) =
      ((d.prefreeMap \ Finset.Ico start stop).card : Int) := by
    have hcard := Finset.card_sdiff_add_card_eq_card hico
    rw [Nat.card_Ico] at hcard
    rw [h.count]
    omega
  rcases drainRun_cases sm cpc d start stop with ⟨hsec, -, heq⟩ | ⟨-, l, heq, hl⟩
  · rw [heq]
    refine ⟨hsub, hcount, h.discards, fun a b hpos => ?_⟩
    cases hpos
    exact ⟨hsec, hrun.lt, hrun.stop_le⟩
  · rw [heq]
    refine ⟨hsub, hcount, ?_, fun a b hpos => by cases hpos⟩
    rcases hl with rfl | rfl
    · exact h.discards
    · intro e he
      rcases List.mem_append.mp he with he | he
      · exact h.discards e he
      · rw [List.mem_singleton.mp he]
        exact discardOk_run hrun.lt.le hrun.stop_le fun i h1 h2 => h.sub (hrun.mem i h1 h2)

/-- What the test before a section's discard looks at. -/
theorem idleSection_of_test {start : Nat} (hsps : sm.segsPerSec ≠ 1)
    (h : (!isCursec sm curseg (getSec sm start) &&
      decide (getValidBlocks sm sit start true = 0)) = true) :
    IdleSection sm sit curseg (getSec sm start) := by
  have hpos := sm.segsPerSec_pos
  rw [Bool.and_eq_true, Bool.not_eq_true', decide_eq_true_eq] at h
  constructor
  · intro type heq
    have hno := List.any_eq_false.mp h.1 type (CursegType.mem_all type)
    rw [decide_eq_true_eq] at hno
    exact hno heq.symm
  · rw [← h.2, getValidBlocks, if_pos ⟨rfl, by omega⟩]

theorem drainSection_books {d : Drain} {start stop : Nat} (h : DrainBooks sm sit curseg pre d)
    (hpos : d.pos = .sections start stop) :
    DrainBooks sm sit curseg pre (drainSection sm sit curseg d start stop) := by
  obtain ⟨hsec, hlt, hle⟩ := h.sections start stop hpos
  refine ⟨h.sub, h.count, fun e he => ?_, fun a b hab => ?_⟩
  · unfold drainSection at he
    dsimp only at he
    split at he
    · rename_i htest
      rcases List.mem_append.mp he with he | he
      · exact h.discards e he
      · rw [List.mem_singleton.mp he]
        exact discardOk_section (getSec_lt (by omega)) (idleSection_of_test hsec.2.2 htest)
    · exact h.discards e he
  · unfold drainSection at hab
    dsimp only at hab
    split at hab
    · rename_i hgo
      cases hab
      exact ⟨hsec, hgo, hle⟩
    · cases hab

/-! ## What is left -/

/-- The loop has come by every prefree segment so far: the rest of the map is untouched, and
    nothing was passed over. -/
def AllSeen (sm : SmInfo) (cpc : CpControl) (pre : Finset Nat) (d : Drain) : Prop :=
  match d.pos with
  | .search pos => d.prefreeMap = pre.filter (pos ≤ ·) ∧ (pos ∈ pre → pos = 0 ∨ pos - 1 ∉ pre) ∧
      ∀ start stop, IsRun pre start stop → stop ≤ pos → NoneBehind sm cpc pre start stop
  | .sections start stop => start < stop ∧ d.prefreeMap = pre.filter (stop ≤ ·) ∧
      (∃ first, IsRun pre first stop ∧ BySection sm ∧ cpc.trims first stop = false) ∧
      ∀ start' stop', IsRun pre start' stop' → stop' < stop → NoneBehind sm cpc pre start' stop'

/-- The loop has left a segment behind. -/
def LeftOne (sm : SmInfo) (cpc : CpControl) (pre : Finset Nat) (d : Drain) : Prop :=
  ¬NoneSkipped sm cpc pre ∧
    match d.pos with
    | .search pos => ∃ i ∈ d.prefreeMap, i < pos
    | .sections start _ => ∃ i ∈ d.prefreeMap, i < start

/-- Two runs that end at one place are one run. -/
theorem IsRun.start_unique {start start' stop : Nat} (h : IsRun pre start stop)
    (h' : IsRun pre start' stop) : start = start' := by
  have key : ∀ {a b : Nat}, IsRun pre a stop → IsRun pre b stop → ¬a < b := by
    intro a b ha hb hlt
    rcases hb.start_eq with h0 | h0
    · omega
    · exact h0 (ha.mem _ (by omega) (by have := hb.lt; omega))
  have h1 := key h h'
  have h2 := key h' h
  omega

theorem FirstRun.isRun {pos start stop : Nat} (hpre : ∀ i ∈ pre, i < sm.mainSegments)
    (hrun : FirstRun sm (pre.filter (pos ≤ ·)) pos start stop)
    (hpos : pos ∈ pre → pos = 0 ∨ pos - 1 ∉ pre) : IsRun pre start stop where
  lt := hrun.lt
  mem i h1 h2 := (Finset.mem_filter.mp (hrun.mem i h1 h2)).1
  stop_notMem := by
    intro hin
    have hle := hrun.le
    have hlt := hrun.lt
    exact hrun.stop_notMem (hpre _ hin) (Finset.mem_filter.mpr ⟨hin, by omega⟩)
  start_eq := by
    rcases hrun.le.eq_or_lt with rfl | hlt
    · exact hpos (Finset.mem_filter.mp (hrun.mem _ le_rfl hrun.lt)).1
    · refine .inr fun hin => ?_
      exact hrun.before (start - 1) (by omega) (by omega)
        (Finset.mem_filter.mpr ⟨hin, by omega⟩)

/-- A run that ends behind `pos` is the first run found there, or ends behind that one. -/
theorem FirstRun.eq_or_behind {pos start stop start' stop' : Nat}
    (hrun : FirstRun sm (pre.filter (pos ≤ ·)) pos start stop) (hself : IsRun pre start stop)
    (h : IsRun pre start' stop') (hstop : pos < stop') :
    (start' = start ∧ stop' = stop) ∨ stop + 1 < stop' := by
  have hlast := h.mem (stop' - 1) (by have := h.lt; omega) (by have := h.lt; omega)
  have hge : start ≤ stop' - 1 := by
    by_contra hlt
    exact hrun.before _ (by omega) (by omega) (Finset.mem_filter.mpr ⟨hlast, by omega⟩)
  rcases Nat.lt_or_ge (stop' - 1) stop with hlt | hge'
  · left
    have heq : stop' = stop := by
      by_contra hne
      exact h.stop_notMem (hself.mem stop' (by omega) (by omega))
    subst heq
    exact ⟨h.start_unique hself, rfl⟩
  · right
    have hne : stop' - 1 ≠ stop := fun heq => hself.stop_notMem (heq ▸ hlast)
    omega

theorem FirstRun.rest {pos start stop : Nat}
    (hrun : FirstRun sm (pre.filter (pos ≤ ·)) pos start stop) :
    pre.filter (pos ≤ ·) \ Finset.Ico start stop = pre.filter (stop ≤ ·) := by
  ext i
  have hle := hrun.le
  have hlt := hrun.lt
  simp only [Finset.mem_sdiff, Finset.mem_filter, Finset.mem_Ico]
  constructor
  · rintro ⟨⟨hi, hpos⟩, hout⟩
    refine ⟨hi, ?_⟩
    by_contra hlt'
    exact hrun.before i hpos (by omega) (Finset.mem_filter.mpr ⟨hi, hpos⟩)
  · rintro ⟨hi, hstop⟩
    exact ⟨⟨hi, by omega⟩, by omega⟩

theorem drainRun_allSeen {d : Drain} {pos start stop : Nat}
    (hpre : ∀ i ∈ pre, i < sm.mainSegments) (hpos : d.pos = .search pos)
    (h : AllSeen sm cpc pre d) (hrun : FirstRun sm d.prefreeMap pos start stop) :
    AllSeen sm cpc pre (drainRun sm cpc d start stop) := by
  simp only [AllSeen, hpos] at h
  obtain ⟨hmap, hstart, hseen⟩ := h
  rw [hmap] at hrun
  have hself := hrun.isRun hpre hstart
  rcases drainRun_cases sm cpc d start stop with ⟨hsec, htrim, heq⟩ | ⟨hwhole, l, heq, -⟩
  · rw [heq, hmap, hrun.rest]
    refine ⟨hrun.lt, rfl, ⟨start, hself, hsec, htrim⟩, fun a b hab hlt => ?_⟩
    rcases Nat.lt_or_ge pos b with hb | hb
    · rcases hrun.eq_or_behind hself hab hb with ⟨-, rfl⟩ | hbehind
      · exact absurd hlt (lt_irrefl _)
      · omega
    · exact hseen a b hab hb
  · rw [heq, hmap, hrun.rest]
    refine ⟨?_, fun _ => .inr hself.stop_notMem, fun a b hab hle => ?_⟩
    · apply Finset.filter_congr
      intro i hi
      have hne : stop ≠ i := fun hi' => hself.stop_notMem (hi' ▸ hi)
      show stop ≤ i ↔ stop + 1 ≤ i
      omega
    · rcases Nat.lt_or_ge pos b with hb | hb
      · rcases hrun.eq_or_behind hself hab hb with ⟨rfl, rfl⟩ | hbehind
        · exact fun hsec htrim => absurd ⟨hsec, htrim⟩ hwhole
        · omega
      · exact hseen a b hab hb

/-- Whatever is behind the position stays there. -/
theorem drainRun_leftOne {d : Drain} {pos start stop : Nat} (hpos : d.pos = .search pos)
    (h : LeftOne sm cpc pre d) (hrun : FirstRun sm d.prefreeMap pos start stop) :
    LeftOne sm cpc pre (drainRun sm cpc d start stop) := by
  obtain ⟨hskip, hleft⟩ := h
  simp only [hpos] at hleft
  obtain ⟨i, hi, hlt⟩ := hleft
  have hle := hrun.le
  have hlt' := hrun.lt
  have hi' : i ∈ d.prefreeMap \ Finset.Ico start stop := by
    rw [Finset.mem_sdiff, Finset.mem_Ico]
    exact ⟨hi, by omega⟩
  rcases drainRun_cases sm cpc d start stop with ⟨-, -, heq⟩ | ⟨-, l, heq, -⟩
  · rw [heq]
    exact ⟨hskip, i, hi', by omega⟩
  · rw [heq]
    exact ⟨hskip, i, hi', by omega⟩

/-- Where the loop over sections goes on. -/
def sectionEnd (sm : SmInfo) (start : Nat) : Nat :=
  segFromSec sm (getSec sm start) + sm.segsPerSec

variable (sm) in
theorem lt_sectionEnd (start : Nat) : start < sectionEnd sm start :=
  (getSec_eq_iff.mp rfl).2

variable (sm sit curseg) in
theorem drainSection_eq (d : Drain) (start stop : Nat) : ∃ l,
    drainSection sm sit curseg d start stop = ⟨d.prefreeMap, d.nrDirty, l,
      if sectionEnd sm start < stop then .sections (sectionEnd sm start) stop
      else .search (sectionEnd sm start)⟩ :=
  ⟨_, rfl⟩

theorem drainSection_leftOne {d : Drain} {start stop : Nat} (hpos : d.pos = .sections start stop)
    (h : LeftOne sm cpc pre d) : LeftOne sm cpc pre (drainSection sm sit curseg d start stop) := by
  obtain ⟨hskip, hleft⟩ := h
  simp only [hpos] at hleft
  obtain ⟨i, hi, hlt⟩ := hleft
  have hend := lt_sectionEnd sm start
  obtain ⟨l, heq⟩ := drainSection_eq sm sit curseg d start stop
  rw [heq]
  refine ⟨hskip, ?_⟩
  split
  · rename_i hp
    split at hp
    all_goals cases hp
    exact ⟨i, hi, by omega⟩
  · rename_i hp
    split at hp
    all_goals cases hp
    exact ⟨i, hi, by omega⟩

theorem drainSection_seen {d : Drain} {start stop : Nat} (hpos : d.pos = .sections start stop)
    (h : AllSeen sm cpc pre d) :
    AllSeen sm cpc pre (drainSection sm sit curseg d start stop) ∨
      LeftOne sm cpc pre (drainSection sm sit curseg d start stop) := by
  simp only [AllSeen, hpos] at h
  obtain ⟨hlt, hmap, ⟨first, hrun, hsec, htrim⟩, hseen⟩ := h
  have hend := lt_sectionEnd sm start
  obtain ⟨l, heq⟩ := drainSection_eq sm sit curseg d start stop
  rw [heq]
  by_cases hgo : sectionEnd sm start < stop
  · left
    simp only [AllSeen, if_pos hgo]
    exact ⟨hgo, hmap, ⟨first, hrun, hsec, htrim⟩, hseen⟩
  have hlast : getSec sm (stop - 1) = getSec sm start :=
    getSec_eq_iff.mpr ⟨(getSec_eq_iff.mp rfl).1.trans (by omega),
      lt_of_lt_of_le (by omega : stop - 1 < sectionEnd sm start) le_rfl⟩
  have hsame : ∀ i, stop < i → (getSec sm i = getSec sm (stop - 1) ↔ i < sectionEnd sm start) := by
    intro i hi
    rw [hlast, getSec_eq_iff]
    have hfirst := (@getSec_eq_iff sm start (getSec sm start)).mp rfl
    exact ⟨And.right, fun h => ⟨by omega, h⟩⟩
  by_cases hnone : ∀ i ∈ pre, stop < i → getSec sm i ≠ getSec sm (stop - 1)
  · left
    have hout : ∀ i ∈ pre, stop ≤ i → sectionEnd sm start ≤ i := by
      intro i hi hle
      rcases hle.eq_or_lt with rfl | hlt'
      · exact absurd hi hrun.stop_notMem
      · exact not_lt.mp fun h => hnone i hi hlt' ((hsame i hlt').mpr h)
    simp only [AllSeen, if_neg hgo]
    refine ⟨?_, fun hfirst => .inr fun hin => ?_, fun a b hab hle => ?_⟩
    · rw [hmap]
      apply Finset.filter_congr
      intro i hi
      exact ⟨hout i hi, fun h => by omega⟩
    · have hne : stop ≠ sectionEnd sm start := fun h => hrun.stop_notMem (h ▸ hfirst)
      have := hout _ hin (by omega)
      omega
    · rcases Nat.lt_trichotomy b stop with hb | rfl | hb
      · exact hseen a b hab hb
      · rw [hab.start_unique hrun]
        exact fun _ _ => hnone
      · have := hout _ (hab.mem (b - 1) (by have := hab.lt; omega) (by omega)) (by omega)
        omega
  · right
    push Not at hnone
    obtain ⟨i, hi, hlt', hin⟩ := hnone
    refine ⟨fun hskip => hskip first stop hrun hsec htrim i hi hlt' hin, ?_⟩
    simp only [if_neg hgo]
    exact ⟨i, by rw [hmap]; exact Finset.mem_filter.mpr ⟨hi, by omega⟩, (hsame i hlt').mp hin⟩

/-! ## The loop -/

/-- The books hold, and the map is untouched from the position on unless a segment was left. -/
structure DrainInv (sm : SmInfo) (sit : SitInfo) (curseg : CursegType → Nat) (cpc : CpControl)
    (pre : Finset Nat) (d : Drain) : Prop where
  books : DrainBooks sm sit curseg pre d
  seen : AllSeen sm cpc pre d ∨ LeftOne sm cpc pre d

/-- The turns left: at most two for each segment from the position on. -/
def drainMeasure (sm : SmInfo) (d : Drain) : Nat :=
  match d.pos with
  | .search pos => 2 * (sm.mainSegments + 1 - pos)
  | .sections start _ => 2 * (sm.mainSegments + 1 - start) - 1

/-- What the loop leaves. -/
structure DrainDone (sm : SmInfo) (sit : SitInfo) (curseg : CursegType → Nat) (cpc : CpControl)
    (pre : Finset Nat) (d : Drain) : Prop where
  books : DrainBooks sm sit curseg pre d
  empty_iff : d.prefreeMap = ∅ ↔ NoneSkipped sm cpc pre

theorem drainInv_start :
    DrainInv sm sit curseg cpc pre ⟨pre, pre.card, [], .search 0⟩ where
  books := ⟨Finset.Subset.refl pre, rfl, fun _ he => absurd he List.not_mem_nil,
    fun _ _ h => by cases h⟩
  seen := by
    left
    refine ⟨(Finset.filter_true_of_mem fun i _ => Nat.zero_le i).symm, fun _ => .inl rfl,
      fun a b hab hle => ?_⟩
    have := hab.lt
    omega

theorem drain_end {d : Drain} {pos : Nat} (hpre : ∀ i ∈ pre, i < sm.mainSegments)
    (hpos : d.pos = .search pos) (h : DrainInv sm sit curseg cpc pre d)
    (hend : ∀ i ∈ d.prefreeMap, pos ≤ i → sm.mainSegments ≤ i) :
    DrainDone sm sit curseg cpc pre d := by
  have hnone : ∀ i ∈ d.prefreeMap, i < pos := by
    intro i hi
    by_contra hle
    have h1 := hend i hi (by omega)
    have h2 := hpre i (h.books.sub hi)
    omega
  refine ⟨h.books, ?_⟩
  rcases h.seen with hseen | ⟨hskip, hleft⟩
  · simp only [AllSeen, hpos] at hseen
    obtain ⟨hmap, -, hruns⟩ := hseen
    refine iff_of_true ?_ fun a b hab => hruns a b hab ?_
    · rw [Finset.eq_empty_iff_forall_notMem]
      intro i hi
      have hlt := hnone i hi
      rw [hmap] at hi
      have := (Finset.mem_filter.mp hi).2
      omega
    · by_contra hlt
      have := hab.lt
      have hin : b - 1 ∈ d.prefreeMap := by
        rw [hmap]
        exact Finset.mem_filter.mpr ⟨hab.mem _ (by omega) (by omega), by omega⟩
      have := hnone _ hin
      omega
  · simp only [hpos] at hleft
    obtain ⟨i, hi, -⟩ := hleft
    exact iff_of_false (Finset.ne_empty_of_mem hi) hskip

/-- Every turn keeps the invariant and brings the loop nearer to its end. -/
theorem drainTurn_inv (hpre : ∀ i ∈ pre, i < sm.mainSegments) (d : Drain)
    (h : DrainInv sm sit curseg cpc pre d) :
    (∃ d', drainTurn sm sit curseg cpc d = .next d' ∧ DrainInv sm sit curseg cpc pre d' ∧
      drainMeasure sm d' < drainMeasure sm d) ∨
    ∃ d', drainTurn sm sit curseg cpc d = .done d' ∧ DrainDone sm sit curseg cpc pre d' := by
  cases hpos : d.pos with
  | search pos =>
    rcases drainTurn_search sit curseg cpc hpos with
      ⟨hturn, hend⟩ | ⟨start, stop, hrun, hturn⟩
    · exact .inr ⟨d, hturn, drain_end hpre hpos h hend⟩
    · refine .inl ⟨_, hturn, ⟨drainRun_books h.books hrun, ?_⟩, ?_⟩
      · rcases h.seen with hseen | hleft
        · exact .inl (drainRun_allSeen hpre hpos hseen hrun)
        · exact .inr (drainRun_leftOne hpos hleft hrun)
      · have hle := hrun.le
        have hlt := hrun.lt
        have hstop := hrun.stop_le
        rcases drainRun_cases sm cpc d start stop with
          ⟨-, -, heq⟩ | ⟨-, l, heq, -⟩
        all_goals
          rw [heq]
          simp only [drainMeasure, hpos]
          omega
  | sections start stop =>
    obtain ⟨-, hlt, hle⟩ := h.books.sections start stop hpos
    refine .inl ⟨_, drainTurn_sections hpos, ⟨drainSection_books h.books hpos, ?_⟩, ?_⟩
    · rcases h.seen with hseen | hleft
      · exact drainSection_seen hpos hseen
      · exact .inr (drainSection_leftOne hpos hleft)
    · have hend := lt_sectionEnd sm start
      obtain ⟨l, heq⟩ := drainSection_eq sm sit curseg d start stop
      rw [heq]
      by_cases hgo : sectionEnd sm start < stop
      · simp only [drainMeasure, hpos, if_pos hgo]
        omega
      · simp only [drainMeasure, hpos, if_neg hgo]
        omega

variable (sit curseg cpc) in
theorem drain_total (hpre : ∀ i ∈ pre, i < sm.mainSegments) : ∃ fuel d,
    Loop.run (drainTurn sm sit curseg cpc) fuel ⟨pre, pre.card, [], .search 0⟩ = some d ∧
      DrainDone sm sit curseg cpc pre d :=
  ⟨_, Loop.run_total (drainTurn_inv hpre) drainInv_start (Nat.lt_succ_self _)⟩

/-! ## The small discards -/

/-- The block is recorded in the entry. -/
def DiscardEntry.Records (entry : DiscardEntry) (addr : Nat) : Prop :=
  ∃ i, i < blocksPerSeg ∧ testBit entry.discardMap i = true ∧ addr = entry.startBlkaddr + i

/-- Every discard is of recorded blocks. -/
def SmallOk (entry : DiscardEntry) (l : List (Nat × Nat)) : Prop :=
  ∀ e ∈ l, ∀ addr, e.1 ≤ addr → addr < e.1 + e.2 → entry.Records addr

structure SmallInv (entry : DiscardEntry) (s : SmallScan) : Prop where
  lt : s.curPos < blocksPerSeg
  bit : testBit entry.discardMap s.curPos = s.isValid
  ok : SmallOk entry s.discards

variable (cpc) in
theorem smallTurn_ok (blkzoned : Bool) {entry : DiscardEntry} {s : SmallScan} {next : Nat}
    (h : SmallInv entry s) (hnext : next ≤ blocksPerSeg)
    (hsame : ∀ i, s.curPos ≤ i → i < next → testBit entry.discardMap i = s.isValid) :
    SmallOk entry (if !s.isValid || blkzoned ||
        (cpc.reason.discard && decide (next - s.curPos < cpc.trimMinlen)) then s.discards
      else s.discards ++ [(entry.startBlkaddr + s.curPos, next - s.curPos)]) := by
  split
  · exact h.ok
  · rename_i hsend
    have hvalid : s.isValid = true := by
      cases hv : s.isValid with
      | true => rfl
      | false => exact absurd (by simp [hv]) hsend
    intro e he addr hlo hhi
    rcases List.mem_append.mp he with he | he
    · exact h.ok e he addr hlo hhi
    · rw [List.mem_singleton.mp he] at hlo hhi
      dsimp only at hlo hhi
      refine ⟨addr - entry.startBlkaddr, by omega, ?_, by omega⟩
      rw [hsame _ (by omega) (by omega), hvalid]

theorem smallTurn_inv {blkzoned : Bool} {entry : DiscardEntry} (s : SmallScan)
    (h : SmallInv entry s) :
    (∃ s', smallTurn cpc blkzoned entry s = .next s' ∧ SmallInv entry s' ∧
      blocksPerSeg - s'.curPos < blocksPerSeg - s.curPos) ∨
    ∃ l, smallTurn cpc blkzoned entry s = .done l ∧ SmallOk entry l := by
  set next := BitScan.next (fun i => testBit entry.discardMap i != s.isValid) blocksPerSeg
    s.curPos with hnext
  have hle : next ≤ blocksPerSeg := BitScan.next_le _ _ _
  have hsame : ∀ i, s.curPos ≤ i → i < next → testBit entry.discardMap i = s.isValid := by
    intro i h1 h2
    have hno : (testBit entry.discardMap i != s.isValid) = false := by
      rcases hle.eq_or_lt with heq | hlt
      · exact BitScan.next_eq_size heq i h1 (by omega)
      · exact (BitScan.next_spec hlt).2.2 i h1 h2
    simpa using hno
  have hok := smallTurn_ok cpc blkzoned h hle hsame
  set l := (if !s.isValid || blkzoned ||
      (cpc.reason.discard && decide (next - s.curPos < cpc.trimMinlen)) then s.discards
    else s.discards ++ [(entry.startBlkaddr + s.curPos, next - s.curPos)]) with hl
  by_cases hlt : next < blocksPerSeg
  · left
    have hspec := BitScan.next_spec hlt
    have hdiff : testBit entry.discardMap next = !s.isValid := by
      have := hspec.2.1
      cases hv : s.isValid <;> simp_all
    have hgt : s.curPos < next := by
      refine lt_of_le_of_ne hspec.1 fun heq => ?_
      have hbit := h.bit
      rw [heq, hdiff] at hbit
      exact Bool.not_ne_self _ hbit
    refine ⟨⟨next, !s.isValid, l⟩, ?_, ⟨hlt, hdiff, hok⟩, by dsimp only; omega⟩
    simp only [smallTurn, ← hnext, if_pos hlt, ← hl]
  · exact .inr ⟨l, by simp only [smallTurn, ← hnext, if_neg hlt, ← hl], hok⟩

variable (cpc) in
theorem smallDiscards_spec (blkzoned : Bool) (entry : DiscardEntry) :
    ∃ l, smallDiscards cpc blkzoned entry = some l ∧ SmallOk entry l :=
  Loop.run_total (m := fun s : SmallScan => blocksPerSeg - s.curPos) smallTurn_inv
    (⟨Nat.lt_of_sub_eq_succ rfl, rfl, fun _ he => absurd he List.not_mem_nil⟩ : SmallInv entry _)
    (Nat.lt_succ_of_le (Nat.sub_le _ _))

/-- Every small discard is of blocks that one of the entries records. -/
def SmallsOk (entries : List DiscardEntry) (l : List (Nat × Nat)) : Prop :=
  ∀ e ∈ l, ∃ entry ∈ entries, ∀ addr, e.1 ≤ addr → addr < e.1 + e.2 → entry.Records addr

variable (cpc) in
theorem sendEntries_spec (blkzoned : Bool) (entries : List DiscardEntry) (dcc : DiscardCmdControl)
    (l : List (Nat × Nat)) (hall : List DiscardEntry) (hsub : entries ⊆ hall)
    (hl : SmallsOk hall l) :
    ∃ r, entries.foldlM (sendEntry cpc blkzoned) (dcc, l) = some r ∧ SmallsOk hall r.2 ∧
      r.1.entryList = dcc.entryList.drop entries.length := by
  induction entries generalizing dcc l with
  | nil => exact ⟨(dcc, l), rfl, hl, rfl⟩
  | cons entry entries ih =>
    obtain ⟨small, hsmall, hok⟩ := smallDiscards_spec cpc blkzoned entry
    have hl' : SmallsOk hall (l ++ small) := by
      intro e he
      rcases List.mem_append.mp he with he | he
      · exact hl e he
      · exact ⟨entry, hsub List.mem_cons_self, hok e he⟩
    obtain ⟨r, hr, hrok, hrlist⟩ := ih
      { dcc with
        entryList := dcc.entryList.tail
        nrDiscards := dcc.nrDiscards - ((small.map Prod.snd).sum : Nat) }
      (l ++ small) (fun _ h => hsub (List.mem_cons_of_mem _ h)) hl'
    refine ⟨r, ?_, hrok, ?_⟩
    · rw [List.foldlM_cons, sendEntry, hsmall]
      exact hr
    · rw [hrlist, List.drop_tail, List.length_cons]

/-! ## The function -/

variable (sit curseg cpc) in
/-- It always ends, with the count right and the discards allowed; it empties the map
    exactly if nothing is passed over. -/
theorem clearPrefreeSegments_total (blkzoned : Bool) (dcc : DiscardCmdControl)
    (hpre : ∀ i ∈ pre, i < sm.mainSegments) : ∃ fuel r,
    clearPrefreeSegments sm sit curseg cpc blkzoned dcc fuel pre pre.card = some r ∧
      r.nrDirty = r.prefreeMap.card ∧ (∀ e ∈ r.discards, DiscardOk sm sit curseg pre e) ∧
      r.dcc.entryList = [] ∧ SmallsOk dcc.entryList r.small ∧
      (r.prefreeMap = ∅ ↔ NoneSkipped sm cpc pre) := by
  obtain ⟨fuel, d, hrun, hdone⟩ := drain_total sit curseg cpc hpre
  obtain ⟨r, hr, hsmall, hlist⟩ := sendEntries_spec cpc blkzoned dcc.entryList dcc []
    dcc.entryList (List.Subset.refl _) fun _ he => absurd he List.not_mem_nil
  refine ⟨fuel, ⟨d.prefreeMap, d.nrDirty, d.discards, r.1, r.2⟩, ?_, hdone.books.count,
    hdone.books.discards, ?_, hsmall, hdone.empty_iff⟩
  · rw [clearPrefreeSegments, hrun, Option.bind_some, hr, Option.map_some]
  · rw [hlist, List.drop_length]

theorem clearPrefreeSegments_unique {blkzoned : Bool} {dcc : DiscardCmdControl} {n m : Nat}
    {nr : Int} {r r' : Drained}
    (h : clearPrefreeSegments sm sit curseg cpc blkzoned dcc n pre nr = some r)
    (h' : clearPrefreeSegments sm sit curseg cpc blkzoned dcc m pre nr = some r') : r = r' := by
  obtain ⟨d, hd, hr⟩ := Option.bind_eq_some_iff.mp h
  obtain ⟨d', hd', hr'⟩ := Option.bind_eq_some_iff.mp h'
  rw [Loop.run_unique hd hd'] at hr
  exact Option.some.inj (hr.symm.trans hr')

/-- What `clear_prefree_segments` is for. -/
def Drains (sm : SmInfo) (sit : SitInfo) (curseg : CursegType → Nat) (cpc : CpControl)
    (blkzoned : Bool) (dcc : DiscardCmdControl) (pre : Finset Nat) : Prop :=
  ∃ fuel r, clearPrefreeSegments sm sit curseg cpc blkzoned dcc fuel pre pre.card = some r ∧
    r.prefreeMap = ∅ ∧ r.nrDirty = 0 ∧ (∀ e ∈ r.discards, DiscardOk sm sit curseg pre e) ∧
    SmallsOk dcc.entryList r.small

/-- It drains the prefree map exactly if no run that it clears section by section has a
    prefree segment behind it in its last section. -/
theorem clearPrefreeSegments_drains (sm : SmInfo) (sit : SitInfo) (curseg : CursegType → Nat)
    (cpc : CpControl) (blkzoned : Bool) (dcc : DiscardCmdControl) (pre : Finset Nat)
    (hpre : ∀ i ∈ pre, i < sm.mainSegments) :
    Drains sm sit curseg cpc blkzoned dcc pre ↔ NoneSkipped sm cpc pre := by
  obtain ⟨fuel, r, hrun, hcount, hok, -, hsmall, hempty⟩ := clearPrefreeSegments_total
    sit curseg cpc blkzoned dcc hpre
  constructor
  · rintro ⟨fuel', r', hrun', hmap, -⟩
    rw [clearPrefreeSegments_unique hrun' hrun] at hmap
    exact hempty.mp hmap
  · intro hnone
    have hmap := hempty.mpr hnone
    refine ⟨fuel, r, hrun, hmap, ?_, hok, hsmall⟩
    rw [hcount, hmap, Finset.card_empty, Nat.cast_zero]

/-- Two sections of four segments, `DISCARD` and `LFS`. -/
def sectionSm : SmInfo :=
  { smallSm with
    segsPerSec := 4
    totalSections := 2
    discardEn := true
    discardOpt := true
    lfsOpt := true
    segsPerSec_pos := by decide
    sections_eq := by decide }

/-- The logs are in the segments 1, 3, 4, 5, 6 and 7. -/
def sectionCurseg (type : CursegType) : Nat :=
  if type.idx < 2 then 2 * type.idx + 1 else type.idx + 2

theorem sectionSm_drains :
    Drains sectionSm zeroSitInfo sectionCurseg ⟨{ sync := true }, 0, 0, 0⟩ false ⟨[], 0, 0⟩ {0, 2} ↔
      NoneSkipped sectionSm ⟨{ sync := true }, 0, 0, 0⟩ {0, 2} :=
  clearPrefreeSegments_drains sectionSm zeroSitInfo sectionCurseg _ false _ {0, 2} (by decide)

/-- The segments 0 and 2 are prefree: the segment 2 stays in the map. -/
theorem sectionSm_leaves : ¬Drains sectionSm zeroSitInfo sectionCurseg ⟨{ sync := true }, 0, 0, 0⟩
    false ⟨[], 0, 0⟩ {0, 2} := by
  rintro ⟨fuel, r, hrun, hmap, -⟩
  have hleft : (clearPrefreeSegments sectionSm zeroSitInfo sectionCurseg
      ⟨{ sync := true }, 0, 0, 0⟩ false ⟨[], 0, 0⟩ 4 {0, 2} ({0, 2} : Finset Nat).card).any
        (fun r => decide (r.prefreeMap = {2})) = true := by
    decide +kernel
  obtain ⟨r', hr', hdec⟩ := (Option.any_eq_true _ _).mp hleft
  rw [clearPrefreeSegments_unique hrun hr', of_decide_eq_true hdec] at hmap
  exact absurd hmap (by decide)

end F2fs.Segment

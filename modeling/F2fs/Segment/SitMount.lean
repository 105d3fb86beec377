/-
  `build_sit_entries` with the entries that it looks at: the SIT blocks are read in rounds of
  readahead, then the records of the journal are applied.

  The segment number of a record is an index before `check_block_count` sees it, and that
  check compares it with the segments of the whole volume.  How many records there are is
  checked before, by `restore_curseg_summaries`.
-/
import F2fs.Segment.SitCounters

namespace F2fs.Segment

/-! ## The function -/

/-- An access to `sentries[segno]`, or to the entry of the section of a segment. -/
inductive SitAccess where
  | read (segno : Nat)
  | write (segno : Nat)
  | section (segno : Nat)
  deriving DecidableEq, Repr

def SitAccess.segno : SitAccess → Nat
  | .read segno | .write segno | .section segno => segno

/-- The table being built, the accesses so far, and the records of the journal that were
    looked at. -/
structure Loading where
  sit : SitInfo
  accesses : List SitAccess
  records : Nat

/-- Where the function is when it returns; `.error` is `-EINVAL`. -/
def Loading.final : Except Loading Loading → Loading
  | .ok l | .error l => l

def Loading.start : Loading := ⟨zeroSitInfo, [], 0⟩

/-- `SIT_BLK_CNT`. -/
def sitBlkCnt (sm : SmInfo) : Nat := (sm.mainSegments + sitEntryPerBlock - 1) / sitEntryPerBlock

def bioMaxPages : Nat := 256

variable (sm : SmInfo) (trimmed : Bool) (st : SitStore)

/-- `ra_meta_pages` for `META_SIT`: the number behind the last block that is asked for. -/
def raMetaPages : Nat → Nat → Nat
  | 0, blkno => blkno
  | nrpages + 1, blkno =>
    if blkno ≥ sitBlkCnt sm then blkno else raMetaPages nrpages (blkno + 1)

/-- A record taken over into the entry of its segment, and into that of the section. -/
def Loading.take (l : Loading) (segno : Nat) (rs : RawSit) (discard sec : Int) : Loading :=
  { l with
    sit := l.sit.loadSentry sm trimmed segno rs discard sec
    accesses := l.accesses ++
      if sm.segsPerSec > 1 then [.write segno, .section segno] else [.write segno] }

/-- One segment in the first loop. -/
def visitBlockEntry (l : Loading) (start : Nat) : Except Loading Loading :=
  let rs := st.blockEntry sm start
  if checkBlockCount sm start rs then
    .ok (l.take sm trimmed start rs ((blocksPerSeg : Int) - rs.getVblocks) rs.getVblocks)
  else .error l

theorem raMetaPages_eq {n blkno : Nat} (h : blkno ≤ sitBlkCnt sm) :
    raMetaPages sm n blkno = min (blkno + n) (sitBlkCnt sm) := by
  induction n generalizing blkno with
  | zero =>
    rw [raMetaPages]
    omega
  | succ n ih =>
    rw [raMetaPages]
    by_cases hend : blkno ≥ sitBlkCnt sm
    · rw [if_pos hend]
      omega
    · rw [if_neg hend, ih (by omega)]
      omega

/-- `do { } while (start_blk < sit_blk_cnt)`. -/
def readSitBlocks (startBlk : Nat) (l : Loading) : Except Loading Loading :=
  let next := raMetaPages sm bioMaxPages startBlk
  let start := startBlk * sitEntryPerBlock
  match (List.range' start (min (next * sitEntryPerBlock) sm.mainSegments - start)).foldlM
      (visitBlockEntry sm trimmed st) l with
  | .error l => .error l
  | .ok l => if next < sitBlkCnt sm then readSitBlocks next l else .ok l
  termination_by sitBlkCnt sm - startBlk
  decreasing_by
    rename_i hnext
    have hle : startBlk ≤ sitBlkCnt sm := by
      by_contra hgt
      have hstay : raMetaPages sm bioMaxPages startBlk = startBlk := if_pos (by omega)
      omega
    have heq := raMetaPages_eq sm (n := bioMaxPages) hle
    have hpos : 0 < bioMaxPages := by decide
    omega

/-- One record in the second loop; `old_valid_blocks` is read before the check. -/
def visitJournalEntry (l : Loading) (i : Nat) : Except Loading Loading :=
  let start := (st.journal.slot i).1
  let rs := (st.journal.slot i).2
  let oldValidBlocks : Int := (l.sit.sentries start).validBlocks
  let l := { l with accesses := l.accesses ++ [.read start], records := l.records + 1 }
  if checkBlockCount sm start rs then
    .ok (l.take sm trimmed start rs (oldValidBlocks - rs.getVblocks)
      (rs.getVblocks - oldValidBlocks))
  else .error l

/-- The check of the count in `restore_curseg_summaries`, and `build_sit_entries`. -/
def mountSit : Except Loading Loading :=
  if st.journal.n > sitJournalEntries then .error .start
  else (readSitBlocks sm trimmed st 0 .start).bind fun l =>
    (List.range st.journal.n).foldlM (visitJournalEntry sm trimmed st) l

/-! ## The SIT blocks -/

variable {sm trimmed st}

theorem Loading.take_accesses (l : Loading) (segno : Nat) (rs : RawSit) (discard sec : Int) :
    ∀ a ∈ (l.take sm trimmed segno rs discard sec).accesses,
      a ∈ l.accesses ∨ a.segno = segno := by
  intro a ha
  rcases List.mem_append.mp ha with hold | hnew
  · exact .inl hold
  · split at hnew
    · rcases List.mem_cons.mp hnew with rfl | hnew
      · exact .inr rfl
      · rw [List.mem_singleton.mp hnew]
        exact .inr rfl
    · rw [List.mem_singleton.mp hnew]
      exact .inr rfl

theorem Loading.take_keeps (l : Loading) (segno : Nat) (rs : RawSit) (discard sec : Int)
    {a : SitAccess} (ha : a ∈ l.accesses) :
    a ∈ (l.take sm trimmed segno rs discard sec).accesses :=
  List.mem_append_left _ ha

variable (sm trimmed st) in
/-- The first loop adds accesses to the segments that it goes through. -/
theorem visitBlocks_accesses (l : Loading) (segs : List Nat) :
    (∀ a ∈ (Loading.final (segs.foldlM (visitBlockEntry sm trimmed st) l)).accesses,
      a ∈ l.accesses ∨ a.segno ∈ segs) ∧
    (Loading.final (segs.foldlM (visitBlockEntry sm trimmed st) l)).records = l.records := by
  induction segs generalizing l with
  | nil => exact ⟨fun a ha => .inl ha, rfl⟩
  | cons segno segs ih =>
    rw [List.foldlM_cons, visitBlockEntry]
    by_cases hcheck : checkBlockCount sm segno (st.blockEntry sm segno) = true
    · simp only [if_pos hcheck]
      obtain ⟨hacc, hrec⟩ := ih (l.take sm trimmed segno (st.blockEntry sm segno)
        ((blocksPerSeg : Int) - (st.blockEntry sm segno).getVblocks)
        (st.blockEntry sm segno).getVblocks)
      refine ⟨fun a ha => ?_, hrec⟩
      rcases hacc a ha with hold | hsegs
      · exact (Loading.take_accesses l segno _ _ _ a hold).imp_right fun h => by simp [h]
      · exact .inr (List.mem_cons_of_mem _ hsegs)
    · simp only [if_neg hcheck]
      exact ⟨fun a ha => .inl ha, rfl⟩

/-- The rounds together go once through the segments of the main area. -/
theorem readSitBlocks_eq {startBlk : Nat} (hle : startBlk ≤ sitBlkCnt sm) (l : Loading) :
    readSitBlocks sm trimmed st startBlk l =
      (List.range' (startBlk * sitEntryPerBlock)
        (sm.mainSegments - startBlk * sitEntryPerBlock)).foldlM
        (visitBlockEntry sm trimmed st) l := by
  induction hk : sitBlkCnt sm - startBlk using Nat.strong_induction_on
    generalizing startBlk l with
  | _ k ih =>
    have hnext := raMetaPages_eq sm (n := bioMaxPages) hle
    have hpages : bioMaxPages = 256 := rfl
    have hcnt : sitBlkCnt sm = (sm.mainSegments + 55 - 1) / 55 := rfl
    rw [readSitBlocks, show sitEntryPerBlock = 55 from rfl]
    generalize raMetaPages sm bioMaxPages startBlk = next at hnext ⊢
    by_cases hmore : next < sitBlkCnt sm
    · have hsplit : List.range' (startBlk * 55) (next * 55 - startBlk * 55) ++
          List.range' (next * 55) (sm.mainSegments - next * 55) =
          List.range' (startBlk * 55) (sm.mainSegments - startBlk * 55) := by
        have happend : List.range' (startBlk * 55) (next * 55 - startBlk * 55) ++
            List.range' (startBlk * 55 + (next * 55 - startBlk * 55))
              (sm.mainSegments - next * 55) =
            List.range' (startBlk * 55)
              (next * 55 - startBlk * 55 + (sm.mainSegments - next * 55)) :=
          List.range'_append_1
        rw [show startBlk * 55 + (next * 55 - startBlk * 55) = next * 55 by omega] at happend
        have hlen : next * 55 - startBlk * 55 + (sm.mainSegments - next * 55) =
            sm.mainSegments - startBlk * 55 := by omega
        rw [happend, hlen]
      rw [← hsplit, List.foldlM_append, Nat.min_eq_left (by omega)]
      cases (List.range' (startBlk * 55) (next * 55 - startBlk * 55)).foldlM
          (visitBlockEntry sm trimmed st) l with
      | error l' => rfl
      | ok l' =>
        simp only [if_pos hmore]
        exact ih (sitBlkCnt sm - next) (by omega) hmore.le l' rfl
    · rw [Nat.min_eq_right (by omega)]
      cases (List.range' (startBlk * 55) (sm.mainSegments - startBlk * 55)).foldlM
          (visitBlockEntry sm trimmed st) l with
      | error l' => rfl
      | ok l' => exact if_neg hmore

/-- The loop fails only at an entry that the check rejects. -/
theorem visitBlocks_ok {segs : List Nat} {l : Loading} :
    (∃ l', segs.foldlM (visitBlockEntry sm trimmed st) l = .ok l') ↔
      ∀ segno ∈ segs, checkBlockCount sm segno (st.blockEntry sm segno) = true := by
  induction segs generalizing l with
  | nil => exact iff_of_true ⟨l, rfl⟩ nofun
  | cons segno segs ih =>
    rw [List.foldlM_cons, visitBlockEntry, List.forall_mem_cons]
    by_cases hcheck : checkBlockCount sm segno (st.blockEntry sm segno) = true
    · simp only [if_pos hcheck]
      exact ih.trans (and_iff_right hcheck).symm
    · simp only [if_neg hcheck]
      exact iff_of_false (fun ⟨_, h⟩ => nomatch h) fun h => hcheck h.1

/-! ## The journal -/

/-- Record `i` is looked at: the check has accepted those in front of it. -/
def LookedAt (sm : SmInfo) (st : SitStore) (n i : Nat) : Prop :=
  i < n ∧ ∀ j < i, checkBlockCount sm (st.journal.slot j).1 (st.journal.slot j).2 = true

/-- What the second loop has done after `n` records. -/
structure JournalRun (sm : SmInfo) (st : SitStore) (n : Nat) (l : Loading)
    (r : Except Loading Loading) : Prop where
  accesses : ∀ a ∈ (Loading.final r).accesses,
    a ∈ l.accesses ∨ ∃ i, LookedAt sm st n i ∧ a.segno = (st.journal.slot i).1
  reads : ∀ i, LookedAt sm st n i → .read (st.journal.slot i).1 ∈ (Loading.final r).accesses
  records : ∀ i, l.records + i < (Loading.final r).records → LookedAt sm st n i
  ok : ∀ l', r = .ok l' → l'.records = l.records + n ∧
    ∀ i < n, checkBlockCount sm (st.journal.slot i).1 (st.journal.slot i).2 = true
  error : ∀ l', r = .error l' → ∃ i < n,
    checkBlockCount sm (st.journal.slot i).1 (st.journal.slot i).2 = false

theorem LookedAt.mono {n m i : Nat} (h : LookedAt sm st n i) (hnm : n ≤ m) :
    LookedAt sm st m i :=
  ⟨lt_of_lt_of_le h.1 hnm, h.2⟩

/-- What one record does to a run that has come to it. -/
theorem visitJournalEntry_run {l l' : Loading} {n : Nat}
    (h : JournalRun sm st n l (.ok l')) :
    JournalRun sm st (n + 1) l (visitJournalEntry sm trimmed st l' n) := by
  obtain ⟨hrecords, hall⟩ := h.ok l' rfl
  have hlooked : LookedAt sm st (n + 1) n := ⟨Nat.lt_succ_self n, hall⟩
  have haccesses : ∀ a ∈ l'.accesses ++ [.read (st.journal.slot n).1],
      a ∈ l.accesses ∨ ∃ i, LookedAt sm st (n + 1) i ∧ a.segno = (st.journal.slot i).1 := by
    intro a ha
    rcases List.mem_append.mp ha with hold | hnew
    · rcases h.accesses a hold with hl | ⟨i, hi, ha⟩
      · exact .inl hl
      · exact .inr ⟨i, hi.mono (Nat.le_succ n), ha⟩
    · rw [List.mem_singleton.mp hnew]
      exact .inr ⟨n, hlooked, rfl⟩
  have hreads : ∀ i, LookedAt sm st (n + 1) i →
      .read (st.journal.slot i).1 ∈ l'.accesses ++ [.read (st.journal.slot n).1] := by
    intro i hi
    rcases Nat.lt_or_eq_of_le (Nat.le_of_lt_succ hi.1) with hlt | rfl
    · exact List.mem_append_left _ (h.reads i ⟨hlt, hi.2⟩)
    · exact List.mem_append_right _ (List.mem_singleton_self _)
  have hbegun : ∀ i, l.records + i < l'.records + 1 → LookedAt sm st (n + 1) i := by
    intro i hi
    exact ⟨by omega, fun j hj => hall j (by omega)⟩
  unfold visitJournalEntry
  by_cases hcheck : checkBlockCount sm (st.journal.slot n).1 (st.journal.slot n).2 = true
  · simp only [if_pos hcheck]
    refine ⟨fun a ha => ?_, fun i hi => Loading.take_keeps _ _ _ _ _ (hreads i hi), hbegun,
      fun l'' hl => ?_, nofun⟩
    · rcases Loading.take_accesses _ _ _ _ _ a ha with hold | hsegno
      · exact haccesses a hold
      · exact .inr ⟨n, hlooked, hsegno⟩
    · cases hl
      refine ⟨?_, fun i hi => ?_⟩
      · show l'.records + 1 = l.records + (n + 1)
        omega
      · rcases Nat.lt_or_eq_of_le (Nat.le_of_lt_succ hi) with hlt | rfl
        · exact hall i hlt
        · exact hcheck
  · simp only [if_neg hcheck]
    refine ⟨haccesses, hreads, hbegun, nofun, fun l'' hl => ?_⟩
    exact ⟨n, Nat.lt_succ_self n, Bool.eq_false_iff.mpr hcheck⟩

/-- A run that has failed stays where it is. -/
theorem JournalRun.failed {l l' : Loading} {n : Nat} (h : JournalRun sm st n l (.error l')) :
    JournalRun sm st (n + 1) l (.error l') := by
  obtain ⟨k, hk, hcheck⟩ := h.error l' rfl
  refine ⟨fun a ha => ?_, fun i hi => ?_, fun i hi => (h.records i hi).mono (Nat.le_succ n),
    nofun, fun _ _ => ⟨k, Nat.lt_succ_of_lt hk, hcheck⟩⟩
  · rcases h.accesses a ha with hl | ⟨i, hi, hsegno⟩
    · exact .inl hl
    · exact .inr ⟨i, hi.mono (Nat.le_succ n), hsegno⟩
  · rcases Nat.lt_or_eq_of_le (Nat.le_of_lt_succ hi.1) with hlt | rfl
    · exact h.reads i ⟨hlt, hi.2⟩
    · rw [hi.2 k hk] at hcheck
      cases hcheck

variable (sm trimmed st) in
theorem visitJournal_run (l : Loading) (n : Nat) :
    JournalRun sm st n l ((List.range n).foldlM (visitJournalEntry sm trimmed st) l) := by
  induction n with
  | zero =>
    refine ⟨fun a ha => .inl ha, fun i hi => absurd hi.1 (Nat.not_lt_zero i), fun i hi => ?_,
      fun l' hl => ?_, nofun⟩
    · have : l.records + i < l.records := hi
      omega
    · cases hl
      exact ⟨rfl, fun i hi => absurd hi (Nat.not_lt_zero i)⟩
  | succ n ih =>
    rw [List.range_succ, List.foldlM_append]
    cases hrun : (List.range n).foldlM (visitJournalEntry sm trimmed st) l with
    | error l' =>
      rw [hrun] at ih
      exact ih.failed
    | ok l' =>
      rw [hrun] at ih
      show JournalRun sm st (n + 1) l ([n].foldlM (visitJournalEntry sm trimmed st) l')
      have hstep : JournalRun sm st (n + 1) l (visitJournalEntry sm trimmed st l' n) :=
        visitJournalEntry_run ih
      rw [List.foldlM_cons]
      cases hlast : visitJournalEntry sm trimmed st l' n with
      | error l'' => rwa [hlast] at hstep
      | ok l'' => rwa [hlast] at hstep

/-! ## What is accessed -/

/-- The records are vetted: nothing outside of the main area is accessed, a record of such a
    segment is refused, and no more records are looked at than the journal has room for. -/
structure Vetted (sm : SmInfo) (st : SitStore) (r : Except Loading Loading) : Prop where
  inMain : ∀ a ∈ (Loading.final r).accesses, a.segno < sm.mainSegments
  refused : ∀ i < (Loading.final r).records, sm.mainSegments ≤ (st.journal.slot i).1 →
    (∃ l, r = .error l) ∧
      ∀ a ∈ (Loading.final r).accesses, a.segno ≠ (st.journal.slot i).1
  bounded : (Loading.final r).records ≤ sitJournalEntries

/-- If the journal is looked at, each record up to the first one that `check_block_count`
    rejects is of a segment of the main area. -/
def RecordsInMain (sm : SmInfo) (st : SitStore) : Prop :=
  st.journal.n ≤ sitJournalEntries →
    (∀ segno < sm.mainSegments, checkBlockCount sm segno (st.blockEntry sm segno) = true) →
      ∀ i, LookedAt sm st st.journal.n i → (st.journal.slot i).1 < sm.mainSegments

variable (sm trimmed st)

/-- The first loop as one pass over the main area. -/
theorem mountSit_eq (hn : st.journal.n ≤ sitJournalEntries) :
    mountSit sm trimmed st =
      ((List.range sm.mainSegments).foldlM (visitBlockEntry sm trimmed st) .start).bind
        fun l => (List.range st.journal.n).foldlM (visitJournalEntry sm trimmed st) l := by
  rw [mountSit, if_neg (Nat.not_lt.mpr hn), readSitBlocks_eq (Nat.zero_le _), Nat.zero_mul,
    Nat.sub_zero, ← List.range_eq_range']

/-- The records of the journal are vetted exactly if those that are looked at are of the main
    area. -/
theorem mountSit_vetted_iff : Vetted sm st (mountSit sm trimmed st) ↔ RecordsInMain sm st := by
  by_cases hn : st.journal.n ≤ sitJournalEntries
  · obtain ⟨hblocks, hrecords⟩ :=
      visitBlocks_accesses sm trimmed st .start (List.range sm.mainSegments)
    rw [mountSit_eq sm trimmed st hn]
    cases hloop : (List.range sm.mainSegments).foldlM (visitBlockEntry sm trimmed st)
        .start with
    | error l =>
      rw [hloop] at hblocks hrecords
      refine iff_of_true ⟨fun a ha => ?_, fun i hi => ?_, ?_⟩ fun _ hall => ?_
      · exact (hblocks a ha).elim (fun h => nomatch h) List.mem_range.mp
      · have hi' : i < l.records := hi
        have hzero : l.records = 0 := hrecords
        omega
      · have hzero : l.records = 0 := hrecords
        show l.records ≤ _
        omega
      · obtain ⟨l', hl'⟩ := visitBlocks_ok.mpr fun segno hs => hall segno (List.mem_range.mp hs)
        cases hloop.symm.trans hl'
    | ok l =>
      rw [hloop] at hblocks hrecords
      have hall := visitBlocks_ok.mp ⟨l, hloop⟩
      have hrun := visitJournal_run sm trimmed st l st.journal.n
      have hzero : l.records = 0 := hrecords
      show Vetted sm st ((List.range st.journal.n).foldlM (visitJournalEntry sm trimmed st) l) ↔ _
      constructor
      · intro h _ _ i hi
        exact h.inMain _ (hrun.reads i hi)
      · intro h
        have hlooked := h hn fun segno hs => hall segno (List.mem_range.mpr hs)
        have hbegun : ∀ i < (Loading.final ((List.range st.journal.n).foldlM
            (visitJournalEntry sm trimmed st) l)).records, LookedAt sm st st.journal.n i :=
          fun i hi => hrun.records i (by omega)
        refine ⟨fun a ha => ?_, fun i hi hout => ?_, ?_⟩
        · rcases hrun.accesses a ha with hold | ⟨i, hi, hsegno⟩
          · exact (hblocks a hold).elim (fun h => nomatch h) List.mem_range.mp
          · rw [hsegno]
            exact hlooked i hi
        · exact absurd (hlooked i (hbegun i hi)) (Nat.not_lt.mpr hout)
        · by_contra hmany
          have hlast := hbegun st.journal.n (by omega)
          exact absurd hlast.1 (lt_irrefl _)
  · refine iff_of_true ?_ fun h => absurd h hn
    rw [mountSit, if_pos (Nat.lt_of_not_le hn)]
    exact ⟨nofun, nofun, Nat.zero_le _⟩

theorem visitBlocks_sit (l : Loading) (segs : List Nat) :
    (segs.foldlM (visitBlockEntry sm trimmed st) l).toOption.map Loading.sit =
      segs.foldlM (loadBlockEntry sm trimmed st) l.sit := by
  induction segs generalizing l with
  | nil => rfl
  | cons segno segs ih =>
    rw [List.foldlM_cons, List.foldlM_cons, visitBlockEntry, loadBlockEntry]
    by_cases hcheck : checkBlockCount sm segno (st.blockEntry sm segno) = true
    · simp only [if_pos hcheck]
      exact ih _
    · simp only [if_neg hcheck]
      rfl

theorem visitJournal_sit (l : Loading) (is : List Nat) :
    (is.foldlM (visitJournalEntry sm trimmed st) l).toOption.map Loading.sit =
      is.foldlM (loadJournalEntry sm trimmed st) l.sit := by
  induction is generalizing l with
  | nil => rfl
  | cons i is ih =>
    rw [List.foldlM_cons, List.foldlM_cons, visitJournalEntry, loadJournalEntry]
    by_cases hcheck : checkBlockCount sm (st.journal.slot i).1 (st.journal.slot i).2 = true
    · simp only [if_pos hcheck]
      exact ih _
    · simp only [if_neg hcheck]
      rfl

/-- What is built is the table of `build_sit_entries`. -/
theorem mountSit_sit (hn : st.journal.n ≤ sitJournalEntries) :
    (mountSit sm trimmed st).toOption.map Loading.sit = buildSitEntries sm trimmed st := by
  have hblocks := visitBlocks_sit sm trimmed st .start (List.range sm.mainSegments)
  rw [mountSit_eq sm trimmed st hn, buildSitEntries]
  cases hloop : (List.range sm.mainSegments).foldlM (visitBlockEntry sm trimmed st) .start with
  | error l =>
    rw [hloop] at hblocks
    rw [show zeroSitInfo = Loading.start.sit from rfl, ← hblocks]
    rfl
  | ok l =>
    rw [hloop] at hblocks
    rw [show zeroSitInfo = Loading.start.sit from rfl, ← hblocks]
    exact visitJournal_sit sm trimmed st l (List.range st.journal.n)

/-! ## A record behind the main area -/

/-- The journal has one record, of segment 8; the main area has 8 segments, and the volume 18. -/
def strayStore : SitStore :=
  { uniformStore (rawAt 0) with journal := { n := 1, slot := fun _ => (8, rawAt 0) } }

/-- The record is used, and the mount goes on. -/
theorem strayStore_notVetted :
    ¬Vetted smallSm strayStore (mountSit smallSm false strayStore) := by
  have heq := mountSit_eq smallSm false strayStore (by decide)
  intro h
  have hread : SitAccess.write 8 ∈
      (Loading.final (mountSit smallSm false strayStore)).accesses := by
    rw [heq]
    decide +kernel
  exact absurd (h.inMain _ hread) (by decide)

end F2fs.Segment

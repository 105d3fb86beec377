/-
  The lists of dirty segments while the logs move: the books the tables keep, whichever
  segment `locate_dirty_segment`, `new_curseg` or `change_curseg` is called for.

  A segment on a list is in use, is that of no log, and is on the list of all dirty segments.
-/
import F2fs.Segment.SsrRoom

namespace F2fs.Segment

/-! ## The lists -/

namespace DirtySeglist

variable (d : DirtySeglist) {segno t j t' : Nat}

theorem mem_testAndSet : j ∈ (d.testAndSet segno t).dirtySegmap t' ↔
    j ∈ d.dirtySegmap t' ∨ (t' = t ∧ j = segno) := by
  unfold testAndSet
  split
  case isTrue h =>
    refine ⟨Or.inl, fun hj => hj.elim id ?_⟩
    rintro ⟨rfl, rfl⟩
    exact h
  case isFalse =>
    simp only [Function.update_apply]
    split
    case isTrue heq =>
      rw [heq, Finset.mem_insert, or_comm]
      simp only [true_and]
    case isFalse hne =>
      refine ⟨Or.inl, fun hj => hj.elim id fun hc => absurd hc.1 hne⟩

theorem mem_testAndClear : j ∈ (d.testAndClear segno t).dirtySegmap t' ↔
    j ∈ d.dirtySegmap t' ∧ ¬(t' = t ∧ j = segno) := by
  unfold testAndClear
  split
  case isTrue =>
    simp only [Function.update_apply]
    split
    case isTrue heq =>
      rw [heq, Finset.mem_erase, and_comm]
      simp only [true_and, ne_eq]
    case isFalse hne =>
      exact ⟨fun hj => ⟨hj, fun hc => hne hc.1⟩, And.left⟩
  case isFalse h =>
    refine ⟨fun hj => ⟨hj, ?_⟩, And.left⟩
    rintro ⟨rfl, rfl⟩
    exact h hj

theorem testAndSet_victims : (d.testAndSet segno t).victimSecmap = d.victimSecmap := by
  unfold testAndSet
  split <;> rfl

theorem testAndClear_victims : (d.testAndClear segno t).victimSecmap = d.victimSecmap := by
  unfold testAndClear
  split <;> rfl

end DirtySeglist

namespace SegManager

variable (sm : SmInfo) (s : SegManager)

section Lists

variable {segno t j t' : Nat}

theorem locateDirty_curseg (h : s.isCurseg segno = true) : s.locateDirty segno t = s := if_pos h

/-- A segment of no log is put on the list, and on that of its type. -/
theorem mem_locateDirty (h : s.isCurseg segno = false) :
    j ∈ (s.locateDirty segno t).dirty.dirtySegmap t' ↔ j ∈ s.dirty.dirtySegmap t' ∨
      (j = segno ∧ (t' = t ∨
        (t = dirtyAll ∧ (s.sit.sentries segno).type.val < dirtyAll ∧
          t' = (s.sit.sentries segno).type.val))) := by
  unfold locateDirty
  rw [if_neg (by rw [h]; exact Bool.false_ne_true)]
  simp only
  split
  case isTrue hc =>
    rw [DirtySeglist.mem_testAndSet, DirtySeglist.mem_testAndSet]
    tauto
  case isFalse hc =>
    rw [DirtySeglist.mem_testAndSet]
    tauto

theorem mem_removeDirty_pre : j ∈ (s.removeDirty sm segno dirtyPre).dirty.dirtySegmap t' ↔
    j ∈ s.dirty.dirtySegmap t' ∧ ¬(t' = dirtyPre ∧ j = segno) := by
  unfold removeDirty
  rw [if_neg (by decide)]
  exact DirtySeglist.mem_testAndClear _

/-- A segment is taken off the list, and off that of its type. -/
theorem mem_removeDirty_all : j ∈ (s.removeDirty sm segno dirtyAll).dirty.dirtySegmap t' ↔
    j ∈ s.dirty.dirtySegmap t' ∧
      ¬(j = segno ∧ (t' = dirtyAll ∨ t' = (s.sit.sentries segno).type.val)) := by
  unfold removeDirty
  rw [if_pos rfl]
  simp only
  split
  all_goals
    simp only [DirtySeglist.mem_testAndClear]
    tauto

theorem locateDirty_victims :
    (s.locateDirty segno t).dirty.victimSecmap = s.dirty.victimSecmap := by
  unfold locateDirty
  split
  · rfl
  · simp only
    split
    · rw [DirtySeglist.testAndSet_victims, DirtySeglist.testAndSet_victims]
    · rw [DirtySeglist.testAndSet_victims]

/-- The bit of a section without valid blocks is cleared. -/
theorem mem_removeDirty_victims {c : Nat} :
    c ∈ (s.removeDirty sm segno t).dirty.victimSecmap ↔ c ∈ s.dirty.victimSecmap ∧
      ¬(t = dirtyAll ∧ getValidBlocks sm s.sit segno true = 0 ∧ c = getSec sm segno) := by
  unfold removeDirty
  split
  case isTrue ht =>
    simp only
    split
    case isTrue hzero =>
      rw [Finset.mem_erase, DirtySeglist.testAndClear_victims, DirtySeglist.testAndClear_victims]
      tauto
    case isFalse hne =>
      rw [DirtySeglist.testAndClear_victims, DirtySeglist.testAndClear_victims]
      tauto
  case isFalse ht =>
    rw [DirtySeglist.testAndClear_victims]
    tauto

theorem removeDirty_victims :
    (s.removeDirty sm segno t).dirty.victimSecmap ⊆ s.dirty.victimSecmap :=
  fun _ hc => ((mem_removeDirty_victims sm s).mp hc).1

end Lists

/-! ## The books -/

/-- What holds of the tables whichever block is written next. -/
structure Books : Prop where
  logMain : ∀ type, (s.curseg type).segno < sm.mainSegments
  logInUse : ∀ type, (s.curseg type).segno ∈ s.free.freeSegmap
  apart : ∀ {t t'}, (s.curseg t).segno = (s.curseg t').segno → t = t'
  counted : ∀ k < sm.mainSegments, (s.sit.sentries k).Counted
  sections : SecCounted sm s.sit
  unused : ∀ k < sm.mainSegments, k ∉ s.free.freeSegmap →
    ∀ i < blocksPerSeg, (s.sit.sentries k).FreeAt i
  segmap : SegmapOk sm s.free
  dirtyMain : ∀ t, s.dirty.dirtySegmap t ⊆ Finset.range sm.mainSegments
  dirtyInUse : s.dirty.dirtySegmap dirtyAll ⊆ s.free.freeSegmap
  dirtyLog : ∀ type, (s.curseg type).segno ∉ s.dirty.dirtySegmap dirtyAll
  lists : ∀ {t k}, t < dirtyAll → k ∈ s.dirty.dirtySegmap t →
    k ∈ s.dirty.dirtySegmap dirtyAll ∧ (s.sit.sentries k).type.val = t
  victims : s.dirty.victimSecmap ⊆ Finset.range sm.totalSections

/-- The next block of a log is free; by LFS all blocks behind it are. -/
structure LogRoom (s : SegManager) (type : CursegType) : Prop where
  room : s.HasRoom type
  ahead : (s.curseg type).allocType = AllocMode.LFS →
    ∀ i, (s.curseg type).nextBlkoff ≤ i → i < blocksPerSeg →
      (s.sit.sentries (s.curseg type).segno).FreeAt i

/-- No dirty segment but perhaps `k` is empty. -/
def DirtyValid (s : SegManager) (k : Option Nat) : Prop :=
  ∀ j ∈ s.dirty.dirtySegmap dirtyAll, some j ≠ k → (s.sit.sentries j).validBlocks ≠ 0

structure BooksOk : Prop extends Books sm s where
  rooms : ∀ type, s.LogRoom type
  dirtyValid : s.DirtyValid none

section

variable {sm s}

/-- A segment with a valid block is in use. -/
theorem Books.inUse (h : Books sm s) {k : Nat} (hk : k < sm.mainSegments)
    (hvalid : (s.sit.sentries k).validBlocks ≠ 0) : k ∈ s.free.freeSegmap := by
  by_contra hfree
  have hempty : (s.sit.sentries k).curValidMap = ∅ := by
    refine Finset.eq_empty_of_forall_notMem fun offset hmem => ?_
    obtain ⟨j, hj, hnot⟩ := h.unused k hk hfree offset.val offset.isLt
    obtain rfl := Fin.ext hj
    exact hnot (Finset.mem_union_right _ hmem)
  rw [(h.counted k hk).valid, hempty, Finset.card_empty] at hvalid
  exact hvalid rfl

theorem isCurseg_iff {segno : Nat} : s.isCurseg segno = true ↔
    ∃ type, (s.curseg type).segno = segno := by
  unfold isCurseg
  rw [List.any_eq_true]
  constructor
  · rintro ⟨type, -, h⟩
    exact ⟨type, (of_decide_eq_true h).symm⟩
  · rintro ⟨type, h⟩
    exact ⟨type, CursegType.mem_all type, decide_eq_true h.symm⟩

/-- The books are about the segments of the logs, the maps and the lists. -/
theorem Books.ofDirty (h : Books sm s) (d : DirtySeglist)
    (hmain : ∀ t, d.dirtySegmap t ⊆ Finset.range sm.mainSegments)
    (huse : d.dirtySegmap dirtyAll ⊆ s.free.freeSegmap)
    (hlog : ∀ type, (s.curseg type).segno ∉ d.dirtySegmap dirtyAll)
    (hlists : ∀ {t k}, t < dirtyAll → k ∈ d.dirtySegmap t →
      k ∈ d.dirtySegmap dirtyAll ∧ (s.sit.sentries k).type.val = t)
    (hvictims : d.victimSecmap ⊆ s.dirty.victimSecmap) : Books sm { s with dirty := d } where
  logMain := h.logMain
  logInUse := h.logInUse
  apart := h.apart
  counted := h.counted
  sections := h.sections
  unused := h.unused
  segmap := h.segmap
  dirtyMain := hmain
  dirtyInUse := huse
  dirtyLog := hlog
  lists := hlists
  victims := hvictims.trans h.victims

/-! ## `locate_dirty_segment` -/

theorem removeDirty_eq (segno t : Nat) :
    s.removeDirty sm segno t = { s with dirty := (s.removeDirty sm segno t).dirty } := by
  unfold removeDirty
  split <;> rfl

theorem locateDirty_eq (segno t : Nat) :
    s.locateDirty segno t = { s with dirty := (s.locateDirty segno t).dirty } := by
  unfold locateDirty
  split <;> rfl

theorem locateDirtySegment_eq (segno : Nat) :
    s.locateDirtySegment sm segno =
      { s with dirty := (s.locateDirtySegment sm segno).dirty } := by
  unfold locateDirtySegment
  split
  · rfl
  · dsimp only
    split
    · rw [removeDirty_eq, locateDirty_eq]
    · split
      · exact locateDirty_eq segno dirtyAll
      · exact removeDirty_eq segno dirtyAll

theorem getValidBlocks_seg (sit : SitInfo) (segno : Nat) :
    getValidBlocks sm sit segno false = ((sit.sentries segno).validBlocks : Int) :=
  if_neg fun hc => Bool.false_ne_true hc.1

/-- A segment of a log stays off the lists; another one is dirty if it has both valid blocks
    and room. -/
theorem locateDirtySegment_cases {segno : Nat} (hseg : segno < sm.mainSegments) :
    (s.isCurseg segno = true ∧ s.locateDirtySegment sm segno = s) ∨
    (s.isCurseg segno = false ∧
      (((s.sit.sentries segno).validBlocks = 0 ∧ s.locateDirtySegment sm segno =
          (s.locateDirty segno dirtyPre).removeDirty sm segno dirtyAll) ∨
        ((s.sit.sentries segno).validBlocks ≠ 0 ∧
          (s.sit.sentries segno).validBlocks < blocksPerSeg ∧
          s.locateDirtySegment sm segno = s.locateDirty segno dirtyAll) ∨
        (blocksPerSeg ≤ (s.sit.sentries segno).validBlocks ∧
          s.locateDirtySegment sm segno = s.removeDirty sm segno dirtyAll))) := by
  have hnull : segno ≠ nullSegno := Nat.ne_of_lt (Nat.lt_trans hseg (mainSegments_lt_nullSegno sm))
  unfold locateDirtySegment
  cases hcur : s.isCurseg segno with
  | true => exact Or.inl ⟨rfl, if_pos (Or.inr rfl)⟩
  | false =>
    rw [if_neg (not_or.mpr ⟨hnull, Bool.false_ne_true⟩)]
    refine Or.inr ⟨rfl, ?_⟩
    simp only [getValidBlocks_seg]
    by_cases hzero : (s.sit.sentries segno).validBlocks = 0
    · exact Or.inl ⟨hzero, if_pos (by omega)⟩
    · rw [if_neg (by omega)]
      by_cases hfull : (s.sit.sentries segno).validBlocks < blocksPerSeg
      · exact Or.inr (Or.inl ⟨hzero, hfull, if_pos (by omega)⟩)
      · exact Or.inr (Or.inr ⟨Nat.not_lt.mp hfull, if_neg (by omega)⟩)

/-- Other segments stay as they were; this one is dirty if it may be. -/
theorem mem_locateDirtySegment (h : Books sm s) {segno : Nat} (hseg : segno < sm.mainSegments)
    {j : Nat} : j ∈ (s.locateDirtySegment sm segno).dirty.dirtySegmap dirtyAll ↔
      (j ≠ segno ∧ j ∈ s.dirty.dirtySegmap dirtyAll) ∨
      (j = segno ∧ s.isCurseg segno = false ∧ (s.sit.sentries segno).validBlocks ≠ 0 ∧
        (s.sit.sentries segno).validBlocks < blocksPerSeg) := by
  rcases locateDirtySegment_cases (s := s) hseg with
    ⟨hcur, heq⟩ | ⟨hcur, ⟨hzero, heq⟩ | ⟨hne, hlt, heq⟩ | ⟨hfull, heq⟩⟩
  · rw [heq]
    obtain ⟨type, htype⟩ := isCurseg_iff.mp hcur
    constructor
    · intro hj
      refine Or.inl ⟨?_, hj⟩
      rintro rfl
      exact h.dirtyLog type (htype ▸ hj)
    · rintro (⟨-, hj⟩ | ⟨-, hc, -⟩)
      · exact hj
      · rw [hcur] at hc
        cases hc
  · rw [heq, mem_removeDirty_all, mem_locateDirty s hcur]
    have hpre : dirtyAll ≠ dirtyPre := by decide
    constructor
    · rintro ⟨hj, hne⟩
      have hne : j ≠ segno := fun hc => hne ⟨hc, Or.inl rfl⟩
      exact Or.inl ⟨hne, hj.resolve_right fun hc => hne hc.1⟩
    · rintro (⟨hne, hj⟩ | ⟨-, -, hc, -⟩)
      · exact ⟨Or.inl hj, fun hc => hne hc.1⟩
      · exact absurd hzero hc
  · rw [heq, mem_locateDirty s hcur]
    constructor
    · intro hj
      by_cases hjs : j = segno
      · exact Or.inr ⟨hjs, hcur, hne, hlt⟩
      · exact Or.inl ⟨hjs, hj.resolve_right fun hc => hjs hc.1⟩
    · rintro (⟨-, hj⟩ | ⟨hjs, -⟩)
      · exact Or.inl hj
      · exact Or.inr ⟨hjs, Or.inl rfl⟩
  · rw [heq, mem_removeDirty_all]
    constructor
    · rintro ⟨hj, hne⟩
      exact Or.inl ⟨fun hc => hne ⟨hc, Or.inl rfl⟩, hj⟩
    · rintro (⟨hne, hj⟩ | ⟨-, -, -, hc⟩)
      · exact ⟨hj, fun hc => hne hc.1⟩
      · exact absurd hc (Nat.not_lt.mpr hfull)

theorem Books.removeDirty (h : Books sm s) (segno : Nat) :
    Books sm (s.removeDirty sm segno dirtyAll) := by
  rw [removeDirty_eq]
  have hsub : ∀ {t j}, j ∈ (s.removeDirty sm segno dirtyAll).dirty.dirtySegmap t →
      j ∈ s.dirty.dirtySegmap t := fun hj => ((mem_removeDirty_all sm s).mp hj).1
  refine h.ofDirty _ (fun t j hj => h.dirtyMain t (hsub hj)) (fun j hj => h.dirtyInUse (hsub hj))
    (fun type hj => h.dirtyLog type (hsub hj)) (fun {t k} ht hk => ?_) (removeDirty_victims sm s)
  obtain ⟨hkt, hne⟩ := (mem_removeDirty_all sm s).mp hk
  obtain ⟨hall, htype⟩ := h.lists ht hkt
  refine ⟨(mem_removeDirty_all sm s).mpr ⟨hall, fun hc => hne ⟨hc.1, Or.inr ?_⟩⟩, htype⟩
  rw [← hc.1]
  exact htype.symm

theorem Books.removeDirty_pre (h : Books sm s) (segno : Nat) :
    Books sm (s.removeDirty sm segno dirtyPre) := by
  rw [removeDirty_eq]
  have hmem : ∀ {t j}, t ≠ dirtyPre →
      (j ∈ (s.removeDirty sm segno dirtyPre).dirty.dirtySegmap t ↔ j ∈ s.dirty.dirtySegmap t) :=
    fun ht => (mem_removeDirty_pre sm s).trans ⟨And.left, fun hj => ⟨hj, fun hc => ht hc.1⟩⟩
  have hpre : dirtyAll ≠ dirtyPre := by decide
  refine h.ofDirty _ (fun t j hj => h.dirtyMain t ((mem_removeDirty_pre sm s).mp hj).1)
    (fun j hj => h.dirtyInUse ((hmem hpre).mp hj))
    (fun type hj => h.dirtyLog type ((hmem hpre).mp hj)) (fun {t k} ht hk => ?_)
    (removeDirty_victims sm s)
  have ht' : t ≠ dirtyPre := Nat.ne_of_lt (Nat.lt_trans ht (by decide))
  obtain ⟨hall, htype⟩ := h.lists ht ((hmem ht').mp hk)
  exact ⟨(hmem hpre).mpr hall, htype⟩

theorem Books.locatePre (h : Books sm s) {segno : Nat} (hseg : segno < sm.mainSegments) :
    Books sm (s.locateDirty segno dirtyPre) := by
  cases hcur : s.isCurseg segno with
  | true => rwa [locateDirty_curseg s hcur]
  | false =>
    rw [locateDirty_eq]
    have hpre : dirtyPre ≠ dirtyAll := by decide
    have hmem : ∀ {t j}, t ≠ dirtyPre →
        (j ∈ (s.locateDirty segno dirtyPre).dirty.dirtySegmap t ↔ j ∈ s.dirty.dirtySegmap t) :=
      fun ht => (mem_locateDirty s hcur).trans
        ⟨fun hj => hj.elim id fun hc => hc.2.elim (fun heq => absurd heq ht)
          fun hc => absurd hc.1 hpre, Or.inl⟩
    refine h.ofDirty _ (fun t j hj => ?_) (fun j hj => h.dirtyInUse ((hmem hpre.symm).mp hj))
      (fun type hj => h.dirtyLog type ((hmem hpre.symm).mp hj)) (fun {t k} ht hk => ?_)
      (locateDirty_victims s).subset
    · rcases (mem_locateDirty s hcur).mp hj with hj | ⟨rfl, -⟩
      · exact h.dirtyMain t hj
      · exact Finset.mem_range.mpr hseg
    · have ht' : t ≠ dirtyPre := Nat.ne_of_lt (Nat.lt_trans ht (by decide))
      obtain ⟨hall, htype⟩ := h.lists ht ((hmem ht').mp hk)
      exact ⟨(hmem hpre.symm).mpr hall, htype⟩

theorem Books.locateAll (h : Books sm s) {segno : Nat} (hseg : segno < sm.mainSegments)
    (hvalid : (s.sit.sentries segno).validBlocks ≠ 0) :
    Books sm (s.locateDirty segno dirtyAll) := by
  cases hcur : s.isCurseg segno with
  | true => rwa [locateDirty_curseg s hcur]
  | false =>
    rw [locateDirty_eq]
    have hmem := fun {t j} => (mem_locateDirty s hcur :
        j ∈ (s.locateDirty segno dirtyAll).dirty.dirtySegmap t ↔ _)
    refine h.ofDirty _ (fun t j hj => ?_) (fun j hj => ?_) (fun type hj => ?_)
      (fun {t k} ht hk => ?_) (locateDirty_victims s).subset
    · rcases hmem.mp hj with hj | ⟨rfl, -⟩
      · exact h.dirtyMain t hj
      · exact Finset.mem_range.mpr hseg
    · rcases hmem.mp hj with hj | ⟨rfl, -⟩
      · exact h.dirtyInUse hj
      · exact h.inUse hseg hvalid
    · rcases hmem.mp hj with hj | ⟨heq, -⟩
      · exact h.dirtyLog type hj
      · rw [isCurseg_iff.mpr ⟨type, heq⟩] at hcur
        cases hcur
    · rcases hmem.mp hk with hk | ⟨rfl, htype⟩
      · obtain ⟨hall, htype⟩ := h.lists ht hk
        exact ⟨hmem.mpr (Or.inl hall), htype⟩
      · refine ⟨hmem.mpr (Or.inr ⟨rfl, Or.inl rfl⟩), ?_⟩
        rcases htype with rfl | ⟨-, -, heq⟩
        · exact absurd ht (Nat.lt_irrefl _)
        · exact heq.symm

theorem Books.locateDirtySegment (h : Books sm s) {segno : Nat} (hseg : segno < sm.mainSegments) :
    Books sm (s.locateDirtySegment sm segno) := by
  rcases locateDirtySegment_cases (s := s) hseg with
    ⟨-, heq⟩ | ⟨-, ⟨-, heq⟩ | ⟨hne, -, heq⟩ | ⟨-, heq⟩⟩
  · rwa [heq]
  · rw [heq]
    exact (h.locatePre hseg).removeDirty segno
  · rw [heq]
    exact h.locateAll hseg hne
  · rw [heq]
    exact h.removeDirty segno

theorem locateDirtySegment_victims {segno : Nat} (hseg : segno < sm.mainSegments) :
    (s.locateDirtySegment sm segno).dirty.victimSecmap ⊆ s.dirty.victimSecmap := by
  rcases locateDirtySegment_cases (s := s) hseg with
    ⟨-, heq⟩ | ⟨-, ⟨-, heq⟩ | ⟨-, -, heq⟩ | ⟨-, heq⟩⟩
  · rw [heq]
  · rw [heq]
    exact (removeDirty_victims sm _).trans (locateDirty_victims s).subset
  · rw [heq]
    exact (locateDirty_victims s).subset
  · rw [heq]
    exact removeDirty_victims sm s

/-- A section with valid blocks keeps its bit. -/
theorem locateDirtySegment_keeps {segno c : Nat} (hseg : segno < sm.mainSegments)
    (hc : c ∈ s.dirty.victimSecmap)
    (hne : getSec sm segno = c → getValidBlocks sm s.sit segno true ≠ 0) :
    c ∈ (s.locateDirtySegment sm segno).dirty.victimSecmap := by
  rcases locateDirtySegment_cases (s := s) hseg with
    ⟨-, heq⟩ | ⟨-, ⟨-, heq⟩ | ⟨-, -, heq⟩ | ⟨-, heq⟩⟩
  · rwa [heq]
  · rw [heq, mem_removeDirty_victims, locateDirty_victims, locateDirty_eq]
    exact ⟨hc, fun hclear => hne hclear.2.2.symm hclear.2.1⟩
  · rwa [heq, locateDirty_victims]
  · rw [heq, mem_removeDirty_victims]
    exact ⟨hc, fun hclear => hne hclear.2.2.symm hclear.2.1⟩

/-- A section that counts no valid blocks has none. -/
theorem Books.empty (h : Books sm s) {segno k : Nat} (hseg : segno < sm.mainSegments)
    (hzero : getValidBlocks sm s.sit segno true = 0) (hk : k < sm.mainSegments)
    (hsec : getSec sm k = getSec sm segno) : (s.sit.sentries k).curValidMap = ∅ := by
  suffices hvalid : (s.sit.sentries k).validBlocks = 0 by
    rw [(h.counted k hk).valid] at hvalid
    exact Finset.card_eq_zero.mp hvalid
  unfold getValidBlocks at hzero
  split at hzero
  case isTrue hc =>
    rw [h.sections hc.2 _ (getSec_lt hseg)] at hzero
    have hall := (Finset.sum_eq_zero_iff_of_nonneg fun i _ => Int.natCast_nonneg _).mp hzero
    exact Int.natCast_eq_zero.mp (hall k ((mem_secSegments hk).mpr hsec))
  case isFalse hc =>
    have hone : sm.segsPerSec = 1 := by
      have hpos := sm.segsPerSec_pos
      simp only [true_and] at hc
      omega
    unfold getSec at hsec
    rw [hone, Nat.div_one, Nat.div_one] at hsec
    rw [hsec]
    exact Int.natCast_eq_zero.mp hzero

/-! ## Moving a log -/

theorem isCurseg_false_iff {segno : Nat} : s.isCurseg segno = false ↔
    ∀ type, (s.curseg type).segno ≠ segno := by
  rw [← Bool.not_eq_true, isCurseg_iff, not_exists]

/-- A log goes to a segment in use that is on no list. -/
theorem Books.moveLog (h : Books sm s) {u : SegManager} {type : CursegType} {m : Nat} {x : Fin 64}
    (hm : m < sm.mainSegments) (huse : m ∈ s.free.freeSegmap)
    (hdirty : m ∉ s.dirty.dirtySegmap dirtyAll) (hlog : ∀ t, (s.curseg t).segno ≠ m)
    (hsegno : (u.curseg type).segno = m) (hother : ∀ t, t ≠ type → u.curseg t = s.curseg t)
    (hsit : u.sit.sentries =
      Function.update s.sit.sentries m { s.sit.sentries m with type := x })
    (hsec : u.sit.secEntries = s.sit.secEntries)
    (hfree : u.free = s.free) (hsame : u.dirty = s.dirty) : Books sm u := by
  have hentry : ∀ k, (u.sit.sentries k).Counted = (s.sit.sentries k).Counted ∧
      (u.sit.sentries k).FreeAt = (s.sit.sentries k).FreeAt ∧
      (u.sit.sentries k).validBlocks = (s.sit.sentries k).validBlocks := by
    intro k
    rw [hsit, Function.update_apply]
    split
    case isTrue heq =>
      rw [heq]
      exact ⟨propext ⟨fun hc => ⟨hc.1, hc.2⟩, fun hc => ⟨hc.1, hc.2⟩⟩, rfl, rfl⟩
    case isFalse => exact ⟨rfl, rfl, rfl⟩
  have hcases : ∀ t, (t = type ∧ (u.curseg t).segno = m) ∨
      (t ≠ type ∧ (u.curseg t).segno = (s.curseg t).segno) := by
    intro t
    by_cases ht : t = type
    · exact Or.inl ⟨ht, ht ▸ hsegno⟩
    · exact Or.inr ⟨ht, congrArg Curseg.segno (hother t ht)⟩
  refine ⟨fun t => ?_, fun t => ?_, fun {t t'} heq => ?_, fun k hk => ?_,
    h.sections.congr hsec fun k => (hentry k).2.2, fun k hk hfr => ?_, ?_, ?_, ?_, fun t => ?_,
    fun {t k} ht hk => ?_, ?_⟩
  · rcases hcases t with ⟨-, ht⟩ | ⟨-, ht⟩
    · rwa [ht]
    · rw [ht]
      exact h.logMain t
  · rw [hfree]
    rcases hcases t with ⟨-, ht⟩ | ⟨-, ht⟩
    · rwa [ht]
    · rw [ht]
      exact h.logInUse t
  · rcases hcases t with ⟨ht, hseg⟩ | ⟨-, hseg⟩
    · rcases hcases t' with ⟨ht', -⟩ | ⟨-, hseg'⟩
      · exact ht.trans ht'.symm
      · exact absurd (hseg'.symm.trans (heq.symm.trans hseg)) (hlog t')
    · rcases hcases t' with ⟨-, hseg'⟩ | ⟨-, hseg'⟩
      · exact absurd (hseg.symm.trans (heq.trans hseg')) (hlog t)
      · exact h.apart (hseg.symm.trans (heq.trans hseg'))
  · rw [(hentry k).1]
    exact h.counted k hk
  · rw [hfree] at hfr
    rw [(hentry k).2.1]
    exact h.unused k hk hfr
  · rw [hfree]
    exact h.segmap
  · rw [hsame]
    exact h.dirtyMain
  · rw [hsame, hfree]
    exact h.dirtyInUse
  · rw [hsame]
    rcases hcases t with ⟨-, ht⟩ | ⟨-, ht⟩
    · rwa [ht]
    · rw [ht]
      exact h.dirtyLog t
  · rw [hsame] at hk ⊢
    obtain ⟨hall, htype⟩ := h.lists ht hk
    refine ⟨hall, ?_⟩
    rw [hsit, Function.update_of_ne fun hc : k = m => hdirty (hc ▸ hall)]
    exact htype
  · rw [hsame]
    exact h.victims

theorem Books.ofLogs (h : Books sm s) {u : SegManager}
    (hsegno : ∀ t, (u.curseg t).segno = (s.curseg t).segno)
    (hsit : u.sit = s.sit) (hfree : u.free = s.free) (hdirty : u.dirty = s.dirty) :
    Books sm u where
  logMain t := by rw [hsegno]; exact h.logMain t
  logInUse t := by rw [hsegno, hfree]; exact h.logInUse t
  apart heq := h.apart (by rwa [hsegno, hsegno] at heq)
  counted := by rw [hsit]; exact h.counted
  sections := by rw [hsit]; exact h.sections
  unused := by rw [hsit, hfree]; exact h.unused
  segmap := by rw [hfree]; exact h.segmap
  dirtyMain := by rw [hdirty]; exact h.dirtyMain
  dirtyInUse := by rw [hdirty, hfree]; exact h.dirtyInUse
  dirtyLog t := by rw [hsegno, hdirty]; exact h.dirtyLog t
  lists := by rw [hdirty, hsit]; exact h.lists
  victims := by rw [hdirty]; exact h.victims

/-- Where a log was moved, and what stayed. -/
structure LogMoved (s u : SegManager) (type : CursegType) (m : Nat) : Prop where
  segno : (u.curseg type).segno = m
  other : ∀ t, t ≠ type → u.curseg t = s.curseg t
  sentries : ∃ x : Fin 64, u.sit.sentries =
    Function.update s.sit.sentries m { s.sit.sentries m with type := x }
  secEntries : u.sit.secEntries = s.sit.secEntries
  ssa : u.ssa = Function.update s.ssa (s.curseg type).segno (s.curseg type).sumBlk
  inUse : s.free.freeSecmap ⊆ u.free.freeSecmap

theorem LogMoved.sentry {u : SegManager} {type : CursegType} {m : Nat} (h : LogMoved s u type m)
    (k : Nat) : (u.sit.sentries k).curValidMap = (s.sit.sentries k).curValidMap ∧
      (u.sit.sentries k).ckptValidMap = (s.sit.sentries k).ckptValidMap ∧
      (u.sit.sentries k).validBlocks = (s.sit.sentries k).validBlocks := by
  obtain ⟨x, hsit⟩ := h.sentries
  rw [hsit, Function.update_apply]
  split
  case isTrue heq =>
    rw [heq]
    exact ⟨rfl, rfl, rfl⟩
  case isFalse => exact ⟨rfl, rfl, rfl⟩

theorem LogMoved.freeAt {u : SegManager} {type : CursegType} {m : Nat} (h : LogMoved s u type m)
    (k i : Nat) : (u.sit.sentries k).FreeAt i ↔ (s.sit.sentries k).FreeAt i := by
  obtain ⟨hcur, hckpt, -⟩ := h.sentry k
  unfold SegEntry.FreeAt
  rw [hcur, hckpt]

/-- The other logs keep their room. -/
theorem LogMoved.room {u : SegManager} {type t : CursegType} {m : Nat} (h : LogMoved s u type m)
    (ht : t ≠ type) (hroom : s.LogRoom t) : u.LogRoom t where
  room := by
    unfold HasRoom
    rw [h.freeAt, h.other t ht]
    exact hroom.room
  ahead := by
    rw [h.other t ht]
    exact fun hlfs i hi hlt => (h.freeAt _ i).mpr (hroom.ahead hlfs i hi hlt)

theorem setInuse_freeSecmap_le (f : FreeSegmapInfo) (segno : Nat) :
    f.freeSecmap ⊆ (f.setInuse sm segno).freeSecmap := fun c hc => by
  rw [FreeSegmapInfo.setInuse, mem_useSection]
  exact Or.inr hc

/-- `new_curseg`. -/
theorem newCurseg_spec (h : Books sm s) {s' : SegManager} {type : CursegType} {newSec : Bool}
    (hnew : s.newCurseg sm type newSec = some s') :
    ∃ m, Books sm s' ∧ LogMoved s s' type m ∧ s'.LogRoom type ∧
      (s'.curseg type).allocType = AllocMode.LFS ∧ (s'.curseg type).nextBlkoff = 0 ∧
      s'.dirty = s.dirty ∧ m < sm.mainSegments ∧ m ∉ s.free.freeSegmap ∧
      (getSec sm m = getSec sm (s.curseg type).segno ∨ getSec sm m ∉ s.free.freeSecmap) := by
  unfold newCurseg at hnew
  obtain ⟨⟨m, free⟩, hget, hs'⟩ := Option.map_eq_some_iff.mp hnew
  simp only at hget hs'
  have hpos : 0 < sm.mainSegments := Nat.lt_of_le_of_lt (Nat.zero_le _) (h.logMain type)
  set dir := if type = CursegType.warmData ∨ type = CursegType.coldData ∨ sm.noheapOpt = true
    then AllocDir.right else AllocDir.left with hdir
  set hint := (s.writeSumPage (s.curseg type).sumBlk (s.curseg type).segno).getNextSegno sm type
    with hhint
  have hmulti : sm.segsPerSec ≠ 1 → hint = (s.curseg type).segno := fun hne => if_pos hne
  have hleft : dir = AllocDir.left → hint < sm.mainSegments := by
    intro hd
    by_cases hone : sm.segsPerSec = 1
    · have htype : type = CursegType.hotData ∨ type.isNodeSeg = true := by
        rw [hdir] at hd
        cases type with
        | hotData => exact Or.inl rfl
        | warmData => rw [if_pos (Or.inl rfl)] at hd; cases hd
        | coldData => rw [if_pos (Or.inr (Or.inl rfl))] at hd; cases hd
        | hotNode => exact Or.inr rfl
        | warmNode => exact Or.inr rfl
        | coldNode => exact Or.inr rfl
      have hzero : hint = 0 := by
        rw [hhint]
        unfold getNextSegno
        rw [if_neg (not_not.mpr hone), if_pos htype]
      rwa [hzero]
    · rw [hmulti hone]
      exact h.logMain type
  obtain ⟨hmain, hfree, hinuse⟩ := getNewSegment_some h.segmap
    (fun hc => hc.elim (fun hne => (hmulti hne).symm ▸ h.logMain type) hleft) hget
  have hsection := getNewSegment_section hleft hget
  have hlog : ∀ t, (s.curseg t).segno ≠ m := fun t heq => hfree (heq ▸ h.logInUse t)
  -- the log as `reset_curseg` finds it
  set u := ({ s.writeSumPage (s.curseg type).sumBlk (s.curseg type).segno with free := free } :
    SegManager).setCurseg type { s.curseg type with nextSegno := m } with hu
  have hnext : (u.curseg type).nextSegno = m := congrArg Curseg.nextSegno (setCurseg_self _ type _)
  have hs'' : s' = (u.resetCurseg sm type true).setCurseg type
      { (u.resetCurseg sm type true).curseg type with allocType := AllocMode.LFS } := hs'.symm
  have hreset : ((u.resetCurseg sm type true).curseg type).segno = m ∧
      ((u.resetCurseg sm type true).curseg type).nextBlkoff = 0 := by
    unfold resetCurseg
    exact ⟨(congrArg Curseg.segno (setCurseg_self _ type _)).trans hnext,
      congrArg Curseg.nextBlkoff (setCurseg_self _ type _)⟩
  have hlogType : s'.curseg type =
      { (u.resetCurseg sm type true).curseg type with allocType := AllocMode.LFS } := by
    rw [hs'', setCurseg_self]
  have hsitSame : s'.sit = s.sit.setSitEntryType type m true := by
    have hsit : (u.resetCurseg sm type true).sit =
        s.sit.setSitEntryType type (u.curseg type).nextSegno true := rfl
    rw [hs'', ← hnext]
    exact hsit
  have hfreeSame : s'.free = s.free.setInuse sm m := by
    rw [hs'', ← hinuse]
    rfl
  have hmoved : LogMoved s s' type m := by
    refine ⟨?_, fun t ht => ?_, ⟨Fin.ofNat 64 type.idx, ?_⟩, ?_, ?_, ?_⟩
    · rw [hlogType]
      exact hreset.1
    · rw [hs'', setCurseg_ne _ _ ht]
      exact (setCurseg_ne _ _ ht).trans (setCurseg_ne _ _ ht)
    · rw [hsitSame]
      exact setSitEntryType_sentries s.sit type m true
    · rw [hsitSame]
      exact setSitEntryType_secEntries s.sit type m true
    · rw [hs'']
      rfl
    · rw [hfreeSame]
      exact setInuse_freeSecmap_le s.free m
  have hdirtySame : s'.dirty = s.dirty := by
    rw [hs'']
    rfl
  have hbooks : Books sm { s with free := s.free.setInuse sm m } := by
    have hsub : ∀ {k}, k ∈ s.free.freeSegmap → k ∈ (s.free.setInuse sm m).freeSegmap := fun hk => by
      rw [setInuse_freeSegmap]
      exact Finset.mem_insert_of_mem hk
    exact ⟨h.logMain, fun t => hsub (h.logInUse t), h.apart, h.counted, h.sections,
      fun k hk hfr => h.unused k hk fun hc => hfr (hsub hc), h.segmap.setInuse m, h.dirtyMain,
      fun k hk => hsub (h.dirtyInUse hk), h.dirtyLog, h.lists, h.victims⟩
  obtain ⟨x, hsit⟩ := hmoved.sentries
  have hentry : ∀ i < blocksPerSeg, (s'.sit.sentries m).FreeAt i :=
    fun i hi => (hmoved.freeAt m i).mpr (h.unused m hmain hfree i hi)
  have hblkoff : (s'.curseg type).nextBlkoff = 0 := by
    rw [hlogType]
    exact hreset.2
  refine ⟨m, ?_, hmoved, ⟨?_, fun _ i _ hi => ?_⟩, ?_, hblkoff, hdirtySame, hmain, hfree, ?_⟩
  · refine hbooks.moveLog hmain ?_ (fun hc => hfree (h.dirtyInUse hc)) hlog hmoved.segno
      hmoved.other hsit hmoved.secEntries hfreeSame hdirtySame
    rw [setInuse_freeSegmap]
    exact Finset.mem_insert_self _ _
  · unfold HasRoom
    rw [hmoved.segno, hblkoff]
    exact hentry 0 (by decide)
  · rw [hmoved.segno]
    exact hentry i hi
  · rw [hlogType]
  · refine hsection.imp (fun hc => ?_) id
    rw [hc.2, hmulti hc.1]

/-- `change_curseg` to a dirty segment with a free block. -/
theorem changeCurseg_spec (h : Books sm s) (type : CursegType) {m i : Nat}
    (hm : m ∈ s.dirty.dirtySegmap dirtyAll) (hi : (s.sit.sentries m).FreeAt i) :
    let u := (s.setCurseg type { s.curseg type with nextSegno := m }).changeCurseg sm type
    Books sm u ∧ LogMoved s u type m ∧ u.LogRoom type ∧
      (u.curseg type).allocType = AllocMode.SSR ∧
      u.dirty.dirtySegmap dirtyAll = (s.dirty.dirtySegmap dirtyAll).erase m ∧
      u.dirty.victimSecmap ⊆ s.dirty.victimSecmap ∧
      (∀ c ∈ s.dirty.victimSecmap, c ≠ getSec sm m → c ∈ u.dirty.victimSecmap) := by
  intro u
  have hmain : m < sm.mainSegments := Finset.mem_range.mp (h.dirtyMain _ hm)
  obtain ⟨hsegno, halloc, hroom⟩ := changeCurseg_to sm type hi
  set v := s.setCurseg type { s.curseg type with nextSegno := m } with hv
  have hvself : v.curseg type = { s.curseg type with nextSegno := m } := setCurseg_self _ _ _
  have hnext : (v.curseg type).nextSegno = m := congrArg Curseg.nextSegno hvself
  have hvlog : ∀ t, (v.curseg t).segno = (s.curseg t).segno := by
    intro t
    by_cases ht : t = type
    · rw [ht, hvself]
    · exact congrArg Curseg.segno (setCurseg_ne _ _ ht)
  -- the state in which the segment is taken off the lists
  set w : SegManager := { v.writeSumPage (v.curseg type).sumBlk (v.curseg type).segno with
    free := s.free.setTestAndInuse sm m } with hw
  set x := (w.removeDirty sm m dirtyPre).removeDirty sm m dirtyAll with hx
  have hinuse : w.free = s.free := if_pos (h.dirtyInUse hm)
  have hxeq : x = { w with dirty := x.dirty } := by
    rw [hx, removeDirty_eq, removeDirty_eq (s := w)]
  have hudirty : u.dirty = x.dirty := by
    rw [hx, hw, ← hnext]
    rfl
  have hufree : u.free = x.free := by
    rw [hx, hw, ← hnext]
    rfl
  have hbooks : Books sm w := h.ofLogs hvlog rfl hinuse rfl
  have hxbooks : Books sm x := (hbooks.removeDirty_pre m).removeDirty m
  have hmem : ∀ {j t}, t ≠ dirtyPre → (j ∈ x.dirty.dirtySegmap t ↔ j ∈ s.dirty.dirtySegmap t ∧
      ¬(j = m ∧ (t = dirtyAll ∨ t = (s.sit.sentries m).type.val))) := by
    intro j t ht
    rw [hx, mem_removeDirty_all, mem_removeDirty_pre, removeDirty_eq]
    constructor
    · exact fun hj => ⟨hj.1.1, hj.2⟩
    · exact fun hj => ⟨⟨hj.1, fun hc => ht hc.1⟩, hj.2⟩
  have hmoved : LogMoved s u type m := by
    refine ⟨hsegno, fun t ht => ?_, ⟨Fin.ofNat 64 type.idx, ?_⟩, ?_, ?_, ?_⟩
    · exact (changeCurseg_ne sm v type ht).trans (setCurseg_ne _ _ ht)
    · rw [changeCurseg_sit, hnext]
      exact setSitEntryType_sentries s.sit type m true
    · rw [changeCurseg_sit, hnext]
      exact setSitEntryType_secEntries s.sit type m true
    · have hssa := changeCurseg_ssa sm v type
      rw [hvlog] at hssa
      rw [hssa, hvself]
      rfl
    · rw [hufree, hxeq]
      exact (congrArg FreeSegmapInfo.freeSecmap hinuse).ge
  obtain ⟨y, hsit⟩ := hmoved.sentries
  refine ⟨?_, hmoved, ⟨hroom, fun hlfs => ?_⟩, halloc, ?_, ?_, fun c hc hne => ?_⟩
  · refine hxbooks.moveLog (x := y) hmain ?_ ?_ ?_ hsegno (fun t ht => ?_) ?_ ?_
      hufree hudirty
    · rw [hxeq]
      exact hinuse ▸ h.dirtyInUse hm
    · exact fun hc => ((hmem (by decide)).mp hc).2 ⟨rfl, Or.inl rfl⟩
    · intro t heq
      rw [hxeq] at heq
      exact h.dirtyLog t ((hvlog t).symm.trans heq ▸ hm)
    · rw [hxeq]
      exact changeCurseg_ne sm v type ht
    · rw [hxeq]
      exact hsit
    · rw [hxeq]
      exact hmoved.secEntries
  · rw [halloc] at hlfs
    cases hlfs
  · ext j
    rw [hudirty, hmem (by decide), Finset.mem_erase, and_comm]
    exact and_congr_left fun _ => not_congr ⟨And.left, fun hj => ⟨hj, Or.inl rfl⟩⟩
  · rw [hudirty, hx]
    exact (removeDirty_victims sm _).trans (removeDirty_victims sm w)
  · rw [hudirty, hx, mem_removeDirty_victims, mem_removeDirty_victims]
    exact ⟨⟨hc, fun hclear => hne hclear.2.2⟩, fun hclear => hne hclear.2.2⟩

end

end SegManager

end F2fs.Segment

/-
  The free segment and section maps (`struct free_segmap_info`).

  As in the source a bit that is set means "in use".  `SegmapOk` is what keeps the two
  maps together: a section is in use exactly if one of its segments is.
-/
import F2fs.Lib.BitScan
import F2fs.Segment.Sit

namespace F2fs.Segment

/-- `struct free_segmap_info`. -/
structure FreeSegmapInfo where
  freeSegments : Int
  freeSections : Int
  freeSegmap : Finset Nat
  freeSecmap : Finset Nat

variable (sm : SmInfo)

/-- `GET_SEG_FROM_SEC`. -/
def segFromSec (secno : Nat) : Nat := secno * sm.segsPerSec

/-- `find_next_bit` finds no segment in use in the section of `segno`. -/
def sectionUnused (segmap : Finset Nat) (segno : Nat) : Bool :=
  let startSegno := segFromSec sm (getSec sm segno)
  decide (BitScan.next (fun i => decide (i ∈ segmap)) (startSegno + sm.segsPerSec) startSegno ≥
    startSegno + sm.segsPerSec)

namespace FreeSegmapInfo

variable (f : FreeSegmapInfo)

/-- `__set_free`. -/
def setFree (segno : Nat) : FreeSegmapInfo :=
  let secno := getSec sm segno
  let segmap := f.freeSegmap.erase segno
  if sectionUnused sm segmap segno then
    { freeSegmap := segmap
      freeSegments := f.freeSegments + 1
      freeSecmap := f.freeSecmap.erase secno
      freeSections := f.freeSections + 1 }
  else
    { f with freeSegmap := segmap, freeSegments := f.freeSegments + 1 }

/-- The section half of `__set_inuse` and `__set_test_and_inuse`. -/
def useSection (secno : Nat) : FreeSegmapInfo :=
  if secno ∈ f.freeSecmap then f
  else { f with freeSecmap := insert secno f.freeSecmap, freeSections := f.freeSections - 1 }

/-- `__set_inuse`. -/
def setInuse (segno : Nat) : FreeSegmapInfo :=
  useSection
    { f with freeSegmap := insert segno f.freeSegmap, freeSegments := f.freeSegments - 1 }
    (getSec sm segno)

/-- `__set_test_and_free`. -/
def setTestAndFree (segno : Nat) : FreeSegmapInfo :=
  if segno ∈ f.freeSegmap then
    let secno := getSec sm segno
    let segmap := f.freeSegmap.erase segno
    let f := { f with freeSegmap := segmap, freeSegments := f.freeSegments + 1 }
    if sectionUnused sm segmap segno ∧ secno ∈ f.freeSecmap then
      { f with freeSecmap := f.freeSecmap.erase secno, freeSections := f.freeSections + 1 }
    else f
  else f

/-- `__set_test_and_inuse`. -/
def setTestAndInuse (segno : Nat) : FreeSegmapInfo :=
  if segno ∈ f.freeSegmap then f else f.setInuse sm segno

end FreeSegmapInfo

/-- `build_free_segmap`: everything is in use until `init_free_segmap` has looked. -/
def buildFreeSegmap : FreeSegmapInfo where
  freeSegments := 0
  freeSections := 0
  freeSegmap := Finset.range sm.mainSegments
  freeSecmap := Finset.range sm.totalSections

/-- One segment in the first loop of `init_free_segmap`. -/
def initFreeSegment (acc : SitInfo × FreeSegmapInfo) (start : Nat) :
    SitInfo × FreeSegmapInfo :=
  let (sit, f) := acc
  let validBlocks := (sit.sentries start).validBlocks
  if validBlocks = 0 then (sit, f.setFree sm start)
  else ({ sit with writtenValidBlocks := sit.writtenValidBlocks + validBlocks }, f)

/-- `init_free_segmap`, with the segments of the logs. -/
def initFreeSegmap (sit : SitInfo) (f : FreeSegmapInfo) (curseg : CursegType → Nat) :
    SitInfo × FreeSegmapInfo :=
  let acc := (List.range sm.mainSegments).foldl (initFreeSegment sm) (sit, f)
  (acc.1, CursegType.all.foldl (fun f type => f.setTestAndInuse sm (curseg type)) acc.2)

/-! ## Consistency -/

variable {sm}

/-- A section is in use exactly if one of its segments is. -/
def SegmapOk (sm : SmInfo) (f : FreeSegmapInfo) : Prop :=
  ∀ secno < sm.totalSections,
    secno ∈ f.freeSecmap ↔ ∃ segno ∈ f.freeSegmap, getSec sm segno = secno

/-- The segments of a section. -/
theorem getSec_eq_iff {segno secno : Nat} : getSec sm segno = secno ↔
    segFromSec sm secno ≤ segno ∧ segno < segFromSec sm secno + sm.segsPerSec := by
  have hpos := sm.segsPerSec_pos
  unfold getSec segFromSec
  constructor
  · rintro rfl
    have h1 := Nat.div_mul_le_self segno sm.segsPerSec
    have h2 := Nat.lt_div_mul_add (a := segno) hpos
    exact ⟨h1, h2⟩
  · rintro ⟨h1, h2⟩
    apply le_antisymm
    · rw [← Nat.lt_succ_iff, Nat.div_lt_iff_lt_mul hpos, Nat.succ_mul]
      exact h2
    · rwa [Nat.le_div_iff_mul_le hpos]

theorem sectionUnused_iff {segmap : Finset Nat} {segno : Nat} :
    sectionUnused sm segmap segno = true ↔
      ∀ i ∈ segmap, getSec sm i ≠ getSec sm segno := by
  unfold sectionUnused
  rw [decide_eq_true_eq]
  constructor
  · intro h i hi hsec
    obtain ⟨h1, h2⟩ := getSec_eq_iff.mp hsec
    have hlt := BitScan.next_lt_of_match (p := fun i => decide (i ∈ segmap)) h1 h2
      (decide_eq_true hi)
    exact absurd hlt (Nat.not_lt.mpr h)
  · intro h
    by_contra hlt
    obtain ⟨h1, h2, -⟩ := BitScan.next_spec (Nat.lt_of_not_ge hlt)
    apply h _ (of_decide_eq_true h2)
    exact getSec_eq_iff.mpr ⟨h1, Nat.lt_of_not_ge hlt⟩

@[simp] theorem useSection_freeSegmap (f : FreeSegmapInfo) (secno : Nat) :
    (f.useSection secno).freeSegmap = f.freeSegmap := by
  unfold FreeSegmapInfo.useSection
  split <;> rfl

theorem mem_useSection (f : FreeSegmapInfo) (secno k : Nat) :
    k ∈ (f.useSection secno).freeSecmap ↔ k = secno ∨ k ∈ f.freeSecmap := by
  unfold FreeSegmapInfo.useSection
  split
  case isTrue h =>
    constructor
    · exact Or.inr
    · rintro (rfl | hk)
      · exact h
      · exact hk
  case isFalse => exact Finset.mem_insert

@[simp] theorem setInuse_freeSegmap (f : FreeSegmapInfo) (segno : Nat) :
    (f.setInuse sm segno).freeSegmap = insert segno f.freeSegmap :=
  useSection_freeSegmap _ _

@[simp] theorem setTestAndInuse_freeSegmap (f : FreeSegmapInfo) (segno : Nat) :
    (f.setTestAndInuse sm segno).freeSegmap = insert segno f.freeSegmap := by
  unfold FreeSegmapInfo.setTestAndInuse
  split
  case isTrue h => exact (Finset.insert_eq_of_mem h).symm
  case isFalse => exact setInuse_freeSegmap f segno

@[simp] theorem setFree_freeSegmap (f : FreeSegmapInfo) (segno : Nat) :
    (f.setFree sm segno).freeSegmap = f.freeSegmap.erase segno := by
  unfold FreeSegmapInfo.setFree
  simp only
  split <;> rfl

@[simp] theorem setTestAndFree_freeSegmap (f : FreeSegmapInfo) (segno : Nat) :
    (f.setTestAndFree sm segno).freeSegmap = f.freeSegmap.erase segno := by
  unfold FreeSegmapInfo.setTestAndFree
  simp only
  split
  case isTrue => split <;> rfl
  case isFalse h => exact (Finset.erase_eq_of_notMem h).symm

theorem SegmapOk.setInuse {f : FreeSegmapInfo} (h : SegmapOk sm f) (segno : Nat) :
    SegmapOk sm (f.setInuse sm segno) := by
  intro secno hsec
  rw [setInuse_freeSegmap, FreeSegmapInfo.setInuse, mem_useSection]
  constructor
  · rintro (rfl | hk)
    · exact ⟨segno, Finset.mem_insert_self _ _, rfl⟩
    · obtain ⟨i, hi, his⟩ := (h secno hsec).mp hk
      exact ⟨i, Finset.mem_insert_of_mem hi, his⟩
  · rintro ⟨i, hi, his⟩
    rcases Finset.mem_insert.mp hi with rfl | hi
    · exact Or.inl his.symm
    · exact Or.inr ((h secno hsec).mpr ⟨i, hi, his⟩)

/-- Freeing a segment frees its section if it was the last one in use. -/
theorem SegmapOk.setTestAndFree {f : FreeSegmapInfo} (h : SegmapOk sm f) (segno : Nat) :
    SegmapOk sm (f.setTestAndFree sm segno) := by
  intro secno hsec
  by_cases hin : segno ∈ f.freeSegmap
  swap
  · rw [FreeSegmapInfo.setTestAndFree, if_neg hin]
    exact h secno hsec
  rw [setTestAndFree_freeSegmap]
  by_cases hunused : sectionUnused sm (f.freeSegmap.erase segno) segno = true
  · have hall := sectionUnused_iff.mp hunused
    have hmem : secno ∈ (f.setTestAndFree sm segno).freeSecmap ↔
        secno ∈ f.freeSecmap.erase (getSec sm segno) := by
      unfold FreeSegmapInfo.setTestAndFree
      rw [if_pos hin]
      simp only [hunused, true_and]
      split
      case isTrue => exact Iff.rfl
      case isFalse hnot => rw [Finset.erase_eq_of_notMem hnot]
    rw [hmem, Finset.mem_erase, h secno hsec]
    constructor
    · rintro ⟨hne, i, hi, his⟩
      exact ⟨i, Finset.mem_erase.mpr ⟨fun heq => hne (heq ▸ his.symm), hi⟩, his⟩
    · rintro ⟨i, hi, his⟩
      exact ⟨fun heq => hall i hi (his.trans heq), i, Finset.mem_of_mem_erase hi, his⟩
  · have hmem : (f.setTestAndFree sm segno).freeSecmap = f.freeSecmap := by
      unfold FreeSegmapInfo.setTestAndFree
      rw [if_pos hin]
      simp only [hunused]
      rfl
    obtain ⟨j, hj, hjs⟩ : ∃ j ∈ f.freeSegmap.erase segno, getSec sm j = getSec sm segno := by
      by_contra hno
      push Not at hno
      exact hunused (sectionUnused_iff.mpr hno)
    rw [hmem, h secno hsec]
    constructor
    · rintro ⟨i, hi, his⟩
      by_cases heq : i = segno
      · exact ⟨j, hj, hjs.trans (heq ▸ his)⟩
      · exact ⟨i, Finset.mem_erase.mpr ⟨heq, hi⟩, his⟩
    · rintro ⟨i, hi, his⟩
      exact ⟨i, Finset.mem_of_mem_erase hi, his⟩

end F2fs.Segment

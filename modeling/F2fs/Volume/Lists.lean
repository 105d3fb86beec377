/-
  The lists of dirty segments against the SIT: a segment in use that is that of no log is
  dirty if it has valid and invalid blocks, and prefree if it has none that are valid.

  A write changes the count of two segments, and a log that moves leaves one behind;
  `locate_dirty_segment` is called for these, so that every segment is where it belongs
  again (`Lists.locate`).
-/
import F2fs.Volume.State

namespace F2fs.Volume

open F2fs.Segment F2fs.Gc
open SegManager (isCurseg_iff isCurseg_false_iff mem_locateDirty mem_removeDirty_pre
  mem_removeDirty_all locateDirtySegment_cases)

/-! ## Where a segment belongs -/

/-- The segment is in use, and is that of no log. -/
def Left (s : SegManager) (k : Nat) : Prop := k ∈ s.free.freeSegmap ∧ s.isCurseg k = false

/-- The segment is on the lists it belongs on. -/
structure Listed (s : SegManager) (k : Nat) : Prop where
  dirty : k ∈ s.dirty.dirtySegmap dirtyAll ↔ Left s k ∧ (s.sit.sentries k).validBlocks ≠ 0 ∧
    (s.sit.sentries k).validBlocks < blocksPerSeg
  pre : k ∈ s.dirty.dirtySegmap dirtyPre ↔ Left s k ∧ (s.sit.sentries k).validBlocks = 0

/-- Every segment but those in `but` is on the lists it belongs on. -/
structure Lists (sm : SmInfo) (s : SegManager) (but : Finset Nat) : Prop where
  listed : ∀ k < sm.mainSegments, k ∉ but → Listed s k
  pre : ∀ k ∈ s.dirty.dirtySegmap dirtyPre, Left s k ∧ (s.sit.sentries k).validBlocks = 0
  preMain : s.dirty.dirtySegmap dirtyPre ⊆ Finset.range sm.mainSegments
  byType : ∀ k ∈ s.dirty.dirtySegmap dirtyAll,
    k ∈ s.dirty.dirtySegmap (s.sit.sentries k).type.val
  types : ∀ k < sm.mainSegments, (s.sit.sentries k).type.val < dirtyAll
  count : ∀ t, s.dirty.nrDirty t = ((s.dirty.dirtySegmap t).card : Int)

section

variable {sm : SmInfo} {s u : SegManager} {but : Finset Nat}

theorem Lists.mono {but' : Finset Nat} (h : Lists sm s but) (hsub : but ⊆ but') :
    Lists sm s but' where
  listed k hk hnot := h.listed k hk fun hc => hnot (hsub hc)
  pre := h.pre
  preMain := h.preMain
  byType := h.byType
  types := h.types
  count := h.count

/-! ## The counts -/

theorem testAndSet_count {d : DirtySeglist} (h : ∀ t, d.nrDirty t = ((d.dirtySegmap t).card : Int))
    (segno t : Nat) (t' : Nat) : (d.testAndSet segno t).nrDirty t' =
      (((d.testAndSet segno t).dirtySegmap t').card : Int) := by
  unfold DirtySeglist.testAndSet
  split
  case isTrue => exact h t'
  case isFalse hnot =>
    simp only [Function.update_apply]
    split
    case isTrue =>
      rw [Finset.card_insert_of_notMem hnot, h t]
      push_cast
      rfl
    case isFalse => exact h t'

theorem testAndClear_count {d : DirtySeglist}
    (h : ∀ t, d.nrDirty t = ((d.dirtySegmap t).card : Int)) (segno t : Nat) (t' : Nat) :
    (d.testAndClear segno t).nrDirty t' =
      (((d.testAndClear segno t).dirtySegmap t').card : Int) := by
  unfold DirtySeglist.testAndClear
  split
  case isTrue hin =>
    simp only [Function.update_apply]
    split
    case isTrue =>
      have hcard := Finset.card_erase_add_one hin
      rw [h t]
      omega
    case isFalse => exact h t'
  case isFalse => exact h t'

theorem locateDirty_count (h : ∀ t, s.dirty.nrDirty t = ((s.dirty.dirtySegmap t).card : Int))
    (segno t t' : Nat) : (s.locateDirty segno t).dirty.nrDirty t' =
      (((s.locateDirty segno t).dirty.dirtySegmap t').card : Int) := by
  unfold SegManager.locateDirty
  split
  · exact h t'
  · simp only
    split
    · exact testAndSet_count (testAndSet_count h segno t) segno _ t'
    · exact testAndSet_count h segno t t'

theorem removeDirty_count (h : ∀ t, s.dirty.nrDirty t = ((s.dirty.dirtySegmap t).card : Int))
    (segno t t' : Nat) : (s.removeDirty sm segno t).dirty.nrDirty t' =
      (((s.removeDirty sm segno t).dirty.dirtySegmap t').card : Int) := by
  unfold SegManager.removeDirty
  simp only
  split
  · split
    · exact testAndClear_count (testAndClear_count h segno t) segno _ t'
    · exact testAndClear_count (testAndClear_count h segno t) segno _ t'
  · exact testAndClear_count h segno t t'

/-! ## `locate_dirty_segment` -/

theorem locateDirtySegment_count
    (h : ∀ t, s.dirty.nrDirty t = ((s.dirty.dirtySegmap t).card : Int)) {k : Nat}
    (hk : k < sm.mainSegments) (t : Nat) : (s.locateDirtySegment sm k).dirty.nrDirty t =
      (((s.locateDirtySegment sm k).dirty.dirtySegmap t).card : Int) := by
  rcases locateDirtySegment_cases (s := s) hk with
    ⟨-, heq⟩ | ⟨-, ⟨-, heq⟩ | ⟨-, -, heq⟩ | ⟨-, heq⟩⟩
  · rw [heq]
    exact h t
  · rw [heq]
    exact removeDirty_count (locateDirty_count h k dirtyPre) k dirtyAll t
  · rw [heq]
    exact locateDirty_count h k dirtyAll t
  · rw [heq]
    exact removeDirty_count h k dirtyAll t

/-- The prefree list: the segment is put on it if it has no valid block. -/
theorem mem_pre_locateDirtySegment (hlists : Lists sm s but) {k j : Nat}
    (hk : k < sm.mainSegments) :
    j ∈ (s.locateDirtySegment sm k).dirty.dirtySegmap dirtyPre ↔
      j ∈ s.dirty.dirtySegmap dirtyPre ∨
        (j = k ∧ s.isCurseg k = false ∧ (s.sit.sentries k).validBlocks = 0) := by
  have htype : ∀ {j : Nat}, j < sm.mainSegments → dirtyPre ≠ (s.sit.sentries j).type.val :=
    fun hj hc => absurd (hlists.types _ hj) (hc ▸ by decide)
  have hne : dirtyPre ≠ dirtyAll := by decide
  rcases locateDirtySegment_cases (s := s) hk with
    ⟨hcur, heq⟩ | ⟨hcur, ⟨hzero, heq⟩ | ⟨hval, -, heq⟩ | ⟨hfull, heq⟩⟩
  · rw [heq, hcur]
    exact ⟨Or.inl, fun hj => hj.elim id fun hc => Bool.noConfusion hc.2.1⟩
  · rw [heq, mem_removeDirty_all, mem_locateDirty s hcur]
    have hsit : (s.locateDirty k dirtyPre).sit = s.sit :=
      (SegManager.sameButDirty_locateDirty s k dirtyPre).2.1
    rw [hsit]
    constructor
    · rintro ⟨hj | ⟨rfl, -⟩, -⟩
      · exact Or.inl hj
      · exact Or.inr ⟨rfl, hcur, hzero⟩
    · rintro (hj | ⟨rfl, -⟩)
      · exact ⟨Or.inl hj, fun hc => hc.2.elim hne (htype hk)⟩
      · exact ⟨Or.inr ⟨rfl, Or.inl rfl⟩, fun hc => hc.2.elim hne (htype hk)⟩
  · rw [heq, mem_locateDirty s hcur]
    constructor
    · rintro (hj | ⟨-, hc | ⟨-, -, hc⟩⟩)
      · exact Or.inl hj
      · exact absurd hc hne
      · exact absurd hc (htype hk)
    · rintro (hj | ⟨-, -, hzero⟩)
      · exact Or.inl hj
      · exact absurd hzero hval
  · rw [heq, mem_removeDirty_all]
    constructor
    · exact fun hj => Or.inl hj.1
    · rintro (hj | ⟨-, -, hzero⟩)
      · exact ⟨hj, fun hc => hc.2.elim hne (htype hk)⟩
      · rw [hzero] at hfull
        exact absurd hfull (by decide)

/-- The lists by type: the segment is on that of its type if it is dirty. -/
theorem byType_locateDirtySegment (hbooks : SegManager.Books sm s) (hlists : Lists sm s but)
    {k j : Nat} (hk : k < sm.mainSegments)
    (hj : j ∈ (s.locateDirtySegment sm k).dirty.dirtySegmap dirtyAll) :
    j ∈ (s.locateDirtySegment sm k).dirty.dirtySegmap (s.sit.sentries j).type.val := by
  have hmem := (SegManager.mem_locateDirtySegment hbooks hk).mp hj
  rcases locateDirtySegment_cases (s := s) hk with
    ⟨hcur, heq⟩ | ⟨hcur, ⟨hzero, heq⟩ | ⟨hval, -, heq⟩ | ⟨hfull, heq⟩⟩
  · rw [heq] at hj ⊢
    exact hlists.byType j hj
  · rcases hmem with ⟨hne, hold⟩ | ⟨-, -, hc, -⟩
    · rw [heq, mem_removeDirty_all, mem_locateDirty s hcur]
      exact ⟨Or.inl (hlists.byType j hold), fun hc => hne hc.1⟩
    · exact absurd hzero hc
  · rw [heq, mem_locateDirty s hcur]
    rcases hmem with ⟨-, hold⟩ | ⟨rfl, -⟩
    · exact Or.inl (hlists.byType j hold)
    · exact Or.inr ⟨rfl, Or.inr ⟨rfl, hlists.types j hk, rfl⟩⟩
  · rcases hmem with ⟨hne, hold⟩ | ⟨-, -, -, hc⟩
    · rw [heq, mem_removeDirty_all]
      exact ⟨hlists.byType j hold, fun hc => hne hc.1⟩
    · exact absurd hc (Nat.not_lt.mpr hfull)

/-- The call puts the segment where it belongs. -/
theorem Lists.locate (hlists : Lists sm s but) (hbooks : SegManager.Books sm s) {k : Nat}
    (hk : k < sm.mainSegments) (hin : k ∈ s.free.freeSegmap) :
    Lists sm (s.locateDirtySegment sm k) (but.erase k) := by
  obtain ⟨hlogs, hsit, -, hfree⟩ := SegManager.locateDirtySegment_same sm s k
  have hcur : ∀ j, (s.locateDirtySegment sm k).isCurseg j = s.isCurseg j := fun j => by
    unfold SegManager.isCurseg
    rw [hlogs]
  have hleft : ∀ j, Left (s.locateDirtySegment sm k) j ↔ Left s j := fun j => by
    unfold Left
    rw [hcur, hfree]
  refine ⟨fun j hj hnot => ⟨?_, ?_⟩, fun j hj => ?_, fun j hj => ?_, fun j hj => ?_, ?_,
    locateDirtySegment_count hlists.count hk⟩
  · rw [SegManager.mem_locateDirtySegment hbooks hk, hleft, hsit]
    by_cases hjk : j = k
    · subst hjk
      constructor
      · rintro (⟨hc, -⟩ | ⟨-, hc, hval⟩)
        · exact absurd rfl hc
        · exact ⟨⟨hin, hc⟩, hval⟩
      · exact fun hc => Or.inr ⟨rfl, hc.1.2, hc.2⟩
    · have hold := (hlists.listed j hj fun hc => hnot (Finset.mem_erase.mpr ⟨hjk, hc⟩)).dirty
      rw [← hold]
      exact ⟨fun hc => hc.elim And.right fun hc => absurd hc.1 hjk, fun hc => Or.inl ⟨hjk, hc⟩⟩
  · rw [mem_pre_locateDirtySegment hlists hk, hleft, hsit]
    by_cases hjk : j = k
    · subst hjk
      constructor
      · rintro (hc | ⟨-, hc, hzero⟩)
        · exact hlists.pre j hc
        · exact ⟨⟨hin, hc⟩, hzero⟩
      · exact fun hc => Or.inr ⟨rfl, hc.1.2, hc.2⟩
    · have hold := (hlists.listed j hj fun hc => hnot (Finset.mem_erase.mpr ⟨hjk, hc⟩)).pre
      rw [← hold]
      exact ⟨fun hc => hc.elim id fun hc => absurd hc.1 hjk, Or.inl⟩
  · rw [hleft, hsit]
    rcases (mem_pre_locateDirtySegment hlists hk).mp hj with hj | ⟨rfl, hc, hzero⟩
    · exact hlists.pre j hj
    · exact ⟨⟨hin, hc⟩, hzero⟩
  · rcases (mem_pre_locateDirtySegment hlists hk).mp hj with hj | ⟨rfl, -⟩
    · exact hlists.preMain hj
    · exact Finset.mem_range.mpr hk
  · rw [hsit]
    exact byType_locateDirtySegment hbooks hlists hk hj
  · rw [hsit]
    exact hlists.types

end

end F2fs.Volume

/-
  `free_segments` and `free_sections` count the clear bits of the two maps.

  `__set_free` and `__set_inuse` move the counters without looking at the segment's bit;
  their callers see to it that the bit really changes: a mount starts from maps that are
  all set and frees no segment twice, and `get_new_segment` asserts that the segment it has
  found is free.  The two helpers with `test` in their names need no such care.
-/
import F2fs.Lib.OptionFold
import F2fs.Segment.NewSegment

namespace F2fs.Segment

/-- An operation on the maps, with its arguments. -/
inductive SegmapOp where
  | setFree (segno : Nat)
  | setInuse (segno : Nat)
  | getNewSegment (zones : CursegType → Nat) (newseg : Nat) (newSec : Bool) (dir : AllocDir)
  | setTestAndFree (segno : Nat)
  | setTestAndInuse (segno : Nat)

section

variable (sm : SmInfo) (f : FreeSegmapInfo)

/-- One operation; `get_new_segment` may end in one of its `f2fs_bug_on`s. -/
def SegmapOp.run : SegmapOp → Option FreeSegmapInfo
  | .setFree segno => some (f.setFree sm segno)
  | .setInuse segno => some (f.setInuse sm segno)
  | .getNewSegment zones newseg newSec dir =>
    (Segment.getNewSegment sm f zones newseg newSec dir).map Prod.snd
  | .setTestAndFree segno => some (f.setTestAndFree sm segno)
  | .setTestAndInuse segno => some (f.setTestAndInuse sm segno)

/-- The operation is on a main segment. -/
def SegmapOp.OnMain : SegmapOp → Prop
  | .setFree segno | .setInuse segno | .setTestAndFree segno | .setTestAndInuse segno =>
    segno < sm.mainSegments
  | .getNewSegment _ newseg _ dir =>
    sm.segsPerSec ≠ 1 ∨ dir = AllocDir.left → newseg < sm.mainSegments

/-- What the callers of the two helpers without a test see to. -/
def SegmapOp.Changes : SegmapOp → Prop
  | .setFree segno => segno ∈ f.freeSegmap
  | .setInuse segno => segno ∉ f.freeSegmap
  | _ => True

instance (op : SegmapOp) : Decidable (op.OnMain sm) := by
  unfold SegmapOp.OnMain
  cases op <;> infer_instance

instance (op : SegmapOp) : Decidable (op.Changes f) := by
  unfold SegmapOp.Changes
  cases op <;> infer_instance

/-- An operation on a main segment. -/
def mainOp (op : SegmapOp) : Option FreeSegmapInfo :=
  if op.OnMain sm then op.run sm f else none

/-- An operation as it is called. -/
def segmapOp (op : SegmapOp) : Option FreeSegmapInfo :=
  if op.OnMain sm ∧ op.Changes f then op.run sm f else none

/-- The counters and the two maps agree. -/
structure MapsAgree : Prop where
  segments : f.freeSegments =
    ((Finset.range sm.mainSegments).filter fun segno => segno ∉ f.freeSegmap).card
  sections : f.freeSections =
    ((Finset.range sm.totalSections).filter fun secno => secno ∉ f.freeSecmap).card
  sectionFree : ∀ secno < sm.totalSections, secno ∉ f.freeSecmap ↔
    ∀ segno < sm.mainSegments, getSec sm segno = secno → segno ∉ f.freeSegmap

/-- The same with the set bits counted. -/
structure SegmapBooks : Prop where
  ok : SegmapOk sm f
  segments_sub : f.freeSegmap ⊆ Finset.range sm.mainSegments
  sections_sub : f.freeSecmap ⊆ Finset.range sm.totalSections
  segments : f.freeSegments + f.freeSegmap.card = sm.mainSegments
  sections : f.freeSections + f.freeSecmap.card = sm.totalSections

end

section

variable {sm : SmInfo} {f : FreeSegmapInfo} {segno : Nat}

theorem card_clear {n : Nat} {s : Finset Nat} (h : s ⊆ Finset.range n) :
    ((Finset.range n).filter fun i => i ∉ s).card + s.card = n := by
  rw [Finset.filter_notMem_eq_sdiff, Finset.card_sdiff_add_card_eq_card h, Finset.card_range]

theorem SegmapBooks.agree (h : SegmapBooks sm f) : MapsAgree sm f where
  segments := by
    have hcard := card_clear h.segments_sub
    have hbook := h.segments
    omega
  sections := by
    have hcard := card_clear h.sections_sub
    have hbook := h.sections
    omega
  sectionFree secno hsec := by
    rw [h.ok secno hsec]
    constructor
    · intro hno segno _ hs hin
      exact hno ⟨segno, hin, hs⟩
    · rintro hall ⟨segno, hin, hs⟩
      exact hall segno (Finset.mem_range.mp (h.segments_sub hin)) hs hin

/-- Every segment starts in use. -/
theorem buildFreeSegmap_books (sm : SmInfo) : SegmapBooks sm (buildFreeSegmap sm) where
  ok := by
    intro secno hsec
    refine iff_of_true (Finset.mem_range.mpr hsec) ⟨segFromSec sm secno, ?_, ?_⟩
    · refine Finset.mem_range.mpr ?_
      unfold segFromSec
      rw [← sm.sections_eq]
      exact Nat.mul_lt_mul_of_pos_right hsec sm.segsPerSec_pos
    · exact getSec_eq_iff.mpr ⟨le_rfl, Nat.lt_add_of_pos_right sm.segsPerSec_pos⟩
  segments_sub := Finset.Subset.refl _
  sections_sub := Finset.Subset.refl _
  segments := by simp [buildFreeSegmap]
  sections := by simp [buildFreeSegmap]

/-! ## The helpers -/

/-- A free segment is put to use. -/
theorem SegmapBooks.setInuse (h : SegmapBooks sm f) (hseg : segno < sm.mainSegments)
    (hfree : segno ∉ f.freeSegmap) : SegmapBooks sm (f.setInuse sm segno) := by
  have hsec : getSec sm segno < sm.totalSections := getSec_lt hseg
  have hsegs := h.segments
  have hsecs := h.sections
  refine ⟨h.ok.setInuse segno, ?_, ?_, ?_, ?_⟩
  · rw [setInuse_freeSegmap]
    exact Finset.insert_subset (Finset.mem_range.mpr hseg) h.segments_sub
  · intro k hk
    rw [FreeSegmapInfo.setInuse, mem_useSection] at hk
    rcases hk with rfl | hk
    · exact Finset.mem_range.mpr hsec
    · exact h.sections_sub hk
  · have hcount : (f.setInuse sm segno).freeSegments = f.freeSegments - 1 := by
      unfold FreeSegmapInfo.setInuse FreeSegmapInfo.useSection
      split <;> rfl
    rw [hcount, setInuse_freeSegmap, Finset.card_insert_of_notMem hfree]
    omega
  · unfold FreeSegmapInfo.setInuse FreeSegmapInfo.useSection
    split
    case isTrue => exact hsecs
    case isFalse hnot =>
      have hcard := Finset.card_insert_of_notMem hnot
      dsimp only at hcard ⊢
      omega

theorem SegmapBooks.setTestAndInuse (h : SegmapBooks sm f) (hseg : segno < sm.mainSegments) :
    SegmapBooks sm (f.setTestAndInuse sm segno) := by
  unfold FreeSegmapInfo.setTestAndInuse
  split
  case isTrue => exact h
  case isFalse hfree => exact h.setInuse hseg hfree

theorem SegmapBooks.setTestAndFree (h : SegmapBooks sm f) :
    SegmapBooks sm (f.setTestAndFree sm segno) := by
  have hok := h.ok.setTestAndFree segno
  have hsegs := h.segments
  have hsecs := h.sections
  by_cases hin : segno ∈ f.freeSegmap
  swap
  · rw [FreeSegmapInfo.setTestAndFree, if_neg hin]
    exact h
  have hcard := Finset.card_erase_add_one hin
  by_cases hlast : sectionUnused sm (f.freeSegmap.erase segno) segno = true ∧
      getSec sm segno ∈ f.freeSecmap
  · have hcard' := Finset.card_erase_add_one hlast.2
    have heq : f.setTestAndFree sm segno =
        ⟨f.freeSegments + 1, f.freeSections + 1, f.freeSegmap.erase segno,
          f.freeSecmap.erase (getSec sm segno)⟩ := by
      unfold FreeSegmapInfo.setTestAndFree
      rw [if_pos hin]
      exact if_pos hlast
    rw [heq] at hok ⊢
    refine ⟨hok, (Finset.erase_subset _ _).trans h.segments_sub,
      (Finset.erase_subset _ _).trans h.sections_sub, ?_, ?_⟩ <;> dsimp only <;> omega
  · have heq : f.setTestAndFree sm segno =
        ⟨f.freeSegments + 1, f.freeSections, f.freeSegmap.erase segno, f.freeSecmap⟩ := by
      unfold FreeSegmapInfo.setTestAndFree
      rw [if_pos hin]
      exact if_neg hlast
    rw [heq] at hok ⊢
    refine ⟨hok, (Finset.erase_subset _ _).trans h.segments_sub, h.sections_sub, ?_, hsecs⟩
    dsimp only
    omega

/-- Where the bit is set the test changes nothing: the section of a segment in use is in use. -/
theorem setFree_eq (h : SegmapBooks sm f) (hin : segno ∈ f.freeSegmap) :
    f.setFree sm segno = f.setTestAndFree sm segno := by
  have hsec : getSec sm segno ∈ f.freeSecmap :=
    (h.ok _ (getSec_lt (Finset.mem_range.mp (h.segments_sub hin)))).mpr ⟨segno, hin, rfl⟩
  unfold FreeSegmapInfo.setFree FreeSegmapInfo.setTestAndFree
  rw [if_pos hin]
  dsimp only
  by_cases hunused : sectionUnused sm (f.freeSegmap.erase segno) segno = true
  · rw [if_pos hunused, if_pos ⟨hunused, hsec⟩]
  · rw [if_neg hunused, if_neg fun hc => hunused hc.1]

/-- `init_free_segmap` frees every segment at most once, and then takes those of the logs. -/
theorem initFreeSegmap_books (sm : SmInfo) (sit : SitInfo) {curseg : CursegType → Nat}
    (hcur : ∀ type, curseg type < sm.mainSegments) :
    SegmapBooks sm (initFreeSegmap sm sit (buildFreeSegmap sm) curseg).2 := by
  -- before round `start` the segments from `start` on are still in use
  have hloop : ∀ start ≤ sm.mainSegments,
      let acc := (List.range start).foldl (initFreeSegment sm) (sit, buildFreeSegmap sm)
      SegmapBooks sm acc.2 ∧ ∀ i, start ≤ i → i < sm.mainSegments → i ∈ acc.2.freeSegmap := by
    intro start
    induction start with
    | zero =>
        exact fun _ => ⟨buildFreeSegmap_books sm, fun i _ hi => Finset.mem_range.mpr hi⟩
    | succ start ih =>
        intro hle
        obtain ⟨hbooks, hin⟩ := ih (by omega)
        rw [List.range_succ, List.foldl_append]
        generalize (List.range start).foldl (initFreeSegment sm) (sit, buildFreeSegmap sm) = acc
          at hbooks hin
        obtain ⟨sit', f⟩ := acc
        have hstart := hin start le_rfl (by omega)
        show SegmapBooks sm (initFreeSegment sm (sit', f) start).2 ∧
          ∀ i, start + 1 ≤ i → i < sm.mainSegments →
            i ∈ (initFreeSegment sm (sit', f) start).2.freeSegmap
        unfold initFreeSegment
        dsimp only at hbooks hin hstart ⊢
        split_ifs
        · refine ⟨setFree_eq hbooks hstart ▸ hbooks.setTestAndFree, fun i hi hlt => ?_⟩
          rw [setFree_freeSegmap]
          exact Finset.mem_erase.mpr ⟨by omega, hin i (by omega) hlt⟩
        · exact ⟨hbooks, fun i hi hlt => hin i (by omega) hlt⟩
  unfold initFreeSegmap
  dsimp only
  exact List.foldlRecOn (motive := SegmapBooks sm) _ _ (hloop sm.mainSegments le_rfl).1
    fun f hf type _ => hf.setTestAndInuse (hcur type)

/-! ## Runs -/

/-- One operation. -/
theorem segmapOp_books (h : SegmapBooks sm f) {op : SegmapOp} {f' : FreeSegmapInfo}
    (hop : segmapOp sm f op = some f') : SegmapBooks sm f' := by
  unfold segmapOp at hop
  split_ifs at hop with hallow
  obtain ⟨hmain, hchange⟩ := hallow
  cases op with
  | setFree segno =>
      obtain rfl := Option.some.inj hop
      rw [setFree_eq h hchange]
      exact h.setTestAndFree
  | setInuse segno =>
      obtain rfl := Option.some.inj hop
      exact h.setInuse hmain hchange
  | getNewSegment zones newseg newSec dir =>
      obtain ⟨⟨segno, f₁⟩, hnew, rfl⟩ := Option.map_eq_some_iff.mp hop
      obtain ⟨hseg, hfree, rfl⟩ := getNewSegment_some h.ok hmain hnew
      exact h.setInuse hseg hfree
  | setTestAndFree segno =>
      obtain rfl := Option.some.inj hop
      exact h.setTestAndFree
  | setTestAndInuse segno =>
      obtain rfl := Option.some.inj hop
      exact h.setTestAndInuse hmain

end

/-- From the maps of `build_free_segmap`, through every run of operations as they are
    called, the counters are the numbers of clear bits and a section is free exactly if its
    segments are. -/
theorem freeMaps_agree (sm : SmInfo) (ops : List SegmapOp) (f : FreeSegmapInfo)
    (hrun : ops.foldlM (segmapOp sm) (buildFreeSegmap sm) = some f) : MapsAgree sm f :=
  (OptionFold.foldlM_inv (P := SegmapBooks sm) (fun _ _ _ _ h hop => segmapOp_books h hop)
    (buildFreeSegmap_books sm) hrun).agree

/-- Segments 0 and 1 are freed by a mount, and a log takes one of them. -/
theorem freeMaps_agree_small : ∃ f,
    [SegmapOp.setFree 0, .setFree 1, .setTestAndInuse 1, .setInuse 0,
        .setTestAndFree 0].foldlM (segmapOp smallSm) (buildFreeSegmap smallSm) = some f ∧
      MapsAgree smallSm f := by
  have hrun : ([SegmapOp.setFree 0, .setFree 1, .setTestAndInuse 1, .setInuse 0,
      .setTestAndFree 0].foldlM (segmapOp smallSm) (buildFreeSegmap smallSm)).isSome = true := by
    decide +kernel
  obtain ⟨f, hf⟩ := Option.isSome_iff_exists.mp hrun
  exact ⟨f, hf, freeMaps_agree smallSm _ f hf⟩

/-- `__set_inuse` on a segment in use counts it off once more. -/
theorem setInuse_twice_not_agree : ∃ f,
    [SegmapOp.setInuse 0].foldlM (mainOp smallSm) (buildFreeSegmap smallSm) = some f ∧
      ¬ MapsAgree smallSm f := by
  refine ⟨(buildFreeSegmap smallSm).setInuse smallSm 0, rfl, fun h => ?_⟩
  have hneg : ((buildFreeSegmap smallSm).setInuse smallSm 0).freeSegments = -1 := by
    decide +kernel
  have hcount := h.segments
  rw [hneg] at hcount
  omega

end F2fs.Segment

/-
  `do_garbage_collect` over a section whose valid blocks can be moved.

  Phase 3 of `gc_data_segment` puts the inode of each such block in `gc_list`, and phase 4
  moves the blocks of the inodes in it.  What the walk over a segment needs from one block is
  in `walkBlocks_pass`.
-/
import F2fs.Gc.CollectPass

namespace F2fs.Gc

open F2fs.Segment
open SegManager (BooksOk SectionEmpty)

section

variable {env : GcEnv} {fs fs' fs₁ : GcFs} {secs : Finset Nat} {secno segno off B : Nat}
  {gcType : GcType} {isData : Bool} {sum : Nat → SumEntry}

/-! ## Walks -/

/-- What holds of the state and of each block as long as the pass goes on. -/
theorem walkBlocks_pass (gcType : GcType) {block : Nat → GcFs → Option GcFs}
    {J : GcFs → Prop} {D : Nat → GcFs → Prop}
    (hJ : ∀ {fs fs'}, After env secs fs fs' → J fs → J fs')
    (hD : ∀ {off fs fs'}, off < blocksPerSeg → After env secs fs fs' → D off fs → D off fs')
    (hblock : ∀ {off fs fs'}, off < blocksPerSeg → Pass env isData secs secno fs → J fs →
      block off fs = some fs' → Pass env isData secs secno fs' ∧ After env secs fs fs' ∧
        (gcType = .fgGc → D off fs')) :
    ∀ (offs : List Nat), (∀ off ∈ offs, off < blocksPerSeg) → ∀ {fs fs' : GcFs},
      Pass env isData secs secno fs → J fs → walkBlocks env gcType block offs fs = some fs' →
      Pass env isData secs secno fs' ∧ After env secs fs fs' ∧
        (gcType = .fgGc → ∀ off ∈ offs, D off fs') := by
  intro offs
  induction offs with
  | nil =>
    intro _ fs fs' h _ heq
    obtain rfl := Option.some.inj heq
    exact ⟨h, After.refl env secs fs, fun _ off hoff => absurd hoff List.not_mem_nil⟩
  | cons off offs ih =>
    intro hlt fs fs' h hj heq
    rw [walkBlocks] at heq
    have hoff := hlt off List.mem_cons_self
    split at heq
    case isTrue hstop =>
      -- only BG_GC stops
      obtain rfl := Option.some.inj heq
      refine ⟨h, After.refl env secs fs, fun hfg => ?_⟩
      rw [hfg] at hstop
      cases hstop.1
    case isFalse =>
      obtain ⟨fs₁, hone, hrest⟩ := Option.bind_eq_some_iff.mp heq
      obtain ⟨h₁, hafter₁, hd⟩ := hblock hoff h hj hone
      obtain ⟨h', hafter, hds⟩ := ih (fun off hmem => hlt off (List.mem_cons_of_mem _ hmem)) h₁
        (hJ hafter₁ hj) hrest
      refine ⟨h', hafter₁.trans hafter, fun hfg off' hmem => ?_⟩
      rcases List.mem_cons.mp hmem with rfl | hmem
      · exact hD hoff hafter (hd hfg)
      · exact hds hfg off' hmem

theorem off_lt {off : Nat} (h : off ∈ List.range blocksPerSeg) : off < blocksPerSeg :=
  List.mem_range.mp h

/-- All blocks of the segment were moved, or a pinned file spent some of the budget `B`. -/
def SegmentDone (env : GcEnv) (B segno : Nat) (fs : GcFs) : Prop :=
  (∀ off < blocksPerSeg, checkValidMap fs segno off = false) ∨ pinBudget env fs < B

theorem notValid_after (hk : segno < env.sm.mainSegments) (hsec : getSec env.sm segno ∈ secs)
    (hoff : off < blocksPerSeg) (hafter : After env secs fs fs')
    (h : checkValidMap fs segno off = false) : checkValidMap fs' segno off = false := by
  refine Bool.eq_false_of_not_eq_true fun hv => ?_
  have hold := hafter.valid segno hk hsec off hoff hv
  rw [h] at hold
  cases hold

theorem SegmentDone.after (hk : segno < env.sm.mainSegments) (hsec : getSec env.sm segno ∈ secs)
    (hafter : After env secs fs fs') (h : SegmentDone env B segno fs) :
    SegmentDone env B segno fs' :=
  h.imp (fun hnone off hoff => notValid_after hk hsec hoff hafter (hnone off hoff))
    fun hlt => Nat.lt_of_le_of_lt hafter.budget hlt

/-! ## A data segment -/

/-- Phase 3 puts the inode of the block in `gc_list`. -/
theorem gcDataInode_pass (h : Pass env true secs secno fs) (hk : segno < env.sm.mainSegments)
    (hsec : getSec env.sm segno = secno) (hoff : off < blocksPerSeg)
    (heq : gcDataInode env (fs.segs.ssa segno).entries segno off fs = some fs') :
    Pass env true secs secno fs' ∧ After env secs fs fs' ∧
      (checkValidMap fs' segno off = true → Listed fs' segno off) := by
  have hentry : (fs.segs.ssa segno).entries off = fs.entry segno off := rfl
  unfold gcDataInode at heq
  by_cases hvalid : checkValidMap fs segno off = true
  swap
  · rw [if_pos hvalid] at heq
    obtain rfl := Option.some.inj heq
    exact ⟨h, After.refl env secs fs, fun hc => absurd hc hvalid⟩
  obtain ⟨-, node, inode, hready⟩ := h.movable segno hk hsec off hoff hvalid
  rw [if_neg (not_not_intro hvalid), hentry, isAlive_ready hready] at heq
  simp only [hready.owner] at heq
  have hopen : inode.encrypted ∨
      (inode.dioWrite ∧ env.readPage node.ino (bidxOf node inode (fs.entry segno off))) := by
    have hmoves := hready.moves
    by_cases henc : inode.encrypted = true
    · exact Or.inl henc
    · rw [if_neg henc] at hmoves
      exact Or.inr ⟨hmoves.1, hmoves.2.1⟩
  rw [if_pos hopen] at heq
  obtain rfl := Option.some.inj heq
  exact ⟨h.congr rfl rfl rfl, After.ofSegs rfl rfl (Finset.subset_insert _ _) (Nat.le_refl _),
    fun _ => ⟨node, hready.page, Finset.mem_insert_self _ _⟩⟩

theorem gcDataSegment_pass (h : Pass env true secs secno fs) (hk : segno < env.sm.mainSegments)
    (hsec : getSec env.sm segno = secno) (hthresh : env.pinThreshold < 2 ^ 16 - 1)
    (hB : pinBudget env fs ≤ B) (heq : gcDataSegment env gcType segno fs = some fs') :
    Pass env true secs secno fs' ∧ After env secs fs fs' ∧
      (gcType = .fgGc → SegmentDone env B segno fs') := by
  have hin : getSec env.sm segno ∈ secs := hsec ▸ h.inSecs
  unfold gcDataSegment at heq
  generalize hsum : (fs.segs.ssa segno).entries = sum at heq
  obtain ⟨fs₁, hlist, hmove⟩ := Option.bind_eq_some_iff.mp heq
  -- phase 3
  obtain ⟨h₁, hafter₁, hlisted⟩ := walkBlocks_pass gcType
    (J := fun fs => (fs.segs.ssa segno).entries = sum)
    (D := fun off fs => checkValidMap fs segno off = true → Listed fs segno off)
    (fun hafter hj => by rw [hafter.ssa segno hin, hj])
    (fun hoff hafter hd hv => (hd (hafter.valid segno hk hin _ hoff hv)).after hin hafter)
    (fun hoff h hj heq => by
      obtain ⟨h', hafter, hd⟩ := gcDataInode_pass h hk hsec hoff (hj ▸ heq)
      exact ⟨h', hafter, fun _ => hd⟩)
    (List.range blocksPerSeg) (fun _ => off_lt) h hsum hlist
  -- phase 4
  obtain ⟨h', hafter, hdone⟩ := walkBlocks_pass gcType
    (J := fun fs => (fs.segs.ssa segno).entries = sum ∧ pinBudget env fs ≤ B ∧
      (gcType = .fgGc → ∀ off < blocksPerSeg, checkValidMap fs segno off = true →
        Listed fs segno off))
    (D := fun off fs => checkValidMap fs segno off = false ∨ pinBudget env fs < B)
    (fun hafter hj => ⟨by rw [hafter.ssa segno hin, hj.1], hafter.budget.trans hj.2.1,
      fun hfg off hoff hv =>
        (hj.2.2 hfg off hoff (hafter.valid segno hk hin off hoff hv)).after hin hafter⟩)
    (fun hoff hafter hd => hd.imp (notValid_after hk hin hoff hafter)
      fun hlt => Nat.lt_of_le_of_lt hafter.budget hlt)
    (fun hoff h hj heq => by
      obtain ⟨h', hafter, hd⟩ := gcDataBlock_pass h hk hsec hoff hthresh (hj.1 ▸ heq)
      exact ⟨h', hafter, fun hfg => (hd hfg (hj.2.2 hfg _ hoff)).imp id
        fun hlt => Nat.lt_of_lt_of_le hlt hj.2.1⟩)
    (List.range blocksPerSeg) (fun _ => off_lt) h₁
    ⟨by rw [hafter₁.ssa segno hin, hsum], hafter₁.budget.trans hB,
      fun hfg off hoff => hlisted hfg off (List.mem_range.mpr hoff)⟩ hmove
  refine ⟨h', hafter₁.trans hafter, fun hfg => ?_⟩
  by_cases hlt : pinBudget env fs' < B
  · exact Or.inr hlt
  · exact Or.inl fun off hoff => (hdone hfg off (List.mem_range.mpr hoff)).resolve_right hlt

/-! ## A node segment -/

theorem gcNodeBlock_pass (h : Pass env false secs secno fs) (hk : segno < env.sm.mainSegments)
    (hsec : getSec env.sm segno = secno) (hoff : off < blocksPerSeg)
    (heq : gcNodeBlock env gcType (fs.segs.ssa segno).entries segno off fs = some fs') :
    Pass env false secs secno fs' ∧ After env secs fs fs' ∧
      (gcType = .fgGc → checkValidMap fs' segno off = false) := by
  have hentry : (fs.segs.ssa segno).entries off = fs.entry segno off := rfl
  unfold gcNodeBlock at heq
  by_cases hvalid : checkValidMap fs segno off = true
  swap
  · rw [if_pos hvalid] at heq
    obtain rfl := Option.some.inj heq
    exact ⟨h, After.refl env secs fs, fun _ => Bool.eq_false_of_not_eq_true hvalid⟩
  obtain ⟨-, node, hready⟩ := h.movable segno hk hsec off hoff hvalid
  obtain ⟨hpor, hcp, hreallocs⟩ := hready.writes
  have hpages : ∀ nodes, Pass env false secs secno { fs with dirtyNodes := nodes } ∧
      After env secs fs { fs with dirtyNodes := nodes } := fun nodes =>
    ⟨h.congr rfl rfl rfl, After.ofSegs rfl rfl (Finset.Subset.refl _) (Nat.le_refl _)⟩
  have hmain : InMain env.sm (startBlock env.sm segno + off) := inMain_startBlock hk hoff
  rw [if_neg (not_not_intro hvalid), hentry] at heq
  simp only [hready.page, hready.addr, ne_eq, not_true_eq_false, if_false] at heq
  unfold moveNodePage at heq
  by_cases hbg : gcType = .bgGc
  · rw [if_pos hbg] at heq
    obtain rfl := Option.some.inj heq
    refine ⟨(hpages _).1, (hpages _).2, fun hfg => ?_⟩
    rw [hfg] at hbg
    cases hbg
  · simp only [if_neg hbg, hcp, hpor, Bool.false_eq_true, if_false, hready.addr] at heq
    rw [if_neg fun hc => hmain.ne (Or.inl hc), hreallocs] at heq
    obtain ⟨⟨addr, fs₁⟩, halloc, heq⟩ := Option.map_eq_some_iff.mp heq
    obtain ⟨hpages', hafter'⟩ := hpages (fs.dirtyNodes.erase (fs.entry segno off).nid)
    have hready' : ReadyNode env
        { fs with dirtyNodes := fs.dirtyNodes.erase (fs.entry segno off).nid }
        (fs.entry segno off) (startBlock env.sm segno + off) node :=
      ⟨hready.page, hready.addr, hready.writes⟩
    obtain ⟨hpass, hafter, hgone⟩ :=
      hpages'.movedNode hk hsec hoff hready' halloc heq.symm
    exact ⟨hpass, hafter'.trans hafter, fun _ => hgone⟩

theorem gcNodeSegment_pass (h : Pass env false secs secno fs) (hk : segno < env.sm.mainSegments)
    (hsec : getSec env.sm segno = secno) (heq : gcNodeSegment env gcType segno fs = some fs') :
    Pass env false secs secno fs' ∧ After env secs fs fs' ∧
      (gcType = .fgGc → SegmentDone env B segno fs') := by
  have hin : getSec env.sm segno ∈ secs := hsec ▸ h.inSecs
  unfold gcNodeSegment at heq
  generalize hsum : (fs.segs.ssa segno).entries = sum at heq
  obtain ⟨h', hafter, hdone⟩ := walkBlocks_pass gcType
    (J := fun fs => (fs.segs.ssa segno).entries = sum)
    (D := fun off fs => checkValidMap fs segno off = false)
    (fun hafter hj => by rw [hafter.ssa segno hin, hj])
    (fun hoff hafter => notValid_after hk hin hoff hafter)
    (fun hoff h hj heq => gcNodeBlock_pass h hk hsec hoff (hj ▸ heq))
    (List.range blocksPerSeg) (fun _ => off_lt) h hsum heq
  exact ⟨h', hafter, fun hfg => Or.inl fun off hoff => hdone hfg off (List.mem_range.mpr hoff)⟩

/-! ## The segments of a section -/

theorem collectSegment_pass {segFreed segFreed' : Nat} (h : Pass env isData secs secno fs)
    (hk : segno < env.sm.mainSegments) (hsec : getSec env.sm segno = secno)
    (hthresh : env.pinThreshold < 2 ^ 16 - 1) (hcp : env.cpError = false)
    (hB : pinBudget env fs ≤ B)
    (heq : collectSegment env gcType isData (fs, segFreed) segno = some (fs', segFreed')) :
    Pass env isData secs secno fs' ∧ After env secs fs fs' ∧
      (gcType = .fgGc → SegmentDone env B segno fs') := by
  unfold collectSegment at heq
  simp only [hcp, Bool.false_eq_true, or_false] at heq
  have hcounted := (h.books.counted segno hk).valid
  by_cases hskip : getValidBlocks env.sm fs.segs.sit segno false = 0 ∨ ¬env.sumUptodate segno
  · rw [if_pos hskip] at heq
    obtain rfl := (Prod.mk.inj (Option.some.inj heq)).1
    refine ⟨h, After.refl env secs fs, fun _ => Or.inl fun off hoff => ?_⟩
    refine Bool.eq_false_of_not_eq_true fun hvalid => ?_
    rcases hskip with hzero | hsum
    · rw [SegManager.getValidBlocks_seg, Int.natCast_eq_zero, hcounted,
        Finset.card_eq_zero] at hzero
      have hmem := of_decide_eq_true hvalid
      rw [hzero] at hmem
      exact Finset.notMem_empty _ hmem
    · exact hsum (h.movable segno hk hsec off hoff hvalid).1
  · rw [if_neg hskip] at heq
    cases isData with
    | true =>
      rw [Option.ite_none_left_eq_some] at heq
      obtain ⟨fs₁, hseg, hpair⟩ := Option.map_eq_some_iff.mp heq.2
      obtain rfl := (Prod.mk.inj hpair).1
      rw [if_pos rfl] at hseg
      exact gcDataSegment_pass h hk hsec hthresh hB hseg
    | false =>
      rw [Option.ite_none_left_eq_some] at heq
      obtain ⟨fs₁, hseg, hpair⟩ := Option.map_eq_some_iff.mp heq.2
      obtain rfl := (Prod.mk.inj hpair).1
      rw [if_neg Bool.false_ne_true] at hseg
      exact gcNodeSegment_pass h hk hsec hseg

theorem collectSegments_pass (hthresh : env.pinThreshold < 2 ^ 16 - 1)
    (hcp : env.cpError = false) : ∀ (segs : List Nat),
    (∀ k ∈ segs, k < env.sm.mainSegments ∧ getSec env.sm k = secno) →
    ∀ {fs fs' : GcFs} {n n' : Nat}, Pass env isData secs secno fs → pinBudget env fs ≤ B →
      segs.foldlM (collectSegment env gcType isData) (fs, n) = some (fs', n') →
      Pass env isData secs secno fs' ∧ After env secs fs fs' ∧
        (gcType = .fgGc → ∀ k ∈ segs, SegmentDone env B k fs') := by
  intro segs
  induction segs with
  | nil =>
    intro _ fs fs' n n' h _ heq
    obtain rfl := (Prod.mk.inj (Option.some.inj heq)).1
    exact ⟨h, After.refl env secs fs, fun _ k hk => absurd hk List.not_mem_nil⟩
  | cons segno segs ih =>
    intro hin fs fs' n n' h hB heq
    rw [List.foldlM_cons, Option.bind_eq_bind] at heq
    obtain ⟨⟨fs₁, n₁⟩, hone, hrest⟩ := Option.bind_eq_some_iff.mp heq
    obtain ⟨hk, hsec⟩ := hin segno List.mem_cons_self
    obtain ⟨h₁, hafter₁, hdone₁⟩ := collectSegment_pass h hk hsec hthresh hcp hB hone
    obtain ⟨h', hafter, hdone⟩ := ih (fun k hmem => hin k (List.mem_cons_of_mem _ hmem)) h₁
      (hafter₁.budget.trans hB) hrest
    refine ⟨h', hafter₁.trans hafter, fun hfg k hmem => ?_⟩
    rcases List.mem_cons.mp hmem with rfl | hmem
    · exact (hdone₁ hfg).after hk (hsec ▸ h.inSecs) hafter
    · exact hdone hfg k hmem

/-- The segments `do_garbage_collect` goes through are those of the section. -/
theorem mem_range'_section (sm : SmInfo) (hsecno : secno < sm.totalSections) {k : Nat} :
    k ∈ List.range' (segFromSec sm secno) sm.segsPerSec ↔
      k < sm.mainSegments ∧ getSec sm k = secno := by
  have hpos := sm.segsPerSec_pos
  have hend : secno * sm.segsPerSec + sm.segsPerSec ≤ sm.mainSegments := by
    rw [← sm.sections_eq, ← Nat.succ_mul]
    exact Nat.mul_le_mul_right _ hsecno
  rw [List.mem_range'_1, segFromSec, getSec, Nat.div_eq_iff hpos]
  omega

/-- FG_GC empties the section, or a pinned file spends some of the budget. -/
theorem doGarbageCollect_pass {n : Nat} (hsecno : secno < env.sm.totalSections)
    (h : Pass env (isDataSection fs (segFromSec env.sm secno)) secs secno fs)
    (hthresh : env.pinThreshold < 2 ^ 16 - 1) (hcp : env.cpError = false)
    (heq : doGarbageCollect env gcType (segFromSec env.sm secno) fs = some (fs', n)) :
    Pass env (isDataSection fs (segFromSec env.sm secno)) secs secno fs' ∧
      After env secs fs fs' ∧ (gcType = .fgGc →
        SectionEmpty env.sm fs'.segs secno ∨ pinBudget env fs' < pinBudget env fs) := by
  obtain ⟨h', hafter, hdone⟩ := collectSegments_pass hthresh hcp _
    (fun k hk => (mem_range'_section env.sm hsecno).mp hk) h (Nat.le_refl _) heq
  refine ⟨h', hafter, fun hfg => ?_⟩
  by_cases hlt : pinBudget env fs' < pinBudget env fs
  · exact Or.inr hlt
  · refine Or.inl ((sectionEmpty_iff env.sm).mpr fun k hk hsec => ?_)
    exact (hdone hfg k ((mem_range'_section env.sm hsecno).mpr ⟨hk, hsec⟩)).resolve_right hlt

end

end F2fs.Gc

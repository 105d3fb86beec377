/-
  A cut through a tree.

  `SubtreeCut s s' l nid base cut`: of the tree below `nid`, whose first direct node has
  number `base`, the nodes that start at `cut` or behind it are freed, slots that lead to
  them are cleared, and all other words are unchanged.  A loop from a slot on makes a
  cut, and a cut below one slot with a loop from the next slot on makes one again.
-/
import F2fs.Truncate.FreeTree

namespace F2fs.Truncate

open F2fs.Node

/-! ## Where a cut falls among the slots -/

theorem slotsFrom_cons {o : Nat} (ho : o < nidsPerBlock) :
    slotsFrom o = o :: slotsFrom (o + 1) := by
  unfold slotsFrom
  rw [show nidsPerBlock - o = nidsPerBlock - (o + 1) + 1 by omega, List.range'_succ]

theorem slots_split {o : Nat} (ho : o < nidsPerBlock) :
    slots = List.range' 0 o ++ o :: slotsFrom (o + 1) := by
  rw [← slotsFrom_cons ho, ← slotsFrom_zero]
  unfold slotsFrom
  have hsplit := @List.range'_append_1 0 o (nidsPerBlock - o)
  rw [Nat.zero_add, Nat.add_sub_cancel' (Nat.le_of_lt ho)] at hsplit
  rw [Nat.sub_zero, hsplit]

/-- Nothing in the slots before `o`, and all of it in the slots behind. -/
theorem flatMap_slots_cut {f g : Nat → List Nat} {o : Nat} (ho : o < nidsPerBlock)
    (hlow : ∀ i, i < o → f i = []) (hhigh : ∀ i, o < i → f i = g i) :
    slots.flatMap f = f o ++ (slotsFrom (o + 1)).flatMap g := by
  rw [slots_split ho, List.flatMap_append, List.flatMap_cons,
    List.flatMap_eq_nil_iff.mpr fun i hi => hlow i (by rw [List.mem_range'_1] at hi; omega),
    List.nil_append]
  congr 1
  refine List.flatMap_congr fun i hi => hhigh i ?_
  rw [mem_slotsFrom] at hi
  omega

section

variable {w : Words} {l nid base cut o : Nat}

theorem before_cut {i : Nat} (h : base + o * span l ≤ cut) (hi : i < o) :
    base + i * span l + span l ≤ cut := by
  have := Nat.mul_le_mul_right (span l) (Nat.succ_le_of_lt hi)
  rw [Nat.succ_mul] at this
  omega

theorem behind_cut {i : Nat} (h : cut ≤ base + (o + 1) * span l) (hi : o < i) :
    cut ≤ base + i * span l := by
  have : (o + 1) * span l ≤ i * span l := Nat.mul_le_mul_right (span l) hi
  omega

/-- The nodes behind a cut that falls into slot `o`. -/
theorem nodesFrom_slot (h0 : nid ≠ 0) (ho : o < nidsPerBlock) (hbase : base < cut)
    (hlow : base + o * span l ≤ cut) (hhigh : cut ≤ base + (o + 1) * span l) :
    nodesFrom w cut (l + 1) nid base =
      nodesFrom w cut l (w nid o) (base + o * span l) ++
        (slotsFrom (o + 1)).flatMap fun i => nodesOf w l (w nid i) := by
  rw [nodesFrom_succ h0, if_pos hbase, List.append_nil]
  exact flatMap_slots_cut ho (fun i hi => nodesFrom_of_ge (before_cut hlow hi))
    (fun i hi => nodesFrom_of_le (behind_cut hhigh hi))

theorem dataFrom_slot (h0 : nid ≠ 0) (ho : o < nidsPerBlock) (hlow : base + o * span l ≤ cut)
    (hhigh : cut ≤ base + (o + 1) * span l) :
    dataFrom w cut (l + 1) nid base =
      dataFrom w cut l (w nid o) (base + o * span l) ++
        (slotsFrom (o + 1)).flatMap fun i => dataOf w l (w nid i) := by
  rw [dataFrom_succ h0]
  exact flatMap_slots_cut ho (fun i hi => dataFrom_of_ge (before_cut hlow hi))
    (fun i hi => dataFrom_of_le (behind_cut hhigh hi))

end

/-! ## What is kept -/

/-- Words of nodes before the cut: slots that lead behind it are cleared, the others are
    unchanged. -/
def Kept (w w' : Words) (cut : Nat) : Nat → Nat → Nat → Prop
  | 0, nid, base => nid ≠ 0 → base < cut → ∀ i, w' nid i = w nid i
  | l + 1, nid, base => nid ≠ 0 → base < cut → ∀ i ∈ slots,
    w' nid i = (if cut ≤ base + i * span l then 0 else w nid i) ∧
      Kept w w' cut l (w nid i) (base + i * span l)

section

variable {w w' w₁ : Words} {cut l nid base : Nat}

theorem Kept.of_le (h : cut ≤ base) : Kept w w' cut l nid base := by
  cases l with
  | zero => exact fun _ hlt => absurd hlt (by omega)
  | succ l => exact fun _ hlt => absurd hlt (by omega)

theorem Kept.missing (l base : Nat) : Kept w w' cut l 0 base := by
  cases l with
  | zero => exact fun h => absurd rfl h
  | succ l => exact fun h => absurd rfl h

/-- A tree before the cut is kept if its words are. -/
theorem Kept.of_words {l : Nat} : ∀ {nid base : Nat},
    (∀ m ∈ nodesOf w l nid, ∀ i, w' m i = w m i) → base + span l ≤ cut →
    Kept w w' cut l nid base := by
  induction l with
  | zero => exact fun h _ h0 _ => h _ (mem_nodesOf_self h0 0)
  | succ l ih =>
      intro nid base h hcut h0 _ i hi
      have hend : base + i * span l + span l ≤ base + span (l + 1) := child_le hi
      have hpos := span_pos l
      refine ⟨?_, ih (fun m hm => h m (mem_nodesOf_child h0 hi hm)) (by omega)⟩
      rw [if_neg (by omega), h nid (mem_nodesOf_self h0 _) i]

/-- Later steps that leave the words of the tree alone. -/
theorem Kept.trans_words {l : Nat} : ∀ {nid base : Nat}, Kept w w₁ cut l nid base →
    (∀ m ∈ nodesOf w l nid, ∀ i, w' m i = w₁ m i) → Kept w w' cut l nid base := by
  induction l with
  | zero =>
      intro nid base h hw h0 hlt i
      rw [hw nid (mem_nodesOf_self h0 0), h h0 hlt]
  | succ l ih =>
      intro nid base h hw h0 hlt i hi
      obtain ⟨hword, hchild⟩ := h h0 hlt i hi
      refine ⟨?_, ih hchild fun m hm => hw m (mem_nodesOf_child h0 hi hm)⟩
      rw [hw nid (mem_nodesOf_self h0 _), hword]

/-- Earlier steps that leave the words of the tree alone. -/
theorem Kept.of_start {l : Nat} : ∀ {nid base : Nat}, Kept w₁ w' cut l nid base →
    (∀ m ∈ nodesOf w l nid, ∀ i, w₁ m i = w m i) → Kept w w' cut l nid base := by
  induction l with
  | zero =>
      intro nid base h hw h0 hlt i
      rw [h h0 hlt, hw nid (mem_nodesOf_self h0 0)]
  | succ l ih =>
      intro nid base h hw h0 hlt i hi
      obtain ⟨hword, hchild⟩ := h h0 hlt i hi
      rw [hw nid (mem_nodesOf_self h0 _)] at hword hchild
      exact ⟨hword, ih hchild fun m hm => hw m (mem_nodesOf_child h0 hi hm)⟩

end

/-! ## Cuts -/

structure SubtreeCut (s s' : Index) (l nid base cut : Nat) : Prop where
  freed : Freed s s' (nodesFrom s.word cut l nid base) (dataFrom s.word cut l nid base)
  kept : Kept s.word s'.word cut l nid base
  word : ∀ m, m ∉ nodesOf s.word l nid → ∀ i, s'.word m i = s.word m i
  iAddr : s'.iAddr = s.iAddr
  iNid : s'.iNid = s.iNid

section

variable {s s₁ s' : Index} {l nid base cut o : Nat}

theorem SubtreeFreed.subtreeCut (h : SubtreeFreed s s' l nid) (hcut : cut ≤ base) :
    SubtreeCut s s' l nid base cut := by
  refine ⟨?_, Kept.of_le hcut, h.word, h.iAddr, h.iNid⟩
  rw [nodesFrom_of_le hcut, dataFrom_of_le hcut]
  exact h.freed

theorem SubtreeCut.missing (s : Index) (l base cut : Nat) : SubtreeCut s s l 0 base cut := by
  refine ⟨?_, Kept.missing l base, fun _ _ _ => rfl, rfl, rfl⟩
  rw [nodesFrom_missing, dataFrom_missing]
  exact Freed.refl s

/-- A tree before the cut. -/
theorem SubtreeCut.untouched (s : Index) (hcut : base + span l ≤ cut) :
    SubtreeCut s s l nid base cut := by
  refine ⟨?_, Kept.of_words (fun _ _ _ => rfl) hcut, fun _ _ _ => rfl, rfl, rfl⟩
  rw [nodesFrom_of_ge hcut, dataFrom_of_ge hcut]
  exact Freed.refl s

theorem TreeAt.child (h : TreeAt s (l + 1) nid) (h0 : nid ≠ 0) {i : Nat} (hi : i ∈ slots) :
    TreeAt s l (s.word nid i) := by
  have hsub : [i].Sublist slots := List.singleton_sublist.mpr hi
  obtain ⟨hnodup, -, haddr⟩ := h.below h0 hsub
  have hnodes : nodesBelow s l nid [i] = nodesOf s.word l (s.word nid i) := by
    simp [nodesBelow]
  rw [hnodes] at hnodup haddr
  exact ⟨hnodup, haddr⟩

/-- Trees in different slots share no node. -/
theorem TreeAt.disjoint_slots (h : TreeAt s (l + 1) nid) (h0 : nid ≠ 0) {i j m : Nat}
    (hi : i ∈ slots) (hj : j ∈ slots) (hij : i ≠ j) (hm : m ∈ nodesOf s.word l (s.word nid i))
    (hm' : m ∈ nodesOf s.word l (s.word nid j)) : False := by
  have hnodup := (h.below h0 (List.Sublist.refl slots)).nodup
  have hpair := (List.nodup_flatMap.mp hnodup).2
  have : Std.Symm (Function.onFun List.Disjoint fun i => nodesOf s.word l (s.word nid i)) :=
    ⟨fun _ _ hd => List.Disjoint.symm hd⟩
  exact hpair.forall hi hj hij hm hm'

theorem mem_behind {i : Nat} (h : i ∈ slotsFrom (o + 1)) : i ∈ slots ∧ i ≠ o := by
  rw [mem_slotsFrom] at h
  exact ⟨mem_slots.mpr h.2, by omega⟩

/-- A cut below slot `o` leaves the node and the trees in the other slots as they were. -/
theorem SubtreeCut.others (h : SubtreeCut s s₁ l (s.word nid o) (base + o * span l) cut)
    (ht : TreeAt s (l + 1) nid) (h0 : nid ≠ 0) (ho : o ∈ slots) :
    (∀ i, s₁.word nid i = s.word nid i) ∧
    (∀ i ∈ slots, i ≠ o → ∀ m ∈ nodesOf s.word l (s.word nid i), ∀ j, s₁.word m j = s.word m j) ∧
    nodesBelow s₁ l nid (slotsFrom (o + 1)) = nodesBelow s l nid (slotsFrom (o + 1)) ∧
    dataBelow s₁ l nid (slotsFrom (o + 1)) = dataBelow s l nid (slotsFrom (o + 1)) := by
  have hself : nid ∉ nodesOf s.word l (s.word nid o) := by
    have := (ht.below h0 (List.singleton_sublist.mpr ho)).notMem
    simpa [nodesBelow] using this
  have hslot := h.word nid hself
  have hother : ∀ i ∈ slots, i ≠ o → ∀ m ∈ nodesOf s.word l (s.word nid i),
      ∀ j, s₁.word m j = s.word m j := fun i hi hio m hm j =>
    h.word m (fun hm' => ht.disjoint_slots h0 hi ho hio hm hm') j
  refine ⟨hslot, hother, ?_, ?_⟩
  · refine List.flatMap_congr fun i hi => ?_
    rw [hslot, nodesOf_congr (hother i (mem_behind hi).1 (mem_behind hi).2)]
  · refine List.flatMap_congr fun i hi => ?_
    rw [hslot, dataOf_congr (hother i (mem_behind hi).1 (mem_behind hi).2)]

theorem SubtreeCut.disjoint (ht : TreeAt s (l + 1) nid) (h0 : nid ≠ 0) (ho : o ∈ slots) :
    (nodesFrom s.word cut l (s.word nid o) (base + o * span l)).Disjoint
      (nodesBelow s l nid (slotsFrom (o + 1))) := by
  intro m hm hm'
  obtain ⟨i, hi, hmi⟩ := List.mem_flatMap.mp hm'
  exact ht.disjoint_slots h0 (mem_behind hi).1 ho (mem_behind hi).2 hmi
    (nodesFrom_sublist.subset hm)

/-- The trees behind a cut are still trees. -/
theorem SubtreeCut.treesBelow (h : SubtreeCut s s₁ l (s.word nid o) (base + o * span l) cut)
    (ht : TreeAt s (l + 1) nid) (h0 : nid ≠ 0) (ho : o ∈ slots) :
    TreesBelow s₁ l nid (slotsFrom (o + 1)) := by
  obtain ⟨-, -, hnodes, -⟩ := h.others ht h0 ho
  obtain ⟨hnodup, hp, haddr⟩ := ht.below h0 (slotsFrom_sublist (o + 1))
  refine ⟨by rwa [hnodes], by rwa [hnodes], fun m hm => ?_⟩
  rw [hnodes] at hm
  rw [h.freed.nat, if_neg fun hm' => SubtreeCut.disjoint ht h0 ho hm' hm]
  exact haddr m hm

/-- A cut below slot `o`, and a loop from the next slot on. -/
theorem SubtreeCut.slot (h₁ : SubtreeCut s s₁ l (s.word nid o) (base + o * span l) cut)
    (h₂ : ChildrenFreed s₁ s' l nid (slotsFrom (o + 1))) (ht : TreeAt s (l + 1) nid)
    (h0 : nid ≠ 0) (ho : o < nidsPerBlock) (hlow : base + o * span l < cut)
    (hhigh : cut ≤ base + (o + 1) * span l) : SubtreeCut s s' (l + 1) nid base cut := by
  have hoslot : o ∈ slots := mem_slots.mpr ho
  obtain ⟨hslot, hother, hnodes, hdata⟩ := h₁.others ht h0 hoslot
  have hbase : base < cut := by omega
  refine ⟨?_, ?_, ?_, h₂.iAddr.trans h₁.iAddr, h₂.iNid.trans h₁.iNid⟩
  · have hfreed := h₂.freed
    rw [hnodes, hdata] at hfreed
    rw [nodesFrom_slot h0 ho hbase (by omega) hhigh, dataFrom_slot h0 ho (by omega) hhigh]
    exact h₁.freed.trans hfreed (SubtreeCut.disjoint ht h0 hoslot)
  · intro _ _ i hi
    have hword : s'.word nid i = if cut ≤ base + i * span l then 0 else s.word nid i := by
      rw [h₂.slot, hslot]
      by_cases hio : i ≤ o
      · have hle : i * span l ≤ o * span l := Nat.mul_le_mul_right _ hio
        rw [if_neg (by rw [mem_slotsFrom]; omega), if_neg (by omega)]
      · rw [if_pos (by rw [mem_slotsFrom]; exact ⟨by omega, mem_slots.mp hi⟩),
          if_pos (behind_cut hhigh (by omega))]
    refine ⟨hword, ?_⟩
    -- the children: behind the cut, at it, before it
    have hkeep : ∀ m ∈ nodesOf s.word l (s.word nid i), i ≤ o → ∀ j, s'.word m j = s₁.word m j := by
      intro m hm hio j
      refine h₂.word m ?_ ?_ j
      · rw [hnodes]
        intro hm'
        obtain ⟨i', hi', hmi'⟩ := List.mem_flatMap.mp hm'
        have hne : i ≠ i' := by
          rw [mem_slotsFrom] at hi'
          omega
        exact ht.disjoint_slots h0 hi (mem_behind hi').1 hne hm hmi'
      · rintro rfl
        have := (ht.below h0 (List.singleton_sublist.mpr hi)).notMem
        rw [nodesBelow, List.flatMap_cons, List.flatMap_nil, List.append_nil] at this
        exact this hm
    rcases Nat.lt_trichotomy i o with hio | rfl | hio
    · refine Kept.of_words (fun m hm j => ?_) (before_cut (by omega) hio)
      rw [hkeep m hm (by omega), hother i hi (by omega) m hm]
    · exact h₁.kept.trans_words fun m hm => hkeep m hm (Nat.le_refl i)
    · exact Kept.of_le (behind_cut hhigh hio)
  · intro m hm i
    rw [nodesOf_succ h0, List.mem_append, List.mem_singleton, not_or] at hm
    have hmo : m ∉ nodesOf s.word l (s.word nid o) := fun hm' =>
      hm.1 (List.mem_flatMap.mpr ⟨o, hoslot, hm'⟩)
    rw [h₂.word m ?_ hm.2, h₁.word m hmo]
    rw [hnodes]
    intro hm'
    obtain ⟨i', hi', hmi'⟩ := List.mem_flatMap.mp hm'
    exact hm.1 (List.mem_flatMap.mpr ⟨i', (mem_behind hi').1, hmi'⟩)

/-- A loop from a slot on is a cut there. -/
theorem ChildrenFreed.subtreeCut (h : ChildrenFreed s s' l nid (slotsFrom o))
    (ht : TreeAt s (l + 1) nid)
    (h0 : nid ≠ 0) (ho : o ≠ 0) (hle : o ≤ nidsPerBlock) :
    SubtreeCut s s' (l + 1) nid base (base + o * span l) := by
  obtain ⟨o, rfl⟩ := Nat.exists_eq_succ_of_ne_zero ho
  have hpos := span_pos l
  have hsucc : (o + 1) * span l = o * span l + span l := Nat.succ_mul o (span l)
  have hbefore : SubtreeCut s s l (s.word nid o) (base + o * span l) (base + (o + 1) * span l) :=
    SubtreeCut.untouched s (by rw [hsucc]; omega)
  exact hbefore.slot h ht h0 (by omega) (by rw [hsucc]; omega) (Nat.le_refl _)

end

end F2fs.Truncate

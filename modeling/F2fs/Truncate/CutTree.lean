/-
  What a cut leaves of an index tree.

  After a cut the nodes that start before it are a tree again, and the direct node with a
  number below the cut is the one that was there; from the cut on there is none.
-/
import F2fs.Truncate.InodeBlocks

namespace F2fs.Truncate

open F2fs.Node

/-! ## The nodes before a cut -/

/-- The nodes that start before `cut`. -/
def nodesBefore (w : Words) (cut : Nat) : Nat → Nat → Nat → List Nat
  | 0, nid, base => if nid = 0 ∨ cut ≤ base then [] else [nid]
  | l + 1, nid, base =>
    if nid = 0 ∨ cut ≤ base then []
    else (slots.flatMap fun i => nodesBefore w cut l (w nid i) (base + i * span l)) ++ [nid]

section

variable {w w' : Words} {cut l nid base : Nat}

theorem nodesBefore_of_le (h : cut ≤ base) : nodesBefore w cut l nid base = [] := by
  cases l with
  | zero => exact if_pos (Or.inr h)
  | succ l => exact if_pos (Or.inr h)

theorem nodesBefore_missing (l base : Nat) : nodesBefore w cut l 0 base = [] := by
  cases l with
  | zero => exact if_pos (Or.inl rfl)
  | succ l => exact if_pos (Or.inl rfl)

theorem nodesBefore_succ : nodesBefore w cut (l + 1) nid base =
    if nid = 0 ∨ cut ≤ base then []
    else (slots.flatMap fun i => nodesBefore w cut l (w nid i) (base + i * span l)) ++ [nid] := rfl

theorem nodesFrom_append_nodesBefore {l : Nat} : ∀ {nid base : Nat},
    (nodesFrom w cut l nid base ++ nodesBefore w cut l nid base).Perm (nodesOf w l nid) := by
  induction l with
  | zero =>
      intro nid base
      by_cases h0 : nid = 0
      · simp [h0, nodesFrom, nodesBefore, nodesOf]
      · rw [nodesOf_zero h0, nodesFrom, nodesBefore]
        by_cases hb : base < cut
        · simp [h0, hb, Nat.not_le.mpr hb]
        · simp [h0, hb, Nat.not_lt.mp hb]
  | succ l ih =>
      intro nid base
      by_cases h0 : nid = 0
      · rw [h0, nodesFrom_missing, nodesBefore_missing, nodesOf_missing]
        exact List.Perm.refl _
      by_cases hb : base < cut
      · have hnot : ¬(nid = 0 ∨ cut ≤ base) := by omega
        rw [nodesFrom_succ h0, nodesBefore_succ, if_pos hb, if_neg hnot, List.append_nil,
          nodesOf_succ h0, ← List.append_assoc]
        refine List.Perm.append_right _ ?_
        refine (List.flatMap_append_perm _ _ _).trans ?_
        exact List.Perm.flatMap_left _ fun i _ => ih
      · rw [nodesBefore_of_le (Nat.not_lt.mp hb), List.append_nil,
          nodesFrom_of_le (Nat.not_lt.mp hb)]

/-- What is left at a slot that is cleared if it leads behind the cut. -/
def left (cut base nid : Nat) : Nat := if cut ≤ base then 0 else nid

/-- The nodes of a tree that was cut. -/
theorem Kept.nodesOf_eq {l : Nat} : ∀ {nid base : Nat}, Kept w w' cut l nid base →
    nodesOf w' l (left cut base nid) = nodesBefore w cut l nid base := by
  induction l with
  | zero =>
      intro nid base _
      unfold left nodesBefore
      by_cases hb : cut ≤ base <;> by_cases h0 : nid = 0 <;>
        simp [hb, h0, nodesOf_missing, nodesOf_zero]
  | succ l ih =>
      intro nid base h
      rw [left, nodesBefore_succ]
      by_cases hb : cut ≤ base
      · rw [if_pos hb, if_pos (Or.inr hb), nodesOf_missing]
      by_cases h0 : nid = 0
      · rw [if_neg hb, if_pos (Or.inl h0), h0, nodesOf_missing]
      rw [if_neg hb, if_neg (by omega), nodesOf_succ h0]
      congr 1
      refine List.flatMap_congr fun i hi => ?_
      obtain ⟨hword, hchild⟩ := h h0 (by omega) i hi
      rw [hword]
      exact ih hchild

/-- The direct nodes of a tree that was cut. -/
theorem Kept.dnodeAt_eq {l : Nat} : ∀ {nid base r : Nat}, Kept w w' cut l nid base → r < span l →
    dnodeAt w' l (left cut base nid) r = left cut (base + r) (dnodeAt w l nid r) := by
  induction l with
  | zero =>
      intro nid base r _ hr
      obtain rfl : r = 0 := Nat.lt_one_iff.mp hr
      rfl
  | succ l ih =>
      intro nid base r h hr
      by_cases hb : cut ≤ base
      · rw [left, if_pos hb, dnodeAt_missing, left, if_pos (by omega)]
      rw [left, if_neg hb]
      by_cases h0 : nid = 0
      · rw [h0, dnodeAt_missing, dnodeAt_missing, left, ite_self]
      rw [span_succ, Nat.mul_comm] at hr
      have hi : r / span l ∈ slots := mem_slots.mpr (Nat.div_lt_of_lt_mul hr)
      obtain ⟨hword, hchild⟩ := h h0 (by omega) _ hi
      have hsplit : base + r / span l * span l + r % span l = base + r := by
        have := Nat.div_add_mod r (span l)
        rw [Nat.mul_comm] at this
        omega
      rw [dnodeAt, if_neg h0, hword, dnodeAt, if_neg h0]
      rw [← hsplit]
      exact ih hchild (Nat.mod_lt _ (span_pos l))

/-- The words of a direct node before the cut. -/
theorem Kept.word_eq {l : Nat} : ∀ {nid base r : Nat}, Kept w w' cut l nid base → r < span l →
    base + r < cut → dnodeAt w l nid r ≠ 0 → ∀ i,
    w' (dnodeAt w l nid r) i = w (dnodeAt w l nid r) i := by
  induction l with
  | zero =>
      intro nid base r h hr hcut h0
      exact h h0 (by omega)
  | succ l ih =>
      intro nid base r h hr hcut hd
      by_cases h0 : nid = 0
      · rw [h0, dnodeAt_missing] at hd
        exact absurd rfl hd
      rw [span_succ, Nat.mul_comm] at hr
      rw [dnodeAt, if_neg h0] at hd ⊢
      have hi : r / span l ∈ slots := mem_slots.mpr (Nat.div_lt_of_lt_mul hr)
      have hsplit := Nat.div_add_mod r (span l)
      rw [Nat.mul_comm] at hsplit
      exact ih (h h0 (by omega) _ hi).2 (Nat.mod_lt _ (span_pos l)) (by omega) hd

end

/-! ## Direct nodes -/

section

variable {w : Words} {l nid base r r' : Nat} {s : Index}

theorem dnodeAt_mem {l : Nat} : ∀ {nid r : Nat}, r < span l → dnodeAt w l nid r ≠ 0 →
    dnodeAt w l nid r ∈ nodesOf w l nid := by
  induction l with
  | zero =>
      intro nid r _ h0
      exact mem_nodesOf_self h0 0
  | succ l ih =>
      intro nid r hr hd
      by_cases h0 : nid = 0
      · rw [h0, dnodeAt_missing] at hd
        exact absurd rfl hd
      rw [span_succ, Nat.mul_comm] at hr
      rw [dnodeAt, if_neg h0] at hd ⊢
      exact mem_nodesOf_child h0 (mem_slots.mpr (Nat.div_lt_of_lt_mul hr))
        (ih (Nat.mod_lt _ (span_pos l)) hd)

/-- Each direct node has one number. -/
theorem TreeAt.dnodeAt_inj {l : Nat} : ∀ {nid r r' : Nat}, TreeAt s l nid → r < span l →
    r' < span l → dnodeAt s.word l nid r ≠ 0 →
    dnodeAt s.word l nid r' = dnodeAt s.word l nid r → r' = r := by
  induction l with
  | zero =>
      intro nid r r' _ hr hr' _ _
      rw [Nat.lt_one_iff.mp hr, Nat.lt_one_iff.mp hr']
  | succ l ih =>
      intro nid r r' ht hr hr' hd heq
      by_cases h0 : nid = 0
      · rw [h0, dnodeAt_missing] at hd
        exact absurd rfl hd
      rw [span_succ, Nat.mul_comm] at hr hr'
      rw [dnodeAt, if_neg h0] at hd heq
      rw [dnodeAt, if_neg h0] at heq
      have hi : r / span l ∈ slots := mem_slots.mpr (Nat.div_lt_of_lt_mul hr)
      have hi' : r' / span l ∈ slots := mem_slots.mpr (Nat.div_lt_of_lt_mul hr')
      have hmod := Nat.mod_lt r (span_pos l)
      have hmod' := Nat.mod_lt r' (span_pos l)
      by_cases hii : r' / span l = r / span l
      · rw [hii] at heq
        have hrec := ih (ht.child h0 hi) hmod hmod' hd heq
        rw [← Nat.div_add_mod r (span l), ← Nat.div_add_mod r' (span l), hii, hrec]
      · have hm := dnodeAt_mem hmod hd
        have hm' := dnodeAt_mem hmod' (heq ▸ hd)
        rw [heq] at hm'
        exact (ht.disjoint_slots h0 hi' hi hii hm' hm).elim

/-- Between the cut and the direct node it was made for there is none. -/
theorem dnodeAt_behind_cut {l : Nat} : ∀ {nid base r r' : Nat}, r < span l →
    cutBelow w l nid base r ≤ base + r' → r' < r → dnodeAt w l nid r' = 0 := by
  induction l with
  | zero =>
      intro nid base r r' hr _ hlt
      have : r = 0 := Nat.lt_one_iff.mp hr
      omega
  | succ l ih =>
      intro nid base r r' hr hcut hlt
      by_cases h0 : nid = 0
      · rw [h0, dnodeAt_missing]
      rw [cutBelow, if_neg h0] at hcut
      rw [dnodeAt, if_neg h0]
      have hsplit := Nat.div_add_mod r (span l)
      have hsplit' := Nat.div_add_mod r' (span l)
      rw [Nat.mul_comm] at hsplit hsplit'
      have hmod' := Nat.mod_lt r' (span_pos l)
      have hle : r / span l * span l ≤ r' := by
        have h : base + r / span l * span l ≤ base + r' := Nat.le_trans le_cutBelow hcut
        omega
      have hii : r' / span l = r / span l := by
        refine Nat.le_antisymm (Nat.div_le_div_right (Nat.le_of_lt hlt)) ?_
        exact (Nat.le_div_iff_mul_le (span_pos l)).mpr hle
      rw [hii] at hsplit' ⊢
      have hchild : cutBelow w l (w nid (r / span l)) (base + r / span l * span l) (r % span l) ≤
          base + r / span l * span l + r' % span l := by omega
      exact ih (Nat.mod_lt _ (span_pos l)) hchild (by omega)

end

end F2fs.Truncate

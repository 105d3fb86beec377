/-
  The index tree below an inode.

  A node of level 0 is a direct node, one of level `l + 1` has 1018 nodes of level `l`
  below it; nid 0 is a missing node.  Direct nodes are numbered in the order of the
  blocks they hold, `base` being the number of the first one below a node.
  `nodesFrom w cut` lists the nodes with `cut ≤ base`, children before their parent;
  `nodesOf` lists them all.
-/
import F2fs.Node.NodePath

namespace F2fs.Truncate

open F2fs.Node

/-- The words of the node pages, by nid. -/
abbrev Words := Nat → Nat → Nat

/-- The direct nodes below a node of level `l`. -/
def span (l : Nat) : Nat := nidsPerBlock ^ l

theorem span_succ (l : Nat) : span (l + 1) = nidsPerBlock * span l := by
  unfold span
  rw [Nat.pow_succ, Nat.mul_comm]

theorem span_pos (l : Nat) : 0 < span l := Nat.pow_pos (by decide)

/-- The slots of an indirect node, and the addresses of a direct one. -/
@[irreducible] def slots : List Nat := List.range nidsPerBlock

theorem mem_slots {i : Nat} : i ∈ slots ↔ i < nidsPerBlock := by
  unfold slots
  exact List.mem_range

/-! ## Nodes -/

/-- The nodes that start at `cut` or behind it. -/
def nodesFrom (w : Words) (cut : Nat) : Nat → Nat → Nat → List Nat
  | 0, nid, base => if nid = 0 ∨ base < cut then [] else [nid]
  | l + 1, nid, base =>
    if nid = 0 then []
    else
      (slots.flatMap fun i => nodesFrom w cut l (w nid i) (base + i * span l)) ++
        if base < cut then [] else [nid]

/-- All nodes. -/
def nodesOf (w : Words) (l nid : Nat) : List Nat := nodesFrom w 0 l nid 0

/-- The direct nodes that start at `cut` or behind it. -/
def dnodesFrom (w : Words) (cut : Nat) : Nat → Nat → Nat → List Nat
  | 0, nid, base => if nid = 0 ∨ base < cut then [] else [nid]
  | l + 1, nid, base =>
    if nid = 0 then []
    else slots.flatMap fun i => dnodesFrom w cut l (w nid i) (base + i * span l)

/-- The block addresses of a direct node. -/
def addrsOf (w : Words) (nid : Nat) : List Nat := (slots.map (w nid)).filter (· ≠ nullAddr)

/-- The block addresses in direct nodes that start at `cut` or behind it. -/
def dataFrom (w : Words) (cut l nid base : Nat) : List Nat :=
  (dnodesFrom w cut l nid base).flatMap (addrsOf w)

def dataOf (w : Words) (l nid : Nat) : List Nat := dataFrom w 0 l nid 0

/-- The direct node with number `k` below a node. -/
def dnodeAt (w : Words) : Nat → Nat → Nat → Nat
  | 0, nid, _ => nid
  | l + 1, nid, k => if nid = 0 then 0 else dnodeAt w l (w nid (k / span l)) (k % span l)

section Nodes

variable {w w' : Words} {cut : Nat}

theorem nodesFrom_missing (l base : Nat) : nodesFrom w cut l 0 base = [] := by
  cases l <;> simp [nodesFrom]

theorem dnodesFrom_missing (l base : Nat) : dnodesFrom w cut l 0 base = [] := by
  cases l <;> simp [dnodesFrom]

theorem dnodeAt_missing (l k : Nat) : dnodeAt w l 0 k = 0 := by
  cases l <;> simp [dnodeAt]

theorem nodesFrom_succ {nid : Nat} (h : nid ≠ 0) (l base : Nat) :
    nodesFrom w cut (l + 1) nid base =
      (slots.flatMap fun i => nodesFrom w cut l (w nid i) (base + i * span l)) ++
        if base < cut then [] else [nid] := by
  rw [nodesFrom, if_neg h]

theorem dnodesFrom_succ {nid : Nat} (h : nid ≠ 0) (l base : Nat) :
    dnodesFrom w cut (l + 1) nid base =
      slots.flatMap fun i => dnodesFrom w cut l (w nid i) (base + i * span l) := by
  rw [dnodesFrom, if_neg h]

/-- Where a node is does not matter if all of it is behind the cut. -/
theorem nodesFrom_of_le {l nid base : Nat} (h : cut ≤ base) :
    nodesFrom w cut l nid base = nodesOf w l nid := by
  suffices hind : ∀ l nid base base' cut cut', cut ≤ base → cut' ≤ base' →
      nodesFrom w cut l nid base = nodesFrom w cut' l nid base' from
    hind l nid base 0 cut 0 h (Nat.le_refl 0)
  clear h
  intro l
  induction l with
  | zero =>
      intro nid base base' cut cut' h h'
      simp only [nodesFrom, Nat.not_lt.mpr h, Nat.not_lt.mpr h']
  | succ l ih =>
      intro nid base base' cut cut' h h'
      simp only [nodesFrom, Nat.not_lt.mpr h, Nat.not_lt.mpr h']
      have hchildren := fun i : Nat => ih (w nid i) (base + i * span l) (base' + i * span l)
        cut cut' (by omega) (by omega)
      simp only [hchildren]

theorem dnodesFrom_of_le {l nid base : Nat} (h : cut ≤ base) :
    dnodesFrom w cut l nid base = dnodesFrom w 0 l nid 0 := by
  suffices hind : ∀ l nid base base' cut cut', cut ≤ base → cut' ≤ base' →
      dnodesFrom w cut l nid base = dnodesFrom w cut' l nid base' from
    hind l nid base 0 cut 0 h (Nat.le_refl 0)
  clear h
  intro l
  induction l with
  | zero =>
      intro nid base base' cut cut' h h'
      simp only [dnodesFrom, Nat.not_lt.mpr h, Nat.not_lt.mpr h']
  | succ l ih =>
      intro nid base base' cut cut' h h'
      simp only [dnodesFrom]
      have hchildren := fun i : Nat => ih (w nid i) (base + i * span l) (base' + i * span l)
        cut cut' (by omega) (by omega)
      simp only [hchildren]

/-- The end of the range of a child. -/
theorem child_le {i l base : Nat} (hi : i ∈ slots) :
    base + i * span l + span l ≤ base + span (l + 1) := by
  rw [mem_slots] at hi
  rw [span_succ]
  have := Nat.mul_le_mul_right (span l) (Nat.succ_le_of_lt hi)
  rw [Nat.succ_mul] at this
  omega

theorem nodesFrom_of_ge {l : Nat} : ∀ {nid base : Nat}, base + span l ≤ cut →
    nodesFrom w cut l nid base = [] := by
  induction l with
  | zero =>
      intro nid base h
      have hlt : base < cut := h
      simp [nodesFrom, hlt]
  | succ l ih =>
      intro nid base h
      have hpos := span_pos (l + 1)
      unfold nodesFrom
      rw [if_pos (by omega : base < cut), List.append_nil]
      split
      · rfl
      · refine List.flatMap_eq_nil_iff.mpr fun i hi => ih ?_
        exact Nat.le_trans (child_le hi) h

theorem dnodesFrom_of_ge {l : Nat} : ∀ {nid base : Nat}, base + span l ≤ cut →
    dnodesFrom w cut l nid base = [] := by
  induction l with
  | zero =>
      intro nid base h
      have hlt : base < cut := h
      simp [dnodesFrom, hlt]
  | succ l ih =>
      intro nid base h
      unfold dnodesFrom
      split
      · rfl
      · refine List.flatMap_eq_nil_iff.mpr fun i hi => ih ?_
        exact Nat.le_trans (child_le hi) h

theorem nodesOf_missing (l : Nat) : nodesOf w l 0 = [] := nodesFrom_missing l 0

theorem nodesOf_zero {nid : Nat} (h : nid ≠ 0) : nodesOf w 0 nid = [nid] := by
  simp [nodesOf, nodesFrom, h]

theorem nodesOf_succ {nid : Nat} (h : nid ≠ 0) (l : Nat) :
    nodesOf w (l + 1) nid = (slots.flatMap fun i => nodesOf w l (w nid i)) ++ [nid] := by
  rw [nodesOf, nodesFrom_succ h, if_neg (Nat.not_lt_zero 0)]
  congr 2
  funext i
  exact nodesFrom_of_le (Nat.zero_le _)

theorem mem_nodesOf_self {nid : Nat} (h : nid ≠ 0) (l : Nat) : nid ∈ nodesOf w l nid := by
  cases l with
  | zero => simp [nodesOf_zero h]
  | succ l => simp [nodesOf_succ h]

theorem mem_nodesOf_child {l nid i m : Nat} (hn : nid ≠ 0) (hi : i ∈ slots)
    (hm : m ∈ nodesOf w l (w nid i)) : m ∈ nodesOf w (l + 1) nid := by
  rw [nodesOf_succ hn]
  exact List.mem_append_left _ (List.mem_flatMap.mpr ⟨i, hi, hm⟩)

theorem nodesFrom_sublist {l : Nat} : ∀ {nid base : Nat},
    (nodesFrom w cut l nid base).Sublist (nodesOf w l nid) := by
  induction l with
  | zero =>
      intro nid base
      by_cases hn : nid = 0
      · simp [nodesFrom, hn]
      · rw [nodesOf_zero hn, nodesFrom]
        split
        · exact List.nil_sublist _
        · exact List.Sublist.refl _
  | succ l ih =>
      intro nid base
      by_cases hn : nid = 0
      · simp [nodesFrom, hn]
      · rw [nodesOf_succ hn, nodesFrom_succ hn]
        refine List.Sublist.append ?_ ?_
        · exact List.Sublist.flatMap_right _ fun i _ => ih
        · split
          · exact List.nil_sublist _
          · exact List.Sublist.refl _

/-! ### The words that matter -/

/-- The nodes below a node depend on the words of these nodes only. -/
theorem nodesFrom_congr {l : Nat} : ∀ {nid base : Nat},
    (∀ m ∈ nodesOf w l nid, ∀ i, w' m i = w m i) →
    nodesFrom w' cut l nid base = nodesFrom w cut l nid base := by
  induction l with
  | zero =>
      intro nid base _
      rfl
  | succ l ih =>
      intro nid base h
      by_cases hn : nid = 0
      · rw [hn, nodesFrom_missing, nodesFrom_missing]
      · rw [nodesFrom_succ hn, nodesFrom_succ hn]
        congr 1
        refine List.flatMap_congr fun i hi => ?_
        rw [h nid (mem_nodesOf_self hn _) i]
        exact ih fun m hm => h m (mem_nodesOf_child hn hi hm)

theorem nodesOf_congr {l nid : Nat} (h : ∀ m ∈ nodesOf w l nid, ∀ i, w' m i = w m i) :
    nodesOf w' l nid = nodesOf w l nid := nodesFrom_congr h

theorem dnodesFrom_subset {l : Nat} : ∀ {nid base : Nat},
    dnodesFrom w cut l nid base ⊆ nodesOf w l nid := by
  induction l with
  | zero =>
      intro nid base m hm
      rw [dnodesFrom] at hm
      split at hm
      · cases hm
      · rename_i h
        rw [nodesOf_zero (fun h0 => h (Or.inl h0))]
        exact hm
  | succ l ih =>
      intro nid base m hm
      by_cases hn : nid = 0
      · rw [hn, dnodesFrom_missing] at hm
        cases hm
      · rw [dnodesFrom_succ hn] at hm
        obtain ⟨i, hi, hm⟩ := List.mem_flatMap.mp hm
        exact mem_nodesOf_child hn hi (ih hm)

theorem dnodesFrom_congr {l : Nat} : ∀ {nid base : Nat},
    (∀ m ∈ nodesOf w l nid, ∀ i, w' m i = w m i) →
    dnodesFrom w' cut l nid base = dnodesFrom w cut l nid base := by
  induction l with
  | zero =>
      intro nid base _
      rfl
  | succ l ih =>
      intro nid base h
      by_cases hn : nid = 0
      · rw [hn, dnodesFrom_missing, dnodesFrom_missing]
      · rw [dnodesFrom_succ hn, dnodesFrom_succ hn]
        refine List.flatMap_congr fun i hi => ?_
        rw [h nid (mem_nodesOf_self hn _) i]
        exact ih fun m hm => h m (mem_nodesOf_child hn hi hm)

theorem dataFrom_congr {l nid base : Nat} (h : ∀ m ∈ nodesOf w l nid, ∀ i, w' m i = w m i) :
    dataFrom w' cut l nid base = dataFrom w cut l nid base := by
  unfold dataFrom
  rw [dnodesFrom_congr h]
  refine List.flatMap_congr fun m hm => ?_
  unfold addrsOf
  have hw : w' m = w m := funext (h m (dnodesFrom_subset hm))
  rw [hw]

theorem dataOf_congr {l nid : Nat} (h : ∀ m ∈ nodesOf w l nid, ∀ i, w' m i = w m i) :
    dataOf w' l nid = dataOf w l nid := dataFrom_congr h

theorem dataFrom_of_le {l nid base : Nat} (h : cut ≤ base) :
    dataFrom w cut l nid base = dataOf w l nid := by
  unfold dataOf dataFrom
  rw [dnodesFrom_of_le h]

theorem dataFrom_of_ge {l nid base : Nat} (h : base + span l ≤ cut) :
    dataFrom w cut l nid base = [] := by
  unfold dataFrom
  rw [dnodesFrom_of_ge h]
  rfl

theorem dataFrom_missing (l base : Nat) : dataFrom w cut l 0 base = [] := by
  unfold dataFrom
  rw [dnodesFrom_missing]
  rfl

theorem dataFrom_succ {nid : Nat} (h : nid ≠ 0) (l base : Nat) :
    dataFrom w cut (l + 1) nid base =
      slots.flatMap fun i => dataFrom w cut l (w nid i) (base + i * span l) := by
  unfold dataFrom
  rw [dnodesFrom_succ h, List.flatMap_assoc]

theorem dataOf_missing (l : Nat) : dataOf w l 0 = [] := dataFrom_missing l 0

theorem dataOf_zero {nid : Nat} (h : nid ≠ 0) : dataOf w 0 nid = addrsOf w nid := by
  simp [dataOf, dataFrom, dnodesFrom, h]

theorem dataOf_succ {nid : Nat} (h : nid ≠ 0) (l : Nat) :
    dataOf w (l + 1) nid = slots.flatMap fun i => dataOf w l (w nid i) := by
  rw [dataOf, dataFrom_succ h]
  refine List.flatMap_congr fun i _ => ?_
  exact dataFrom_of_le (Nat.zero_le _)

end Nodes

end F2fs.Truncate

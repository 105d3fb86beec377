/-
  Items laid out one per address, upwards from a start address, with addresses
  taken modulo the size `m` of the address word.

  A writer that emits its blocks with a running address counter is shown equal to
  `placed m start items`; readers that compute addresses by formula are then
  compared with positions in `items`.
-/
import Mathlib

namespace Placement

variable {α : Type*} {m : Nat}

/-- `items` at consecutive addresses from `start`, modulo `m`. -/
def placed (m start : Nat) : List α → List (Nat × α)
  | [] => []
  | x :: xs => (start % m, x) :: placed m (start + 1) xs

@[simp] theorem placed_nil (start : Nat) : placed m start ([] : List α) = [] := rfl

@[simp] theorem placed_cons (start : Nat) (x : α) (xs : List α) :
    placed m start (x :: xs) = (start % m, x) :: placed m (start + 1) xs := rfl

theorem placed_append (start : Nat) (xs ys : List α) :
    placed m start (xs ++ ys) = placed m start xs ++ placed m (start + xs.length) ys := by
  induction xs generalizing start with
  | nil => simp
  | cons x xs ih =>
      rw [List.cons_append, placed_cons, ih, placed_cons, List.cons_append, List.length_cons]
      congr 3
      omega

@[simp] theorem length_placed (start : Nat) (xs : List α) :
    (placed m start xs).length = xs.length := by
  induction xs generalizing start with
  | nil => rfl
  | cons x xs ih => rw [placed_cons, List.length_cons, ih, List.length_cons]

theorem map_snd_placed (start : Nat) (xs : List α) :
    (placed m start xs).map Prod.snd = xs := by
  induction xs generalizing start with
  | nil => rfl
  | cons x xs ih => rw [placed_cons, List.map_cons, ih]

theorem map_fst_placed (start : Nat) (xs : List α) :
    (placed m start xs).map Prod.fst = (List.range xs.length).map fun k => (start + k) % m := by
  induction xs generalizing start with
  | nil => rfl
  | cons x xs ih =>
      rw [placed_cons, List.map_cons, ih, List.length_cons, List.range_succ_eq_map,
        List.map_cons, List.map_map]
      simp only [Nat.add_zero, List.cons.injEq, true_and]
      refine List.map_congr_left fun k _ => ?_
      simp only [Function.comp_apply]
      congr 1
      omega

/-- A counted loop that writes item `f i` at `start + i`. -/
theorem map_range_eq_placed (start n : Nat) (f : Nat → α) :
    ((List.range n).map fun i => ((start + i) % m, f i)) =
      placed m start ((List.range n).map f) := by
  induction n with
  | zero => rfl
  | succ n ih =>
      rw [List.range_succ, List.map_append, List.map_append, placed_append, ih]
      simp

/-- Item number `k` sits at `start + k`. -/
theorem mem_placed (start : Nat) {xs : List α} {k : Nat} {x : α} (h : xs[k]? = some x) :
    ((start + k) % m, x) ∈ placed m start xs := by
  induction xs generalizing start k with
  | nil => cases h
  | cons y ys ih =>
      cases k with
      | zero =>
          rw [List.getElem?_cons_zero, Option.some.injEq] at h
          subst h
          exact List.mem_cons_self
      | succ k =>
          rw [List.getElem?_cons_succ] at h
          have hk := ih (start + 1) h
          rw [show start + (k + 1) = start + 1 + k by omega]
          exact List.mem_cons_of_mem _ hk

theorem snd_mem_of_mem_placed {start : Nat} {xs : List α} {w : Nat × α}
    (h : w ∈ placed m start xs) : w.2 ∈ xs := by
  have hw : w.2 ∈ (placed m start xs).map Prod.snd := List.mem_map_of_mem h
  rwa [map_snd_placed] at hw

/-- Selecting the one run of items that satisfies `P`. -/
theorem filter_placed_middle (P : α → Prop) [DecidablePred P] (start : Nat) {xs ys zs : List α}
    (hx : ∀ x ∈ xs, ¬ P x) (hy : ∀ y ∈ ys, P y) (hz : ∀ z ∈ zs, ¬ P z) :
    (placed m start (xs ++ ys ++ zs)).filter (fun w => decide (P w.2)) =
      placed m (start + xs.length) ys := by
  rw [placed_append, placed_append, List.filter_append, List.filter_append]
  have h1 : (placed m start xs).filter (fun w => decide (P w.2)) = [] := by
    refine List.filter_eq_nil_iff.mpr fun w hw => ?_
    simpa using hx w.2 (snd_mem_of_mem_placed hw)
  have h2 : (placed m (start + xs.length) ys).filter (fun w => decide (P w.2)) =
      placed m (start + xs.length) ys := by
    refine List.filter_eq_self.mpr fun w hw => ?_
    simpa using hy w.2 (snd_mem_of_mem_placed hw)
  have h3 : (placed m (start + (xs ++ ys).length) zs).filter (fun w => decide (P w.2)) = [] := by
    refine List.filter_eq_nil_iff.mpr fun w hw => ?_
    simpa using hz w.2 (snd_mem_of_mem_placed hw)
  rw [h1, h2, h3, List.nil_append, List.append_nil]

/-- Fewer items than addresses: no address is used twice. -/
theorem nodup_placed (start : Nat) {xs : List α} (h : xs.length ≤ m) :
    ((placed m start xs).map Prod.fst).Nodup := by
  rw [map_fst_placed]
  refine (List.nodup_map_iff_inj_on List.nodup_range).mpr fun i hi j hj hij => ?_
  rw [List.mem_range] at hi hj
  have hmod : (start + i) ≡ (start + j) [MOD m] := hij
  have hij' : i ≡ j [MOD m] := Nat.ModEq.add_left_cancel' start hmod
  rw [Nat.ModEq, Nat.mod_eq_of_lt (by omega), Nat.mod_eq_of_lt (by omega)] at hij'
  exact hij'

end Placement

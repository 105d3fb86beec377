/-
  Folds whose steps each touch one place: `view s k` is what a state shows at place `k`, and
  a step at `k` changes what is shown there by `h k` and nothing else.
-/
import Mathlib

universe u v w

namespace FoldView

variable {σ : Type u} {κ : Type v} {α : Type w} {op : σ → κ → σ} {h : κ → α → α}

variable [DecidableEq κ] in
/-- A fold over distinct places changes each of them once. -/
theorem foldl_view (view : σ → κ → α) (op : σ → κ → σ)
    (step : ∀ s k n, view (op s k) n = if n = k then h k (view s k) else view s n) :
    ∀ {l : List κ} (s : σ) (n : κ), l.Nodup →
      view (l.foldl op s) n = if n ∈ l then h n (view s n) else view s n
  | [], _, _, _ => by rw [if_neg List.not_mem_nil]; rfl
  | k :: l, s, n, hnodup => by
      obtain ⟨hk, hl⟩ := List.nodup_cons.mp hnodup
      rw [List.foldl_cons, foldl_view view op step (op s k) n hl, step]
      by_cases hnk : n = k
      · subst hnk
        rw [if_neg hk, if_pos rfl, if_pos List.mem_cons_self]
      · rw [if_neg hnk]
        simp only [List.mem_cons, or_iff_right hnk]

/-- A sum that each step moves by what its place is worth. -/
theorem foldl_count {f : σ → Nat} {m : Nat} {p : κ → Prop} [DecidablePred p]
    (step : ∀ s k, f (op s k) = if p k then (f s + 1) % m else f s) :
    ∀ (l : List κ) (s : σ), f s < m →
      f (l.foldl op s) = (f s + (l.filter fun k => decide (p k)).length) % m
  | [], s, hs => (Nat.mod_eq_of_lt hs).symm
  | k :: l, s, hs => by
      have hk := step s k
      rw [List.foldl_cons]
      by_cases hp : p k
      · rw [if_pos hp] at hk
        rw [foldl_count step l (op s k) (by rw [hk]; exact Nat.mod_lt _ (by omega)), hk,
          List.filter_cons_of_pos (by simpa using hp), List.length_cons, Nat.mod_add_mod]
        congr 1
        omega
      · rw [if_neg hp] at hk
        rw [foldl_count step l (op s k) (by rw [hk]; exact hs), hk,
          List.filter_cons_of_neg (by simpa using hp)]

end FoldView

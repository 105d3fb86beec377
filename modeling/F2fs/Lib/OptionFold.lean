/-
  Loops that may fail: invariant rules for `List.foldlM` in `Option`.
-/
import Mathlib

universe u v

namespace OptionFold

variable {α : Type u} {β : Type v}

/-- A loop whose every step succeeds and carries `P` of the elements still to come. -/
theorem foldlM_total {f : β → α → Option β} {P : List α → β → Prop}
    (step : ∀ x rest b, P (x :: rest) b → ∃ b', f b x = some b' ∧ P rest b') :
    ∀ {l : List α} {b : β}, P l b → ∃ b', l.foldlM f b = some b' ∧ P [] b'
  | [], b, h => ⟨b, rfl, h⟩
  | x :: l, b, h => by
      obtain ⟨b₁, hf, hb₁⟩ := step x l b h
      obtain ⟨b', hfold, hb'⟩ := foldlM_total step hb₁
      refine ⟨b', ?_, hb'⟩
      rw [List.foldlM_cons, hf]
      exact hfold

/-- The same for a counted loop, by the number of rounds done. -/
theorem foldlM_range_total {f : β → Nat → Option β} {P : Nat → β → Prop} (n : Nat)
    (step : ∀ i b, i < n → P i b → ∃ b', f b i = some b' ∧ P (i + 1) b')
    {b : β} (h0 : P 0 b) : ∃ b', (List.range n).foldlM f b = some b' ∧ P n b' := by
  induction n with
  | zero => exact ⟨b, rfl, h0⟩
  | succ n ih =>
      obtain ⟨b₁, h₁, hP₁⟩ := ih fun i b hi => step i b (by omega)
      obtain ⟨b', h', hP'⟩ := step n b₁ (by omega) hP₁
      refine ⟨b', ?_, hP'⟩
      rw [List.range_succ, List.foldlM_append, h₁]
      simpa using h'

/-- An invariant that every successful step keeps. -/
theorem foldlM_inv {f : β → α → Option β} {P : β → Prop} {l : List α}
    (step : ∀ b x b', x ∈ l → P b → f b x = some b' → P b') {b b' : β} (h0 : P b)
    (h : l.foldlM f b = some b') : P b' := by
  induction l generalizing b with
  | nil =>
      have hb : b = b' := Option.some.inj h
      exact hb ▸ h0
  | cons x l ih =>
      rw [List.foldlM_cons, Option.bind_eq_bind, Option.bind_eq_some_iff] at h
      obtain ⟨b₁, hf, hrest⟩ := h
      exact ih (fun b y b' hy => step b y b' (List.mem_cons_of_mem _ hy))
        (step b x b₁ List.mem_cons_self h0 hf) hrest

end OptionFold

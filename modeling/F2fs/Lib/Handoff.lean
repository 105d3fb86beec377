/-
  Items that are handed over on lists.

  An item is put on a list, a list is taken over as a whole, and the first item of a list is
  done with.  No item is ever on two lists, or twice on one.
-/
import Mathlib

universe u v

namespace Handoff

variable {η : Type u} {τ : Type v} {held : η → List τ} {p q : η} {x : τ} {l : List τ}

/-- Every item is on one list at most, and there once. -/
structure Apart (held : η → List τ) : Prop where
  nodup : ∀ p, (held p).Nodup
  once : ∀ p q x, x ∈ held p → x ∈ held q → p = q

theorem Apart.empty : Apart fun _ : η => ([] : List τ) :=
  ⟨fun _ => List.nodup_nil, fun _ _ _ h => absurd h List.not_mem_nil⟩

variable [DecidableEq η]

/-- Lists that were changed at one place. -/
theorem mem_update {r : η} : x ∈ Function.update held p l r ↔
    r = p ∧ x ∈ l ∨ r ≠ p ∧ x ∈ held r := by
  by_cases hr : r = p
  · subst hr
    simp
  · simp [hr]

/-- A list that is replaced by a part of itself. -/
theorem Apart.sub (h : Apart held) (hl : l.Nodup) (hsub : ∀ y ∈ l, y ∈ held p) :
    Apart (Function.update held p l) := by
  have hmem : ∀ r y, y ∈ Function.update held p l r → y ∈ held r := by
    intro r y hy
    rcases mem_update.mp hy with ⟨hr, hin⟩ | ⟨-, hin⟩
    · exact hr ▸ hsub y hin
    · exact hin
  refine ⟨fun r => ?_, fun r r' y hy hy' => h.once r r' y (hmem r y hy) (hmem r' y hy')⟩
  by_cases hr : r = p
  · subst hr
    rwa [Function.update_self]
  · rw [Function.update_of_ne hr]
    exact h.nodup r

/-- An item that is on no list is put on one. -/
theorem Apart.post (h : Apart held) (hx : ∀ r, x ∉ held r) :
    Apart (Function.update held p (x :: held p)) := by
  have hmem : ∀ r y, y ∈ Function.update held p (x :: held p) r →
      y = x ∧ r = p ∨ y ≠ x ∧ y ∈ held r := by
    intro r y hy
    by_cases hyx : y = x
    · rcases mem_update.mp hy with ⟨hr, -⟩ | ⟨-, hy⟩
      · exact .inl ⟨hyx, hr⟩
      · exact absurd (hyx ▸ hy) (hx r)
    · rcases mem_update.mp hy with ⟨hr, hin⟩ | ⟨-, hin⟩
      · exact .inr ⟨hyx, hr ▸ (List.mem_cons.mp hin).resolve_left hyx⟩
      · exact .inr ⟨hyx, hin⟩
  refine ⟨fun r => ?_, fun r r' y hy hy' => ?_⟩
  · by_cases hr : r = p
    · subst hr
      rw [Function.update_self]
      exact List.nodup_cons.mpr ⟨hx r, h.nodup r⟩
    · rw [Function.update_of_ne hr]
      exact h.nodup r
  · rcases hmem r y hy with ⟨hyx, hr⟩ | ⟨hyx, hy⟩
    · rcases hmem r' y hy' with ⟨-, hr'⟩ | ⟨hne, -⟩
      · exact hr.trans hr'.symm
      · exact absurd hyx hne
    · rcases hmem r' y hy' with ⟨hyx', -⟩ | ⟨-, hy'⟩
      · exact absurd hyx' hyx
      · exact h.once r r' y hy hy'

/-- A list is taken over, in some order, by someone who has none. -/
theorem Apart.take (h : Apart held) (hpq : p ≠ q) (hl : l.Perm (held p)) :
    Apart (Function.update (Function.update held p []) q l) := by
  have hmem : ∀ r y, y ∈ Function.update (Function.update held p []) q l r →
      r = q ∧ y ∈ held p ∨ r ≠ p ∧ r ≠ q ∧ y ∈ held r := by
    intro r y hy
    rcases mem_update.mp hy with ⟨hr, hy⟩ | ⟨hr, hy⟩
    · exact .inl ⟨hr, hl.mem_iff.mp hy⟩
    · rcases mem_update.mp hy with ⟨-, hy⟩ | ⟨hrp, hy⟩
      · cases hy
      · exact .inr ⟨hrp, hr, hy⟩
  refine ⟨fun r => ?_, fun r r' y hy hy' => ?_⟩
  · by_cases hr : r = q
    · subst hr
      rw [Function.update_self]
      exact hl.nodup_iff.mpr (h.nodup p)
    · rw [Function.update_of_ne hr]
      by_cases hrp : r = p
      · subst hrp
        rw [Function.update_self]
        exact List.nodup_nil
      · rw [Function.update_of_ne hrp]
        exact h.nodup r
  · rcases hmem r y hy with ⟨hr, hy⟩ | ⟨hrp, -, hy⟩
    · rcases hmem r' y hy' with ⟨hr', -⟩ | ⟨hrp', -, hy'⟩
      · exact hr.trans hr'.symm
      · exact absurd (h.once r' p y hy' hy) hrp'
    · rcases hmem r' y hy' with ⟨-, hy'⟩ | ⟨-, -, hy'⟩
      · exact absurd (h.once r p y hy hy') hrp
      · exact h.once r r' y hy hy'

/-- The first item is done with, and on no list any more. -/
theorem Apart.pop (h : Apart held) (hp : held p = x :: l) :
    Apart (Function.update held p l) ∧ ∀ r, x ∉ Function.update held p l r := by
  have hnodup := h.nodup p
  rw [hp, List.nodup_cons] at hnodup
  refine ⟨h.sub hnodup.2 fun y hy => hp ▸ List.mem_cons_of_mem _ hy, fun r hr => ?_⟩
  rcases mem_update.mp hr with ⟨-, hx⟩ | ⟨hne, hx⟩
  · exact hnodup.1 hx
  · exact hne (h.once r p x hx (hp ▸ List.mem_cons_self))

end Handoff

/-
  Who owns which block.

  A ledger says for every place which block is written there and for every block whether it
  is allocated.  Its books balance when no block stands in two places and every block that
  stands somewhere is allocated.  A block that is allocated and stands nowhere is spare.

  A transfer to an empty place and a release of what a place holds keep the books and make
  no block spare; overwriting a place that holds a block makes that block spare.
-/
import Mathlib

universe u v

/-- The block in every place, and the blocks that are allocated. -/
structure Ledger (κ : Type u) (α : Type v) where
  own : κ → Option α
  live : α → Prop

namespace Ledger

variable {κ : Type u} {α : Type v}

@[ext]
theorem ext {L M : Ledger κ α} (hown : ∀ k, L.own k = M.own k) (hlive : ∀ a, L.live a ↔ M.live a) :
    L = M := by
  obtain ⟨own, live⟩ := L
  obtain ⟨own', live'⟩ := M
  obtain rfl : own = own' := funext hown
  obtain rfl : live = live' := funext fun a => propext (hlive a)
  rfl

/-- No block stands in two places, and what stands somewhere is allocated. -/
structure Balanced (L : Ledger κ α) : Prop where
  inj : ∀ {k k' a}, L.own k = some a → L.own k' = some a → k = k'
  live : ∀ {k a}, L.own k = some a → L.live a

/-- Allocated, and in no place. -/
def Spare (L : Ledger κ α) (a : α) : Prop := L.live a ∧ ∀ k, L.own k ≠ some a

variable [DecidableEq κ]

/-- What stands in `k` goes to `k'`. -/
def transfer (L : Ledger κ α) (k k' : κ) : Ledger κ α where
  own := Function.update (Function.update L.own k none) k' (L.own k)
  live := L.live

/-- What stands in `k` is given back. -/
def release (L : Ledger κ α) (k : κ) : Ledger κ α where
  own := Function.update L.own k none
  live a := L.live a ∧ L.own k ≠ some a

variable {L : Ledger κ α} {k k' : κ} {a : α}

theorem release_empty (h : L.own k = none) : L.release k = L := by
  apply Ledger.ext
  · intro j
    rw [release, ← h, Function.update_eq_self]
  · intro b
    rw [release, h]
    exact and_iff_left (by simp)

theorem transfer_self : L.transfer k k = L := by
  apply Ledger.ext
  · intro j
    rw [transfer, Function.update_idem, Function.update_eq_self]
  · exact fun _ => Iff.rfl

theorem release_own_ne {j : κ} (h : j ≠ k) : (L.release k).own j = L.own j :=
  Function.update_of_ne h _ _

theorem release_own_self : (L.release k).own k = none := Function.update_self ..

theorem transfer_own_target : (L.transfer k k').own k' = L.own k := Function.update_self ..

theorem transfer_own_source (h : k ≠ k') : (L.transfer k k').own k = none :=
  (Function.update_of_ne h _ _).trans (Function.update_self ..)

theorem transfer_own_ne {j : κ} (hk : j ≠ k) (hk' : j ≠ k') :
    (L.transfer k k').own j = L.own j :=
  (Function.update_of_ne hk' _ _).trans (Function.update_of_ne hk _ _)

/-! ## A transfer -/

/-- What a place holds after a transfer it held before, or the source did. -/
theorem transfer_own_some {j : κ} (h : (L.transfer k k').own j = some a) :
    (j = k' ∧ L.own k = some a) ∨ (j ≠ k' ∧ j ≠ k ∧ L.own j = some a) := by
  by_cases hj : j = k'
  · subst hj
    exact Or.inl ⟨rfl, transfer_own_target.symm.trans h⟩
  · by_cases hjk : j = k
    · subst hjk
      rw [transfer_own_source hj] at h
      cases h
    · exact Or.inr ⟨hj, hjk, (transfer_own_ne hjk hj).symm.trans h⟩

theorem Balanced.transfer (b : L.Balanced) (k k' : κ) : (L.transfer k k').Balanced where
  inj {i j a} hi hj := by
    obtain ⟨hik, hi⟩ | ⟨-, hi₂, hi⟩ := transfer_own_some hi <;>
      obtain ⟨hjk, hj⟩ | ⟨-, hj₂, hj⟩ := transfer_own_some hj
    · exact hik.trans hjk.symm
    · exact absurd (b.inj hj hi) hj₂
    · exact absurd (b.inj hi hj) hi₂
    · exact b.inj hi hj
  live {j a} h := by
    obtain ⟨-, h⟩ | ⟨-, -, h⟩ := transfer_own_some h
    · exact b.live h
    · exact b.live h

theorem spare_transfer (h : L.own k' = none) :
    (L.transfer k k').Spare a ↔ L.Spare a := by
  by_cases hk : k = k'
  · rw [hk, transfer_self]
  refine and_congr_right fun _ => ⟨fun hn j => ?_, fun hn j hj => ?_⟩
  · by_cases hjk : j = k
    · subst hjk
      have htarget : (L.transfer j k').own k' = L.own j := transfer_own_target
      rw [← htarget]
      exact hn k'
    · by_cases hjk' : j = k'
      · rw [hjk', h]
        exact fun e => by cases e
      · rw [← transfer_own_ne hjk hjk']
        exact hn j
  · obtain ⟨-, hj⟩ | ⟨-, -, hj⟩ := transfer_own_some hj
    · exact hn k hj
    · exact hn j hj

/-! ## A release -/

theorem release_own_some {j : κ} (h : (L.release k).own j = some a) : j ≠ k ∧ L.own j = some a := by
  by_cases hj : j = k
  · subst hj
    rw [release_own_self] at h
    cases h
  · exact ⟨hj, (release_own_ne hj).symm.trans h⟩

theorem Balanced.release (b : L.Balanced) (k : κ) : (L.release k).Balanced where
  inj hi hj := b.inj (release_own_some hi).2 (release_own_some hj).2
  live {j a} h := by
    obtain ⟨hj, h⟩ := release_own_some h
    exact ⟨b.live h, fun hk => hj (b.inj h hk)⟩

theorem spare_release (k : κ) : (L.release k).Spare a ↔ L.Spare a := by
  constructor
  · rintro ⟨⟨hlive, hk⟩, hn⟩
    refine ⟨hlive, fun j hj => ?_⟩
    by_cases hjk : j = k
    · exact hk (hjk ▸ hj)
    · exact hn j ((release_own_ne hjk).trans hj)
  · rintro ⟨hlive, hn⟩
    exact ⟨⟨hlive, hn k⟩, fun j hj => hn j (release_own_some hj).2⟩

/-! ## Kept books -/

/-- From `L` to `M` the books still balance, no block has become spare, and none has come
    from nowhere. -/
structure Kept (L M : Ledger κ α) : Prop where
  balanced : M.Balanced
  spare : ∀ a, M.Spare a → L.Spare a
  owned : ∀ {k a}, M.own k = some a → ∃ k', L.own k' = some a

omit [DecidableEq κ] in
theorem Balanced.refl_kept (b : L.Balanced) : Kept L L := ⟨b, fun _ h => h, fun h => ⟨_, h⟩⟩

omit [DecidableEq κ] in
theorem Kept.trans {L M N : Ledger κ α} (h : Kept L M) (h' : Kept M N) : Kept L N where
  balanced := h'.balanced
  spare a ha := h.spare a (h'.spare a ha)
  owned hk := by
    obtain ⟨k', hk'⟩ := h'.owned hk
    exact h.owned hk'

theorem Kept.transfer {L M : Ledger κ α} (h : Kept L M) (k : κ) (hk : M.own k' = none) :
    Kept L (M.transfer k k') where
  balanced := h.balanced.transfer k k'
  spare a ha := h.spare a ((spare_transfer hk).mp ha)
  owned hj := by
    obtain ⟨-, hj⟩ | ⟨-, -, hj⟩ := transfer_own_some hj
    · exact h.owned hj
    · exact h.owned hj

theorem Kept.release {L M : Ledger κ α} (h : Kept L M) (k : κ) : Kept L (M.release k) where
  balanced := h.balanced.release k
  spare a ha := h.spare a ((spare_release k).mp ha)
  owned hj := h.owned (release_own_some hj).2

end Ledger

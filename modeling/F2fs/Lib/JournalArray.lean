/-
  A bounded array of keyed records, searched from the front: the journals kept in
  the unused tail of a summary block.

  `view` is what a reader finds for a key.  The one writing operation finds the
  key's slot or takes the next free one, and writes the record there.
-/
import Mathlib

universe u

/-- `n` records, in the first `n` slots of an array. -/
structure JournalArray (ρ : Type u) where
  n : Nat
  slot : Nat → Nat × ρ

namespace JournalArray

variable {ρ : Type u}

/-- The first slot whose key is `k`. -/
def find (j : JournalArray ρ) (k : Nat) : Option Nat :=
  (List.range j.n).find? fun i => (j.slot i).1 == k

/-- The record a search for `k` returns. -/
def view (j : JournalArray ρ) (k : Nat) : Option ρ := (j.find k).map fun i => (j.slot i).2

/-- No key occurs in two slots. -/
def Distinct (j : JournalArray ρ) : Prop :=
  ∀ a b, a < j.n → b < j.n → (j.slot a).1 = (j.slot b).1 → a = b

/-- Find the key's slot, or take the next one while fewer than `cap` are in use. -/
def locate (j : JournalArray ρ) (cap k : Nat) : Option (Nat × JournalArray ρ) :=
  match j.find k with
  | some i => some (i, j)
  | none => if j.n + 1 ≤ cap then some (j.n, { j with n := j.n + 1 }) else none

/-- Write slot `i`. -/
def write (j : JournalArray ρ) (i k : Nat) (r : ρ) : JournalArray ρ :=
  { j with slot := Function.update j.slot i (k, r) }

theorem find_eq_some {j : JournalArray ρ} {k i : Nat} (h : j.find k = some i) :
    i < j.n ∧ (j.slot i).1 = k := by
  have hmem := List.mem_range.mp (List.mem_of_find?_eq_some h)
  have hp := List.find?_some h
  exact ⟨hmem, by simpa using hp⟩

theorem find_eq_none {j : JournalArray ρ} {k : Nat} :
    j.find k = none ↔ ∀ i < j.n, (j.slot i).1 ≠ k := by
  unfold find
  rw [List.find?_eq_none]
  simp

/-- With distinct keys a search finds exactly the slot that holds the key. -/
theorem Distinct.find_slot {j : JournalArray ρ} (hd : j.Distinct) {i : Nat} (hi : i < j.n) :
    j.find (j.slot i).1 = some i := by
  cases h : j.find (j.slot i).1 with
  | none => exact absurd rfl (find_eq_none.mp h i hi)
  | some i' =>
      obtain ⟨hi', hk⟩ := find_eq_some h
      rw [hd i' i hi' hi hk]

theorem Distinct.view_slot {j : JournalArray ρ} (hd : j.Distinct) {i : Nat} (hi : i < j.n) :
    j.view (j.slot i).1 = some (j.slot i).2 := by
  rw [view, hd.find_slot hi]
  rfl

theorem view_eq_some {j : JournalArray ρ} {k : Nat} {r : ρ} (h : j.view k = some r) :
    ∃ i < j.n, j.slot i = (k, r) := by
  unfold view at h
  cases hf : j.find k with
  | none => rw [hf] at h; cases h
  | some i =>
      rw [hf] at h
      obtain ⟨hi, hk⟩ := find_eq_some hf
      exact ⟨i, hi, Prod.ext hk (Option.some.inj h)⟩

theorem view_eq_none {j : JournalArray ρ} {k : Nat} :
    j.view k = none ↔ ∀ i < j.n, (j.slot i).1 ≠ k := by
  rw [← find_eq_none, view, Option.map_eq_none_iff]

theorem view_of_n_zero {j : JournalArray ρ} (h : j.n = 0) (k : Nat) : j.view k = none := by
  rw [view_eq_none, h]
  intro i hi
  omega

/-- Writing the located slot changes what a search returns for no other key. -/
theorem view_locate_write {j j' : JournalArray ρ} {cap i k n : Nat} {r : ρ}
    (h : j.locate cap k = some (i, j')) (hn : n ≠ k) : (j'.write i k r).view n = j.view n := by
  unfold locate at h
  cases hf : j.find k with
  | some i' =>
      rw [hf] at h
      cases h
      obtain ⟨-, hk⟩ := find_eq_some hf
      have hfind : (j.write i k r).find n = j.find n := by
        unfold find
        congr 1
        funext a
        by_cases ha : a = i
        · subst ha
          simp [write, hk]
        · simp [write, ha]
      unfold view
      rw [hfind]
      cases hfn : j.find n with
      | none => rfl
      | some a =>
          have hai : a ≠ i := fun hai => hn (by rw [← (find_eq_some hfn).2, hai, hk])
          simp [write, hai]
  | none =>
      rw [hf] at h
      dsimp only at h
      split_ifs at h
      cases h
      -- the new slot is behind the others and has another key
      have hold : ∀ a, a < j.n → (Function.update j.slot j.n (k, r)) a = j.slot a := fun a ha =>
        Function.update_of_ne (Nat.ne_of_lt ha) _ _
      have hfind : (({ j with n := j.n + 1 } : JournalArray ρ).write j.n k r).find n =
          j.find n := by
        show (List.range (j.n + 1)).find? (fun a => (Function.update j.slot j.n (k, r) a).1 == n) =
          (List.range j.n).find? fun a => (j.slot a).1 == n
        rw [List.range_succ, List.find?_append, List.find?_singleton, Function.update_self,
          if_neg (by simpa using hn.symm), Option.or_none]
        exact List.find?_congr fun a ha => by rw [hold a (List.mem_range.mp ha)]
      unfold view
      rw [hfind]
      cases hfn : j.find n with
      | none => rfl
      | some a => exact congrArg some (congrArg Prod.snd (hold a (find_eq_some hfn).1))

/-- The records after the write are the new one and old ones. -/
theorem slot_locate_write {j j' : JournalArray ρ} {cap i k : Nat} {r : ρ}
    (h : j.locate cap k = some (i, j')) {a : Nat} (ha : a < (j'.write i k r).n) :
    (j'.write i k r).slot a = (k, r) ∨ a < j.n ∧ (j'.write i k r).slot a = j.slot a := by
  by_cases hai : a = i
  · subst hai
    exact Or.inl (Function.update_self ..)
  · have hslot : (j'.write i k r).slot a = j'.slot a := Function.update_of_ne hai ..
    have hn : a < j'.n := ha
    rw [hslot]
    unfold locate at h
    cases hf : j.find k with
    | some i' =>
        rw [hf] at h
        cases h
        exact Or.inr ⟨hn, rfl⟩
    | none =>
        rw [hf] at h
        dsimp only at h
        split_ifs at h
        cases h
        exact Or.inr ⟨by dsimp only at hn; omega, rfl⟩

/-- What locating a key and writing its record does. -/
structure Put (cap : Nat) (j : JournalArray ρ) (k : Nat) (r : ρ) (j' : JournalArray ρ) :
    Prop where
  view_self : j'.view k = some r
  view_other : ∀ k', k' ≠ k → j'.view k' = j.view k'
  distinct : j'.Distinct
  le : j'.n ≤ cap
  grow : j'.n ≤ j.n + 1
  mono : j.n ≤ j'.n

theorem put_spec {j : JournalArray ρ} {cap : Nat} (hd : j.Distinct) (hle : j.n ≤ cap)
    (k : Nat) (r : ρ) (hroom : j.view k = none → j.n + 1 ≤ cap) :
    ∃ i j', j.locate cap k = some (i, j') ∧ Put cap j k r (j'.write i k r) := by
  cases hf : j.find k with
  | some i =>
      obtain ⟨hi, hk⟩ := find_eq_some hf
      have hloc : j.locate cap k = some (i, j) := by rw [locate, hf]
      refine ⟨i, j, hloc, ?_⟩
      -- the slot keeps its key, so every search stops where it did
      have hkeys : ∀ a, ((j.write i k r).slot a).1 = (j.slot a).1 := by
        intro a
        by_cases ha : a = i
        · subst ha; simp [write, hk]
        · simp [write, ha]
      have hfind : ∀ k', (j.write i k r).find k' = j.find k' := by
        intro k'
        unfold find
        simp only [hkeys]
        rfl
      refine ⟨?_, fun k' => view_locate_write hloc, ?_, hle, by simp [write], by simp [write]⟩
      · rw [view, hfind, hf]
        simp [write]
      · intro a b ha hb hab
        rw [hkeys, hkeys] at hab
        exact hd a b ha hb hab
  | none =>
      have hnone : j.view k = none := by rw [view, hf]; rfl
      have habs := find_eq_none.mp hf
      have hloc : j.locate cap k = some (j.n, { j with n := j.n + 1 }) := by
        rw [locate, hf]
        exact if_pos (hroom hnone)
      refine ⟨j.n, { j with n := j.n + 1 }, hloc, ?_⟩
      set j' := ({ j with n := j.n + 1 } : JournalArray ρ).write j.n k r with hj'
      have hself : j'.slot j.n = (k, r) := by simp [hj', write]
      have hother : ∀ a, a ≠ j.n → j'.slot a = j.slot a := by
        intro a ha
        simp [hj', write, ha]
      have hn : j'.n = j.n + 1 := rfl
      have hdist : j'.Distinct := by
        intro a b ha hb hab
        rw [hn] at ha hb
        by_cases ha' : a = j.n
        · by_cases hb' : b = j.n
          · omega
          · rw [ha', hself, hother b hb'] at hab
            exact absurd hab.symm (habs b (by omega))
        · by_cases hb' : b = j.n
          · rw [hb', hself, hother a ha'] at hab
            exact absurd hab (habs a (by omega))
          · rw [hother a ha', hother b hb'] at hab
            exact hd a b (by omega) (by omega) hab
      refine ⟨?_, fun k' => view_locate_write hloc, hdist, by rw [hn]; exact hroom hnone,
        by rw [hn], by rw [hn]; omega⟩
      have hv := hdist.view_slot (i := j.n) (by rw [hn]; omega)
      rwa [hself] at hv

end JournalArray

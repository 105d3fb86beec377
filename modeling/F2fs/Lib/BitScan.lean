/-
  Scanning a bitmap from a start position, in the convention of the kernel's
  `find_next_bit` family: the first matching position, or the size of the map.
-/
import Mathlib

namespace BitScan

variable {p q : Nat → Bool}

/-- The first position from `start` that satisfies `p`, or `size`. -/
def next (p : Nat → Bool) (size start : Nat) : Nat :=
  ((List.range' start (size - start)).find? p).getD size

theorem next_le (p : Nat → Bool) (size start : Nat) : next p size start ≤ size := by
  unfold next
  cases h : (List.range' start (size - start)).find? p with
  | none => exact le_refl size
  | some i =>
      have hi := List.mem_range'_1.mp (List.mem_of_find?_eq_some h)
      rw [Option.getD_some]
      omega

/-- A position below the size is a match, and the first one. -/
theorem next_spec {size start : Nat} (h : next p size start < size) :
    start ≤ next p size start ∧ p (next p size start) = true ∧
      ∀ j, start ≤ j → j < next p size start → p j = false := by
  unfold next at h ⊢
  cases hf : (List.range' start (size - start)).find? p with
  | none =>
      rw [hf] at h
      exact absurd h (lt_irrefl size)
  | some i =>
      have hi := List.mem_range'_1.mp (List.mem_of_find?_eq_some hf)
      refine ⟨hi.1, List.find?_some hf, ?_⟩
      intro j hj hlt
      rw [Option.getD_some] at hlt
      rw [List.find?_eq_some_iff_getElem] at hf
      obtain ⟨-, k, hk, hki, hbefore⟩ := hf
      rw [List.getElem_range'] at hki
      have hjk := hbefore (j - start) (by omega)
      rw [List.getElem_range', show start + 1 * (j - start) = j by omega] at hjk
      simpa using hjk

/-- The scan fails only if nothing matches. -/
theorem next_eq_size {size start : Nat} (h : next p size start = size) :
    ∀ j, start ≤ j → j < size → p j = false := by
  intro j hj hlt
  unfold next at h
  cases hf : (List.range' start (size - start)).find? p with
  | none =>
      have hj' := List.find?_eq_none.mp hf j (List.mem_range'_1.mpr ⟨hj, by omega⟩)
      simpa using hj'
  | some i =>
      rw [hf] at h
      have hi := List.mem_range'_1.mp (List.mem_of_find?_eq_some hf)
      rw [Option.getD_some] at h
      omega

/-- A match in range makes the scan stop at or before it. -/
theorem next_le_of_match {size start j : Nat} (hj : start ≤ j) (hlt : j < size)
    (hp : p j = true) : next p size start ≤ j := by
  by_contra hcon
  rcases Nat.lt_or_ge (next p size start) size with h | h
  · have := (next_spec h).2.2 j hj (by omega)
    rw [hp] at this
    cases this
  · have := next_eq_size (le_antisymm (next_le p size start) h) j hj hlt
    rw [hp] at this
    cases this

theorem next_lt_of_match {size start j : Nat} (hj : start ≤ j) (hlt : j < size)
    (hp : p j = true) : next p size start < size :=
  lt_of_le_of_lt (next_le_of_match hj hlt hp) hlt

/-- The first match is what the scan returns. -/
theorem next_eq {size start i : Nat} (hi : start ≤ i) (hlt : i < size) (hp : p i = true)
    (hbefore : ∀ j, start ≤ j → j < i → p j = false) : next p size start = i := by
  have hle := next_le_of_match hi hlt hp
  obtain ⟨hstart, hmatch, -⟩ := next_spec (lt_of_le_of_lt hle hlt)
  rcases Nat.lt_or_eq_of_le hle with h | h
  · rw [hbefore _ hstart h] at hmatch
    cases hmatch
  · exact h

theorem next_none {size start : Nat} (h : ∀ j, start ≤ j → j < size → p j = false) :
    next p size start = size := by
  rcases Nat.lt_or_eq_of_le (next_le p size start) with hlt | heq
  · obtain ⟨hstart, hmatch, -⟩ := next_spec hlt
    rw [h _ hstart hlt] at hmatch
    cases hmatch
  · exact heq

/-- A stretch without a match can be passed. -/
theorem next_skip {size start mid : Nat} (hmid : start ≤ mid)
    (h : ∀ j, start ≤ j → j < mid → p j = false) : next p size start = next p size mid := by
  rcases Nat.lt_or_eq_of_le (next_le p size mid) with hlt | heq
  · obtain ⟨hstart, hmatch, hbefore⟩ := next_spec hlt
    refine next_eq (by omega) hlt hmatch fun j hj hjlt => ?_
    by_cases hjm : j < mid
    · exact h j hj hjm
    · exact hbefore j (by omega) hjlt
  · rw [heq]
    refine next_none fun j hj hlt => ?_
    by_cases hjm : j < mid
    · exact h j hj hjm
    · exact next_eq_size heq j (by omega) hlt

end BitScan

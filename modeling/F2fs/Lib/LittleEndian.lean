/-
  Numbers stored as little-endian bytes in a memory.

  A memory is a function from addresses to bytes; nothing bounds it, so that a reader whose
  accesses leave its object still has a result.  Each lemma says which bytes a load looks
  at or a store changes.
-/
import Mathlib

namespace LittleEndian

/-- A memory of bytes. -/
abbrev Memory := Nat → UInt8

/-- The number in the `n` bytes from `a`. -/
def load (m : Memory) (a : Nat) : Nat → Nat
  | 0 => 0
  | n + 1 => (m a).toNat + 256 * load m (a + 1) n

/-- `v` stored into the `n` bytes from `a`. -/
def store (m : Memory) (a n v : Nat) : Memory := fun x =>
  if a ≤ x ∧ x < a + n then UInt8.ofNat (v / 256 ^ (x - a)) else m x

theorem store_outside {m : Memory} {a n v x : Nat} (h : x < a ∨ a + n ≤ x) :
    store m a n v x = m x := by
  unfold store
  rw [if_neg (by omega)]

theorem store_inside {m : Memory} {a n v i : Nat} (h : i < n) :
    store m a n v (a + i) = UInt8.ofNat (v / 256 ^ i) := by
  unfold store
  rw [if_pos (by omega), Nat.add_sub_cancel_left]

theorem load_congr {m m' : Memory} {a n : Nat} (h : ∀ i, i < n → m (a + i) = m' (a + i)) :
    load m a n = load m' a n := by
  induction n generalizing a with
  | zero => rfl
  | succ n ih =>
    have hfirst := h 0 (Nat.succ_pos n)
    rw [Nat.add_zero] at hfirst
    have hrest : load m (a + 1) n = load m' (a + 1) n := by
      refine ih fun i hi => ?_
      have hnext := h (i + 1) (Nat.succ_lt_succ hi)
      rwa [← Nat.add_assoc, Nat.add_right_comm] at hnext
    rw [load, load, hfirst, hrest]

/-- A number says what its bytes are. -/
theorem load_inj {m m' : Memory} {a n : Nat} (h : load m a n = load m' a n) :
    ∀ i, i < n → m (a + i) = m' (a + i) := by
  induction n generalizing a with
  | zero => exact fun i hi => absurd hi (Nat.not_lt_zero i)
  | succ n ih =>
    rw [load, load] at h
    have hbyte := (m a).toNat_lt
    have hbyte' := (m' a).toNat_lt
    have hfirst : m a = m' a := UInt8.toNat_inj.mp (by omega)
    have hrest := ih (a := a + 1) (by omega)
    intro i hi
    cases i with
    | zero => exact hfirst
    | succ i =>
      rw [← Nat.add_assoc, Nat.add_right_comm]
      exact hrest i (by omega)

/-- What the bytes of `v` from the `k`-th on add up to. -/
theorem load_digits {m : Memory} {a n v : Nat} :
    ∀ k, (∀ i, i < n → m (a + i) = UInt8.ofNat (v / 256 ^ (k + i))) →
      load m a n = v / 256 ^ k % 256 ^ n := by
  induction n generalizing a with
  | zero =>
    intro k _
    rw [load, Nat.pow_zero, Nat.mod_one]
  | succ n ih =>
    intro k h
    have hfirst := h 0 (Nat.succ_pos n)
    rw [Nat.add_zero, Nat.add_zero] at hfirst
    have hrest : load m (a + 1) n = v / 256 ^ (k + 1) % 256 ^ n := by
      refine ih (k + 1) fun i hi => ?_
      have hnext := h (i + 1) (Nat.succ_lt_succ hi)
      rwa [← Nat.add_assoc, Nat.add_right_comm, ← Nat.add_assoc, Nat.add_right_comm k] at hnext
    have hdiv : v / 256 ^ (k + 1) = v / 256 ^ k / 256 := by
      rw [Nat.pow_succ, Nat.div_div_eq_div_mul]
    have hpow : 256 ^ (n + 1) = 256 * 256 ^ n := Nat.pow_succ'
    rw [load, hfirst, hrest, hdiv, UInt8.toNat_ofNat', hpow, Nat.mod_mul]

/-- A number is read back from where it was stored. -/
theorem load_store {m : Memory} {a n v : Nat} (h : v < 256 ^ n) :
    load (store m a n v) a n = v := by
  have hdigits : load (store m a n v) a n = v / 256 ^ 0 % 256 ^ n := by
    refine load_digits 0 fun i hi => ?_
    rw [store_inside hi, Nat.zero_add]
  rw [hdigits, Nat.pow_zero, Nat.div_one, Nat.mod_eq_of_lt h]

/-- A store does not change what lies elsewhere. -/
theorem load_store_other {m : Memory} {a b n k v : Nat} (h : b + k ≤ a ∨ a + n ≤ b) :
    load (store m a n v) b k = load m b k :=
  load_congr fun i hi => store_outside (by omega)

end LittleEndian

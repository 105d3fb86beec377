/-
  Blocks kept in two copies, one of which a bitmap marks as current.  An update
  writes the other copy and flips the block's bit, so that the current copy of no
  other block changes.
-/
import Mathlib

universe u

/-- Where the two copies of block `i` are.  Only the blocks in `valid` are promised
    addresses of their own. -/
structure ShadowArea where
  addr : Nat → Bool → Nat
  valid : Nat → Prop
  inj : ∀ {i j b c}, valid i → valid j → addr i b = addr j c → i = j ∧ b = c

namespace ShadowArea

variable {β : Type u} (A : ShadowArea)

/-- The current copy of a block. -/
def current (pages : Nat → β) (bitmap : Nat → Bool) (i : Nat) : β :=
  pages (A.addr i (bitmap i))

/-- Write the other copy of block `i`. -/
def writeNext (pages : Nat → β) (bitmap : Nat → Bool) (i : Nat) (new : β) : Nat → β :=
  Function.update pages (A.addr i (!bitmap i)) new

/-- Rewrite the current copy of block `i`. -/
def writeCurrent (pages : Nat → β) (bitmap : Nat → Bool) (i : Nat) (new : β) : Nat → β :=
  Function.update pages (A.addr i (bitmap i)) new

/-- Make the other copy of block `i` current. -/
def flip (bitmap : Nat → Bool) (i : Nat) : Nat → Bool :=
  Function.update bitmap i (!bitmap i)

variable {A}

theorem current_writeNext_self (pages : Nat → β) (bitmap : Nat → Bool) (i : Nat) (new : β) :
    A.current (A.writeNext pages bitmap i new) (flip bitmap i) i = new := by
  simp [current, writeNext, flip]

theorem current_writeNext_of_ne (pages : Nat → β) (bitmap : Nat → Bool) {i j : Nat} (new : β)
    (hi : A.valid i) (hj : A.valid j) (h : j ≠ i) :
    A.current (A.writeNext pages bitmap i new) (flip bitmap i) j =
      A.current pages bitmap j := by
  have hne : A.addr j (bitmap j) ≠ A.addr i (!bitmap i) := fun heq => h (A.inj hj hi heq).1
  simp [current, writeNext, flip, h, hne]

theorem current_writeCurrent_self (pages : Nat → β) (bitmap : Nat → Bool) (i : Nat) (new : β) :
    A.current (A.writeCurrent pages bitmap i new) bitmap i = new := by
  simp [current, writeCurrent]

theorem current_writeCurrent_of_ne (pages : Nat → β) (bitmap : Nat → Bool) {i j : Nat} (new : β)
    (hi : A.valid i) (hj : A.valid j) (h : j ≠ i) :
    A.current (A.writeCurrent pages bitmap i new) bitmap j = A.current pages bitmap j := by
  have hne : A.addr j (bitmap j) ≠ A.addr i (bitmap i) := fun heq => h (A.inj hj hi heq).1
  simp [current, writeCurrent, hne]

/-! ## Two halves -/

/-- Two halves of `blocks` blocks from `base` on; the second one has the second copies. -/
def halves (base blocks : Nat) : ShadowArea where
  addr := fun i bit => base + i + if bit then blocks else 0
  valid := fun i => i < blocks
  inj := by
    intro i j b c hi hj h
    cases b <;> cases c <;> simp only [if_true, Bool.false_eq_true, if_false] at h <;>
      first | exact ⟨by omega, rfl⟩ | (exfalso; omega)

theorem halves_addr (base blocks i : Nat) (bit : Bool) :
    (halves base blocks).addr i bit = base + i + if bit then blocks else 0 := rfl

/-- The block as far into the other half as `a` is into its own. -/
def otherHalf (base blocks a : Nat) : Nat :=
  let off := a - base
  (if off < blocks then off + blocks else off - blocks) + base

theorem otherHalf_addr {base blocks i : Nat} (h : i < blocks) (bit : Bool) :
    otherHalf base blocks ((halves base blocks).addr i bit) =
      (halves base blocks).addr i (!bit) := by
  rw [otherHalf, halves_addr, halves_addr]
  cases bit with
  | false =>
      simp only [Bool.false_eq_true, if_false, Bool.not_false, if_true]
      rw [if_pos (by omega)]
      omega
  | true =>
      simp only [if_true, Bool.not_true, Bool.false_eq_true, if_false]
      rw [if_neg (by omega)]
      omega

end ShadowArea

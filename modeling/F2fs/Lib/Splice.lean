/-
  Bounded access to a block of memory.

  A block is a list; `read` and `write` are `none` outside it.  Each lemma is about a
  block that is known in pieces, which is how proofs know one: what a read finds and
  what a write leaves when the pieces before it have the length of its offset.
-/
import Mathlib

universe u

namespace Splice

variable {α : Type u}

/-- The `n` cells from `off`. -/
def read (b : List α) (off n : Nat) : Option (List α) :=
  if off + n ≤ b.length then some ((b.drop off).take n) else none

/-- `src` stored from `off`. -/
def write (b : List α) (off : Nat) (src : List α) : Option (List α) :=
  if off + src.length ≤ b.length then some (b.take off ++ src ++ b.drop (off + src.length))
  else none

theorem read_middle {pre mid post : List α} {off n : Nat} (hoff : off = pre.length)
    (hn : n = mid.length) : read (pre ++ mid ++ post) off n = some mid := by
  subst hoff hn
  unfold read
  rw [if_pos (by simp), List.append_assoc, List.drop_left, List.take_left]

/-- A read looks at its cells only. -/
theorem read_take {b : List α} {off n m : Nat} (h : off + n ≤ m) :
    off + n ≤ b.length → read (b.take m) off n = read b off n := by
  intro hb
  unfold read
  rw [if_pos (by rw [List.length_take]; omega), if_pos hb, List.drop_take, List.take_take,
    Nat.min_eq_left (by omega)]

theorem read_append {b c : List α} {off n : Nat} (h : off + n ≤ b.length) :
    read (b ++ c) off n = read b off n := by
  unfold read
  rw [if_pos (by rw [List.length_append]; omega), if_pos h,
    List.drop_append_of_le_length (by omega),
    List.take_append_of_le_length (by rw [List.length_drop]; omega)]

theorem write_middle {pre mid post src : List α} {off : Nat} (hoff : off = pre.length)
    (hsrc : src.length = mid.length) :
    write (pre ++ mid ++ post) off src = some (pre ++ src ++ post) := by
  subst hoff
  unfold write
  have hdrop : (pre ++ mid ++ post).drop (pre.length + src.length) = post := by
    rw [hsrc, ← List.length_append, List.drop_left]
  rw [if_pos (by simp [hsrc]), hdrop, List.append_assoc pre mid, List.take_left]

theorem write_front {mid post src : List α} (hsrc : src.length = mid.length) :
    write (mid ++ post) 0 src = some (src ++ post) := by
  have h := @write_middle α [] mid post src 0 rfl hsrc
  rwa [List.nil_append, List.nil_append] at h

theorem write_back {pre mid src : List α} {off : Nat} (hoff : off = pre.length)
    (hsrc : src.length = mid.length) : write (pre ++ mid) off src = some (pre ++ src) := by
  have h := @write_middle α pre mid [] src off hoff hsrc
  rwa [List.append_nil, List.append_nil] at h

theorem length_write {b b' src : List α} {off : Nat} (h : write b off src = some b') :
    b'.length = b.length := by
  unfold write at h
  split at h
  · rw [← Option.some.inj h]
    simp only [List.length_append, List.length_take, List.length_drop]
    omega
  · cases h

end Splice

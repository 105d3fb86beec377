/-
  `__find_rev_next_bit` and `__find_rev_next_zero_bit`: scans of a bitmap whose bits are
  numbered from the most significant one of each byte.

  A word is loaded with its bytes reversed, so that the order of its bits is the one of the
  map; the bits in front of the offset and behind the size are masked.  A scan is modelled with
  the words that it loads.  Both sizes of a long are covered, and both byte orders: only a
  comparison with 0 and with `~0UL` looks at a word as it is stored.
-/
import F2fs.Lib.BitScan
import F2fs.Lib.LittleEndian

namespace F2fs.Segment

/-! ## Bits and words -/

/-- `BITS_PER_LONG`, which is 32 or 64. -/
inductive LongSize
  | bits32
  | bits64
  deriving DecidableEq

def LongSize.bytes : LongSize → Nat
  | .bits32 => 4
  | .bits64 => 8

def LongSize.bitsPerLong (long : LongSize) : Nat := 8 * long.bytes

/-- A bitmap of whole longs with room for `size` bits. -/
structure Bitmap (long : LongSize) (size : Nat) where
  bytes : List UInt8
  whole : long.bytes ∣ bytes.length
  covers : size ≤ 8 * bytes.length

/-- The byte at an address; what lies behind the map has no known value, here 0. -/
def Bitmap.byte {long : LongSize} {size : Nat} (map : Bitmap long size) (i : Nat) : UInt8 :=
  map.bytes.getD i 0

/-- The bit `nr` of a map of any length, from the most significant one of each byte. -/
def revBit (addr : Nat → UInt8) (nr : Nat) : Bool :=
  decide ((1 <<< (7 - (nr &&& 7))) &&& (addr (nr >>> 3)).toNat ≠ 0)

/-- `f2fs_test_bit`, which takes the number as an unsigned int. -/
def f2fsTestBit (nr : UInt32) (addr : Nat → UInt8) : Bool :=
  decide ((1 <<< (7 - (nr &&& 7)).toNat) &&& (addr (nr >>> 3).toNat).toNat ≠ 0)

/-- `while (shift >= 0)` of `__reverse_ulong`, with `n` rounds left: the shift is `8 * (n - 1)`. -/
def reverseLoop (str : Nat → UInt8) : Nat → Nat → Nat → Nat
  | 0, _, tmp => tmp
  | n + 1, idx, tmp => reverseLoop str n (idx + 1) (tmp ||| (str idx).toNat <<< (8 * n))

variable (long : LongSize)

/-- `__reverse_ulong`. -/
def reverseUlong (str : Nat → UInt8) : Nat := reverseLoop str long.bytes 0 0

/-- `~0UL`. -/
def ulongMax : Nat := 2 ^ long.bitsPerLong - 1

/-- `~x`. -/
def notUlong (x : Nat) : Nat := ulongMax long - x

/-- `x << k`. -/
def shlUlong (x k : Nat) : Nat := (x <<< k) % 2 ^ long.bitsPerLong

/-- One test of `__reverse_ffs`, of the upper one of two halves of `h` bits. -/
def ffsStep (h : Nat) (st : Nat × Nat) : Nat × Nat :=
  if st.2 &&& (2 ^ h - 1) <<< h = 0 then (st.1 + h, st.2) else (st.1, st.2 >>> h)

/-- `__reverse_ffs`. The last test does not shift the word. -/
def reverseFfs (word : Nat) : Nat :=
  let st := match long with
    | .bits64 => ffsStep 32 (0, word)
    | .bits32 => (0, word)
  (ffsStep 1 (ffsStep 2 (ffsStep 4 (ffsStep 8 (ffsStep 16 st))))).1

/-- `__reverse_ffz`. -/
def reverseFfz (word : Nat) : Nat := reverseFfs long (notUlong long word)

/-! ## The scans -/

/-- What a scan returns, and the words it has loaded. -/
structure Scan where
  result : Nat
  loads : List Nat

/-- What tells the two scans apart. -/
structure ScanKind where
  /-- a word without a match -/
  blank : Nat
  /-- the masks for `size` and `offset` -/
  mask : Nat → Nat → Nat → Nat
  first : Nat → Nat

/-- The masks of `__find_rev_next_bit`. -/
def maskBit (size offset tmp : Nat) : Nat :=
  let tmp := tmp &&& ulongMax long >>> offset
  if size < long.bitsPerLong then
    tmp &&& shlUlong long (ulongMax long) (long.bitsPerLong - size)
  else tmp

/-- The masks of `__find_rev_next_zero_bit`. -/
def maskZeroBit (size offset tmp : Nat) : Nat :=
  let tmp :=
    if offset ≠ 0 then tmp ||| shlUlong long (ulongMax long) (long.bitsPerLong - offset) else tmp
  if size < long.bitsPerLong then tmp ||| ulongMax long >>> size else tmp

def nextBit : ScanKind := ⟨0, maskBit long, reverseFfs long⟩

def nextZeroBit : ScanKind := ⟨ulongMax long, maskZeroBit long, reverseFfz long⟩

variable {size : Nat} (map : Bitmap long size) (kind : ScanKind)

/-- The bytes of a map from those of a word on. -/
def wordBytes (p i : Nat) : UInt8 := map.byte (long.bytes * p + i)

/-- The loop body up to `pass` or `found`: the position within the word, if there is one. -/
def tryWord (left offset p : Nat) : Option Nat :=
  if LittleEndian.load (wordBytes long map p) 0 long.bytes = kind.blank then none
  else
    let tmp := kind.mask left offset (reverseUlong long (wordBytes long map p))
    if tmp = kind.blank then none else some (kind.first tmp)

theorem LongSize.bytes_pos : 0 < long.bytes := by
  cases long <;> decide

theorem bitsPerLong_pos : 0 < long.bitsPerLong :=
  Nat.mul_pos (by decide) long.bytes_pos

/-- `while (1)`, with `left` for what remains of the size. -/
def revLoop (result left offset p : Nat) : Scan :=
  match tryWord long map kind left offset p with
  | some k => ⟨result - left + k, [p]⟩
  | none =>
    if left ≤ long.bitsPerLong then ⟨result, [p]⟩
    else
      let rest := revLoop result (left - long.bitsPerLong) 0 (p + 1)
      ⟨rest.result, p :: rest.loads⟩
  termination_by left
  decreasing_by
    have := bitsPerLong_pos long
    omega

/-- The common text of the two functions. -/
def findRevNext (offset : Nat) : Scan :=
  if offset ≥ size then ⟨size, []⟩
  else
    revLoop long map kind size (size - offset / long.bitsPerLong * long.bitsPerLong)
      (offset % long.bitsPerLong) (offset / long.bitsPerLong)

/-- `__find_rev_next_bit`. -/
def findRevNextBit (offset : Nat) : Scan := findRevNext long map (nextBit long) offset

/-- `__find_rev_next_zero_bit`. -/
def findRevNextZeroBit (offset : Nat) : Scan := findRevNext long map (nextZeroBit long) offset

/-! ## Bits of a word -/

theorem revBit_eq (addr : Nat → UInt8) (nr : Nat) :
    revBit addr nr = (addr (nr / 8)).toNat.testBit (7 - nr % 8) := by
  have hlow : nr &&& 7 = nr % 8 := Nat.and_two_pow_sub_one_eq_mod nr 3
  have hbyte : nr >>> 3 = nr / 8 := Nat.shiftRight_eq_div_pow nr 3
  rw [revBit, hlow, hbyte, Nat.one_shiftLeft]
  cases hbit : (addr (nr / 8)).toNat.testBit (7 - nr % 8) with
  | true =>
    refine decide_eq_true fun hzero => ?_
    have hset : (2 ^ (7 - nr % 8) &&& (addr (nr / 8)).toNat).testBit (7 - nr % 8) = true := by
      rw [Nat.testBit_and, Nat.testBit_two_pow_self, hbit, Bool.and_self]
    rw [hzero, Nat.zero_testBit] at hset
    cases hset
  | false =>
    refine decide_eq_false (not_not_intro (Nat.eq_of_testBit_eq fun i => ?_))
    rw [Nat.testBit_and, Nat.testBit_two_pow, Nat.zero_testBit]
    by_cases hi : 7 - nr % 8 = i
    · rw [← hi, hbit, Bool.and_false]
    · rw [decide_eq_false hi, Bool.false_and]

theorem f2fsTestBit_eq (addr : Nat → UInt8) (nr : UInt32) :
    f2fsTestBit nr addr = revBit addr nr.toNat := by
  have hlow : nr.toNat &&& 7 = nr.toNat % 8 := Nat.and_two_pow_sub_one_eq_mod nr.toNat 3
  have hmask : (nr &&& 7).toNat = nr.toNat &&& 7 := UInt32.toNat_and nr 7
  have hle : nr &&& 7 ≤ 7 := by
    rw [UInt32.le_iff_toNat_le, hmask, hlow]
    exact Nat.le_of_lt_succ (Nat.mod_lt _ (by decide))
  have hsub : (7 - (nr &&& 7)).toNat = 7 - (nr.toNat &&& 7) := by
    rw [UInt32.toNat_sub_of_le _ _ hle, hmask]
    rfl
  have hbyte : (nr >>> 3).toNat = nr.toNat >>> 3 := UInt32.toNat_shiftRight nr 3
  rw [f2fsTestBit, revBit, hsub, hbyte]

/-- The loop puts each byte above the ones that follow it. -/
theorem reverseLoop_testBit (str : Nat → UInt8) (n idx tmp j : Nat) :
    (reverseLoop str n idx tmp).testBit j =
      (tmp.testBit j ||
        decide (j < 8 * n) && (str (idx + (n - 1 - j / 8))).toNat.testBit (j % 8)) := by
  induction n generalizing idx tmp with
  | zero => simp [reverseLoop]
  | succ n ih =>
    rw [reverseLoop, ih, Nat.testBit_or, Nat.testBit_shiftLeft]
    by_cases hlow : j < 8 * n
    · have hidx : idx + 1 + (n - 1 - j / 8) = idx + (n + 1 - 1 - j / 8) := by omega
      rw [hidx, decide_eq_true hlow, decide_eq_true (show j < 8 * (n + 1) by omega),
        decide_eq_false (show ¬j ≥ 8 * n by omega), Bool.false_and, Bool.or_false]
    · rw [decide_eq_false hlow, Bool.false_and, Bool.or_false,
        decide_eq_true (show j ≥ 8 * n by omega), Bool.true_and]
      by_cases hbyte : j < 8 * (n + 1)
      · have hidx : idx + (n + 1 - 1 - j / 8) = idx := by omega
        have hmod : j % 8 = j - 8 * n := by omega
        rw [decide_eq_true hbyte, Bool.true_and, hidx, hmod]
      · have hlarge : (str idx).toNat.testBit (j - 8 * n) = false := by
          refine Nat.testBit_lt_two_pow (lt_of_lt_of_le (str idx).toNat_lt ?_)
          exact Nat.pow_le_pow_right (by decide) (show 8 ≤ j - 8 * n by omega)
        rw [decide_eq_false hbyte, Bool.false_and, hlarge]

/-- The bit `k` of a word, from the most significant one. -/
def bitFromTop (word k : Nat) : Bool := word.testBit (long.bitsPerLong - 1 - k)

theorem reverseUlong_bit {p k : Nat} (hk : k < long.bitsPerLong) :
    bitFromTop long (reverseUlong long (wordBytes long map p)) k =
      revBit map.byte (long.bitsPerLong * p + k) := by
  have hpos := long.bytes_pos
  unfold LongSize.bitsPerLong at hk
  have hpoint : 8 * long.bytes * p = 8 * (long.bytes * p) := Nat.mul_assoc 8 long.bytes p
  rw [bitFromTop, reverseUlong, reverseLoop_testBit, Nat.zero_testBit, Bool.false_or, revBit_eq,
    LongSize.bitsPerLong, hpoint, decide_eq_true (by omega), Bool.true_and, wordBytes]
  have hbyte : 0 + (long.bytes - 1 - (8 * long.bytes - 1 - k) / 8) = k / 8 := by omega
  have haddr : (8 * (long.bytes * p) + k) / 8 = long.bytes * p + k / 8 := by omega
  have hbit : (8 * long.bytes - 1 - k) % 8 = 7 - (8 * (long.bytes * p) + k) % 8 := by omega
  rw [hbyte, haddr, hbit]

theorem reverseUlong_lt (str : Nat → UInt8) : reverseUlong long str < 2 ^ long.bitsPerLong := by
  refine Nat.lt_pow_two_of_testBit _ fun i hi => ?_
  rw [reverseUlong, reverseLoop_testBit, Nat.zero_testBit, Bool.false_or,
    decide_eq_false (show ¬i < 8 * long.bytes from Nat.not_lt.mpr hi), Bool.false_and]

theorem ulongMax_bit {k : Nat} (hk : k < long.bitsPerLong) :
    bitFromTop long (ulongMax long) k = true := by
  rw [bitFromTop, ulongMax, Nat.testBit_two_pow_sub_one]
  exact decide_eq_true (by omega)

/-! ## The first set bit -/

/-- The most significant bit that is set. -/
def TopBit (word t : Nat) : Prop :=
  word.testBit t = true ∧ ∀ i, t < i → word.testBit i = false

theorem exists_topBit {word : Nat} (h : word ≠ 0) : ∃ t, TopBit word t :=
  ⟨word.log2, Nat.testBit_log2 h, fun _ hi =>
    Nat.testBit_lt_two_pow (lt_of_lt_of_le Nat.lt_log2_self
      (Nat.pow_le_pow_right (by decide) hi))⟩

theorem halfMask_testBit (word h i : Nat) :
    (word &&& (2 ^ h - 1) <<< h).testBit i =
      (word.testBit i && decide (h ≤ i ∧ i < 2 * h)) := by
  rw [Nat.testBit_and, Nat.testBit_shiftLeft, Nat.testBit_two_pow_sub_one]
  by_cases hi : h ≤ i
  · rw [decide_eq_true (show i ≥ h from hi), Bool.true_and,
      decide_eq_decide.mpr (show i - h < h ↔ h ≤ i ∧ i < 2 * h by omega)]
  · rw [decide_eq_false (show ¬i ≥ h from hi), Bool.false_and,
      decide_eq_false (show ¬(h ≤ i ∧ i < 2 * h) by omega)]

/-- A test keeps the sum of the count and the distance of the top bit from the upper end. -/
theorem ffsStep_topBit (h num : Nat) {t word : Nat} (htop : TopBit word t) (ht : t < 2 * h) :
    ∃ t' num' word', ffsStep h (num, word) = (num', word') ∧ TopBit word' t' ∧ t' < h ∧
      num' + (h - 1 - t') = num + (2 * h - 1 - t) := by
  unfold ffsStep
  by_cases hupper : word &&& (2 ^ h - 1) <<< h = 0
  · have hlow : t < h := by
      by_contra hge
      have hbit := halfMask_testBit word h t
      rw [hupper, Nat.zero_testBit, htop.1, decide_eq_true ⟨by omega, ht⟩] at hbit
      cases hbit
    exact ⟨t, num + h, word, if_pos hupper, htop, hlow, by omega⟩
  · have hhigh : h ≤ t := by
      obtain ⟨i, hi⟩ := Nat.exists_testBit_of_ne_zero hupper
      rw [halfMask_testBit, Bool.and_eq_true, decide_eq_true_iff] at hi
      by_contra hlt
      have hclear := htop.2 i (by omega)
      rw [hi.1] at hclear
      cases hclear
    refine ⟨t - h, num, word >>> h, if_neg hupper, ⟨?_, fun i hi => ?_⟩, by omega, by omega⟩
    · rw [Nat.testBit_shiftRight, Nat.add_sub_cancel' hhigh]
      exact htop.1
    · rw [Nat.testBit_shiftRight]
      exact htop.2 (h + i) (by omega)

/-- `__reverse_ffs` counts the clear bits in front of the first set one. -/
theorem reverseFfs_topBit {word t : Nat} (htop : TopBit word t) (ht : t < long.bitsPerLong) :
    reverseFfs long word = long.bitsPerLong - 1 - t := by
  have hfirst : ∃ t' num' word', (match long with
        | .bits64 => ffsStep 32 (0, word)
        | .bits32 => (0, word)) = (num', word') ∧ TopBit word' t' ∧ t' < 2 * 16 ∧
      num' + (2 * 16 - 1 - t') = long.bitsPerLong - 1 - t := by
    cases long with
    | bits64 =>
      obtain ⟨t', num', word', hstep, htop', hlt, hsum⟩ := ffsStep_topBit 32 0 htop ht
      exact ⟨t', num', word', hstep, htop', hlt, by
        rw [show LongSize.bits64.bitsPerLong = 2 * 32 from rfl]; omega⟩
    | bits32 => exact ⟨t, 0, word, rfl, htop, ht, Nat.zero_add _⟩
  obtain ⟨t₁, num₁, word₁, hstep₁, htop₁, ht₁, hsum₁⟩ := hfirst
  obtain ⟨t₂, num₂, word₂, hstep₂, htop₂, ht₂, hsum₂⟩ := ffsStep_topBit 16 num₁ htop₁ ht₁
  obtain ⟨t₃, num₃, word₃, hstep₃, htop₃, ht₃, hsum₃⟩ := ffsStep_topBit 8 num₂ htop₂ ht₂
  obtain ⟨t₄, num₄, word₄, hstep₄, htop₄, ht₄, hsum₄⟩ := ffsStep_topBit 4 num₃ htop₃ ht₃
  obtain ⟨t₅, num₅, word₅, hstep₅, htop₅, ht₅, hsum₅⟩ := ffsStep_topBit 2 num₄ htop₄ ht₄
  obtain ⟨t₆, num₆, word₆, hstep₆, -, ht₆, hsum₆⟩ := ffsStep_topBit 1 num₅ htop₅ ht₅
  unfold reverseFfs
  simp only [hstep₁, hstep₂, hstep₃, hstep₄, hstep₅, hstep₆]
  omega

/-- The first set bit of a word that is not 0. -/
theorem reverseFfs_first {word : Nat} (hne : word ≠ 0) (hlt : word < 2 ^ long.bitsPerLong) :
    reverseFfs long word < long.bitsPerLong ∧
      bitFromTop long word (reverseFfs long word) = true ∧
      ∀ k, k < reverseFfs long word → bitFromTop long word k = false := by
  obtain ⟨t, htop⟩ := exists_topBit hne
  have ht : t < long.bitsPerLong := by
    by_contra hge
    have hclear := Nat.testBit_lt_two_pow
      (lt_of_lt_of_le hlt (Nat.pow_le_pow_right (show 0 < 2 by decide) (Nat.le_of_not_lt hge)))
    rw [htop.1] at hclear
    cases hclear
  rw [reverseFfs_topBit long htop ht]
  unfold bitFromTop
  refine ⟨by omega, ?_, fun k hk => htop.2 _ (by omega)⟩
  rw [show long.bitsPerLong - 1 - (long.bitsPerLong - 1 - t) = t by omega]
  exact htop.1

theorem notUlong_bit {word k : Nat} (hlt : word < 2 ^ long.bitsPerLong)
    (hk : k < long.bitsPerLong) :
    bitFromTop long (notUlong long word) k = !bitFromTop long word k := by
  have hnot : notUlong long word = 2 ^ long.bitsPerLong - (word + 1) := by
    rw [notUlong, ulongMax, Nat.sub_sub, Nat.add_comm]
  rw [bitFromTop, hnot, Nat.testBit_two_pow_sub_succ hlt, decide_eq_true (by omega),
    Bool.true_and]
  rfl

/-- The first clear bit of a word that is not `~0UL`. -/
theorem reverseFfz_first {word : Nat} (hne : word ≠ ulongMax long)
    (hlt : word < 2 ^ long.bitsPerLong) :
    reverseFfz long word < long.bitsPerLong ∧
      bitFromTop long word (reverseFfz long word) = false ∧
      ∀ k, k < reverseFfz long word → bitFromTop long word k = true := by
  have hnot : notUlong long word ≠ 0 ∧ notUlong long word < 2 ^ long.bitsPerLong := by
    unfold notUlong
    unfold ulongMax at hne ⊢
    omega
  obtain ⟨hin, hset, hbefore⟩ := reverseFfs_first long hnot.1 hnot.2
  refine ⟨hin, ?_, fun k hk => ?_⟩
  · rw [notUlong_bit long hlt hin] at hset
    exact (Bool.not_eq_true' _).mp hset
  · have hclear := hbefore k hk
    rw [notUlong_bit long hlt (lt_trans hk hin)] at hclear
    exact (Bool.not_eq_false' _).mp hclear

/-! ## The masks -/

theorem shr_bit {s k : Nat} (hk : k < long.bitsPerLong) :
    bitFromTop long (ulongMax long >>> s) k = decide (s ≤ k) := by
  rw [bitFromTop, Nat.testBit_shiftRight, ulongMax, Nat.testBit_two_pow_sub_one]
  exact decide_eq_decide.mpr (by omega)

theorem shl_bit {s k : Nat} (hs : s ≤ long.bitsPerLong) (hk : k < long.bitsPerLong) :
    bitFromTop long (shlUlong long (ulongMax long) (long.bitsPerLong - s)) k =
      decide (k < s) := by
  rw [bitFromTop, shlUlong, Nat.testBit_mod_two_pow, Nat.testBit_shiftLeft, ulongMax,
    Nat.testBit_two_pow_sub_one, ← Bool.decide_and, ← Bool.decide_and]
  exact decide_eq_decide.mpr (by omega)

theorem bitFromTop_and (a b k : Nat) :
    bitFromTop long (a &&& b) k = (bitFromTop long a k && bitFromTop long b k) :=
  Nat.testBit_and ..

theorem bitFromTop_or (a b k : Nat) :
    bitFromTop long (a ||| b) k = (bitFromTop long a k || bitFromTop long b k) :=
  Nat.testBit_or ..

/-- Set bits outside of the range are cleared. -/
theorem maskBit_bit {left offset tmp k : Nat} (hk : k < long.bitsPerLong) :
    bitFromTop long (maskBit long left offset tmp) k =
      (bitFromTop long tmp k && decide (offset ≤ k ∧ k < left)) := by
  unfold maskBit
  rw [Bool.decide_and]
  by_cases hleft : left < long.bitsPerLong
  · rw [if_pos hleft, bitFromTop_and, bitFromTop_and, shr_bit long hk,
      shl_bit long hleft.le hk, Bool.and_assoc]
  · rw [if_neg hleft, bitFromTop_and, shr_bit long hk, decide_eq_true (show k < left by omega),
      Bool.and_true]

/-- Bits outside of the range are set. -/
theorem maskZeroBit_bit {left offset tmp k : Nat} (hoffset : offset < long.bitsPerLong)
    (hk : k < long.bitsPerLong) :
    bitFromTop long (maskZeroBit long left offset tmp) k =
      (bitFromTop long tmp k || !decide (offset ≤ k ∧ k < left)) := by
  have hfront : bitFromTop long (if offset ≠ 0 then
        tmp ||| shlUlong long (ulongMax long) (long.bitsPerLong - offset) else tmp) k =
      (bitFromTop long tmp k || decide (k < offset)) := by
    by_cases hzero : offset ≠ 0
    · rw [if_pos hzero, bitFromTop_or, shl_bit long hoffset.le hk]
    · rw [if_neg hzero, decide_eq_false (show ¬k < offset by omega), Bool.or_false]
  unfold maskZeroBit
  rw [← decide_not]
  by_cases hleft : left < long.bitsPerLong
  · rw [if_pos hleft, bitFromTop_or, hfront, shr_bit long hk, Bool.or_assoc, ← Bool.decide_or]
    exact congrArg _ (decide_eq_decide.mpr (by omega))
  · rw [if_neg hleft, hfront]
    exact congrArg _ (decide_eq_decide.mpr (by omega))

/-! ## A word of the map -/

/-- A kind looks for bits that are `b`, and its parts do so. -/
structure ScanKind.Seeks (b : Bool) : Prop where
  /-- the word without a match consists of one byte -/
  stored : ∃ c : UInt8, kind.blank = LittleEndian.load (fun _ => c) 0 long.bytes ∧
    ∀ i, i < 8 → c.toNat.testBit i = !b
  blank : ∀ k, k < long.bitsPerLong → bitFromTop long kind.blank k = !b
  mask : ∀ left offset tmp k, offset < long.bitsPerLong → k < long.bitsPerLong →
    (bitFromTop long (kind.mask left offset tmp) k = b ↔
      bitFromTop long tmp k = b ∧ offset ≤ k ∧ k < left)
  first : ∀ left offset tmp, tmp < 2 ^ long.bitsPerLong →
    kind.mask left offset tmp ≠ kind.blank →
      kind.first (kind.mask left offset tmp) < long.bitsPerLong ∧
      bitFromTop long (kind.mask left offset tmp) (kind.first (kind.mask left offset tmp)) = b ∧
      ∀ k, k < kind.first (kind.mask left offset tmp) →
        bitFromTop long (kind.mask left offset tmp) k = !b

theorem shlUlong_lt (x k : Nat) : shlUlong long x k < 2 ^ long.bitsPerLong :=
  Nat.mod_lt _ (Nat.two_pow_pos _)

theorem ulongMax_lt : ulongMax long < 2 ^ long.bitsPerLong :=
  Nat.sub_lt (Nat.two_pow_pos _) Nat.one_pos

theorem shr_lt (s : Nat) : ulongMax long >>> s < 2 ^ long.bitsPerLong :=
  lt_of_le_of_lt (Nat.shiftRight_le _ _) (ulongMax_lt long)

theorem nextBit_seeks : (nextBit long).Seeks long true where
  stored := ⟨0, by cases long <;> rfl, fun i _ => Nat.zero_testBit i⟩
  blank k _ := Nat.zero_testBit _
  mask left offset tmp k _ hk := by
    show bitFromTop long (maskBit long left offset tmp) k = true ↔ _
    rw [maskBit_bit long hk, Bool.and_eq_true, decide_eq_true_iff]
  first left offset tmp hlt hne := by
    refine reverseFfs_first long hne (lt_of_le_of_lt ?_ hlt)
    show maskBit long left offset tmp ≤ tmp
    unfold maskBit
    by_cases hleft : left < long.bitsPerLong
    · rw [if_pos hleft]
      exact Nat.and_le_left.trans Nat.and_le_left
    · rw [if_neg hleft]
      exact Nat.and_le_left

theorem nextZeroBit_seeks : (nextZeroBit long).Seeks long false where
  stored := ⟨255, by cases long <;> rfl, fun i hi => by
    rw [show (255 : UInt8).toNat = 2 ^ 8 - 1 from rfl, Nat.testBit_two_pow_sub_one]
    exact decide_eq_true hi⟩
  blank _ hk := ulongMax_bit long hk
  mask left offset tmp k hoffset hk := by
    show bitFromTop long (maskZeroBit long left offset tmp) k = false ↔ _
    rw [maskZeroBit_bit long hoffset hk, Bool.or_eq_false_iff, Bool.not_eq_false',
      decide_eq_true_iff]
  first left offset tmp hlt hne := by
    refine reverseFfz_first long hne ?_
    have hfront : (if offset ≠ 0 then
        tmp ||| shlUlong long (ulongMax long) (long.bitsPerLong - offset) else tmp) <
          2 ^ long.bitsPerLong := by
      by_cases hzero : offset ≠ 0
      · rw [if_pos hzero]
        exact Nat.or_lt_two_pow hlt (shlUlong_lt long _ _)
      · rw [if_neg hzero]
        exact hlt
    show maskZeroBit long left offset tmp < _
    unfold maskZeroBit
    by_cases hleft : left < long.bitsPerLong
    · rw [if_pos hleft]
      exact Nat.or_lt_two_pow hfront (shr_lt long left)
    · rw [if_neg hleft]
      exact hfront

variable {kind} {b : Bool}

theorem blank_word (hs : kind.Seeks long b) {p k : Nat} (hk : k < long.bitsPerLong)
    (hload : LittleEndian.load (wordBytes long map p) 0 long.bytes = kind.blank) :
    revBit map.byte (long.bitsPerLong * p + k) = !b := by
  obtain ⟨c, hc, hbits⟩ := hs.stored
  have hpoint : long.bitsPerLong * p = 8 * (long.bytes * p) := Nat.mul_assoc 8 long.bytes p
  unfold LongSize.bitsPerLong at hk
  have hbyte := LittleEndian.load_inj (hload.trans hc) (k / 8) (by omega)
  rw [wordBytes, Nat.zero_add] at hbyte
  rw [revBit_eq, hpoint, show (8 * (long.bytes * p) + k) / 8 = long.bytes * p + k / 8 by omega,
    hbyte]
  exact hbits _ (by omega)

theorem not_of_ne {a : Bool} (h : ¬a = b) : a = !b :=
  Bool.eq_not.mpr h

/-- A position that is found is the first match of its word in the range. -/
theorem tryWord_some (hs : kind.Seeks long b) {left offset p k : Nat}
    (hoffset : offset < long.bitsPerLong)
    (h : tryWord long map kind left offset p = some k) :
    offset ≤ k ∧ k < left ∧ revBit map.byte (long.bitsPerLong * p + k) = b ∧
      ∀ j, offset ≤ j → j < k → revBit map.byte (long.bitsPerLong * p + j) = !b := by
  rw [tryWord] at h
  split at h
  · cases h
  · simp only at h
    split at h
    · cases h
    · rename_i hne
      cases h
      obtain ⟨hin, hfound, hbefore⟩ := hs.first left offset _
        (reverseUlong_lt long (wordBytes long map p)) hne
      obtain ⟨hbit, hge, hlt⟩ := (hs.mask left offset _ _ hoffset hin).mp hfound
      rw [reverseUlong_bit long map hin] at hbit
      refine ⟨hge, hlt, hbit, fun j hj hjk => ?_⟩
      rw [← reverseUlong_bit long map (hjk.trans hin)]
      refine not_of_ne fun hmatch => ?_
      have hmasked := (hs.mask left offset _ j hoffset (hjk.trans hin)).mpr
        ⟨hmatch, hj, hjk.trans hlt⟩
      rw [hbefore j hjk] at hmasked
      exact Bool.not_ne_self b hmasked

/-- A word that is passed has no match in the range. -/
theorem tryWord_none (hs : kind.Seeks long b) {left offset p : Nat}
    (hoffset : offset < long.bitsPerLong)
    (h : tryWord long map kind left offset p = none) :
    ∀ j, offset ≤ j → j < left → j < long.bitsPerLong →
      revBit map.byte (long.bitsPerLong * p + j) = !b := by
  intro j hj hleft hin
  rw [tryWord] at h
  split at h
  · rename_i hblank
    exact blank_word long map hs hin hblank
  · simp only at h
    split at h
    · rename_i hblank
      rw [← reverseUlong_bit long map hin]
      refine not_of_ne fun hmatch => ?_
      have hmasked := (hs.mask left offset _ j hoffset hin).mpr ⟨hmatch, hj, hleft⟩
      rw [hblank, hs.blank j hin] at hmasked
      exact Bool.not_ne_self b hmasked
    · cases h

/-! ## The scans -/

/-- A scan from `offset` finds the first bit that is `b`, or the size, and stays in the words
    up to the one of the last bit. -/
structure Finds (offset : Nat) (b : Bool) (scan : Scan) : Prop where
  least : scan.result = BitScan.next (fun p => revBit map.byte p == b) size offset
  loads : ∀ w ∈ scan.loads, w * long.bitsPerLong < size

/-- The rest of a scan, from the word `p` on. -/
theorem revLoop_finds (hs : kind.Seeks long b) {left offset p : Nat}
    (hsize : size = long.bitsPerLong * p + left) (hoffset : offset < long.bitsPerLong)
    (hleft : offset < left) :
    Finds long map (long.bitsPerLong * p + offset) b
      (revLoop long map kind size left offset p) := by
  have hword : p * long.bitsPerLong < size := by
    rw [Nat.mul_comm]
    omega
  induction left using Nat.strong_induction_on generalizing offset p with
  | _ left ih =>
    rw [revLoop]
    cases htry : tryWord long map kind left offset p with
    | some k =>
      obtain ⟨hge, hlt, hbit, hbefore⟩ := tryWord_some long map hs hoffset htry
      refine ⟨?_, fun w hw => by rwa [List.mem_singleton.mp hw]⟩
      have hresult : size - left + k = long.bitsPerLong * p + k := by omega
      have hmatch : (revBit map.byte (long.bitsPerLong * p + k) == b) = true :=
        beq_iff_eq.mpr hbit
      refine hresult.trans (BitScan.next_eq
        (p := fun p => revBit map.byte p == b) (by omega) (by omega) hmatch
        fun j hj hjk => ?_).symm
      have hj' := hbefore (j - long.bitsPerLong * p) (by omega) (by omega)
      rw [Nat.add_sub_cancel' (by omega)] at hj'
      rw [hj']
      cases b <;> rfl
    | none =>
      have hnone : ∀ j, long.bitsPerLong * p + offset ≤ j → j < size →
          j < long.bitsPerLong * p + long.bitsPerLong → (revBit map.byte j == b) = false := by
        intro j hj hjs hjw
        have hj' := tryWord_none long map hs hoffset htry (j - long.bitsPerLong * p) (by omega)
          (by omega) (by omega)
        rw [Nat.add_sub_cancel' (by omega)] at hj'
        rw [hj']
        cases b <;> rfl
      by_cases hlast : left ≤ long.bitsPerLong
      · rw [if_pos hlast]
        exact ⟨(BitScan.next_none fun j hj hjs => hnone j hj hjs (by omega)).symm,
          fun w hw => by rwa [List.mem_singleton.mp hw]⟩
      · rw [if_neg hlast]
        have hnext : long.bitsPerLong * (p + 1) = long.bitsPerLong * p + long.bitsPerLong :=
          Nat.mul_succ _ _
        have hpos := bitsPerLong_pos long
        have hrest : Finds long map (long.bitsPerLong * (p + 1) + 0) b
            (revLoop long map kind size (left - long.bitsPerLong) 0 (p + 1)) :=
          ih (left - long.bitsPerLong) (by omega) (by omega) hpos (by omega)
            (by rw [Nat.mul_comm]; omega)
        refine ⟨hrest.least.trans ?_, fun w hw => ?_⟩
        · rw [Nat.add_zero, hnext]
          exact (BitScan.next_skip (by omega) fun j hj hjw => hnone j hj (by omega) hjw).symm
        · rcases List.mem_cons.mp hw with rfl | hw
          · exact hword
          · exact hrest.loads w hw

theorem findRevNext_finds (hs : kind.Seeks long b) (offset : Nat) :
    Finds long map offset b (findRevNext long map kind offset) := by
  have hdiv := Nat.div_add_mod offset long.bitsPerLong
  have hmod := Nat.mod_lt offset (bitsPerLong_pos long)
  rw [findRevNext]
  by_cases hend : offset ≥ size
  · rw [if_pos hend]
    exact ⟨(BitScan.next_none fun j hj hlt => absurd (lt_of_le_of_lt hj hlt) hend.not_gt).symm,
      nofun⟩
  · rw [if_neg hend, Nat.mul_comm (offset / long.bitsPerLong)]
    have hsize : size = long.bitsPerLong * (offset / long.bitsPerLong) +
        (size - long.bitsPerLong * (offset / long.bitsPerLong)) := by omega
    have hloop := revLoop_finds long map hs hsize hmod (by omega)
    rwa [hdiv] at hloop

/-- Both scans find the first position, in the bit order of `f2fs_test_bit`. -/
theorem findRevNext_correct (offset : Nat) :
    Finds long map offset true (findRevNextBit long map offset) ∧
      Finds long map offset false (findRevNextZeroBit long map offset) ∧
      ∀ nr : UInt32, revBit map.byte nr.toNat = f2fsTestBit nr map.byte :=
  ⟨findRevNext_finds long map (nextBit_seeks long) offset,
    findRevNext_finds long map (nextZeroBit_seeks long) offset,
    fun nr => (f2fsTestBit_eq map.byte nr).symm⟩

end F2fs.Segment

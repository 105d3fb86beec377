/-
  Where the hash buckets of a directory lie (`dir.c`).

  A directory has up to `MAX_DIR_HASH_DEPTH` levels of buckets, and a level lies behind the
  one above it.  The numbers of buckets and of blocks are `unsigned int`, and so is their
  product; `dir_block_index` adds the products up in an `unsigned long`, which
  `f2fs_add_regular_entry` keeps and `find_in_level` stores into an `unsigned int`.

  As long as no product wraps, `dir_block_index` is the sum over the levels above, and the
  ranges of distinct buckets are apart.  From level 31 on a level has `2 ^ 30` buckets of
  four blocks, whose product is zero: level 32 then begins where level 31 does.
-/
import F2fs.Basic

namespace F2fs.Dir

/-! ## The index of a bucket -/

/-- `MAX_DIR_HASH_DEPTH`. -/
abbrev maxDirHashDepth : Nat := 63

/-- `MAX_DIR_BUCKETS`. -/
abbrev maxDirBuckets : Nat := 2 ^ (maxDirHashDepth / 2 - 1)

/-- Truncation to an `unsigned long`. -/
def ulong (n : Nat) : Nat := n % 2 ^ 64

/-- `dir_buckets`; the shift is one of an `int`. -/
def dirBuckets (level dirLevel : Nat) : Nat :=
  if u32 (level + dirLevel) < maxDirHashDepth / 2 then 2 ^ u32 (level + dirLevel)
  else maxDirBuckets

/-- `bucket_blocks`. -/
def bucketBlocks (level : Nat) : Nat := if level < maxDirHashDepth / 2 then 2 else 4

/-- The loop of `dir_block_index`. -/
def levelStart (dirLevel : Nat) : Nat → Nat
  | 0 => 0
  | i + 1 => ulong (levelStart dirLevel i + u32 (dirBuckets i dirLevel * bucketBlocks i))

/-- `dir_block_index`. -/
def dirBlockIndex (level dirLevel idx : Nat) : Nat :=
  ulong (levelStart dirLevel level + u32 (idx * bucketBlocks level))

/-- `bidx` of `f2fs_add_regular_entry`. -/
def addIndex (dirLevel level idx : Nat) : Nat := dirBlockIndex level dirLevel idx

/-- `bidx` of `find_in_level`. -/
def findIndex (dirLevel level idx : Nat) : Nat := u32 (dirBlockIndex level dirLevel idx)

/-! ## Apart -/

/-- The shifts and products for the levels below `depth` do not overflow. -/
def NoOverflow (dirLevel depth : Nat) : Prop :=
  ∀ level, level < depth →
    (u32 (level + dirLevel) < maxDirHashDepth / 2 → 2 ^ u32 (level + dirLevel) < 2 ^ 31) ∧
    (∀ i, i < level → dirBuckets i dirLevel * bucketBlocks i < 2 ^ 32) ∧
    ∀ idx, idx < dirBuckets level dirLevel → idx * bucketBlocks level < 2 ^ 32

/-- No block is in the ranges of two buckets of the levels below `depth`. -/
def Apart (index : Nat → Nat → Nat) (dirLevel depth : Nat) : Prop :=
  ∀ level idx level' idx', level < depth → idx < dirBuckets level dirLevel →
    level' < depth → idx' < dirBuckets level' dirLevel → (level, idx) ≠ (level', idx') →
      ∀ block, ¬(index level idx ≤ block ∧ block < index level idx + bucketBlocks level ∧
        index level' idx' ≤ block ∧ block < index level' idx' + bucketBlocks level')

/-- The blocks of the levels above, counted without a limit. -/
def blocksAbove (dirLevel : Nat) : Nat → Nat
  | 0 => 0
  | i + 1 => blocksAbove dirLevel i + dirBuckets i dirLevel * bucketBlocks i

section

variable {dirLevel level level' depth idx : Nat}

theorem ulong_of_lt {n : Nat} (h : n < 2 ^ 64) : ulong n = n := Nat.mod_eq_of_lt h

theorem dirBuckets_shallow (h : level + dirLevel < 31) :
    dirBuckets level dirLevel = 2 ^ (level + dirLevel) := by
  unfold dirBuckets
  rw [u32_of_lt (by omega)]
  exact if_pos h

theorem dirBuckets_deep (h : 31 ≤ level + dirLevel) (hlt : level + dirLevel < 2 ^ 32) :
    dirBuckets level dirLevel = 2 ^ 30 := by
  unfold dirBuckets
  rw [u32_of_lt hlt]
  exact if_neg (Nat.not_lt.mpr h)

/-- The shift never reaches the sign bit. -/
theorem dirBuckets_le (level dirLevel : Nat) : dirBuckets level dirLevel ≤ 2 ^ 30 := by
  unfold dirBuckets
  split_ifs with h
  · exact Nat.pow_le_pow_right (by decide) (Nat.le_of_lt_succ h)
  · exact Nat.le_refl _

theorem bucketBlocks_shallow (h : level < 31) : bucketBlocks level = 2 := if_pos h

theorem bucketBlocks_deep (h : 31 ≤ level) : bucketBlocks level = 4 := if_neg (Nat.not_lt.mpr h)

/-- The index of a bucket in its level never wraps. -/
theorem mul_bucketBlocks_lt (h : idx < dirBuckets level dirLevel) :
    idx * bucketBlocks level < 2 ^ 32 := by
  have hle := dirBuckets_le level dirLevel
  unfold bucketBlocks
  split_ifs <;> omega

/-- The product of a level does not wrap in the first 31 levels. -/
theorem levelBlocks_le (h : level < 31) :
    dirBuckets level dirLevel * bucketBlocks level ≤ 2 ^ 31 := by
  have hle := dirBuckets_le level dirLevel
  rw [bucketBlocks_shallow h]
  omega

/-! ## Without overflow -/

theorem noOverflow_of_le (h : depth ≤ 32) : NoOverflow dirLevel depth := by
  intro level hlevel
  refine ⟨fun hshift => ?_, fun i hi => ?_, fun idx hidx => mul_bucketBlocks_lt hidx⟩
  · exact Nat.pow_lt_pow_right (by decide) hshift
  · have hle := @levelBlocks_le dirLevel i (by omega)
    omega

theorem blocksAbove_le (h : level ≤ 31) : blocksAbove dirLevel level ≤ level * 2 ^ 31 := by
  induction level with
  | zero => exact Nat.zero_le _
  | succ i ih =>
    have hle := ih (by omega)
    have hlevel := @levelBlocks_le dirLevel i (by omega)
    rw [blocksAbove]
    omega

theorem blocksAbove_mono (h : level ≤ level') :
    blocksAbove dirLevel level ≤ blocksAbove dirLevel level' := by
  induction level', h using Nat.le_induction with
  | base => exact Nat.le_refl _
  | succ n _ ih => exact Nat.le_trans ih (Nat.le_add_right _ _)

theorem levelStart_eq (h : level ≤ 31) : levelStart dirLevel level =
    blocksAbove dirLevel level := by
  induction level with
  | zero => rfl
  | succ i ih =>
    have hle := @blocksAbove_le dirLevel (i + 1) h
    have hlevel := @levelBlocks_le dirLevel i (by omega)
    rw [blocksAbove] at hle
    rw [levelStart, ih (by omega), u32_of_lt (by omega), ulong_of_lt (by omega), blocksAbove]

/-- The index of a bucket is the number of blocks in front of it. -/
theorem dirBlockIndex_eq (hlevel : level ≤ 31) (hidx : idx < dirBuckets level dirLevel) :
    dirBlockIndex level dirLevel idx =
      blocksAbove dirLevel level + idx * bucketBlocks level := by
  have hle := @blocksAbove_le dirLevel level hlevel
  have hlt := mul_bucketBlocks_lt hidx
  rw [dirBlockIndex, levelStart_eq hlevel, u32_of_lt hlt, ulong_of_lt (by omega)]

/-- A bucket ends where its level ends, or before. -/
theorem bucket_end_le (hidx : idx < dirBuckets level dirLevel) :
    blocksAbove dirLevel level + idx * bucketBlocks level + bucketBlocks level ≤
      blocksAbove dirLevel (level + 1) := by
  have hmul : (idx + 1) * bucketBlocks level ≤ dirBuckets level dirLevel * bucketBlocks level :=
    Nat.mul_le_mul_right _ hidx
  rw [Nat.succ_mul] at hmul
  rw [blocksAbove]
  omega

/-- Indices that count the blocks in front keep the buckets apart. -/
theorem apart_of_counts {index : Nat → Nat → Nat}
    (h : ∀ level idx, level < depth → idx < dirBuckets level dirLevel →
      index level idx = blocksAbove dirLevel level + idx * bucketBlocks level) :
    Apart index dirLevel depth := by
  intro level idx level' idx' hlevel hidx hlevel' hidx' hne block ⟨hlo, hhi, hlo', hhi'⟩
  rw [h level idx hlevel hidx] at hlo hhi
  rw [h level' idx' hlevel' hidx'] at hlo' hhi'
  have hend := bucket_end_le hidx
  have hend' := bucket_end_le hidx'
  rcases Nat.lt_trichotomy level level' with hlt | rfl | hgt
  · have hmono := @blocksAbove_mono dirLevel (level + 1) level' hlt
    omega
  · rcases Nat.lt_trichotomy idx idx' with hlt | rfl | hgt
    · have hmul := Nat.mul_le_mul_right (bucketBlocks level) (Nat.succ_le_of_lt hlt)
      rw [Nat.succ_mul] at hmul
      omega
    · exact hne rfl
    · have hmul := Nat.mul_le_mul_right (bucketBlocks level) (Nat.succ_le_of_lt hgt)
      rw [Nat.succ_mul] at hmul
      omega
  · have hmono := @blocksAbove_mono dirLevel (level' + 1) level hgt
    omega

/-! ## With overflow -/

/-- Level 31 takes no room in the sum, so level 32 lies on it. -/
theorem levelStart_thirtyTwo (h : dirLevel < 2 ^ 31) :
    levelStart dirLevel 32 = levelStart dirLevel 31 := by
  have hle := @blocksAbove_le dirLevel 31 (Nat.le_refl _)
  have hbuckets := @dirBuckets_deep dirLevel 31 (by omega) (by omega)
  have hzero : u32 (2 ^ 30 * 4) = 0 := by unfold u32; rfl
  rw [levelStart, hbuckets, bucketBlocks_deep (Nat.le_refl _), hzero,
    levelStart_eq (Nat.le_refl _), ulong_of_lt (by omega), Nat.add_zero]

/-- Two buckets that begin at the same block. -/
theorem not_apart {index : Nat → Nat → Nat} {idx' : Nat} (hlevel : level < depth)
    (hidx : idx < dirBuckets level dirLevel) (hlevel' : level' < depth)
    (hidx' : idx' < dirBuckets level' dirLevel) (hne : level ≠ level')
    (heq : index level idx = index level' idx') : ¬Apart index dirLevel depth := by
  intro h
  have hpos : ∀ l, 0 < bucketBlocks l := fun l => by
    unfold bucketBlocks
    split_ifs <;> decide
  refine h level idx level' idx' hlevel hidx hlevel' hidx' (fun heq' => hne ?_)
    (index level idx) ⟨Nat.le_refl _, Nat.lt_add_of_pos_right (hpos level), heq.ge, ?_⟩
  · exact congrArg Prod.fst heq'
  · rw [heq]
    exact Nat.lt_add_of_pos_right (hpos level')

theorem dirBuckets_pos (level dirLevel : Nat) : 0 < dirBuckets level dirLevel := by
  unfold dirBuckets
  split_ifs
  · exact Nat.two_pow_pos _
  · decide

theorem addIndex_not_apart (hd : dirLevel < 2 ^ 31) (h : 33 ≤ depth) :
    ¬Apart (addIndex dirLevel) dirLevel depth := by
  refine not_apart (show 31 < depth by omega) (dirBuckets_pos 31 dirLevel)
    (show 32 < depth by omega)
    (dirBuckets_pos 32 dirLevel) (by decide) ?_
  rw [addIndex, addIndex, dirBlockIndex, dirBlockIndex, levelStart_thirtyTwo hd, Nat.zero_mul,
    Nat.zero_mul]

/-- The blocks in front of a level whose buckets double. -/
theorem blocksAbove_doubling (h : level + dirLevel ≤ 31) :
    blocksAbove dirLevel level + 2 ^ (dirLevel + 1) = 2 ^ (level + dirLevel + 1) := by
  induction level with
  | zero => rw [blocksAbove, Nat.zero_add, Nat.zero_add]
  | succ i ih =>
    have hprev := ih (by omega)
    have hpow : 2 ^ (i + 1 + dirLevel + 1) = 2 * 2 ^ (i + dirLevel + 1) := by
      rw [← Nat.pow_succ']
      congr 1
      omega
    have hpow' : 2 ^ (i + dirLevel + 1) = 2 ^ (i + dirLevel) * 2 := Nat.pow_succ _ _
    rw [blocksAbove, dirBuckets_shallow (by omega), bucketBlocks_shallow (by omega)]
    omega

/-- In 32 bits there is room for the levels if all of them double, and for two levels in any
    case. -/
theorem blocksAbove_le_word (h : depth ≤ 2 ∨ depth + dirLevel ≤ 31) :
    blocksAbove dirLevel depth ≤ 2 ^ 32 := by
  rcases h with h | h
  · have hle := @blocksAbove_le dirLevel depth (by omega)
    omega
  · have heq := blocksAbove_doubling h
    have hpow : 2 ^ (depth + dirLevel + 1) ≤ 2 ^ 32 :=
      Nat.pow_le_pow_right (by decide) (by omega)
    have hpos := Nat.two_pow_pos dirLevel
    omega

theorem findIndex_apart (h : depth ≤ 2 ∨ depth + dirLevel ≤ 31) :
    Apart (findIndex dirLevel) dirLevel depth := by
  refine apart_of_counts fun level idx hlevel hidx => ?_
  have hroom := @blocksAbove_le_word dirLevel depth h
  have hmono := @blocksAbove_mono dirLevel (level + 1) depth hlevel
  have hend := bucket_end_le hidx
  have hpos : 0 < bucketBlocks level := by
    unfold bucketBlocks
    split_ifs <;> decide
  rw [findIndex, dirBlockIndex_eq (by omega) hidx, u32_of_lt (by omega)]

/-- One level more, and the index of a bucket wraps to that of another one. -/
theorem findIndex_not_apart (hd : dirLevel < 2 ^ 31) (h3 : 3 ≤ depth) (h : 32 ≤ depth + dirLevel) :
    ¬Apart (findIndex dirLevel) dirLevel depth := by
  have hfirst : findIndex dirLevel 0 0 = 0 := by
    rw [findIndex, dirBlockIndex_eq (by decide) (dirBuckets_pos 0 dirLevel), blocksAbove,
      Nat.zero_mul, u32_of_lt (by decide)]
  rcases Nat.lt_or_ge dirLevel 30 with hlt | hge
  · -- the last level whose buckets have doubled begins `2 ^ (dirLevel + 1)` blocks below the end
    obtain ⟨level, hlevel⟩ : ∃ level, level + dirLevel = 31 := ⟨31 - dirLevel, by omega⟩
    have habove := @blocksAbove_doubling dirLevel level hlevel.le
    have hbuckets := @dirBuckets_deep dirLevel level hlevel.ge (by omega)
    rw [hlevel] at habove
    rcases Nat.eq_zero_or_pos dirLevel with rfl | hpos
    · obtain rfl : level = 31 := hlevel
      have hone : 1 < dirBuckets 31 0 := by rw [hbuckets]; decide
      refine not_apart (show 31 < depth by omega) hone (show 1 < depth by omega)
        (dirBuckets_pos 1 0) (by decide) ?_
      have hwrap : u32 (2 ^ 32 + 2) = 2 := by unfold u32; rfl
      have hstart : blocksAbove 0 31 + 1 * 4 = 2 ^ 32 + 2 := by omega
      have hnext : blocksAbove 0 1 = 2 := by
        have hdouble := @blocksAbove_doubling 0 1 (by decide)
        omega
      rw [findIndex, findIndex, dirBlockIndex_eq (Nat.le_refl _) hone,
        dirBlockIndex_eq (by decide) (dirBuckets_pos 1 0), bucketBlocks_deep (Nat.le_refl _),
          hstart,
        hwrap, hnext, Nat.zero_mul, Nat.add_zero, u32_of_lt (by decide)]
    · have hlast : 2 ^ dirLevel < dirBuckets level dirLevel := by
        rw [hbuckets]
        exact Nat.pow_lt_pow_right (by decide) hlt
      refine not_apart (show level < depth by omega) hlast (show 0 < depth by omega)
        (dirBuckets_pos 0 dirLevel) (by omega) ?_
      have hwrap : u32 (2 ^ 32) = 0 := by unfold u32; rfl
      have hstart : blocksAbove dirLevel level + 2 ^ dirLevel * 2 = 2 ^ 32 := by
        have hpow : 2 ^ (dirLevel + 1) = 2 ^ dirLevel * 2 := Nat.pow_succ _ _
        omega
      rw [hfirst, findIndex, dirBlockIndex_eq (by omega) hlast, bucketBlocks_shallow (by omega),
        hstart, hwrap]
  · have hlevels : blocksAbove dirLevel 2 = 2 ^ 32 := by
      have hbuckets : ∀ i, i < 2 → dirBuckets i dirLevel = 2 ^ 30 := fun i hi => by
        rcases Nat.lt_or_ge (i + dirLevel) 31 with hi31 | hi31
        · rw [dirBuckets_shallow hi31, show i + dirLevel = 30 by omega]
        · exact dirBuckets_deep hi31 (by omega)
      rw [blocksAbove, blocksAbove, blocksAbove, hbuckets 0 (by decide), hbuckets 1 (by decide),
        bucketBlocks_shallow (by decide), bucketBlocks_shallow (by decide)]
      decide
    have hwrap : u32 (2 ^ 32) = 0 := by unfold u32; rfl
    refine not_apart (show 2 < depth by omega) (dirBuckets_pos 2 dirLevel) (show 0 < depth by omega)
      (dirBuckets_pos 0 dirLevel) (by decide) ?_
    rw [hfirst, findIndex, dirBlockIndex_eq (by decide) (dirBuckets_pos 2 dirLevel), hlevels,
      Nat.zero_mul, Nat.add_zero, hwrap]

end

/-! ## The condition -/

/-- The levels below `depth` have no overflow and their buckets are apart. -/
def BucketsSound (index : Nat → Nat → Nat → Nat) (dirLevel depth : Nat) : Prop :=
  NoOverflow dirLevel depth ∧ Apart (index dirLevel) dirLevel depth

end F2fs.Dir

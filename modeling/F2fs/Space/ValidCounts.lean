/-
  The counts of valid blocks and nodes: `inc_valid_block_count`, `dec_valid_block_count`,
  `inc_valid_node_count` and `dec_valid_node_count`.

  The counts are words of 32 bits, `blkcnt_t` is one of 64.  The percpu counter
  `alloc_valid_block_count`, the blocks of an inode (in blocks, not sectors) and its quota
  are integers; the quota grants or refuses a reservation at once.

  A call that is granted only a part of what it asked for leaves `alloc_valid_block_count`
  with the rest: `validCounts_accounted_iff` says which calls change all counts alike.
-/
import Mathlib

namespace F2fs.Space

/-! ## State -/

/-- What the functions read and write in `struct f2fs_sb_info`. -/
structure SpaceInfo where
  userBlockCount : UInt32
  totalValidBlockCount : UInt32
  allocValidBlockCount : Int
  reservedBlocks : UInt32
  currentReservedBlocks : UInt32
  rootReservedBlocks : UInt32
  reserveRoot : Bool
  totalNodeCount : UInt32
  totalValidNodeCount : UInt32

/-- The blocks of an inode: `i_blocks`, and what its quota has reserved and charged. -/
structure InodeBlocks where
  iBlocks : Int
  quotaReserved : Int
  quotaUsed : Int

namespace InodeBlocks

variable (b : InodeBlocks) (n : Nat)

/-- `dquot_reserve_block`, granted. -/
def reserve : InodeBlocks := { b with quotaReserved := b.quotaReserved + n }

/-- `dquot_release_reservation_block`. -/
def release : InodeBlocks := { b with quotaReserved := b.quotaReserved - n }

/-- `f2fs_i_blocks_write` with `add` and `claim`: `dquot_claim_block`. -/
def claim : InodeBlocks where
  iBlocks := b.iBlocks + n
  quotaReserved := b.quotaReserved - n
  quotaUsed := b.quotaUsed + n

/-- `f2fs_i_blocks_write` without `add`: `dquot_free_block`. -/
def free : InodeBlocks :=
  { b with iBlocks := b.iBlocks - n, quotaUsed := b.quotaUsed - n }

/-- All that the quota counts. -/
def charged : Int := b.quotaReserved + b.quotaUsed

end InodeBlocks

structure SpaceState where
  sbi : SpaceInfo
  inodes : Nat → InodeBlocks

/-- A change of the blocks of one inode. -/
def SpaceState.onInode (s : SpaceState) (ino : Nat) (f : InodeBlocks → InodeBlocks) :
    SpaceState :=
  { s with inodes := Function.update s.inodes ino (f (s.inodes ino)) }

/-! ## The functions -/

/-- What `__allow_reserved_blocks` asks about the inode and the task. -/
structure Caller where
  noquota : Bool
  capable : Bool
  isResuid : Bool
  resgidIsRoot : Bool
  inResgid : Bool

inductive Errno where
  | quota | enospc
  deriving DecidableEq, Repr

/-- `__allow_reserved_blocks`. -/
def allowReservedBlocks (sbi : SpaceInfo) (inode : Option Nat) (caller : Caller) : Bool :=
  if inode.isNone then true
  else if !sbi.reserveRoot then false
  else caller.noquota || caller.capable || caller.isResuid ||
    (!caller.resgidIsRoot && caller.inResgid)

/-- `avail_user_block_count`. -/
def availUserBlockCount (sbi : SpaceInfo) (inode : Option Nat) (caller : Caller) : UInt32 :=
  let avail := sbi.userBlockCount - sbi.currentReservedBlocks
  if allowReservedBlocks sbi inode caller then avail else avail - sbi.rootReservedBlocks

/-- The branch of `inc_valid_block_count` in which the blocks do not suffice: `diff` of the
    `count` blocks, which are added already, are given back. -/
def giveBack (s : SpaceState) (ino : Nat) (count diff : UInt64) :
    Except Errno UInt64 × SpaceState :=
  let sbi := { s.sbi with
    totalValidBlockCount := s.sbi.totalValidBlockCount - diff.toUInt32 }
  if count - diff = 0 then
    let sbi := { sbi with allocValidBlockCount := sbi.allocValidBlockCount - diff.toNat }
    (.error .enospc, { s with sbi := sbi }.onInode ino (·.release diff.toNat))
  else
    (.ok (count - diff), { s with sbi := sbi }.onInode ino fun b =>
      (b.release diff.toNat).claim (count - diff).toUInt32.toNat)

/-- `inc_valid_block_count`, with what the quota says; the count it grants. -/
def incValidBlockCount (s : SpaceState) (ino : Nat) (caller : Caller) (quotaGrants : Bool)
    (count : UInt64) : Except Errno UInt64 × SpaceState :=
  if !quotaGrants then (.error .quota, s)
  else
    let s := s.onInode ino (·.reserve count.toNat)
    let s := { s with sbi := { s.sbi with
      allocValidBlockCount := s.sbi.allocValidBlockCount + count.toNat
      totalValidBlockCount := s.sbi.totalValidBlockCount + count.toUInt32 } }
    let avail := availUserBlockCount s.sbi (some ino) caller
    if s.sbi.totalValidBlockCount > avail then
      let diff := (s.sbi.totalValidBlockCount - avail).toUInt64
      giveBack s ino count (if diff > count then count else diff)
    else (.ok count, s.onInode ino (·.claim count.toUInt32.toNat))

/-- `dec_valid_block_count`. -/
def decValidBlockCount (s : SpaceState) (ino : Nat) (count : UInt32) : SpaceState :=
  let current := s.sbi.currentReservedBlocks
  let sbi := { s.sbi with
    totalValidBlockCount := s.sbi.totalValidBlockCount - count
    currentReservedBlocks :=
      if s.sbi.reservedBlocks ≠ 0 ∧ current < s.sbi.reservedBlocks then
        min s.sbi.reservedBlocks (current + count)
      else current }
  { s with sbi := sbi }.onInode ino (·.free count.toNat)

/-- The inode pays for the node with its quota. -/
def nodeQuota (inode : Option Nat) (isInode : Bool) : Bool := inode.isSome && !isInode

/-- A change of the blocks of the inode that pays for the node. -/
def SpaceState.onPayer (s : SpaceState) (inode : Option Nat) (isInode : Bool)
    (f : InodeBlocks → InodeBlocks) : SpaceState :=
  match inode with
  | some ino => if isInode then s else s.onInode ino f
  | none => s

/-- `valid_block_count` in `inc_valid_node_count`. -/
def wantedBlockCount (sbi : SpaceInfo) (inode : Option Nat) (caller : Caller) : UInt32 :=
  let count := sbi.totalValidBlockCount + sbi.currentReservedBlocks + 1
  if allowReservedBlocks sbi inode caller then count else count + sbi.rootReservedBlocks

/-- `inc_valid_node_count`. -/
def incValidNodeCount (s : SpaceState) (inode : Option Nat) (caller : Caller)
    (quotaGrants isInode : Bool) : Except Errno Unit × SpaceState :=
  if nodeQuota inode isInode && !quotaGrants then (.error .quota, s)
  else
    let s := s.onPayer inode isInode (·.reserve 1)
    if wantedBlockCount s.sbi inode caller > s.sbi.userBlockCount then
      (.error .enospc, s.onPayer inode isInode (·.release 1))
    else if s.sbi.totalValidNodeCount + 1 > s.sbi.totalNodeCount then
      (.error .enospc, s.onPayer inode isInode (·.release 1))
    else
      let sbi := { s.sbi with
        totalValidNodeCount := s.sbi.totalValidNodeCount + 1
        totalValidBlockCount := s.sbi.totalValidBlockCount + 1
        allocValidBlockCount := s.sbi.allocValidBlockCount + 1 }
      (.ok (), { s with sbi := sbi }.onPayer inode isInode (·.claim 1))

/-- `dec_valid_node_count`. -/
def decValidNodeCount (s : SpaceState) (ino : Nat) (isInode : Bool) : SpaceState :=
  let current := s.sbi.currentReservedBlocks
  let sbi := { s.sbi with
    totalValidNodeCount := s.sbi.totalValidNodeCount - 1
    totalValidBlockCount := s.sbi.totalValidBlockCount - 1
    currentReservedBlocks :=
      if s.sbi.reservedBlocks ≠ 0 ∧ current < s.sbi.reservedBlocks then current + 1
      else current }
  { s with sbi := sbi }.onPayer (some ino) isInode (·.free 1)

/-- `f2fs_sbi_store` for `reserved_blocks`. -/
def storeReservedBlocks (sbi : SpaceInfo) (t : UInt64) : SpaceInfo :=
  if t > (sbi.userBlockCount - sbi.rootReservedBlocks).toUInt64 then sbi
  else
    { sbi with
      reservedBlocks := t.toUInt32
      currentReservedBlocks :=
        min t.toUInt32 (sbi.userBlockCount - sbi.totalValidBlockCount) }

/-! ## Runs -/

/-- One call, or a change of the settings. -/
inductive SpaceOp where
  | incBlocks (ino : Nat) (caller : Caller) (quotaGrants : Bool) (count : UInt64)
  | decBlocks (ino : Nat) (count : UInt32)
  | incNode (inode : Option Nat) (caller : Caller) (quotaGrants isInode : Bool)
  | decNode (ino : Nat) (isInode : Bool)
  | storeReserved (t : UInt64)
  | setRoot (reserveRoot : Bool) (blocks : UInt32)

def SpaceOp.run (s : SpaceState) : SpaceOp → SpaceState
  | incBlocks ino caller quotaGrants count =>
    (incValidBlockCount s ino caller quotaGrants count).2
  | decBlocks ino count => decValidBlockCount s ino count
  | incNode inode caller quotaGrants isInode =>
    (incValidNodeCount s inode caller quotaGrants isInode).2
  | decNode ino isInode => decValidNodeCount s ino isInode
  | storeReserved t => { s with sbi := storeReservedBlocks s.sbi t }
  | setRoot reserveRoot blocks =>
    { s with sbi := { s.sbi with reserveRoot := reserveRoot, rootReservedBlocks := blocks } }

/-- The calls of a run, each with the state it starts in. -/
def calls (s : SpaceState) : List SpaceOp → List (SpaceState × SpaceOp)
  | [] => []
  | op :: ops => (s, op) :: calls (op.run s) ops

/-! ## What the calls should do -/

/-- The reservations that apply to the caller. -/
def reservations (sbi : SpaceInfo) (inode : Option Nat) (caller : Caller) : Nat :=
  sbi.currentReservedBlocks.toNat +
    if allowReservedBlocks sbi inode caller then 0 else sbi.rootReservedBlocks.toNat

/-- The count that was granted. -/
def granted : Except Errno UInt64 → Nat
  | .ok count => count.toNat
  | .error _ => 0

/-- The four counts of blocks have grown by `n`. -/
structure GrownBy (s s' : SpaceState) (ino n : Nat) : Prop where
  total : s'.sbi.totalValidBlockCount.toNat = s.sbi.totalValidBlockCount.toNat + n
  alloc : s'.sbi.allocValidBlockCount = s.sbi.allocValidBlockCount + n
  charged : (s'.inodes ino).charged = (s.inodes ino).charged + n
  iBlocks : (s'.inodes ino).iBlocks = (s.inodes ino).iBlocks + n

/-- `inc_valid_block_count` changes every count by what it grants, and a success leaves the
    total within what the caller may use. -/
structure BlocksAccounted (s : SpaceState) (ino : Nat) (caller : Caller) (quotaGrants : Bool)
    (count : UInt64) : Prop where
  grown : GrownBy s (incValidBlockCount s ino caller quotaGrants count).2 ino
    (granted (incValidBlockCount s ino caller quotaGrants count).1)
  within : ∀ n, (incValidBlockCount s ino caller quotaGrants count).1 = .ok n →
    (incValidBlockCount s ino caller quotaGrants count).2.sbi.totalValidBlockCount.toNat +
      reservations s.sbi (some ino) caller ≤ s.sbi.userBlockCount.toNat

/-- What a call of `inc_valid_node_count` adds. -/
def nodeAdded : Except Errno Unit → Nat
  | .ok _ => 1
  | .error _ => 0

/-- `inc_valid_node_count` changes every count by one, or none. -/
structure NodeAccounted (s : SpaceState) (inode : Option Nat) (caller : Caller)
    (quotaGrants isInode : Bool) : Prop where
  node : (incValidNodeCount s inode caller quotaGrants isInode).2.sbi.totalValidNodeCount.toNat =
    s.sbi.totalValidNodeCount.toNat +
      nodeAdded (incValidNodeCount s inode caller quotaGrants isInode).1
  total : (incValidNodeCount s inode caller quotaGrants isInode).2.sbi.totalValidBlockCount.toNat =
    s.sbi.totalValidBlockCount.toNat +
      nodeAdded (incValidNodeCount s inode caller quotaGrants isInode).1
  alloc : (incValidNodeCount s inode caller quotaGrants isInode).2.sbi.allocValidBlockCount =
    s.sbi.allocValidBlockCount + nodeAdded (incValidNodeCount s inode caller quotaGrants isInode).1
  payer : ∀ ino, inode = some ino → ∀ n, n = (if isInode then 0
      else nodeAdded (incValidNodeCount s inode caller quotaGrants isInode).1) →
    (((incValidNodeCount s inode caller quotaGrants isInode).2.inodes ino).charged =
        (s.inodes ino).charged + n ∧
      ((incValidNodeCount s inode caller quotaGrants isInode).2.inodes ino).iBlocks =
        (s.inodes ino).iBlocks + n)

/-- The call is refused by the quota, granted in full, or granted nothing. -/
def BlocksMeet (s : SpaceState) (ino : Nat) (caller : Caller) (quotaGrants : Bool)
    (count : UInt64) : Prop :=
  quotaGrants = false ∨
    s.sbi.totalValidBlockCount.toNat + count.toNat + reservations s.sbi (some ino) caller ≤
      s.sbi.userBlockCount.toNat ∨
    (s.sbi.totalValidBlockCount.toNat + count.toNat < 2 ^ 32 ∧
      availUserBlockCount s.sbi (some ino) caller ≤ s.sbi.totalValidBlockCount ∧
      (availUserBlockCount s.sbi (some ino) caller).toNat <
        s.sbi.totalValidBlockCount.toNat + count.toNat)

/-- The call is refused, or the counts do not wrap. -/
def NodeMeet (s : SpaceState) (inode : Option Nat) (caller : Caller)
    (quotaGrants isInode : Bool) : Prop :=
  (nodeQuota inode isInode = true ∧ quotaGrants = false) ∨
    wantedBlockCount s.sbi inode caller > s.sbi.userBlockCount ∨
    s.sbi.totalValidNodeCount + 1 > s.sbi.totalNodeCount ∨
    (s.sbi.totalValidBlockCount.toNat + 1 < 2 ^ 32 ∧ s.sbi.totalValidNodeCount.toNat + 1 < 2 ^ 32)

/-! ## Inodes -/

section

variable (s : SpaceState) (ino : Nat) (f : InodeBlocks → InodeBlocks)

@[simp] theorem onInode_inodes : (s.onInode ino f).inodes ino = f (s.inodes ino) :=
  Function.update_self ..

@[simp] theorem onPayer_sbi (inode : Option Nat) (isInode : Bool) :
    (s.onPayer inode isInode f).sbi = s.sbi := by
  cases inode with
  | none => rfl
  | some _ => cases isInode <;> rfl

theorem onPayer_inodes (isInode : Bool) : (s.onPayer (some ino) isInode f).inodes ino =
    if isInode then s.inodes ino else f (s.inodes ino) := by
  cases isInode with
  | true => rfl
  | false => exact onInode_inodes s ino f

end

/-! ## `inc_valid_block_count` -/

theorem avail_toNat (sbi : SpaceInfo) (inode : Option Nat) (caller : Caller) :
    (availUserBlockCount sbi inode caller).toNat =
      (2 ^ 33 + sbi.userBlockCount.toNat - reservations sbi inode caller) % 2 ^ 32 := by
  have hu := sbi.userBlockCount.toNat_lt
  have hc := sbi.currentReservedBlocks.toNat_lt
  have hr := sbi.rootReservedBlocks.toNat_lt
  unfold availUserBlockCount reservations
  cases allowReservedBlocks sbi inode caller with
  | true =>
    simp only [if_true, UInt32.toNat_sub]
    omega
  | false =>
    simp only [Bool.false_eq_true, if_false, UInt32.toNat_sub]
    omega

section

variable {s : SpaceState} {ino : Nat} {caller : Caller} {count : UInt64}

/-- The total after the addition. -/
def raisedTotal (s : SpaceState) (count : UInt64) : UInt32 :=
  s.sbi.totalValidBlockCount + count.toUInt32

theorem raisedTotal_toNat : (raisedTotal s count).toNat =
    (s.sbi.totalValidBlockCount.toNat + count.toNat) % 2 ^ 32 := by
  rw [raisedTotal, UInt32.toNat_add, UInt64.toNat_toUInt32, Nat.add_mod_mod]

/-- What a call leaves in the counts. -/
structure CountsAfter (s s' : SpaceState) (ino : Nat) (total : UInt32) (alloc : Int)
    (b : InodeBlocks) : Prop where
  total_eq : s'.sbi.totalValidBlockCount = total
  alloc_eq : s'.sbi.allocValidBlockCount = s.sbi.allocValidBlockCount + alloc
  inode_eq : s'.inodes ino = b

theorem incValidBlockCount_full
    (h : ¬raisedTotal s count > availUserBlockCount s.sbi (some ino) caller) :
    ∃ s', incValidBlockCount s ino caller true count = (.ok count, s') ∧
      CountsAfter s s' ino (raisedTotal s count) count.toNat
        (((s.inodes ino).reserve count.toNat).claim count.toUInt32.toNat) := by
  refine ⟨_, if_neg h, rfl, rfl, ?_⟩
  simp only [onInode_inodes]

/-- What the total has above what is available. -/
def excess (s : SpaceState) (ino : Nat) (caller : Caller) (count : UInt64) : UInt64 :=
  (raisedTotal s count - availUserBlockCount s.sbi (some ino) caller).toUInt64

theorem incValidBlockCount_none
    (h : raisedTotal s count > availUserBlockCount s.sbi (some ino) caller)
    (hdiff : count ≤ excess s ino caller count) :
    ∃ s', incValidBlockCount s ino caller true count = (.error .enospc, s') ∧
      CountsAfter s s' ino (raisedTotal s count - count.toUInt32) 0
        (((s.inodes ino).reserve count.toNat).release count.toNat) := by
  have hcount : (if excess s ino caller count > count then count
      else excess s ino caller count) = count := by
    split
    · rfl
    · rename_i hle
      exact UInt64.le_antisymm (UInt64.not_lt.mp hle) hdiff
  refine ⟨_, (if_pos h).trans ((congrArg _ hcount).trans (if_pos (UInt64.sub_self count))),
    rfl, ?_, ?_⟩
  · show s.sbi.allocValidBlockCount + count.toNat - count.toNat = _
    omega
  · simp only [onInode_inodes]

theorem incValidBlockCount_part
    (h : raisedTotal s count > availUserBlockCount s.sbi (some ino) caller)
    (hdiff : excess s ino caller count < count) :
    ∃ s', incValidBlockCount s ino caller true count =
        (.ok (count - excess s ino caller count), s') ∧
      s'.sbi.allocValidBlockCount = s.sbi.allocValidBlockCount + count.toNat := by
  have hcount : (if excess s ino caller count > count then count
      else excess s ino caller count) = excess s ino caller count :=
    if_neg (UInt64.not_lt.mpr (UInt64.le_of_lt hdiff))
  have hne : ¬count - excess s ino caller count = 0 := by
    intro h0
    have hsub := congrArg UInt64.toNat h0
    rw [UInt64.toNat_sub_of_le _ _ (UInt64.le_of_lt hdiff)] at hsub
    have hlt := UInt64.lt_iff_toNat_lt.mp hdiff
    rw [UInt64.toNat_zero] at hsub
    omega
  exact ⟨_, (if_pos h).trans ((congrArg _ hcount).trans (if_neg hne)), rfl⟩

theorem excess_toNat (h : raisedTotal s count > availUserBlockCount s.sbi (some ino) caller) :
    (excess s ino caller count).toNat =
      (raisedTotal s count).toNat - (availUserBlockCount s.sbi (some ino) caller).toNat := by
  rw [excess, UInt32.toNat_toUInt64, UInt32.toNat_sub_of_le _ _ (UInt32.le_of_lt h)]

/-- Where everything fits, the total stays below what is available. -/
theorem not_raised_of_fits
    (h : s.sbi.totalValidBlockCount.toNat + count.toNat + reservations s.sbi (some ino) caller ≤
      s.sbi.userBlockCount.toNat) :
    ¬raisedTotal s count > availUserBlockCount s.sbi (some ino) caller := by
  have hu := s.sbi.userBlockCount.toNat_lt
  rw [gt_iff_lt, UInt32.lt_iff_toNat_lt, avail_toNat, raisedTotal_toNat]
  omega

theorem blocksAccounted_full
    (h : ¬raisedTotal s count > availUserBlockCount s.sbi (some ino) caller) :
    BlocksAccounted s ino caller true count ↔
      s.sbi.totalValidBlockCount.toNat + count.toNat + reservations s.sbi (some ino) caller ≤
        s.sbi.userBlockCount.toNat := by
  obtain ⟨s', hrun, hafter⟩ := incValidBlockCount_full h
  constructor
  · rintro ⟨hgrown, hwithin⟩
    rw [hrun] at hgrown hwithin
    have hfit := hwithin count rfl
    rw [hgrown.total] at hfit
    exact hfit
  · intro hfit
    have hu := s.sbi.userBlockCount.toNat_lt
    have htotal : s'.sbi.totalValidBlockCount.toNat =
        s.sbi.totalValidBlockCount.toNat + count.toNat := by
      rw [hafter.total_eq, raisedTotal_toNat]
      exact Nat.mod_eq_of_lt (by omega)
    have hword : count.toUInt32.toNat = count.toNat := by
      rw [UInt64.toNat_toUInt32]
      exact Nat.mod_eq_of_lt (by omega)
    refine ⟨?_, ?_⟩
    · rw [hrun]
      refine ⟨htotal, hafter.alloc_eq, ?_, ?_⟩
      · rw [hafter.inode_eq, hword]
        simp only [InodeBlocks.charged, InodeBlocks.claim, InodeBlocks.reserve, granted]
        ring
      · rw [hafter.inode_eq, hword]
        rfl
    · rw [hrun]
      intro n _
      show s'.sbi.totalValidBlockCount.toNat + _ ≤ _
      rw [htotal]
      exact hfit

theorem blocksAccounted_none
    (h : raisedTotal s count > availUserBlockCount s.sbi (some ino) caller)
    (hdiff : count ≤ excess s ino caller count) : BlocksAccounted s ino caller true count := by
  obtain ⟨s', hrun, hafter⟩ := incValidBlockCount_none h hdiff
  refine ⟨?_, ?_⟩
  · rw [hrun]
    refine ⟨?_, hafter.alloc_eq, ?_, ?_⟩
    · rw [hafter.total_eq, raisedTotal, UInt32.add_sub_cancel]
      rfl
    · rw [hafter.inode_eq]
      simp only [InodeBlocks.charged, InodeBlocks.release, InodeBlocks.reserve, granted]
      push_cast
      ring
    · rw [hafter.inode_eq]
      exact (Int.add_zero _).symm
  · rw [hrun]
    intro n hn
    cases hn

/-- A part of the count leaves `alloc_valid_block_count` with the rest. -/
theorem blocksAccounted_part
    (h : raisedTotal s count > availUserBlockCount s.sbi (some ino) caller)
    (hdiff : excess s ino caller count < count) : ¬BlocksAccounted s ino caller true count := by
  obtain ⟨s', hrun, halloc⟩ := incValidBlockCount_part h hdiff
  rintro ⟨hgrown, -⟩
  have hcount := hgrown.alloc
  rw [hrun] at hcount
  simp only [granted, halloc, UInt64.toNat_sub_of_le _ _ (UInt64.le_of_lt hdiff)] at hcount
  have hex := excess_toNat h
  have hlt := UInt32.lt_iff_toNat_lt.mp h
  have hlt' := UInt64.lt_iff_toNat_lt.mp hdiff
  omega

/-- `inc_valid_block_count` accounts for what it grants exactly if it is refused by the quota,
    granted in full with room for the reservations, or granted nothing. -/
theorem blocksAccounted_iff (quotaGrants : Bool) :
    BlocksAccounted s ino caller quotaGrants count ↔
      BlocksMeet s ino caller quotaGrants count := by
  have ht := s.sbi.totalValidBlockCount.toNat_lt
  have hraised : (raisedTotal s count).toNat =
      (s.sbi.totalValidBlockCount.toNat + count.toNat) % 2 ^ 32 := raisedTotal_toNat
  cases quotaGrants with
  | false =>
    refine iff_of_true ⟨⟨rfl, (Int.add_zero _).symm, (Int.add_zero _).symm,
      (Int.add_zero _).symm⟩, fun n hn => ?_⟩ (.inl rfl)
    cases hn
  | true =>
    rw [BlocksMeet, or_iff_right Bool.noConfusion]
    by_cases h : raisedTotal s count > availUserBlockCount s.sbi (some ino) caller
    · have hex := excess_toNat h
      have hlt := UInt32.lt_iff_toNat_lt.mp h
      rw [or_iff_right fun hfit => not_raised_of_fits hfit h, UInt32.le_iff_toNat_le]
      by_cases hdiff : count ≤ excess s ino caller count
      · refine iff_of_true (blocksAccounted_none h hdiff) ?_
        have hle := UInt64.le_iff_toNat_le.mp hdiff
        omega
      · rw [UInt64.not_le] at hdiff
        refine iff_of_false (blocksAccounted_part h hdiff) ?_
        have hlt' := UInt64.lt_iff_toNat_lt.mp hdiff
        omega
    · rw [blocksAccounted_full h, or_iff_left]
      rintro ⟨hsum, -, hlt⟩
      rw [gt_iff_lt, UInt32.lt_iff_toNat_lt, hraised, Nat.mod_eq_of_lt hsum] at h
      exact h hlt

end

/-! ## `inc_valid_node_count` -/

section

variable {s : SpaceState} {inode : Option Nat} {caller : Caller} {quotaGrants isInode : Bool}

/-- A call that fails leaves every count as it was. -/
theorem nodeAccounted_error {e : Errno} {s' : SpaceState}
    (hrun : incValidNodeCount s inode caller quotaGrants isInode = (.error e, s'))
    (hsbi : s'.sbi = s.sbi) (hinode : ∀ ino, inode = some ino →
      (s'.inodes ino).charged = (s.inodes ino).charged ∧
        (s'.inodes ino).iBlocks = (s.inodes ino).iBlocks) :
    NodeAccounted s inode caller quotaGrants isInode := by
  refine ⟨?_, ?_, ?_, ?_⟩
  · rw [hrun, hsbi]
    rfl
  · rw [hrun, hsbi]
    rfl
  · rw [hrun, hsbi]
    exact (Int.add_zero _).symm
  · intro ino hino n hn
    have hn0 : n = 0 := by
      rw [hn, hrun]
      exact ite_self 0
    rw [hrun, hn0, Nat.cast_zero, Int.add_zero, Int.add_zero]
    exact hinode ino hino

theorem release_reserve (s : SpaceState) (inode : Option Nat) (isInode : Bool) (ino : Nat)
    (hino : inode = some ino) :
    ((((s.onPayer inode isInode (·.reserve 1)).onPayer inode isInode
        (·.release 1)).inodes ino).charged = (s.inodes ino).charged) ∧
      (((s.onPayer inode isInode (·.reserve 1)).onPayer inode isInode
        (·.release 1)).inodes ino).iBlocks = (s.inodes ino).iBlocks := by
  subst hino
  rw [onPayer_inodes, onPayer_inodes]
  cases isInode with
  | true => exact ⟨rfl, rfl⟩
  | false =>
    refine ⟨?_, rfl⟩
    simp only [Bool.false_eq_true, if_false, InodeBlocks.charged, InodeBlocks.release,
      InodeBlocks.reserve]
    ring

theorem incValidNodeCount_refused (hquota : nodeQuota inode isInode = true)
    (hgrants : quotaGrants = false) :
    incValidNodeCount s inode caller quotaGrants isInode = (.error .quota, s) := by
  rw [incValidNodeCount, hquota, hgrants]
  rfl

theorem incValidNodeCount_nospc
    (hquota : ¬(nodeQuota inode isInode && !quotaGrants) = true)
    (hno : wantedBlockCount s.sbi inode caller > s.sbi.userBlockCount ∨
      s.sbi.totalValidNodeCount + 1 > s.sbi.totalNodeCount) :
    incValidNodeCount s inode caller quotaGrants isInode =
      (.error .enospc,
        (s.onPayer inode isInode (·.reserve 1)).onPayer inode isInode (·.release 1)) := by
  rw [incValidNodeCount, if_neg hquota]
  simp only [onPayer_sbi]
  by_cases hblocks : wantedBlockCount s.sbi inode caller > s.sbi.userBlockCount
  · rw [if_pos hblocks]
  · rw [if_neg hblocks, if_pos (hno.resolve_left hblocks)]

theorem incValidNodeCount_ok (hquota : ¬(nodeQuota inode isInode && !quotaGrants) = true)
    (hblocks : ¬wantedBlockCount s.sbi inode caller > s.sbi.userBlockCount)
    (hnodes : ¬s.sbi.totalValidNodeCount + 1 > s.sbi.totalNodeCount) :
    ∃ s', incValidNodeCount s inode caller quotaGrants isInode = (.ok (), s') ∧
      s'.sbi.totalValidNodeCount = s.sbi.totalValidNodeCount + 1 ∧
      s'.sbi.totalValidBlockCount = s.sbi.totalValidBlockCount + 1 ∧
      s'.sbi.allocValidBlockCount = s.sbi.allocValidBlockCount + 1 ∧
      ∀ ino, inode = some ino → s'.inodes ino =
        if isInode then s.inodes ino else ((s.inodes ino).reserve 1).claim 1 := by
  rw [incValidNodeCount, if_neg hquota]
  simp only [onPayer_sbi]
  rw [if_neg hblocks, if_neg hnodes]
  refine ⟨_, rfl, ?_, ?_, ?_, ?_⟩
  · simp only [onPayer_sbi]
  · simp only [onPayer_sbi]
  · simp only [onPayer_sbi]
  · rintro ino rfl
    rw [onPayer_inodes]
    cases isInode with
    | true => rfl
    | false => simp only [Bool.false_eq_true, if_false, onPayer_inodes]

theorem nodeAccounted_iff : NodeAccounted s inode caller quotaGrants isInode ↔
    NodeMeet s inode caller quotaGrants isInode := by
  by_cases hquota : (nodeQuota inode isInode && !quotaGrants) = true
  · rw [Bool.and_eq_true, Bool.not_eq_true'] at hquota
    exact iff_of_true (nodeAccounted_error (incValidNodeCount_refused hquota.1 hquota.2) rfl
      fun _ _ => ⟨rfl, rfl⟩) (.inl hquota)
  by_cases hno : wantedBlockCount s.sbi inode caller > s.sbi.userBlockCount ∨
      s.sbi.totalValidNodeCount + 1 > s.sbi.totalNodeCount
  · refine iff_of_true (nodeAccounted_error (incValidNodeCount_nospc hquota hno) ?_
      (release_reserve s inode isInode)) (.inr (hno.imp_right .inl))
    rw [onPayer_sbi, onPayer_sbi]
  obtain ⟨hblocks, hnodes⟩ := not_or.mp hno
  obtain ⟨s', hrun, hnode, htotal, halloc, hinode⟩ := incValidNodeCount_ok hquota hblocks hnodes
  have hq : ¬(nodeQuota inode isInode = true ∧ quotaGrants = false) := by
    simpa using hquota
  rw [NodeMeet, or_iff_right hq, or_iff_right hblocks, or_iff_right hnodes]
  have hword : ∀ w : UInt32, (w + 1).toNat = w.toNat + 1 ↔ w.toNat + 1 < 2 ^ 32 := by
    intro w
    have hlt := w.toNat_lt
    rw [UInt32.toNat_add, UInt32.toNat_one]
    omega
  constructor
  · intro h
    have h1 := h.total
    have h2 := h.node
    rw [hrun] at h1 h2
    simp only [htotal, hnode, nodeAdded] at h1 h2
    exact ⟨(hword _).mp h1, (hword _).mp h2⟩
  · rintro ⟨h1, h2⟩
    refine ⟨?_, ?_, ?_, ?_⟩
    · rw [hrun]
      simp only [hnode, nodeAdded]
      exact (hword _).mpr h2
    · rw [hrun]
      simp only [htotal, nodeAdded]
      exact (hword _).mpr h1
    · rw [hrun]
      exact halloc
    · intro ino hino n hn
      rw [hrun] at hn ⊢
      simp only [hinode ino hino, hn]
      cases isInode with
      | true => exact ⟨(Int.add_zero _).symm, (Int.add_zero _).symm⟩
      | false =>
        refine ⟨?_, rfl⟩
        simp only [Bool.false_eq_true, if_false, InodeBlocks.charged, InodeBlocks.claim,
          InodeBlocks.reserve, nodeAdded]
        ring

end

/-! ## Runs -/

/-- What a call should do, in the state it starts in. -/
def Accounted : SpaceState × SpaceOp → Prop
  | (s, .incBlocks ino caller quotaGrants count) => BlocksAccounted s ino caller quotaGrants count
  | (s, .incNode inode caller quotaGrants isInode) =>
    NodeAccounted s inode caller quotaGrants isInode
  | _ => True

/-- When it does. -/
def Meets : SpaceState × SpaceOp → Prop
  | (s, .incBlocks ino caller quotaGrants count) => BlocksMeet s ino caller quotaGrants count
  | (s, .incNode inode caller quotaGrants isInode) => NodeMeet s inode caller quotaGrants isInode
  | _ => True

theorem accounted_iff (c : SpaceState × SpaceOp) : Accounted c ↔ Meets c := by
  obtain ⟨s, op⟩ := c
  cases op with
  | incBlocks ino caller quotaGrants count => exact blocksAccounted_iff quotaGrants
  | incNode inode caller quotaGrants isInode => exact nodeAccounted_iff
  | decBlocks ino count => exact Iff.rfl
  | decNode ino isInode => exact Iff.rfl
  | storeReserved t => exact Iff.rfl
  | setRoot reserveRoot blocks => exact Iff.rfl

/-- In every run every call accounts for what it grants exactly if every call meets the
    condition where it starts. -/
theorem validCounts_accounted_iff (s : SpaceState) (ops : List SpaceOp) :
    (∀ c ∈ calls s ops, Accounted c) ↔ ∀ c ∈ calls s ops, Meets c :=
  forall₂_congr fun c _ => accounted_iff c

/-- Ten blocks are left of a hundred. -/
def tenLeft : SpaceState where
  sbi := {
    userBlockCount := 100
    totalValidBlockCount := 90
    allocValidBlockCount := 0
    reservedBlocks := 0
    currentReservedBlocks := 0
    rootReservedBlocks := 0
    reserveRoot := false
    totalNodeCount := 100
    totalValidNodeCount := 10 }
  inodes := fun _ => ⟨0, 0, 0⟩

def plainCaller : Caller := ⟨false, false, false, true, false⟩

/-- A request for twenty blocks is granted ten, and counted as twenty. -/
theorem tenLeft_miscounted :
    ¬∀ c ∈ calls tenLeft [.incBlocks 4 plainCaller true 20], Accounted c := by
  intro h
  have hgrown := (h _ List.mem_cons_self :
      BlocksAccounted tenLeft 4 plainCaller true 20).grown.alloc
  exact absurd hgrown (by decide)

end F2fs.Space

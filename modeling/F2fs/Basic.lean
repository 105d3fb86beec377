/-
  Constants, small enumerations and the static part of `struct f2fs_sb_info`
  shared by every module of the model.

  Block addresses, node ids and segment numbers are `Nat`.  Where the source
  computes them in `u32` and the wrap can matter the model writes `u32 (..)`
  explicitly.  `log_blocks_per_seg` is not a parameter: `sanity_check_raw_super`
  refuses every super block in which it is not 9, so `blocksPerSeg` is 512.
-/
import Mathlib

namespace F2fs

/-! ## Machine words -/

/-- Truncation to an unsigned 32-bit word (`block_t`, `nid_t`, `unsigned int`). -/
@[irreducible] def u32 (n : Nat) : Nat := n % 2 ^ 32

/-- Unsigned 32-bit subtraction. -/
def u32Sub (a b : Nat) : Nat := (a + (2 ^ 32 - b % 2 ^ 32)) % 2 ^ 32

theorem u32_lt (n : Nat) : u32 n < 2 ^ 32 := by
  unfold u32
  exact Nat.mod_lt _ (by decide)

theorem u32_of_lt {n : Nat} (h : n < 2 ^ 32) : u32 n = n := by
  unfold u32
  exact Nat.mod_eq_of_lt h

theorem u32_inj_of_lt {s i j : Nat} (hi : i < 2 ^ 32) (hj : j < 2 ^ 32)
    (h : u32 (s + i) = u32 (s + j)) : i = j := by
  unfold u32 at h
  omega

theorem u32_u32_add (a b : Nat) : u32 (u32 a + b) = u32 (a + b) := by
  unfold u32; omega

theorem u32Sub_of_le {a b : Nat} (hba : b ≤ a) (ha : a < 2 ^ 32) : u32Sub a b = a - b := by
  unfold u32Sub; omega

/-- A check that has not ended the function. -/
theorem passed_of_ite {α : Type*} {c : Prop} [Decidable c] {a b r : α}
    (h : (if c then a else b) = r) (hne : a ≠ r) : ¬ c ∧ b = r := by
  by_cases hc : c
  · exact absurd ((if_pos hc).symm.trans h) hne
  · exact ⟨hc, (if_neg hc).symm.trans h⟩

/-! ## On-disk constants (`f2fs_fs.h`) -/

def nullAddr : Nat := 0
def newAddr : Nat := 2 ^ 32 - 1

def blocksPerSeg : Nat := 512
def pageSize : Nat := 4096
def f2fsCpPacks : Nat := 2
def nrCursegDataType : Nat := 3
def nrCursegNodeType : Nat := 3
def nrCursegType : Nat := 6
def f2fsOrphansPerBlock : Nat := 1020

def summarySize : Nat := 7
def sumFooterSize : Nat := 5
def sumEntrySize : Nat := summarySize * blocksPerSeg
def sumJournalSize : Nat := pageSize - sumFooterSize - sumEntrySize

def natEntryPerBlock : Nat := 455
def natJournalEntries : Nat := 38
def sitEntryPerBlock : Nat := 55
def sitJournalEntries : Nat := 6

/-! ## Logs -/

/-- The six logs, in the order of `CURSEG_HOT_DATA .. CURSEG_COLD_NODE`. -/
inductive CursegType where
  | hotData | warmData | coldData | hotNode | warmNode | coldNode
  deriving DecidableEq, Repr

namespace CursegType

/-- The value of the enumerator. -/
def idx : CursegType → Nat
  | hotData => 0
  | warmData => 1
  | coldData => 2
  | hotNode => 3
  | warmNode => 4
  | coldNode => 5

/-- `IS_DATASEG`. -/
def isDataSeg (t : CursegType) : Bool := t.idx ≤ coldData.idx

/-- `IS_NODESEG`. -/
def isNodeSeg (t : CursegType) : Bool := hotNode.idx ≤ t.idx

def dataTypes : List CursegType := [hotData, warmData, coldData]
def nodeTypes : List CursegType := [hotNode, warmNode, coldNode]
def all : List CursegType := dataTypes ++ nodeTypes

theorem mem_all (t : CursegType) : t ∈ all := by cases t <;> decide

theorem idx_lt (t : CursegType) : t.idx < nrCursegType := by cases t <;> decide

end CursegType

/-- `curseg_info.alloc_type`. -/
inductive AllocMode where
  | LFS | SSR
  deriving DecidableEq, Repr

/-! ## Checkpoint reasons (`cp_control.reason`) -/

structure CpReason where
  umount : Bool := false
  fastboot : Bool := false
  sync : Bool := false
  recovery : Bool := false
  discard : Bool := false
  trimmed : Bool := false
  deriving DecidableEq, Repr

/-! ## Static geometry -/

/-- The fields of the super block and of `f2fs_sb_info` that never change after
    mount.  The fields ending in `_lt` and `_eq` are what `sanity_check_raw_super`
    and `mkfs` promise about them; `cp_payload` is deliberately only a `u32`, since
    nothing checks it. -/
structure SbInfo where
  cpBlkaddr : Nat
  cpPayload : Nat
  natBlkaddr : Nat
  natBlocks : Nat
  ssaBlkaddr : Nat
  cpPayload_lt : cpPayload < 2 ^ 32
  natBlocks_lt : natBlocks < 2 ^ 32

/-- The geometry `mkfs` gives a small volume. -/
def smallSbi : SbInfo where
  cpBlkaddr := 512
  cpPayload := 0
  natBlkaddr := 2560
  natBlocks := 9216
  ssaBlkaddr := 20992
  cpPayload_lt := by decide
  natBlocks_lt := by decide

end F2fs

/-
  Node footers (`struct node_footer`) and what roll-forward recovery reads of them:
  the marks in the flag word, the checkpoint version a block was written under, and
  the address of the next block of the warm-node log.
-/
import F2fs.Checkpoint.Ckpt
import F2fs.Segment.Sit

namespace F2fs.Recovery

open Checkpoint Segment

/-! ## Footers -/

def coldBitShift : Nat := 0
def fsyncBitShift : Nat := 1
def dentBitShift : Nat := 2
def offsetBitShift : Nat := 3

/-- `struct node_footer`. -/
structure NodeFooter where
  nid : Nat
  ino : Nat
  flag : Nat
  cpVer : Nat
  nextBlkaddr : Nat
  deriving DecidableEq, Repr

namespace NodeFooter

variable (page : NodeFooter)

/-- `is_node`. -/
def isNode (type : Nat) : Bool := page.flag.testBit type

/-- `is_fsync_dnode`. -/
def isFsyncDnode : Bool := page.isNode fsyncBitShift

/-- `is_dent_dnode`. -/
def isDentDnode : Bool := page.isNode dentBitShift

/-- `IS_INODE`. -/
def isInode : Bool := page.nid = page.ino

/-- `ofs_of_node`. -/
def ofsOfNode : Nat := page.flag >>> offsetBitShift

end NodeFooter

/-! ## The version a block was written under -/

/-- `__set_ckpt_flags` bits and version of the current checkpoint, with the checksum
    `cur_cp_crc` reads. -/
structure CurCp where
  ckpt : Ckpt
  crc : Nat

/-- The version with the checksum in its upper half, when the flag asks for it. -/
def CurCp.markedVer (cp : CurCp) : Nat :=
  if cp.ckpt.flags.crcRecovery then cp.ckpt.checkpointVer ||| (cp.crc <<< 32) % 2 ^ 64
  else cp.ckpt.checkpointVer

/-- `fill_node_footer_blkaddr`. -/
def fillNodeFooterBlkaddr (cp : CurCp) (page : NodeFooter) (blkaddr : Nat) : NodeFooter :=
  { page with cpVer := cp.markedVer, nextBlkaddr := blkaddr }

/-- `is_recoverable_dnode`. -/
def isRecoverableDnode (cp : CurCp) (page : NodeFooter) : Bool :=
  if cp.ckpt.flags.nocrcRecovery then
    -- the checksum half is not compared, if fsck sets it
    (cp.ckpt.checkpointVer <<< 32) % 2 ^ 64 = (page.cpVer <<< 32) % 2 ^ 64
  else cp.markedVer = page.cpVer

/-- Shifting up by half a word drops the checksum half. -/
theorem markedVer_low (cp : CurCp) :
    (cp.markedVer <<< 32) % 2 ^ 64 = (cp.ckpt.checkpointVer <<< 32) % 2 ^ 64 := by
  unfold CurCp.markedVer
  split
  case isFalse => rfl
  case isTrue =>
    apply Nat.eq_of_testBit_eq
    intro i
    simp only [Nat.testBit_mod_two_pow, Nat.testBit_shiftLeft, Nat.testBit_or]
    by_cases hi : i < 64
    · have h32 : ¬32 ≤ i - 32 := by omega
      simp [h32]
    · simp [hi]

/-- A block written under the current checkpoint is recoverable. -/
theorem isRecoverableDnode_fill (cp : CurCp) (page : NodeFooter) (blkaddr : Nat) :
    isRecoverableDnode cp (fillNodeFooterBlkaddr cp page blkaddr) = true := by
  unfold isRecoverableDnode fillNodeFooterBlkaddr
  split
  case isTrue => exact decide_eq_true (markedVer_low cp).symm
  case isFalse => exact decide_eq_true rfl

/-! ## Addresses -/

/-- `MAX_BLKADDR`. -/
def maxBlkaddr (sm : SmInfo) : Nat := sm.seg0Blkaddr + sm.segmentCount * blocksPerSeg

/-- `is_valid_blkaddr` for `META_POR`. -/
def isValidBlkaddr (sm : SmInfo) (blkaddr : Nat) : Bool :=
  !(maxBlkaddr sm ≤ blkaddr || blkaddr < sm.mainBlkaddr)

/-- `NEXT_FREE_BLKADDR`. -/
def nextFreeBlkaddr (sm : SmInfo) (curseg : CursegPos) : Nat :=
  startBlock sm curseg.segno + curseg.nextBlkoff

end F2fs.Recovery

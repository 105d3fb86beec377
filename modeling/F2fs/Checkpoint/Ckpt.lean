/-
  The checkpoint block (`struct f2fs_checkpoint`) and the small helpers of
  `f2fs.h` and `checkpoint.c` around it: the flag word, the pack addresses, and
  the part of `do_checkpoint` that fills the block in before it is written.
-/
import F2fs.Basic

namespace F2fs.Checkpoint

/-- `ckpt_flags`, one field per flag the checkpoint code reads or writes. -/
structure CkptFlags where
  umount : Bool := false
  orphanPresent : Bool := false
  compactSum : Bool := false
  error : Bool := false
  fsck : Bool := false
  fastboot : Bool := false
  crcRecovery : Bool := false
  natBits : Bool := false
  nocrcRecovery : Bool := false
  trimmed : Bool := false
  deriving DecidableEq, Repr

/-- The fields of `struct f2fs_checkpoint` that the model uses.  `cur_data_segno`
    and `cur_node_segno` (and the two `blkoff` arrays) are one function of the log. -/
structure Ckpt where
  checkpointVer : Nat := 0
  cpPackTotalBlockCount : Nat := 0
  cpPackStartSum : Nat := 0
  flags : CkptFlags := {}
  curSegno : CursegType → Nat := fun _ => 0
  curBlkoff : CursegType → Nat := fun _ => 0
  allocType : CursegType → AllocMode := fun _ => .LFS

/-- What `do_checkpoint` reads of a `curseg_info`. -/
structure CursegPos where
  segno : Nat
  nextBlkoff : Nat
  allocType : AllocMode

/-! ## Pack addresses -/

/-- Which of the two packs is current (`cur_cp_pack` is 1 or 2). -/
inductive CpPack where
  | one | two
  deriving DecidableEq, Repr

/-- `__set_cp_next_pack`. -/
def CpPack.next : CpPack → CpPack
  | one => two
  | two => one

/-- `__start_cp_addr`. -/
def startCpAddr (sbi : SbInfo) : CpPack → Nat
  | .one => u32 sbi.cpBlkaddr
  | .two => u32 (sbi.cpBlkaddr + blocksPerSeg)

/-- `__start_cp_next_addr`. -/
def startCpNextAddr (sbi : SbInfo) : CpPack → Nat
  | .one => u32 (sbi.cpBlkaddr + blocksPerSeg)
  | .two => u32 sbi.cpBlkaddr

/-- After a successful checkpoint the pack just written is the current one. -/
theorem startCpAddr_next (sbi : SbInfo) (pack : CpPack) :
    startCpAddr sbi pack.next = startCpNextAddr sbi pack := by
  cases pack <;> rfl

/-! ## Flag helpers -/

/-- `__remain_node_summaries`. -/
def remainNodeSummaries (reason : CpReason) : Bool := reason.umount || reason.fastboot

/-- `__exist_node_summaries`. -/
def existNodeSummaries (ckpt : Ckpt) : Bool := ckpt.flags.umount || ckpt.flags.fastboot

/-- `enabled_nat_bits` with a `cp_control`. -/
def enabledNatBits (flags : CkptFlags) (reason : CpReason) : Bool :=
  reason.umount && flags.natBits

/-- `nm_i->nat_bits_blocks` as `__get_nat_bitmaps` computes it when the flag is set
    at mount.  Without the flag the value is read nowhere that matters:
    `update_ckpt_flags` could only clear the flag again. -/
def natBitsBlocks (sbi : SbInfo) : Nat :=
  ((sbi.natBlocks / 8) * 2 + 8 + pageSize - 1) / pageSize

theorem natBitsBlocks_lt (sbi : SbInfo) : natBitsBlocks sbi < 2 ^ 19 := by
  have h := sbi.natBlocks_lt
  unfold natBitsBlocks pageSize
  omega

/-- `update_ckpt_flags`; `needFsck` is `SBI_NEED_FSCK`.  `disable_nat_bits` raises
    `SBI_NEED_FSCK` itself, so the fsck flag follows in the same call. -/
def updateCkptFlags (sbi : SbInfo) (needFsck : Bool) (orphanNum : Nat) (reason : CpReason)
    (ckpt : Ckpt) : Ckpt :=
  let tooBig := reason.umount &&
    decide (u32Sub blocksPerSeg (natBitsBlocks sbi) < ckpt.cpPackTotalBlockCount)
  let f := ckpt.flags
  { ckpt with
    flags :=
      { f with
        natBits := f.natBits && !tooBig
        trimmed := f.trimmed || reason.trimmed
        umount := reason.umount
        fastboot := reason.fastboot
        orphanPresent := decide (orphanNum ≠ 0)
        fsck := f.fsck || needFsck || tooBig
        crcRecovery := true
        nocrcRecovery := false } }

/-! ## Filling the block in -/

/-- `GET_ORPHAN_BLOCKS`. -/
def getOrphanBlocks (n : Nat) : Nat := (n + f2fsOrphansPerBlock - 1) / f2fsOrphansPerBlock

/-- `sum_in_page` of `npages_for_summary_flush`: entries beside both journals. -/
def sumInPage : Nat := (pageSize - 2 * sumJournalSize - sumFooterSize) / summarySize

/-- Entries in a compacted page without journals. -/
def sumInNextPage : Nat := (pageSize - sumFooterSize) / summarySize

/-- The entries a data log contributes: an SSR segment counts whole. -/
def sumCount (mode : AllocMode) (blkoff : Nat) : Nat :=
  match mode with
  | .SSR => blocksPerSeg
  | .LFS => blkoff

/-- `valid_sum_count` of `npages_for_summary_flush`. -/
def validSumCount (ckpt : Ckpt) (blkoff : CursegType → Nat) : Nat :=
  (CursegType.dataTypes.map fun t => sumCount (ckpt.allocType t) (blkoff t)).sum

/-- `npages_for_summary_flush`; `blkoff` is `curseg_blkoff` for the writer and
    `cur_data_blkoff` for read-ahead. -/
def npagesForSummaryFlush (ckpt : Ckpt) (blkoff : CursegType → Nat) : Nat :=
  if validSumCount ckpt blkoff ≤ sumInPage then 1
  else if validSumCount ckpt blkoff - sumInPage ≤ sumInNextPage then 2
  else 3

theorem npagesForSummaryFlush_le (ckpt : Ckpt) (blkoff : CursegType → Nat) :
    npagesForSummaryFlush ckpt blkoff ≤ nrCursegDataType := by
  unfold npagesForSummaryFlush nrCursegDataType
  split
  · decide
  · split <;> decide

/-- Record the six logs in the checkpoint block. -/
def setCursegPos (logs : CursegType → CursegPos) (ckpt : Ckpt) : Ckpt :=
  { ckpt with
    curSegno := fun t => (logs t).segno
    curBlkoff := fun t => (logs t).nextBlkoff
    allocType := fun t => (logs t).allocType }

/-- The block counts `do_checkpoint` stores, and the compact-summary flag. -/
def setPackCounts (sbi : SbInfo) (logs : CursegType → CursegPos) (orphanNum : Nat)
    (reason : CpReason) (ckpt : Ckpt) : Ckpt :=
  let dataSumBlocks := npagesForSummaryFlush ckpt fun t => (logs t).nextBlkoff
  let orphanBlocks := getOrphanBlocks orphanNum
  let nodeSumBlocks := if remainNodeSummaries reason then nrCursegNodeType else 0
  { ckpt with
    flags := { ckpt.flags with compactSum := decide (dataSumBlocks < nrCursegDataType) }
    cpPackStartSum := u32 (1 + sbi.cpPayload + orphanBlocks)
    cpPackTotalBlockCount :=
      u32 (f2fsCpPacks + sbi.cpPayload + dataSumBlocks + orphanBlocks + nodeSumBlocks) }

/-- The checkpoint block as `do_checkpoint` writes it: logs, counts, flags. -/
def fillCkpt (sbi : SbInfo) (needFsck : Bool) (logs : CursegType → CursegPos)
    (orphanNum : Nat) (reason : CpReason) (ckpt : Ckpt) : Ckpt :=
  updateCkptFlags sbi needFsck orphanNum reason
    (setPackCounts sbi logs orphanNum reason (setCursegPos logs ckpt))

end F2fs.Checkpoint

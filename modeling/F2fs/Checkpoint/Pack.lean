/-
  The blocks `do_checkpoint` writes for one checkpoint pack, in the order and at
  the addresses the source computes, and the addresses its readers compute.

  A block carries a label instead of its bytes: which of the pack's pages it is
  and, for orphan and compacted-summary pages, what the writer put into it.
  Addresses are `block_t`, i.e. modulo `2 ^ 32`.
-/
import F2fs.Checkpoint.Ckpt
import F2fs.Lib.Placement

namespace F2fs.Checkpoint

open Placement

/-- `struct f2fs_orphan_block`. -/
structure OrphanBlock where
  ino : List Nat
  blkAddr : Nat
  blkCount : Nat
  entryCount : Nat
  deriving DecidableEq, Repr

/-- The pages of a checkpoint pack. -/
inductive PackBlock where
  | head
  | payload (i : Nat)
  | orphan (blk : OrphanBlock)
  | compactSum (entries : List (CursegType × Nat))
  | curSum (type : CursegType)
  | tail
  | natBits (i : Nat)
  deriving DecidableEq, Repr

/-- An orphan page. -/
def PackBlock.IsOrphan : PackBlock → Prop
  | .orphan _ => True
  | _ => False

instance : DecidablePred PackBlock.IsOrphan := fun b =>
  match b with
  | .orphan _ => isTrue trivial
  | .head | .payload _ | .compactSum _ | .curSum _ | .tail | .natBits _ => isFalse id

/-- A data-summary page, compacted or normal. -/
def PackBlock.IsDataSum : PackBlock → Prop
  | .compactSum _ => True
  | .curSum t => t.isDataSeg = true
  | _ => False

instance : DecidablePred PackBlock.IsDataSum := fun b =>
  match b with
  | .compactSum _ => isTrue trivial
  | .curSum t => inferInstanceAs (Decidable (t.isDataSeg = true))
  | .head | .payload _ | .orphan _ | .tail | .natBits _ => isFalse id

/-! ## Writers -/

/-- A signed 32-bit `int`. -/
def i32 (n : Int) : Int := (n + 2 ^ 31) % 2 ^ 32 - 2 ^ 31

/-- Iterations of `for (i = 1; i < 1 + cp_payload_blks; i++)`, all in `int`. -/
def payloadBlks (cpPayload : Nat) : Nat := (i32 (1 + i32 cpPayload) - 1).toNat

/-- The payload pages, from `startBlk`. -/
def writePayload (cpPayload startBlk : Nat) : List (Nat × PackBlock) :=
  (List.range (payloadBlks cpPayload)).map fun i => (u32 (startBlk + i), .payload (i + 1))

/-- The local variables of `write_orphan_inodes`: the next block to grab, the page
    being filled (its address and entries), the page index, and what was written. -/
structure OrphanWriter where
  startBlk : Nat
  page : Option (Nat × List Nat)
  index : Nat
  out : List (Nat × PackBlock)

/-- The orphan page as it is put: `nentries` inos and the three counters. -/
def OrphanWriter.block (w : OrphanWriter) (orphanBlocks : Nat) (inos : List Nat) : PackBlock :=
  .orphan { ino := inos, blkAddr := w.index, blkCount := orphanBlocks,
            entryCount := inos.length }

/-- One iteration of the loop over `im->ino_list`. -/
def orphanStep (orphanBlocks : Nat) (w : OrphanWriter) (ino : Nat) : OrphanWriter :=
  let w' : OrphanWriter := match w.page with
    | none => { w with page := some (w.startBlk, []), startBlk := u32 (w.startBlk + 1) }
    | some _ => w
  match w'.page with
  | none => w'
  | some (addr, inos) =>
    let inos' := inos ++ [ino]
    if inos'.length = f2fsOrphansPerBlock then
      { w' with
        page := none
        index := (w'.index + 1) % 2 ^ 16
        out := w'.out ++ [(addr, w'.block orphanBlocks inos')] }
    else { w' with page := some (addr, inos') }

/-- After the loop: put the page that is still open. -/
def OrphanWriter.finish (orphanBlocks : Nat) (w : OrphanWriter) : List (Nat × PackBlock) :=
  match w.page with
  | none => w.out
  | some (addr, inos) => w.out ++ [(addr, w.block orphanBlocks inos)]

/-- `write_orphan_inodes`. -/
def writeOrphanInodes (startBlk : Nat) (orphans : List Nat) : List (Nat × PackBlock) :=
  let orphanBlocks := getOrphanBlocks orphans.length % 2 ^ 16
  (orphans.foldl (orphanStep orphanBlocks)
    { startBlk := u32 startBlk, page := none, index := 1, out := [] }).finish orphanBlocks

/-- The local variables of `write_compacted_summaries`. -/
structure CompactWriter where
  blkaddr : Nat
  page : Option (Nat × List (CursegType × Nat))
  writtenSize : Nat
  out : List (Nat × PackBlock)

/-- One iteration of its inner loop: copy summary entry `e = (i, j)`. -/
def compactStep (w : CompactWriter) (e : CursegType × Nat) : CompactWriter :=
  let w' : CompactWriter := match w.page with
    | none => { w with page := some (w.blkaddr, []), blkaddr := u32 (w.blkaddr + 1),
                       writtenSize := 0 }
    | some _ => w
  match w'.page with
  | none => w'
  | some (addr, entries) =>
    let written := w'.writtenSize + summarySize
    if written + summarySize ≤ pageSize - sumFooterSize then
      { w' with page := some (addr, entries ++ [e]), writtenSize := written }
    else
      { w' with page := none, writtenSize := written,
                out := w'.out ++ [(addr, .compactSum (entries ++ [e]))] }

/-- The entries `write_compacted_summaries` copies, in its loop order. -/
def compactEntries (ckpt : Ckpt) (blkoff : CursegType → Nat) : List (CursegType × Nat) :=
  CursegType.dataTypes.flatMap fun t =>
    (List.range (sumCount (ckpt.allocType t) (blkoff t))).map fun j => (t, j)

/-- After the loops: put the page that is still open. -/
def CompactWriter.finish (w : CompactWriter) : List (Nat × PackBlock) :=
  match w.page with
  | none => w.out
  | some (addr, entries) => w.out ++ [(addr, .compactSum entries)]

/-- `write_compacted_summaries`: the first page starts with both journals. -/
def writeCompactedSummaries (ckpt : Ckpt) (blkoff : CursegType → Nat) (blkaddr : Nat) :
    List (Nat × PackBlock) :=
  ((compactEntries ckpt blkoff).foldl compactStep
    { blkaddr := u32 (blkaddr + 1), page := some (u32 blkaddr, []),
      writtenSize := 2 * sumJournalSize, out := [] }).finish

/-- `write_normal_summaries` for the logs `types` (three consecutive ones). -/
def writeNormalSummaries (types : List CursegType) (blkaddr : Nat) : List (Nat × PackBlock) :=
  types.mapIdx fun i t => (u32 (blkaddr + i), .curSum t)

/-- `write_data_summaries`. -/
def writeDataSummaries (ckpt : Ckpt) (blkoff : CursegType → Nat) (startBlk : Nat) :
    List (Nat × PackBlock) :=
  if ckpt.flags.compactSum then writeCompactedSummaries ckpt blkoff startBlk
  else writeNormalSummaries CursegType.dataTypes startBlk

/-- `write_node_summaries`. -/
def writeNodeSummaries (startBlk : Nat) : List (Nat × PackBlock) :=
  writeNormalSummaries CursegType.nodeTypes startBlk

/-- What one call of `do_checkpoint` takes from the state. -/
structure CpInput where
  ckpt : Ckpt
  logs : CursegType → CursegPos
  orphans : List Nat
  reason : CpReason
  needFsck : Bool

/-- `curseg_blkoff`. -/
def CpInput.blkoff (c : CpInput) : CursegType → Nat := fun t => (c.logs t).nextBlkoff

/-- The checkpoint block of this call. -/
def CpInput.filled (sbi : SbInfo) (c : CpInput) : Ckpt :=
  fillCkpt sbi c.needFsck c.logs c.orphans.length c.reason c.ckpt

/-- The pack `do_checkpoint` writes after the device cache flush, from `startBlk`.
    `start_blk` is advanced after each region by the count the source adds, not by
    the number of blocks the region's writer happened to write. -/
def packWrites (sbi : SbInfo) (c : CpInput) (startBlk : Nat) : List (Nat × PackBlock) :=
  let ckpt := c.filled sbi
  let orphanBlocks := if c.orphans = [] then 0 else getOrphanBlocks c.orphans.length
  let dataSumBlocks := npagesForSummaryFlush ckpt c.blkoff
  let payloadStart := startBlk + 1
  let orphanStart := payloadStart + payloadBlks sbi.cpPayload
  let dataStart := orphanStart + orphanBlocks
  let nodeStart := dataStart + dataSumBlocks
  (u32 startBlk, .head) :: writePayload sbi.cpPayload payloadStart ++
    (if c.orphans = [] then [] else writeOrphanInodes orphanStart c.orphans) ++
    writeDataSummaries ckpt c.blkoff dataStart ++
    (if remainNodeSummaries c.reason then
      writeNodeSummaries nodeStart ++ [(u32 (nodeStart + nrCursegNodeType), .tail)]
    else [(u32 nodeStart, .tail)])

/-- `sbi->max_orphans`, the bound `acquire_orphan_inode` enforces on `ino_num`. -/
def maxOrphans (sbi : SbInfo) : Nat :=
  u32 (u32Sub (blocksPerSeg - f2fsCpPacks - nrCursegType) sbi.cpPayload * f2fsOrphansPerBlock)

/-- The NAT-bits blocks `do_checkpoint` writes before it, at the end of the segment. -/
def natBitsWrites (sbi : SbInfo) (c : CpInput) (startBlk : Nat) : List (Nat × PackBlock) :=
  if enabledNatBits (c.filled sbi).flags c.reason then
    let blk := u32Sub (startBlk + blocksPerSeg) (natBitsBlocks sbi)
    (List.range (natBitsBlocks sbi)).map fun i => (u32 (blk + i), .natBits i)
  else []

/-! ## Readers -/

/-- The address `validate_checkpoint` reads the tail from. -/
def tailAddr (startBlk : Nat) (ckpt : Ckpt) : Nat :=
  u32 (startBlk + u32Sub ckpt.cpPackTotalBlockCount 1)

/-- The addresses `recover_orphan_inodes` reads. -/
def orphanReads (sbi : SbInfo) (startBlk : Nat) (ckpt : Ckpt) : List Nat :=
  if ckpt.flags.orphanPresent then
    let orphanBlocks := u32Sub (u32Sub ckpt.cpPackStartSum 1) sbi.cpPayload
    (List.range orphanBlocks).map fun i => u32 (u32 (startBlk + 1 + sbi.cpPayload) + i)
  else []

/-- `start_sum_block`. -/
def startSumBlock (startBlk : Nat) (ckpt : Ckpt) : Nat := u32 (startBlk + ckpt.cpPackStartSum)

/-- `sum_blk_addr`. -/
def sumBlkAddr (startBlk : Nat) (ckpt : Ckpt) (base type : Nat) : Nat :=
  u32 (u32Sub (startBlk + ckpt.cpPackTotalBlockCount) (base + 1) + type)

/-- `GET_SUM_BLOCK`. -/
def getSumBlock (sbi : SbInfo) (segno : Nat) : Nat := u32 (sbi.ssaBlkaddr + segno)

/-- The block `read_normal_summaries` reads for a log. -/
def normalSumAddr (sbi : SbInfo) (startBlk : Nat) (ckpt : Ckpt) (type : CursegType) : Nat :=
  if type.isDataSeg then
    if existNodeSummaries ckpt then sumBlkAddr startBlk ckpt nrCursegType type.idx
    else sumBlkAddr startBlk ckpt nrCursegDataType type.idx
  else
    if existNodeSummaries ckpt then
      sumBlkAddr startBlk ckpt nrCursegNodeType (type.idx - CursegType.hotNode.idx)
    else getSumBlock sbi (ckpt.curSegno type)

/-- The logs `restore_curseg_summaries` restores with `read_normal_summaries`. -/
def normalTypes (ckpt : Ckpt) : List CursegType :=
  if ckpt.flags.compactSum then CursegType.nodeTypes else CursegType.all

/-- Whether `read_normal_summaries` looks for the log's summary in the pack (a node
    summary that the pack does not hold is rebuilt from the segment's node blocks). -/
def sumInPack (ckpt : Ckpt) (type : CursegType) : Bool :=
  type.isDataSeg || existNodeSummaries ckpt

end F2fs.Checkpoint

/-
  Finding free nids: the scan of NAT blocks, of the journal and of the free-nid
  bitmaps, and the three ends of a nid's life between `alloc_nid` and the inode.

  `build_free_nids` runs under `build_lock`, and `alloc_nid` hands nothing out while
  that lock is held.  The functions below are the sequential ones; what an interleaving
  can do to them is the subject of the modules that need it.
-/
import F2fs.Node.NatFlush

namespace F2fs.Node

/-- `FREE_NID_PAGES`. -/
def freeNidPages : Nat := 8

/-- `MAX_FREE_NIDS`. -/
def maxFreeNids : Nat := natEntryPerBlock * freeNidPages

/-- `nm_i->max_nid`. -/
def maxNid (sbi : SbInfo) : Nat := natEntryPerBlock * sbi.natBlocks

namespace FreeNidInfo

/-! ## Scans -/

/-- `__set_bit_le(nat_ofs, nm_i->nat_block_bitmap)`. -/
def markBlock (f : FreeNidInfo) (natOfs : Nat) : FreeNidInfo :=
  { f with natBlockBitmap := Function.update f.natBlockBitmap natOfs true }

/-- What one iteration of `scan_nat_page` does with a nid whose entry has address `addr`. -/
def scanNid (ne : Option NatEntry) (addr : Nat) (f : FreeNidInfo) (nid : Nat) : FreeNidInfo :=
  if addr = nullAddr then (f.addFreeNid ne nid true true).2
  else f.updateFreeNidBitmap nid false true

/-- One iteration of `scan_nat_page`. -/
def scanNatEntry (cache : NatCache) (blk : NatBlock) (f : FreeNidInfo) (nid : Nat) :
    FreeNidInfo :=
  f.scanNid (cache.natRoot.lookup nid) (blk (nid % natEntryPerBlock)).blockAddr nid

/-- The nids `scan_nat_page` visits: to the end of the block, below `max_nid`. -/
def scanNids (sbi : SbInfo) (startNid : Nat) : List Nat :=
  (List.range' startNid (natEntryPerBlock - startNid % natEntryPerBlock)).takeWhile
    fun nid => decide (nid < maxNid sbi)

/-- `scan_nat_page`. -/
def scanNatPage (sbi : SbInfo) (cache : NatCache) (blk : NatBlock) (startNid : Nat)
    (f : FreeNidInfo) : FreeNidInfo :=
  (scanNids sbi startNid).foldl (scanNatEntry cache blk) (f.markBlock (natBlockOffset startNid))

/-- One iteration of `scan_curseg_cache`. -/
def scanCursegEntry (cache : NatCache) (journal : JournalArray RawNat) (f : FreeNidInfo)
    (i : Nat) : FreeNidInfo :=
  let (nid, raw) := journal.slot i
  if raw.blockAddr = nullAddr then (f.addFreeNid (cache.natRoot.lookup nid) nid true false).2
  else f.removeFreeNid nid

/-- `scan_curseg_cache`. -/
def scanCursegCache (cache : NatCache) (journal : JournalArray RawNat) (f : FreeNidInfo) :
    FreeNidInfo :=
  (List.range journal.n).foldl (scanCursegEntry cache journal) f

/-- The nids `scan_free_nid_bits` meets: the set bits of the marked blocks whose count is
    not zero, in order.  Nothing it does changes a bit, a mark or a count. -/
def freeNidBits (f : FreeNidInfo) (natBlocks : Nat) : List Nat :=
  ((List.range natBlocks).filter fun i => f.natBlockBitmap i && f.freeNidCount i != 0).flatMap
    fun i => ((List.range natEntryPerBlock).filter (f.freeNidBitmap i)).map
      fun idx => i * natEntryPerBlock + idx

/-- The loop of `scan_free_nid_bits`, which stops at `MAX_FREE_NIDS`. -/
def addFreeNidBits (cache : NatCache) : List Nat → FreeNidInfo → FreeNidInfo
  | [], f => f
  | nid :: nids, f =>
    let f' := (f.addFreeNid (cache.natRoot.lookup nid) nid true false).2
    if maxFreeNids ≤ f'.nidCnt .freeNid then f' else addFreeNidBits cache nids f'

/-- `scan_free_nid_bits`. -/
def scanFreeNidBits (sbi : SbInfo) (cache : NatCache) (journal : JournalArray RawNat)
    (f : FreeNidInfo) : FreeNidInfo :=
  scanCursegCache cache journal (addFreeNidBits cache (f.freeNidBits sbi.natBlocks) f)

/-! ## The life of a nid -/

/-- `alloc_nid_done`. -/
def allocNidDone (f : FreeNidInfo) (nid : Nat) : FreeNidInfo :=
  match f.freeNidRoot.lookup nid with
  | none => f
  | some _ => f.removeFreeNidEntry nid .preallocNid

/-- `alloc_nid_failed`; `mem` is `available_free_memory(sbi, FREE_NIDS)`. -/
def allocNidFailed (f : FreeNidInfo) (nid : Nat) (mem : Bool) : FreeNidInfo :=
  if nid = 0 then f
  else
    match f.freeNidRoot.lookup nid with
    | none => f
    | some _ =>
      let f₁ := if mem then f.moveFreeNid nid .preallocNid .freeNid
        else f.removeFreeNidEntry nid .preallocNid
      { f₁ with availableNids := u32 (f₁.availableNids + 1) }.updateFreeNidBitmap nid true false

/-- The loop of `try_to_free_nids`. -/
def shrinkFreeNids : Nat → FreeNidInfo → FreeNidInfo
  | 0, f => f
  | nrShrink + 1, f =>
    match f.freeNidList with
    | [] => f
    | nid :: _ =>
      if f.nidCnt .freeNid ≤ maxFreeNids then f
      else shrinkFreeNids nrShrink (f.removeFreeNidEntry nid .freeNid)

/-- `try_to_free_nids`, when it gets `build_lock`. -/
def tryToFreeNids (f : FreeNidInfo) (nrShrink : Nat) : FreeNidInfo :=
  if f.nidCnt .freeNid ≤ maxFreeNids then f else shrinkFreeNids nrShrink f

/-- The locked section of `alloc_nid` that takes the head of the list. -/
def takeFreeNid (f : FreeNidInfo) (nid : Nat) : FreeNidInfo :=
  let f₁ := f.moveFreeNid nid .freeNid .preallocNid
  { f₁ with availableNids := u32Sub f₁.availableNids 1 }.updateFreeNidBitmap nid false false

end FreeNidInfo

/-! ## Building -/

/-- The node manager: what `flush_nat_entries` works on, and where the next scan of NAT
    blocks starts. -/
structure NodeManager where
  nat : NatState
  nextScanNid : Nat

/-- The current copy of a NAT block. -/
def currentBlock (sbi : SbInfo) (s : NatState) (natOfs : Nat) : NatBlock :=
  s.pages (natAddr sbi natOfs (s.natBitmap natOfs))

/-- The nid `__build_free_nids` goes on with: the first of the next block. -/
def nextBlockNid (sbi : SbInfo) (nid : Nat) : Nat :=
  let next := nid + (natEntryPerBlock - nid % natEntryPerBlock)
  if maxNid sbi ≤ next then 0 else next

/-- One iteration of the loop of `__build_free_nids`: a marked block is skipped. -/
def scanRound (sbi : SbInfo) (s : NatState) (b : FreeNidInfo × Nat) : FreeNidInfo × Nat :=
  let (f, nid) := b
  let natOfs := natBlockOffset nid
  (if f.natBlockBitmap natOfs then f
    else f.scanNatPage sbi s.cache (currentBlock sbi s natOfs) nid, nextBlockNid sbi nid)

/-- `build_free_nids`; `mem` is `available_free_memory(sbi, FREE_NIDS)`. -/
def buildFreeNids (sbi : SbInfo) (sync mount mem : Bool) (m : NodeManager) : NodeManager :=
  let s := m.nat
  let nid := if maxNid sbi ≤ m.nextScanNid then 0 else m.nextScanNid
  if natEntryPerBlock ≤ s.free.nidCnt .freeNid then m
  else if !sync && !mem then m
  else
    let f := if mount then s.free else s.free.scanFreeNidBits sbi s.cache s.journal
    if !mount && decide (natEntryPerBlock ≤ f.nidCnt .freeNid) then
      { m with nat := { s with free := f } }
    else
      let b := (scanRound sbi s)^[freeNidPages] (f, nid)
      { nat := { s with free := b.1.scanCursegCache s.cache s.journal }, nextScanNid := b.2 }

/-- `alloc_nid`: the nid, or `none` when `available_nids` is zero.  The loop has no bound
    of its own; the outer `none` says that it is still running after `fuel` rounds. -/
def allocNid (sbi : SbInfo) : Nat → NodeManager → Option (Option Nat × NodeManager)
  | 0, _ => none
  | fuel + 1, m =>
    let f := m.nat.free
    if f.availableNids = 0 then some (none, m)
    else if f.nidCnt .freeNid ≠ 0 then
      f.freeNidList.head?.map fun nid =>
        (some nid, { m with nat := { m.nat with free := f.takeFreeNid nid } })
    else allocNid sbi fuel (buildFreeNids sbi true false true m)

/-! ## Mount -/

/-- The range of nids of a NAT block. -/
def blockNids (natOfs : Nat) : List Nat :=
  List.range' (natOfs * natEntryPerBlock) natEntryPerBlock

/-- `load_free_nid_bitmap` for a block without an allocated entry. -/
def loadEmptyBlock (f : FreeNidInfo) (natOfs : Nat) : FreeNidInfo :=
  (blockNids natOfs).foldl (fun f nid => f.updateFreeNidBitmap nid true true)
    (f.markBlock natOfs)

/-- `load_free_nid_bitmap`. -/
def loadFreeNidBitmap (sbi : SbInfo) (s : NatState) : FreeNidInfo :=
  if !s.natBitsFlag then s.free
  else
    let f := ((List.range sbi.natBlocks).filter s.emptyNatBits).foldl loadEmptyBlock s.free
    ((List.range sbi.natBlocks).filter s.fullNatBits).foldl FreeNidInfo.markBlock f

end F2fs.Node

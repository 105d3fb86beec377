/-
  The current segments of the six logs (`struct curseg_info`), the lists of dirty segments
  and the functions that move a log from one segment to another.

  `get_victim` and `need_SSR` are arguments of the allocation: which segment an SSR
  allocation reuses, and when, is left to any policy.  The journal in a summary block, the
  page list of a write and `f2fs_wait_discard_bio` are left out: nothing here reads them.
-/
import F2fs.Segment.NewSegment
import F2fs.Segment.SitCounters

namespace F2fs.Segment

/-! ## Summary blocks -/

/-- `struct f2fs_summary`. -/
structure SumEntry where
  nid : Nat
  version : Nat
  ofsInNode : Nat
  deriving DecidableEq

/-- `SUM_TYPE_DATA`, `SUM_TYPE_NODE`. -/
inductive SumType where
  | data | node
  deriving DecidableEq

/-- `struct f2fs_summary_block`. -/
structure SumBlock where
  entries : Nat → SumEntry
  entryType : SumType

/-! ## The state -/

/-- `struct curseg_info`. -/
structure Curseg where
  sumBlk : SumBlock
  allocType : AllocMode
  segno : Nat
  nextBlkoff : Nat
  zone : Nat
  nextSegno : Nat

/-- `struct dirty_seglist_info`.  The lists are indexed by `enum dirty_type`, whose first six
    values are those of the logs. -/
structure DirtySeglist where
  dirtySegmap : Nat → Finset Nat
  nrDirty : Nat → Int
  victimSecmap : Finset Nat

/-- `DIRTY`. -/
def dirtyAll : Nat := 6

/-- `PRE`. -/
def dirtyPre : Nat := 7

/-- The part of `struct f2fs_sm_info` the logs use.  `ssa` holds the summary blocks by
    segment (`GET_SUM_BLOCK`), `lastVictim` is `last_victim[ALLOC_NEXT]`. -/
structure SegManager where
  curseg : CursegType → Curseg
  sit : SitInfo
  ssa : Nat → SumBlock
  free : FreeSegmapInfo
  dirty : DirtySeglist
  lastVictim : Nat

/-! ## Dirty segments -/

namespace DirtySeglist

variable (d : DirtySeglist) (segno : Nat) (t : Nat)

/-- `test_and_set_bit`, and the count if the bit was clear. -/
def testAndSet : DirtySeglist :=
  if segno ∈ d.dirtySegmap t then d
  else
    { d with
      dirtySegmap := Function.update d.dirtySegmap t (insert segno (d.dirtySegmap t))
      nrDirty := Function.update d.nrDirty t (d.nrDirty t + 1) }

/-- `test_and_clear_bit`, and the count if the bit was set. -/
def testAndClear : DirtySeglist :=
  if segno ∈ d.dirtySegmap t then
    { d with
      dirtySegmap := Function.update d.dirtySegmap t ((d.dirtySegmap t).erase segno)
      nrDirty := Function.update d.nrDirty t (d.nrDirty t - 1) }
  else d

end DirtySeglist

namespace SegManager

variable (sm : SmInfo) (s : SegManager)

/-- `IS_CURSEG`. -/
def isCurseg (segno : Nat) : Bool :=
  CursegType.all.any fun type => decide (segno = (s.curseg type).segno)

/-- `__f2fs_get_curseg`; `none` is `NO_CHECK_TYPE`. -/
def getCurseg (segno : Nat) : Option CursegType :=
  CursegType.all.find? fun type => decide ((s.curseg type).segno = segno)

/-- `__locate_dirty_segment`. -/
def locateDirty (segno t : Nat) : SegManager :=
  if s.isCurseg segno then s
  else
    let d := s.dirty.testAndSet segno t
    let type := (s.sit.sentries segno).type.val
    { s with dirty := if t = dirtyAll ∧ type < dirtyAll then d.testAndSet segno type else d }

/-- `__remove_dirty_segment`. -/
def removeDirty (segno t : Nat) : SegManager :=
  let d := s.dirty.testAndClear segno t
  if t = dirtyAll then
    let d := d.testAndClear segno (s.sit.sentries segno).type.val
    { s with
      dirty :=
        if getValidBlocks sm s.sit segno true = 0 then
          { d with victimSecmap := d.victimSecmap.erase (getSec sm segno) }
        else d }
  else { s with dirty := d }

/-- `locate_dirty_segment`. -/
def locateDirtySegment (segno : Nat) : SegManager :=
  if segno = nullSegno ∨ s.isCurseg segno then s
  else
    let validBlocks := getValidBlocks sm s.sit segno false
    if validBlocks = 0 then (s.locateDirty segno dirtyPre).removeDirty sm segno dirtyAll
    else if validBlocks < blocksPerSeg then s.locateDirty segno dirtyAll
    -- Recovery routine with SSR needs this
    else s.removeDirty sm segno dirtyAll

/-! ## Moving a log -/

def setCurseg (type : CursegType) (c : Curseg) : SegManager :=
  { s with curseg := Function.update s.curseg type c }

/-- `write_sum_page` to the summary block of a segment. -/
def writeSumPage (sumBlk : SumBlock) (segno : Nat) : SegManager :=
  { s with ssa := Function.update s.ssa segno sumBlk }

/-- `GET_ZONE_FROM_SEG`. -/
def zoneFromSeg (segno : Nat) : Nat := getSec sm segno / sm.secsPerZone

/-- `reset_curseg`. -/
def resetCurseg (type : CursegType) (modified : Bool) : SegManager :=
  let c := s.curseg type
  { s.setCurseg type
      { c with
        segno := c.nextSegno
        zone := zoneFromSeg sm c.nextSegno
        nextBlkoff := 0
        nextSegno := nullSegno
        sumBlk :=
          { c.sumBlk with entryType :=
            if type.isNodeSeg then SumType.node else SumType.data } } with
    sit := s.sit.setSitEntryType type c.nextSegno modified }

/-- `__next_free_blkoff`: the first block that is free now and in the last checkpoint. -/
def nextFreeBlkoff (segno start : Nat) : Nat :=
  let se := s.sit.sentries segno
  BitScan.next
    (fun i => decide (Fin.ofNat blocksPerSeg i ∉ se.ckptValidMap ∪ se.curValidMap))
    blocksPerSeg start

/-- `change_curseg`: the log goes on in the used segment `next_segno`. -/
def changeCurseg (type : CursegType) : SegManager :=
  let c := s.curseg type
  let newSegno := c.nextSegno
  let s := s.writeSumPage c.sumBlk c.segno
  let s := { s with free := s.free.setTestAndInuse sm newSegno }
  let s := (s.removeDirty sm newSegno dirtyPre).removeDirty sm newSegno dirtyAll
  let s := s.resetCurseg sm type true
  let c := s.curseg type
  s.setCurseg type
    { c with
      allocType := AllocMode.SSR
      nextBlkoff := s.nextFreeBlkoff c.segno 0
      sumBlk := { c.sumBlk with entries := (s.ssa newSegno).entries } }

/-- `__get_next_segno`. -/
def getNextSegno (type : CursegType) : Nat :=
  if sm.segsPerSec ≠ 1 then (s.curseg type).segno
  else if type = CursegType.hotData ∨ type.isNodeSeg then 0
  else if s.lastVictim ≠ 0 then s.lastVictim
  else (s.curseg type).segno

/-- `new_curseg`; `none` as in `get_new_segment`. -/
def newCurseg (type : CursegType) (newSec : Bool) : Option SegManager :=
  let c := s.curseg type
  let s := s.writeSumPage c.sumBlk c.segno
  let dir :=
    if type = CursegType.warmData ∨ type = CursegType.coldData ∨ sm.noheapOpt then AllocDir.right
    else AllocDir.left
  (getNewSegment sm s.free (fun i => (s.curseg i).zone) (s.getNextSegno sm type) newSec dir).map
    fun (segno, free) =>
      let s := { s with free := free }.setCurseg type { s.curseg type with nextSegno := segno }
      let s := s.resetCurseg sm type true
      s.setCurseg type { s.curseg type with allocType := AllocMode.LFS }

/-! ## Allocation -/

/-- The types `get_ssr_segment` asks `get_victim` for after `type` itself. -/
def ssrTypes (type : CursegType) : List CursegType :=
  let types := if type.isNodeSeg then CursegType.nodeTypes else CursegType.dataTypes
  let reversed :=
    if type.isNodeSeg then decide (CursegType.warmNode.idx ≤ type.idx)
    else decide (CursegType.warmData.idx ≤ type.idx)
  (if reversed then types.reverse else types).filter fun i => i ≠ type

/-- What an allocation asks its surroundings: `need_SSR`, `CP_CRC_RECOVERY_FLAG`, and the
    victim of `get_victim` for a type. -/
structure AllocPolicy where
  needSSR : Bool
  crcRecovery : Bool
  getVictim : CursegType → Option Nat

/-- `get_ssr_segment`. -/
def getSsrSegment (p : AllocPolicy) (type : CursegType) : Option Nat :=
  (type :: ssrTypes type).findSome? p.getVictim

/-- `is_next_segment_free`. -/
def isNextSegmentFree (type : CursegType) : Bool :=
  let segno := (s.curseg type).segno + 1
  decide (segno < sm.mainSegments ∧ segno % sm.segsPerSec ≠ 0 ∧ segno ∉ s.free.freeSegmap)

/-- `allocate_segment_by_default`. -/
def allocateSegmentByDefault (p : AllocPolicy) (type : CursegType) (force : Bool) :
    Option SegManager :=
  if force then s.newCurseg sm type true
  else if !p.crcRecovery && decide (type = CursegType.warmNode) then s.newCurseg sm type false
  else if (s.curseg type).allocType = AllocMode.LFS ∧ s.isNextSegmentFree sm type then
    s.newCurseg sm type false
  else if p.needSSR then
    match getSsrSegment p type with
    | some segno =>
      some ((s.setCurseg type { s.curseg type with nextSegno := segno }).changeCurseg sm type)
    | none => s.newCurseg sm type false
  else s.newCurseg sm type false

/-- `NEXT_FREE_BLKADDR`. -/
def nextFreeBlkaddr (type : CursegType) : Nat :=
  startBlock sm (s.curseg type).segno + (s.curseg type).nextBlkoff

/-- `__add_sum_entry`. -/
def addSumEntry (type : CursegType) (sum : SumEntry) : SegManager :=
  let c := s.curseg type
  s.setCurseg type
    { c with
      sumBlk :=
        { c.sumBlk with entries := Function.update c.sumBlk.entries c.nextBlkoff sum } }

/-- `__refresh_next_blkoff`. -/
def refreshNextBlkoff (type : CursegType) : SegManager :=
  let c := s.curseg type
  s.setCurseg type
    { c with
      nextBlkoff :=
        match c.allocType with
        | AllocMode.SSR => s.nextFreeBlkoff c.segno (c.nextBlkoff + 1)
        | AllocMode.LFS => c.nextBlkoff + 1 }

/-- `update_sit_entry`. -/
def updateSitEntry (now blkaddr : Nat) (set : Bool) : SegManager :=
  { s with sit := s.sit.updateSitEntry sm now blkaddr set }

/-- `allocate_data_block`: the new address and the state.  A log without space left asks for
    a new segment. -/
def allocateDataBlock (p : AllocPolicy) (now oldBlkaddr : Nat) (sum : SumEntry)
    (type : CursegType) : Option (Nat × SegManager) :=
  let newBlkaddr := s.nextFreeBlkaddr sm type
  let s := (s.addSumEntry type sum).refreshNextBlkoff type
  let s := s.updateSitEntry sm now newBlkaddr true
  let s := if getSegno sm oldBlkaddr ≠ nullSegno then s.updateSitEntry sm now oldBlkaddr
      false else s
  let full := decide (blocksPerSeg ≤ (s.curseg type).nextBlkoff)
  (if full then s.allocateSegmentByDefault sm p type false else some s).map fun s =>
    (newBlkaddr,
      (s.locateDirtySegment sm (getSegno sm oldBlkaddr)).locateDirtySegment sm
        (getSegno sm newBlkaddr))

end SegManager

end F2fs.Segment

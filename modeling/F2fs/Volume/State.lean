/-
  The segment manager of a mounted volume with the device under it, and the steps of both:
  blocks are written out of place and invalidated, logs are moved, summary blocks are written
  back, a checkpoint is written, and the volume is mounted, again after a crash.

  A checkpoint is one step: `block_operations` keeps writers out until it is complete.  What
  the pack keeps of the logs is kept as a whole.  A crash loses what was not part of the last
  checkpoint: the blocks that are not valid there may hold anything afterwards.  Updates in
  place, the roll-forward behind a mount and a checkpoint that fails are left out, and so is
  the trim that finds nothing to write.
-/
import F2fs.Checkpoint.Ckpt
import F2fs.Gc.Guarded
import F2fs.Segment.FreeCounts
import F2fs.Segment.Prefree

namespace F2fs.Volume

open F2fs.Segment F2fs.Gc F2fs.Checkpoint

/-! ## The state -/

/-- A block as it was written: the summary entry that went with it, and whether it is that of
    a node. -/
structure Block (α : Type) where
  sum : SumEntry
  node : Bool
  data : α

/-- What a crash leaves: the main area, the SSA, and the SIT and the logs of the last
    checkpoint.  `nodeSums` and `trimmed` are flags of the pack (`__exist_node_summaries`,
    `CP_TRIMMED_FLAG`). -/
structure Device (α : Type) where
  blocks : Nat → Block α
  ssa : Nat → SumBlock
  store : SitStore
  logs : CursegType → Curseg
  nodeSums : Bool
  trimmed : Bool

/-- A mounted volume. -/
structure Mounted (α : Type) where
  segs : SegManager
  dcc : DiscardCmdControl
  dev : Device α

variable {α : Type} (sm : SmInfo)

/-- The block is valid now. -/
def ValidAt (sit : SitInfo) (addr : Nat) : Prop :=
  InMain sm addr ∧ getBlkoff sm addr ∈ (sit.sentries (getSegno sm addr)).curValidMap

/-- The block is valid in the last checkpoint. -/
def SavedAt (st : SitStore) (addr : Nat) : Prop :=
  InMain sm addr ∧ getBlkoff sm addr ∈ (st.persisted sm (getSegno sm addr)).validMap

/-! ## Segments -/

/-- `IS_NODESEG` of a segment's type. -/
def isNodeType (type : Fin 64) : Bool :=
  decide (CursegType.hotNode.idx ≤ type.val ∧ type.val ≤ CursegType.coldNode.idx)

/-- `invalidate_blocks`. -/
def invalidateBlocks (now addr : Nat) (s : SegManager) : SegManager :=
  if addr = newAddr then s
  else (s.updateSitEntry sm now addr false).locateDirtySegment sm (getSegno sm addr)

/-- One log in `allocate_new_segments`. -/
def allocateNewSegment (p : SegManager.AllocPolicy) (s : SegManager) (type : CursegType) :
    Option SegManager :=
  (s.allocateSegmentByDefault sm p type true).map fun s' =>
    s'.locateDirtySegment sm (s.curseg type).segno

/-- `allocate_new_segments`. -/
def allocateNewSegments (p : SegManager.AllocPolicy) (s : SegManager) : Option SegManager :=
  CursegType.dataTypes.foldlM (allocateNewSegment sm p) s

/-- The prefree segments in the order of `for_each_set_bit`. -/
def prefreeList (s : SegManager) : List Nat :=
  (List.range sm.mainSegments).filter fun segno => segno ∈ s.dirty.dirtySegmap dirtyPre

/-- `set_prefree_as_free_segments`. -/
def setPrefreeAsFreeSegments (s : SegManager) : SegManager :=
  { s with free := (prefreeList sm s).foldl (fun f segno => f.setTestAndFree sm segno) s.free }

/-- What `f2fs_issue_discard` does to the SIT for the discards that were issued. -/
def issueDiscards (sit : SitInfo) (discards : List (Nat × Nat)) : SitInfo :=
  discards.foldl (fun sit d => sit.issueDiscard sm d.1 d.2) sit

/-- `clear_prefree_segments`, on the tables it changes. -/
def clearPrefree (cpc : CpControl) (blkzoned : Bool) (fuel : Nat) (s : SegManager)
    (dcc : DiscardCmdControl) : Option (SegManager × DiscardCmdControl) :=
  (clearPrefreeSegments sm s.sit (fun type => (s.curseg type).segno) cpc blkzoned dcc fuel
      (s.dirty.dirtySegmap dirtyPre) (s.dirty.nrDirty dirtyPre)).map fun r =>
    ({ s with
        sit := issueDiscards sm s.sit (r.discards ++ r.small)
        dirty :=
          { s.dirty with
            dirtySegmap := Function.update s.dirty.dirtySegmap dirtyPre r.prefreeMap
            nrDirty := Function.update s.dirty.nrDirty dirtyPre r.nrDirty } },
      r.dcc)

/-! ## Checkpoint -/

/-- `write_checkpoint` from `flush_sit_entries` on: the SIT goes to the device with the logs,
    the prefree segments become free, and discards are issued for them. -/
def writeCheckpoint (cpc : CpControl) (blkzoned : Bool) (fuel : Nat) (v : Mounted α) :
    Option (Mounted α) :=
  (flushSitEntries sm cpc
      { info := v.segs.sit, store := v.dev.store, sitEntrySet := [], dcc := v.dcc }).bind fun t =>
    let segs := setPrefreeAsFreeSegments sm { v.segs with sit := t.info }
    let dev : Device α :=
      { blocks := v.dev.blocks
        ssa := segs.ssa
        store := t.store
        logs := segs.curseg
        nodeSums := remainNodeSummaries cpc.reason
        trimmed := v.dev.trimmed || cpc.reason.trimmed }
    (clearPrefree sm cpc blkzoned fuel segs t.dcc).map fun r =>
      { segs := r.1, dcc := r.2, dev := dev }

/-! ## Mount -/

/-- The footer's type for the blocks of a log. -/
def sumTypeOf (node : Bool) : SumType := if node then SumType.node else SumType.data

/-- The summaries of a node log as `read_normal_summaries` takes them from the pack, or as
    `restore_node_summary` makes them from the blocks. -/
def nodeSummary (dev : Device α) (type : CursegType) (i : Nat) : SumEntry where
  nid :=
    if dev.nodeSums then ((dev.logs type).sumBlk.entries i).nid
    else (dev.blocks (startBlock sm (dev.logs type).segno + i)).sum.nid
  version := 0
  ofsInNode := 0

/-- `restore_curseg_summaries` for one log. -/
def restoreLog (dev : Device α) (type : CursegType) : Curseg :=
  let c := dev.logs type
  { c with
    zone := SegManager.zoneFromSeg sm c.segno
    nextSegno := nullSegno
    sumBlk :=
      { entries := if type.isNodeSeg then nodeSummary sm dev type else c.sumBlk.entries
        entryType := sumTypeOf type.isNodeSeg } }

/-- One segment in `init_dirty_segmap`. -/
def initDirtySegment (s : SegManager) (segno : Nat) : SegManager :=
  let validBlocks := getValidBlocks sm s.sit segno false
  if validBlocks = blocksPerSeg ∨ validBlocks = 0 then s
  else if validBlocks > blocksPerSeg then s
  else s.locateDirty segno dirtyAll

/-- `init_dirty_segmap`. -/
def initDirtySegmap (s : SegManager) : SegManager :=
  ((List.range sm.mainSegments).filter fun segno => segno ∈ s.free.freeSegmap).foldl
    (initDirtySegment sm) s

/-- `dirty_seglist_info` as `build_dirty_segmap` allocates it. -/
def emptyDirty : DirtySeglist where
  dirtySegmap := fun _ => ∅
  nrDirty := fun _ => 0
  victimSecmap := ∅

/-- `discard_cmd_control` as `create_discard_cmd_control` makes it. -/
def newDiscardCmdControl : DiscardCmdControl where
  entryList := []
  nrDiscards := 0
  maxDiscards := (sm.mainSegments * blocksPerSeg : Nat)

/-- `build_segment_manager`. -/
def buildSegmentManager (dev : Device α) : Option (Mounted α) :=
  (buildSitEntries sm dev.trimmed dev.store).map fun sit =>
    let t := initFreeSegmap sm sit (buildFreeSegmap sm) fun type => (restoreLog sm dev type).segno
    { segs := initDirtySegmap sm
        { curseg := restoreLog sm dev
          sit := t.1
          ssa := dev.ssa
          free := t.2
          dirty := emptyDirty
          lastVictim := 0 }
      dcc := newDiscardCmdControl sm
      dev := dev }

/-! ## Steps -/

/-- What `do_write_page` may be called with: a node page is written with the entry
    `(nid, 0, 0)`. -/
def SumFits (type : CursegType) (sum : SumEntry) : Prop :=
  type.isNodeSeg = true → sum.version = 0 ∧ sum.ofsInNode = 0

/-- The old address of a write: none yet, or a block that is valid. -/
def OldBlock (sit : SitInfo) (addr : Nat) : Prop :=
  addr = nullAddr ∨ addr = newAddr ∨ ValidAt sm sit addr

/-- A step that writes no checkpoint.  `write` is `do_write_page`, with SSR's search for a
    victim as it finds the garbage collector; `mark` is what the collector does to the tables
    when it chooses a section. -/
inductive Step : Mounted α → Mounted α → Prop
  | write (v : Mounted α) (g : GcInfo) (fuel : Nat) (needSSR crcRecovery : Bool)
      (now oldBlkaddr addr : Nat) (sum : SumEntry) (type : CursegType) (data : α)
      (segs : SegManager) (hold : OldBlock sm v.segs.sit oldBlkaddr) (hsum : SumFits type sum)
      (hg : g.segs = v.segs.writeNext sm type now oldBlkaddr sum)
      (hfuel : ∀ mode, max (g.lastVictim mode) sm.mainSegments + 1 + sm.mainSegments < fuel)
      (h : v.segs.allocateDataBlock sm (victimPolicy sm fuel g type needSSR crcRecovery) now
        oldBlkaddr sum type = some (addr, segs)) :
      Step v { v with
        segs := segs
        dev := { v.dev with
          blocks := Function.update v.dev.blocks addr ⟨sum, type.isNodeSeg, data⟩ } }
  | invalidate (v : Mounted α) (now addr : Nat)
      (haddr : addr = newAddr ∨ ValidAt sm v.segs.sit addr) :
      Step v { v with segs := invalidateBlocks sm now addr v.segs }
  | newSegments (v : Mounted α) (p : SegManager.AllocPolicy) (segs : SegManager)
      (h : allocateNewSegments sm p v.segs = some segs) : Step v { v with segs := segs }
  | mark (v : Mounted α) (secs : Finset Nat) (lastVictim : Nat)
      (hsecs : secs ⊆ Finset.range sm.totalSections) :
      Step v { v with
        segs := { v.segs with
          dirty := { v.segs.dirty with victimSecmap := secs }
          lastVictim := lastVictim } }
  | writeSum (v : Mounted α) (segno : Nat) :
      Step v { v with
        dev := { v.dev with ssa := Function.update v.dev.ssa segno (v.segs.ssa segno) } }
  | crash (v v' : Mounted α) (blocks : Nat → Block α)
      (hsaved : ∀ addr, SavedAt sm v.dev.store addr → blocks addr = v.dev.blocks addr)
      (h : buildSegmentManager sm { v.dev with blocks := blocks } = some v') : Step v v'

/-- Any number of steps and checkpoints. -/
inductive Reach (v₀ : Mounted α) : Mounted α → Prop
  | start : Reach v₀ v₀
  | step {v v' : Mounted α} (hv : Reach v₀ v) (h : Step sm v v') : Reach v₀ v'
  | checkpoint {v v' : Mounted α} (cpc : CpControl) (blkzoned : Bool) (fuel : Nat)
      (hv : Reach v₀ v) (h : writeCheckpoint sm cpc blkzoned fuel v = some v') : Reach v₀ v'

end F2fs.Volume

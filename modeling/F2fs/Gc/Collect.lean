/-
  `f2fs_gc`: the collection of one victim section after the other.

  The state is that of the segment manager with the owners of the blocks: node pages with
  their `node_info`, the inodes in memory, and the pages that count for
  `has_not_enough_free_secs`.  What nothing in the loop changes is in `GcEnv`: which reads,
  locks and writes fail, and what a lookup finds.  `write_checkpoint` is a function of the
  state.

  The phases that only read ahead leave no trace here.  No page is under writeback.  A
  retry for want of memory, the version check of `is_alive`, the statistics and
  `last_victim[FLUSH_DEVICE]` are left out.
-/
import F2fs.Gc.SsrSegment
import F2fs.Segment.ReplaceBlock

namespace F2fs.Gc

open F2fs.Segment
open F2fs.Node (startBidxOfNode)
open Loop (Turn)

/-! ## State -/

/-- What collection reads of an inode.  `dioRead` and `dioWrite` say whether the two halves of
    `dio_rwsem` can be taken, `gcFailures` is an `unsigned short`. -/
structure GcInode where
  addrsPerInode : Nat
  isReg : Bool
  isDir : Bool
  encrypted : Bool
  atomic : Bool
  pinned : Bool
  gcFailures : Fin (2 ^ 16)
  dioRead : Bool
  dioWrite : Bool

/-- A node page, and the `node_info` of its nid. -/
structure GcNode where
  ino : Nat
  blkAddr : Nat
  version : Nat
  nofs : Nat
  isDnode : Bool
  isCold : Bool
  addr : Nat → Nat

/-- `node` and `inode` are `none` where the page or the inode cannot be read. -/
structure GcFs where
  g : GcInfo
  node : Nat → Option GcNode
  inode : Nat → Option GcInode
  gcList : Finset Nat
  dirtyNodes : Finset Nat
  dirtyDents : Finset (Nat × Nat)
  dirtyImeta : Finset Nat

/-- What does not change while `f2fs_gc` runs. -/
structure GcEnv where
  sm : SmInfo
  active : Bool
  cpError : Bool
  porDoing : Bool
  activeLogs : Nat
  gcUrgent : Bool
  reservedSegments : Nat
  minSsrSections : Nat
  crcRecovery : Bool
  pinThreshold : Nat
  maxNid : Nat
  now : Nat
  /-- `PageUptodate` of a summary page -/
  sumUptodate : Nat → Bool
  /-- `get_dnode_of_data` with `LOOKUP_NODE`: the nid and the offset in it -/
  dnode : Nat → Nat → Option (Nat × Nat)
  /-- `get_read_data_page` and `get_lock_data_page` -/
  readPage : Nat → Nat → Bool
  /-- `f2fs_grab_cache_page` -/
  grabPage : Nat → Nat → Bool
  trylockOp : Bool
  /-- whether `move_data_block` fails after the allocation, by the address it moves -/
  moveFails : Nat → Bool
  /-- how often `f2fs_submit_page_write` asks for another address -/
  reallocs : Nat → Nat
  writeCheckpoint : GcFs → Int × GcFs

def GcFs.segs (fs : GcFs) : SegManager := fs.g.segs

def GcFs.setSegs (fs : GcFs) (s : SegManager) : GcFs := { fs with g := { fs.g with segs := s } }

section

variable (env : GcEnv)

/-! ## Free sections -/

/-- `get_blocktype_secs`. -/
def getBlocktypeSecs (pages : Nat) : Nat :=
  (pages + env.sm.segsPerSec * blocksPerSeg - 1) / blocksPerSeg / env.sm.segsPerSec

/-- The sections for dirty nodes, dentry pages and inodes. -/
def dirtySecs (fs : GcFs) : Nat :=
  getBlocktypeSecs env fs.dirtyNodes.card + 2 * getBlocktypeSecs env fs.dirtyDents.card +
    getBlocktypeSecs env fs.dirtyImeta.card

/-- `reserved_sections`. -/
def reservedSections : Nat := getSec env.sm env.reservedSegments

/-- `has_curseg_enough_space`. -/
def hasCursegEnoughSpace (fs : GcFs) : Bool :=
  let nodeBlocks := fs.dirtyNodes.card + fs.dirtyDents.card
  let left := fun type : CursegType =>
    blocksPerSeg - (fs.segs.sit.sentries (fs.segs.curseg type).segno).ckptValidBlocks
  CursegType.nodeTypes.all (fun type => decide (nodeBlocks ≤ left type)) &&
    decide (fs.dirtyDents.card ≤ left .hotData)

/-- `has_not_enough_free_secs`, with nothing needed. -/
def hasNotEnoughFreeSecs (fs : GcFs) (freed : Nat) : Bool :=
  if env.porDoing then false
  else if fs.segs.free.freeSections + freed = reservedSections env ∧ hasCursegEnoughSpace fs then
    false
  else decide (fs.segs.free.freeSections + freed ≤ dirtySecs env fs + reservedSections env)

/-- `need_SSR`. -/
def needSSR (fs : GcFs) : Bool :=
  if env.sm.lfsOpt then false
  else if env.gcUrgent then true
  else decide (fs.segs.free.freeSections ≤
    dirtySecs env fs + env.minSsrSections + reservedSections env)

/-! ## Allocation -/

/-- Rounds enough for a scan. -/
def scanFuel (g : GcInfo) : Nat :=
  2 * env.sm.mainSegments + g.lastVictim .cb + g.lastVictim .greedy + 2

/-- Whether `allocate_segment_by_default` comes to `get_ssr_segment`; `s` is the state after
    the block was written. -/
def asksSsr (s : SegManager) (p : SegManager.AllocPolicy) (type : CursegType) : Bool :=
  decide (blocksPerSeg ≤ (s.curseg type).nextBlkoff) &&
    !(!p.crcRecovery && decide (type = .warmNode)) &&
    !decide ((s.curseg type).allocType = .LFS ∧ s.isNextSegmentFree env.sm type = true) && p.needSSR

/-- `allocate_data_block` with the search of `get_victim_by_default`; `none` if a
    `f2fs_bug_on` stands in the way. -/
def GcFs.allocate (fs : GcFs) (oldBlkaddr : Nat) (sum : SumEntry) (type : CursegType) :
    Option (Nat × GcFs) :=
  let g := { fs.g with segs := fs.segs.writeNext env.sm type env.now oldBlkaddr sum }
  let p := victimPolicy env.sm (scanFuel env g) g type (needSSR env fs) env.crcRecovery
  (fs.segs.allocateDataBlock env.sm p env.now oldBlkaddr sum type).map fun (addr, s) =>
    let lastVictim :=
      if asksSsr env g.segs p type then
        match getSsrSegment env.sm (scanFuel env g) g type with
        | some (_, g') => g'.lastVictim
        | none => fs.g.lastVictim
      else fs.g.lastVictim
    (addr, { fs with g := { fs.g with segs := s, lastVictim := lastVictim } })

/-- `do_write_page`; the write is submitted again `n` times. -/
def GcFs.doWritePage (sum : SumEntry) (type : CursegType) :
    Nat → GcFs → Nat → Option (Nat × GcFs)
  | 0, fs, oldBlkaddr => fs.allocate env oldBlkaddr sum type
  | n + 1, fs, oldBlkaddr =>
    (fs.allocate env oldBlkaddr sum type).bind fun (addr, fs) => doWritePage sum type n fs addr

/-- `__get_segment_type` of a node page. -/
def nodeSegmentType (node : GcNode) : CursegType :=
  match env.activeLogs with
  | 2 => .hotNode
  | 4 => if node.isDnode && node.isCold then .warmNode else .coldNode
  | 6 => if node.isDnode then if node.isCold then .warmNode else .hotNode else .coldNode
  | _ => .hotData

/-- `__get_segment_type` of a data page marked cold. -/
def dataSegmentType (inode : GcInode) : CursegType :=
  match env.activeLogs with
  | 4 => if inode.isDir then .hotData else .coldData
  | 6 => .coldData
  | _ => .hotData

/-! ## Nodes -/

def GcFs.setNode (fs : GcFs) (nid : Nat) (node : GcNode) : GcFs :=
  { fs with node := Function.update fs.node nid (some node) }

def GcFs.setInode (fs : GcFs) (ino : Nat) (inode : GcInode) : GcFs :=
  { fs with inode := Function.update fs.inode ino (some inode) }

/-- `check_valid_map`. -/
def checkValidMap (fs : GcFs) (segno off : Nat) : Bool :=
  decide (Fin.ofNat blocksPerSeg off ∈ (fs.segs.sit.sentries segno).curValidMap)

/-- `move_node_page`, with `__write_node_page`. -/
def moveNodePage (gcType : GcType) (nid : Nat) (node : GcNode) (fs : GcFs) : Option GcFs :=
  if gcType = .bgGc then some { fs with dirtyNodes := insert nid fs.dirtyNodes }
  else if env.cpError then some { fs with dirtyNodes := fs.dirtyNodes.erase nid }
  else if env.porDoing then some { fs with dirtyNodes := insert nid fs.dirtyNodes }
  else
    let fs := { fs with dirtyNodes := fs.dirtyNodes.erase nid }
    -- This page is already truncated
    if node.blkAddr = nullAddr then some fs
    else
      (fs.doWritePage env ⟨nid, node.version, 0⟩ (nodeSegmentType env node)
        (env.reallocs node.blkAddr) node.blkAddr).map fun (addr, fs) =>
          fs.setNode nid { node with blkAddr := addr }

/-- One block of `gc_node_segment` in its last phase. -/
def gcNodeBlock (gcType : GcType) (sum : Nat → SumEntry) (segno off : Nat) (fs : GcFs) :
    Option GcFs :=
  if ¬checkValidMap fs segno off then some fs
  else
    match fs.node (sum off).nid with
    | none => some fs
    | some node =>
      if node.blkAddr ≠ startBlock env.sm segno + off then some fs
      else moveNodePage env gcType (sum off).nid node fs

/-! ## Data -/

/-- The inode after a failure was counted; past the threshold it loses its pin. -/
def countFailure (inode : GcInode) : GcInode :=
  let gcFailures := Fin.ofNat (2 ^ 16) (inode.gcFailures.val + 1)
  { inode with
    gcFailures := gcFailures
    pinned := inode.pinned && !decide (gcFailures.val > env.pinThreshold) }

/-- `f2fs_pin_file_control` with `inc`. -/
def pinFileControl (ino : Nat) (inode : GcInode) (fs : GcFs) : GcFs :=
  { fs with dirtyImeta := insert ino fs.dirtyImeta }.setInode ino (countFailure env inode)

/-- `f2fs_update_data_blkaddr`. -/
def updateDataBlkaddr (nid ofs addr : Nat) (node : GcNode) (fs : GcFs) : GcFs :=
  { fs with dirtyNodes := insert nid fs.dirtyNodes }.setNode nid
    { node with addr := Function.update node.addr ofs addr }

/-- `move_data_block`. -/
def moveDataBlock (ino : Nat) (inode : GcInode) (bidx segno off : Nat) (fs : GcFs) : Option GcFs :=
  if ¬env.grabPage ino bidx ∨ ¬checkValidMap fs segno off ∨ inode.atomic then some fs
  else if inode.pinned then some (pinFileControl env ino inode fs)
  else
    match env.dnode ino bidx with
    | none => some fs
    | some (nid, ofs) =>
      match fs.node nid with
      | none => some fs
      | some node =>
        let old := node.addr ofs
        if old = nullAddr then some fs
        else
          let sum : SumEntry := ⟨nid, node.version, ofs⟩
          (fs.allocate env old sum .coldData).bind fun (newaddr, fs) =>
            if env.moveFails old then
              (fs.segs.replaceBlock env.sm env.now sum newaddr old true true).map fs.setSegs
            else some (updateDataBlkaddr nid ofs newaddr node fs)

/-- `do_write_data_page` of a page marked cold, with `write_data_page`. -/
def doWriteDataPage (ino : Nat) (inode : GcInode) (bidx : Nat) (fs : GcFs) : Option GcFs :=
  if ¬env.trylockOp then some fs
  else
    match env.dnode ino bidx with
    | none => some fs
    | some (nid, ofs) =>
      match fs.node nid with
      | none => some fs
      | some node =>
        let old := node.addr ofs
        -- This page is already truncated
        if old = nullAddr then some fs
        else
          (fs.doWritePage env ⟨nid, node.version, ofs⟩ (dataSegmentType env inode)
            (env.reallocs old) old).map fun (addr, fs) => updateDataBlkaddr nid ofs addr node fs

/-- `move_data_page`. -/
def moveDataPage (gcType : GcType) (ino : Nat) (inode : GcInode) (bidx segno off : Nat)
    (fs : GcFs) : Option GcFs :=
  if ¬env.readPage ino bidx ∨ ¬checkValidMap fs segno off ∨ inode.atomic then some fs
  else if inode.pinned then
    some (if gcType = .fgGc then pinFileControl env ino inode fs else fs)
  else if gcType = .bgGc then
    some (if inode.isDir then { fs with dirtyDents := insert (ino, bidx) fs.dirtyDents } else fs)
  else doWriteDataPage env ino inode bidx { fs with dirtyDents := fs.dirtyDents.erase (ino, bidx) }

/-- `is_alive`: the node page. -/
def isAlive (fs : GcFs) (entry : SumEntry) (blkaddr : Nat) : Option GcNode :=
  (fs.node entry.nid).filter fun node => decide (node.addr entry.ofsInNode = blkaddr)

/-- `f2fs_iget`. -/
def GcFs.iget (fs : GcFs) (ino : Nat) : Option GcInode :=
  if ino < env.maxNid then fs.inode ino else none

/-- The block of the file an entry is for. -/
def bidxOf (node : GcNode) (inode : GcInode) (entry : SumEntry) : Nat :=
  startBidxOfNode inode.addrsPerInode node.nofs + entry.ofsInNode

/-- One block of `gc_data_segment` in phase 3. -/
def gcDataInode (sum : Nat → SumEntry) (segno off : Nat) (fs : GcFs) : Option GcFs :=
  if ¬checkValidMap fs segno off then some fs
  else
    match isAlive fs (sum off) (startBlock env.sm segno + off) with
    | none => some fs
    | some node =>
      match fs.iget env node.ino with
      | none => some fs
      | some inode =>
        -- if encrypted inode, let's go phase 3
        if inode.encrypted ∨
            (inode.dioWrite ∧ env.readPage node.ino (bidxOf node inode (sum off))) then
          some { fs with gcList := insert node.ino fs.gcList }
        else some fs

/-- One block of `gc_data_segment` in phase 4. -/
def gcDataBlock (gcType : GcType) (sum : Nat → SumEntry) (segno off : Nat) (fs : GcFs) :
    Option GcFs :=
  if ¬checkValidMap fs segno off then some fs
  else
    match isAlive fs (sum off) (startBlock env.sm segno + off) with
    | none => some fs
    | some node =>
      match fs.iget env node.ino with
      | none => some fs
      | some inode =>
        if node.ino ∉ fs.gcList then some fs
        else if inode.isReg ∧ ¬(inode.dioRead ∧ inode.dioWrite) then some fs
        else if inode.encrypted then
          moveDataBlock env node.ino inode (bidxOf node inode (sum off)) segno off fs
        else
          moveDataPage env gcType node.ino inode (bidxOf node inode (sum off)) segno off fs

/-! ## Segments and sections -/

/-- The blocks of a segment, from one of them on.  BG_GC stops where the free sections run
    out. -/
def walkBlocks (gcType : GcType) (block : Nat → GcFs → Option GcFs) :
    List Nat → GcFs → Option GcFs
  | [], fs => some fs
  | off :: offs, fs =>
    if gcType = .bgGc ∧ hasNotEnoughFreeSecs env fs 0 then some fs
    else (block off fs).bind (walkBlocks gcType block offs)

/-- `gc_node_segment`. -/
def gcNodeSegment (gcType : GcType) (segno : Nat) (fs : GcFs) : Option GcFs :=
  let sum := (fs.segs.ssa segno).entries
  walkBlocks env gcType (gcNodeBlock env gcType sum segno) (List.range blocksPerSeg) fs

/-- `gc_data_segment`. -/
def gcDataSegment (gcType : GcType) (segno : Nat) (fs : GcFs) : Option GcFs :=
  let sum := (fs.segs.ssa segno).entries
  (walkBlocks env gcType (gcDataInode env sum segno) (List.range blocksPerSeg) fs).bind
    (walkBlocks env gcType (gcDataBlock env gcType sum segno) (List.range blocksPerSeg))

/-- One segment of `do_garbage_collect`, with `seg_freed`. -/
def collectSegment (gcType : GcType) (isData : Bool) (acc : GcFs × Nat) (segno : Nat) :
    Option (GcFs × Nat) :=
  let (fs, segFreed) := acc
  if getValidBlocks env.sm fs.segs.sit segno false = 0 ∨ ¬env.sumUptodate segno ∨ env.cpError then
    some acc
  else if (fs.segs.ssa segno).entryType ≠ if isData then .data else .node then none
  else
    (if isData then gcDataSegment env gcType segno fs else gcNodeSegment env gcType segno fs).map
      fun fs =>
        (fs, if gcType = .fgGc ∧ getValidBlocks env.sm fs.segs.sit segno false = 0 then segFreed + 1
          else segFreed)

/-- `IS_DATASEG` of the first segment. -/
def isDataSection (fs : GcFs) (startSegno : Nat) : Bool :=
  decide ((fs.segs.sit.sentries startSegno).type.val ≤ CursegType.coldData.idx)

/-- `do_garbage_collect`. -/
def doGarbageCollect (gcType : GcType) (startSegno : Nat) (fs : GcFs) : Option (GcFs × Nat) :=
  (List.range' startSegno env.sm.segsPerSec).foldlM
    (collectSegment env gcType (isDataSection fs startSegno)) (fs, 0)

/-! ## The loop -/

/-- The variables of `f2fs_gc`, with the number of the round. -/
structure GcLoop where
  fs : GcFs
  gcType : GcType
  secFreed : Nat
  segno : Nat
  round : Nat

/-- What the loop leaves with; `bug` is a `f2fs_bug_on`. -/
inductive GcRet where
  | ret (err : Int)
  | bug
  deriving DecidableEq

def einval : Int := -22
def eio : Int := -5
def enodata : Int := -61
def eagain : Int := -11

/-- From `gc_more:` to the choice of the victim: `stop:`, or the type of the collection. -/
def gcMore (background : Bool) (st : GcLoop) : GcRet × GcFs ⊕ GcType × GcFs :=
  if ¬env.active then .inl (.ret einval, st.fs)
  else if env.cpError then .inl (.ret eio, st.fs)
  else
    let checked : GcRet × GcFs ⊕ GcType × GcFs :=
      if st.gcType = .bgGc ∧ hasNotEnoughFreeSecs env st.fs 0 then
        let (ret, fs) :=
          if st.fs.segs.dirty.nrDirty dirtyPre ≠ 0 then env.writeCheckpoint st.fs else (0, st.fs)
        if ret ≠ 0 then .inl (.ret ret, fs)
        else .inr (if hasNotEnoughFreeSecs env fs 0 then .fgGc else .bgGc, fs)
      else .inr (st.gcType, st.fs)
    match checked with
    | .inl stop => .inl stop
    -- f2fs_balance_fs doesn't need to do BG_GC in critical path.
    | .inr (gcType, fs) =>
      if gcType = .bgGc ∧ ¬background then .inl (.ret einval, fs) else .inr (gcType, fs)

/-- `__get_victim`. -/
def getVictim (gcType : GcType) (segno : Nat) (fs : GcFs) : Option VictimOut :=
  getVictimByDefault env.sm gcType fs.g segno none .LFS (scanFuel env fs.g)

/-- One round of the `gc_more` loop. -/
def gcRound (sync background : Bool) (st : GcLoop) : Turn GcLoop (GcRet × GcFs × Nat) :=
  match gcMore env background st with
  | .inl (ret, fs) => .done (ret, fs, st.secFreed)
  | .inr (gcType, fs) =>
    match getVictim env gcType st.segno fs with
    | none => .done (.bug, fs, st.secFreed)
    | some out =>
      let fs := { fs with g := out.g }
      if out.minSegno = nullSegno then .done (.ret enodata, fs, st.secFreed)
      else
        match doGarbageCollect env gcType out.result fs with
        | none => .done (.bug, fs, st.secFreed)
        | some (fs, segFreed) =>
          let secFreed :=
            if gcType = .fgGc ∧ segFreed = env.sm.segsPerSec then st.secFreed + 1 else st.secFreed
          let fs :=
            if gcType = .fgGc then { fs with g := { fs.g with curVictimSec := nullSegno } } else fs
          if sync then .done (.ret 0, fs, secFreed)
          else if hasNotEnoughFreeSecs env fs secFreed then
            .next ⟨fs, gcType, secFreed, nullSegno, st.round + 1⟩
          else if gcType = .fgGc then
            let (ret, fs) := env.writeCheckpoint fs
            .done (.ret ret, fs, secFreed)
          else .done (.ret 0, fs, secFreed)

/-- Where the loop starts. -/
def gcStart (sync : Bool) (segno : Nat) (fs : GcFs) : GcLoop :=
  ⟨{ fs with gcList := ∅ }, if sync then .fgGc else .bgGc, 0, segno, 0⟩

/-- `f2fs_gc`; `none` if `fuel` rounds are not enough. -/
def f2fsGc (sync background : Bool) (segno : Nat) (fs : GcFs) (fuel : Nat) :
    Option (GcRet × GcFs) :=
  (Loop.run (gcRound env sync background) fuel (gcStart sync segno fs)).map
    fun (ret, fs, secFreed) =>
      let fs := { fs.setSegs { fs.segs with lastVictim := 0 } with gcList := ∅ }
      (if sync ∧ ret ≠ .bug then .ret (if secFreed ≠ 0 then 0 else eagain) else ret, fs)

end

end F2fs.Gc

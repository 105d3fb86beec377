/-
  Node writes and `f2fs_do_sync_file`.

  A node page is written by `fsync_node_pages`, which sets the fsync and dentry
  marks in its footer, by `sync_node_pages`, which clears them, or by `writepage`
  and foreground GC, which write it with the marks it has.  Every write goes through
  `__write_node_page`, one step here, and is recorded in `log`, newest first.

  `f2fs_do_sync_file` is a thread: its steps interleave with those of other threads,
  with NAT flushes, with the shrinker, and with anyone who reads or changes a node.
  `test` is the log at the last `need_inode_page_update` or
  `need_inode_block_update` of the call.  A read-only mount returns before any test,
  and is left out.
-/
import F2fs.Node.NatOps

namespace F2fs.File

open F2fs.Checkpoint F2fs.Node

/-! ## Node pages -/

/-- The footer of a node page and its dirty bit; for a page that is not cached, the footer
    of its block. -/
structure NodePage where
  ino : Nat
  isDnode : Bool
  isColdNode : Bool
  isFsyncDnode : Bool := false
  isDentDnode : Bool := false
  dirty : Bool := false
  deriving DecidableEq, Repr

/-- A node block written to the log. -/
structure NodeWrite where
  nid : Nat
  ino : Nat
  isDnode : Bool
  isFsyncDnode : Bool
  isDentDnode : Bool
  deriving DecidableEq, Repr

/-- The block a page is written as. -/
def NodePage.write (p : NodePage) (nid : Nat) : NodeWrite where
  nid := nid
  ino := p.ino
  isDnode := p.isDnode
  isFsyncDnode := p.isFsyncDnode
  isDentDnode := p.isDentDnode

/-! ## The checkpoint test -/

/-- `enum cp_reason_type`. -/
inductive CpReasonType where
  | noNeeded | nonRegular | hardlink | sbNeedCp | wrongPino | noSpcRoll | nodeNeedCp
  | fastbootMode | specLogNum | recoverDir
  deriving DecidableEq, Repr

/-- What `need_do_checkpoint` reads besides the NAT. -/
structure CpEnv where
  isReg : Bool
  nlink : Nat
  sbiNeedCp : Bool
  fileWrongPino : Bool
  spaceForRollForward : Bool
  pino : Nat
  fastboot : Bool
  activeLogs : Nat
  /-- `exist_written_data(sbi, i_pino, TRANS_DIR_INO)` -/
  transDir : Bool

/-- `need_do_checkpoint`. -/
def needDoCheckpoint (e : CpEnv) (c : NatCache) (ino : Nat) : CpReasonType :=
  if !e.isReg then .nonRegular
  else if e.nlink ≠ 1 then .hardlink
  else if e.sbiNeedCp then .sbNeedCp
  else if e.fileWrongPino then .wrongPino
  else if !e.spaceForRollForward then .noSpcRoll
  else if !c.isCheckpointedNode e.pino then .nodeNeedCp
  else if e.fastboot then .fastbootMode
  else if e.activeLogs = 2 then .specLogNum
  else if c.needDentryMark ino && e.transDir then .recoverDir
  else .noNeeded

/-- What `f2fs_do_sync_file` reads of the inode before it writes nodes. -/
structure InodeFlags where
  /-- `f2fs_skip_inode_update(inode, datasync)` -/
  skipInodeUpdate : Bool
  /-- `FI_APPEND_WRITE`, or `exist_written_data` for `APPEND_INO` -/
  appendWrite : Bool
  /-- `FI_UPDATE_WRITE`, or `exist_written_data` for `UPDATE_INO` -/
  updateWrite : Bool

/-! ## State -/

/-- Where a call of `f2fs_do_sync_file` is.  `fsyncPages last` is inside
    `fsync_node_pages`, with the page that gets the mark when the call is atomic;
    `synced` is a return through the checkpoint. -/
inductive SyncPc where
  | idle
  | entered
  | goWrite
  | syncNodes
  | fsyncPages (last : Option Nat)
  | blockTest
  | waiting
  | returned (ret : Int)
  | synced (ret : Int)
  deriving DecidableEq, Repr

/-- A call of `f2fs_do_sync_file`. -/
structure SyncThread where
  pc : SyncPc := .idle
  ino : Nat := 0
  atomic : Bool := false
  /-- the log at the last test of the call -/
  test : Option (List NodeWrite) := none

/-- The NAT, the node pages by nid, and the node blocks written since the checkpoint. -/
structure Nodes where
  nm : NatState
  pages : Nat → NodePage
  log : List NodeWrite
  cpError : Bool

/-- The nodes and the running calls. -/
structure SyncState extends Nodes where
  threads : Nat → SyncThread

variable (sbi : SbInfo)

/-- `allocate_data_block` returns an address of the main area. -/
def IsBlkaddr (blk : Nat) : Prop := blk ≠ nullAddr ∧ blk ≠ newAddr

instance (blk : Nat) : Decidable (IsBlkaddr blk) := inferInstanceAs (Decidable (_ ∧ _))

namespace Nodes

/-! ## Nodes -/

def setPage (s : Nodes) (nid : Nat) (p : NodePage) : Nodes :=
  { s with pages := Function.update s.pages nid p }

/-- The address of a node, as `get_node_info` returns it. -/
def blkAddr (s : Nodes) (nid : Nat) : Nat := (nodeInfo sbi s.nm nid).blockAddr

/-- The inode exists. -/
def Exists (s : Nodes) (ino : Nat) : Prop :=
  s.blkAddr sbi ino ≠ nullAddr ∧ (s.pages ino).ino = ino

instance (s : Nodes) (ino : Nat) : Decidable (s.Exists sbi ino) :=
  inferInstanceAs (Decidable (_ ∧ _))

/-- `__write_node_page` on a page its caller has cleaned; `blk` is the block the log gives
    it, and `nomem` says that the entry `get_node_info` read cannot be allocated. -/
def writeNodePage (s : Nodes) (nid blk : Nat) (nomem : Bool) : Nodes :=
  if s.cpError then s
  else
    let (ni, nm) := getNodeInfo sbi s.nm nid nomem
    if ni.blkAddr = nullAddr then { s with nm := nm }
    else
      { s with
        nm := { nm with cache := nm.cache.setNodeAddr ni blk (s.pages nid).isFsyncDnode }
        log := (s.pages nid).write nid :: s.log }

/-- `f2fs_write_inode`: the inode page becomes dirty. -/
def writeInode (s : Nodes) (ino : Nat) : Nodes :=
  s.setPage ino { s.pages ino with dirty := true }

/-- `need_inode_page_update`. -/
def needInodePageUpdate (s : Nodes) (ino : Nat) : Bool :=
  (s.pages ino).dirty || s.nm.cache.needInodeBlockUpdate ino

/-- `new_node_page`, for a nid no node uses.  A node other than the inode belongs to an
    inode that exists. -/
def newNodePage (s : Nodes) (nid ino : Nat) (isDnode isColdNode : Bool) : Option Nodes :=
  if s.blkAddr sbi nid = nullAddr ∧ (nid ≠ ino → s.Exists sbi ino) ∧
      (nid = ino → isDnode = true) then
    let ni : NodeInfo := { nid := nid, ino := ino, blkAddr := nullAddr, version := 0 }
    some ({ s with nm := { s.nm with cache := s.nm.cache.setNodeAddr ni newAddr false } }.setPage
      nid { ino := ino, isDnode := isDnode, isColdNode := isColdNode, dirty := true })
  else none

/-- `truncate_node` on a node other than an inode. -/
def truncateNode (s : Nodes) (nid : Nat) (nomem : Bool) : Option Nodes :=
  if s.blkAddr sbi nid ≠ nullAddr ∧ (s.pages nid).ino ≠ nid then
    let (ni, nm) := getNodeInfo sbi s.nm nid nomem
    some ({ s with nm := { nm with cache := nm.cache.setNodeAddr ni nullAddr false } }.setPage
      nid { s.pages nid with dirty := false })
  else none

/-- The write of one page by `sync_node_pages`. -/
def syncNodePage (s : Nodes) (nid blk : Nat) (nomem : Bool) : Option Nodes :=
  if (s.pages nid).dirty = true ∧ IsBlkaddr blk then
    some ((s.setPage nid { s.pages nid with
      isFsyncDnode := false, isDentDnode := false, dirty := false }).writeNodePage sbi nid blk
      nomem)
  else none

/-- `f2fs_write_node_page`, and `move_node_page` in foreground, which first dirties the
    page. -/
def writepage (s : Nodes) (nid blk : Nat) (nomem : Bool) : Option Nodes :=
  if IsBlkaddr blk then
    some ((s.setPage nid { s.pages nid with dirty := false }).writeNodePage sbi nid blk nomem)
  else none

/-- The marks `fsync_node_pages` gives a page: an atomic call marks its last page only. -/
def fsyncMarked (c : NatCache) (nid : Nat) (last : Option Nat) (p : NodePage) : NodePage :=
  let mark := last.isNone || decide (last = some nid)
  { p with
    isFsyncDnode := mark
    isDentDnode := mark && decide (p.ino = nid) && c.needDentryMark p.ino
    dirty := false }

/-- One page of the loop of `fsync_node_pages`. -/
def fsyncNodePage (s : Nodes) (ino : Nat) (last : Option Nat) (nid blk : Nat)
    (nomem : Bool) : Option Nodes :=
  let p := s.pages nid
  if p.isDnode = true ∧ p.isColdNode = true ∧ p.ino = ino ∧
      (p.dirty = true ∨ last = some nid) ∧ IsBlkaddr blk then
    some ((s.setPage nid (fsyncMarked s.nm.cache nid last p)).writeNodePage sbi nid blk nomem)
  else none

end Nodes

/-! ## Steps -/

/-- What happens to nodes outside `f2fs_do_sync_file`. -/
inductive NodeOp where
  | getNodeInfo (nid : Nat) (nomem : Bool)
  | tryToFreeNats (nrShrink : Nat)
  | flushNatEntries (reason : CpReason)
  | newNodePage (nid ino : Nat) (isDnode isColdNode : Bool)
  | truncateNode (nid : Nat) (nomem : Bool)
  | setPageDirty (nid : Nat)
  | syncNodePage (nid blk : Nat) (nomem : Bool)
  | writepage (nid blk : Nat) (nomem : Bool)
  | stopCheckpoint

/-- One such step; `none` when it cannot happen in `s`. -/
def Nodes.step (s : Nodes) : NodeOp → Option Nodes
  | .getNodeInfo nid nomem => some { s with nm := (Node.getNodeInfo sbi s.nm nid nomem).2 }
  | .tryToFreeNats nrShrink =>
    some { s with nm := { s.nm with cache := s.nm.cache.tryToFreeNats nrShrink } }
  | .flushNatEntries reason =>
    (Node.flushNatEntries sbi reason s.nm).map fun nm => { s with nm := nm }
  | .newNodePage nid ino isDnode isColdNode => s.newNodePage sbi nid ino isDnode isColdNode
  | .truncateNode nid nomem => s.truncateNode sbi nid nomem
  | .setPageDirty nid => some (s.setPage nid { s.pages nid with dirty := true })
  | .syncNodePage nid blk nomem => s.syncNodePage sbi nid blk nomem
  | .writepage nid blk nomem => s.writepage sbi nid blk nomem
  | .stopCheckpoint => some { s with cpError := true }

/-- The steps of a call of `f2fs_do_sync_file`, with what each finds outside the nodes. -/
inductive SyncOp where
  | enter (ino : Nat) (atomic : Bool)
  | fail (err : Int)
  | checkInode (f : InodeFlags) (flushRet : Int)
  | checkCp (e : CpEnv) (cpRet : Int)
  | startFsync (last : Option Nat)
  | fsyncNodePage (nid blk : Nat) (nomem : Bool)
  | endFsync
  | testBlock
  | finish (ret : Int)

/-- `-EIO`. -/
def eio : Int := -5

/-- From the inode flags to the node writes, or out. -/
def checkInode (s : Nodes) (th : SyncThread) (f : InodeFlags) (flushRet : Int) :
    Nodes × SyncThread :=
  if !f.skipInodeUpdate then (s.writeInode th.ino, { th with pc := .goWrite })
  else if f.appendWrite then (s, { th with pc := .goWrite })
  else
    (s, { th with
      test := some s.log
      pc :=
        if s.needInodePageUpdate th.ino then .goWrite
        else .returned (if f.updateWrite && !th.atomic then flushRet else 0) })

/-- `need_inode_block_update` after the node writes. -/
def testBlock (s : Nodes) (th : SyncThread) : Nodes × SyncThread :=
  if s.cpError then (s, { th with pc := .returned eio })
  else if s.nm.cache.needInodeBlockUpdate th.ino then
    (s.writeInode th.ino, { th with test := some s.log, pc := .syncNodes })
  else (s, { th with test := some s.log, pc := .waiting })

/-- One step of the call `th`; `none` when it is not there. -/
def syncStep (s : Nodes) (th : SyncThread) : SyncOp → Option (Nodes × SyncThread)
  | .enter ino atomic =>
    if s.Exists sbi ino then some (s, { pc := .entered, ino := ino, atomic := atomic }) else none
  | .fail err =>
    if th.pc = .entered ∧ err ≠ 0 then some (s, { th with pc := .returned err }) else none
  | .checkInode f flushRet =>
    if th.pc = .entered then some (checkInode s th f flushRet) else none
  | .checkCp e cpRet =>
    if th.pc = .goWrite then
      some (s, { th with
        pc := if needDoCheckpoint e s.nm.cache th.ino = .noNeeded then .syncNodes
          else .synced cpRet })
    else none
  | .startFsync last =>
    if th.pc = .syncNodes ∧ (last.isSome = true → th.atomic = true) then
      some (s, { th with
        pc := if th.atomic = true ∧ last = none then .blockTest else .fsyncPages last })
    else none
  | .fsyncNodePage nid blk nomem =>
    match th.pc with
    | .fsyncPages last =>
      if s.cpError then some (s, { th with pc := .returned eio })
      else
        (s.fsyncNodePage sbi th.ino last nid blk nomem).map fun s' =>
          (s', if last = some nid then { th with pc := .blockTest } else th)
    | _ => none
  | .endFsync =>
    if th.pc = .fsyncPages none then some (s, { th with pc := .blockTest }) else none
  | .testBlock => if th.pc = .blockTest then some (testBlock s th) else none
  | .finish ret => if th.pc = .waiting then some (s, { th with pc := .returned ret }) else none

/-- A step of the system: of the nodes, or of call `t`. -/
inductive Op where
  | node (op : NodeOp)
  | sync (t : Nat) (op : SyncOp)

/-- One step of the system. -/
def step (s : SyncState) : Op → Option SyncState
  | .node op => (s.toNodes.step sbi op).map fun n => { s with toNodes := n }
  | .sync t op =>
    (syncStep sbi s.toNodes (s.threads t) op).map fun (n, th) =>
      { toNodes := n, threads := Function.update s.threads t th }

/-- A run whose steps all meet `ok`. -/
inductive Run (ok : SyncState → Op → Prop) (s : SyncState) : SyncState → Prop where
  | refl : Run ok s s
  | step {s₁ s₂ : SyncState} (op : Op) : Run ok s s₁ → ok s₁ op → step sbi s₁ op = some s₂ →
      Run ok s s₂

end F2fs.File

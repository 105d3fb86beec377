/-
  The life of a nid, one operation after the other: taken by `alloc_nid`, bound by
  `new_node_page`, kept by `alloc_nid_done` or given back by `alloc_nid_failed`, written,
  freed by `truncate_node`, and free again once a flush has written `NULL_ADDR`.

  `NidOp` lists the operations with what their callers promise, `NidsInv` says what holds
  between any two of them.
-/
import F2fs.Node.BuildSequential

namespace F2fs.Node

open F2fs.Checkpoint

/-! ## Operations -/

namespace NodeManager

variable (sbi : SbInfo) (m : NodeManager)

/-- `get_node_info`. -/
def getNodeInfo (nid : Nat) (nomem : Bool) : NodeInfo × NodeManager :=
  let (ni, s) := Node.getNodeInfo sbi m.nat nid nomem
  (ni, { m with nat := s })

/-- `set_node_addr`. -/
def setNodeAddr (ni : NodeInfo) (newBlkaddr : Nat) (fsyncDone : Bool) : NodeManager :=
  { m with nat := { m.nat with cache := m.nat.cache.setNodeAddr ni newBlkaddr fsyncDone } }

/-- The NAT side of `new_node_page`. -/
def newNodePage (nid ino : Nat) : NodeManager :=
  m.setNodeAddr { nid := nid, ino := ino, blkAddr := nullAddr, version := 0 } newAddr false

/-- The NAT side of `__write_node_page`, which has allocated the block `newBlkaddr`. -/
def writeNodePage (nid : Nat) (nomem : Bool) (newBlkaddr : Nat) (fsyncDone : Bool) :
    NodeManager :=
  let (ni, m₁) := m.getNodeInfo sbi nid nomem
  if ni.blkAddr = nullAddr then m₁ else m₁.setNodeAddr ni newBlkaddr fsyncDone

/-- The NAT side of `truncate_node`. -/
def truncateNode (nid : Nat) (nomem : Bool) : NodeManager :=
  let (ni, m₁) := m.getNodeInfo sbi nid nomem
  m₁.setNodeAddr ni nullAddr false

/-- Another state of the free nids. -/
def withFree (f : FreeNidInfo) : NodeManager := { m with nat := { m.nat with free := f } }

/-- The NAT side of `recover_inode_page`; an inode with an address is refused. -/
def recoverInodePage (ino : Nat) (nomem : Bool) : NodeManager :=
  let (oldNi, m₁) := m.getNodeInfo sbi ino nomem
  if oldNi.blkAddr ≠ nullAddr then m₁
  else
    let m₂ := m₁.withFree (m₁.nat.free.removeFreeNid ino)
    m₂.setNodeAddr { oldNi with ino := ino } newAddr false

/-- The NAT side of `recover_xattr_data`; with `pageErr` the page of the new node cannot be
    had.  The previous xattr node is freed as by `truncate_node`. -/
def recoverXattrData (fuel prevXnid ino : Nat) (nomem pageErr mem : Bool) :
    Option NodeManager :=
  let m₁ := if prevXnid = 0 then m else m.truncateNode sbi prevXnid nomem
  (allocNid sbi fuel m₁).map fun (newXnid, m₂) =>
    match newXnid with
    | none => m₂
    | some nid =>
      if pageErr then m₂.withFree (m₂.nat.free.allocNidFailed nid mem)
      else
        let m₃ := m₂.newNodePage nid ino
        m₃.withFree (m₃.nat.free.allocNidDone nid)

end NodeManager

/-- An operation with its arguments. -/
inductive NidOp where
  | getNodeInfo (nid : Nat) (nomem : Bool)
  | newNodePage (nid ino : Nat)
  | writeNodePage (nid : Nat) (nomem : Bool) (newBlkaddr : Nat) (fsyncDone : Bool)
  | truncateNode (nid : Nat) (nomem : Bool)
  | flushNatEntries (reason : CpReason)
  | tryToFreeNats (nrShrink : Nat)
  | allocNid (fuel : Nat)
  | allocNidDone (nid : Nat)
  | allocNidFailed (nid : Nat) (mem : Bool)
  | buildFreeNids (sync mem : Bool)
  | tryToFreeNids (nrShrink : Nat)
  | recoverInodePage (ino : Nat) (nomem : Bool)
  | recoverXattrData (fuel prevXnid ino : Nat) (nomem pageErr mem : Bool)
  deriving DecidableEq, Repr

/-- The nid was handed out. -/
def Prealloc (m : NodeManager) (nid : Nat) : Prop :=
  m.nat.free.freeNidRoot.lookup nid = some .preallocNid

/-- The nid has an address, or `NEW_ADDR`. -/
def Bound (sbi : SbInfo) (m : NodeManager) (nid : Nat) : Prop :=
  (nodeInfo sbi m.nat nid).blockAddr ≠ nullAddr

instance (m : NodeManager) (nid : Nat) : Decidable (Prealloc m nid) :=
  inferInstanceAs (Decidable (_ = _))

instance (sbi : SbInfo) (m : NodeManager) (nid : Nat) : Decidable (Bound sbi m nid) :=
  inferInstanceAs (Decidable (_ ≠ _))

/-- A node that is in use. -/
def InUse (sbi : SbInfo) (m : NodeManager) (nid : Nat) : Prop :=
  nid ∈ usableNids sbi ∧ Bound sbi m nid ∧ ¬ Prealloc m nid

instance (sbi : SbInfo) (m : NodeManager) (nid : Nat) : Decidable (InUse sbi m nid) :=
  inferInstanceAs (Decidable (_ ∧ _ ∧ _))

/-- What the callers see to: nids are in range, a node page is made for a nid just handed
    out, `alloc_nid_done` follows it and `alloc_nid_failed` comes instead of it, nodes in
    use are freed, and a node is written to a block. -/
def NidOp.Allowed (sbi : SbInfo) (m : NodeManager) : NidOp → Prop
  | .newNodePage nid _ => Prealloc m nid ∧ ¬ Bound sbi m nid
  | .writeNodePage nid _ newBlkaddr _ =>
    nid ∈ usableNids sbi ∧ newBlkaddr ≠ nullAddr ∧ newBlkaddr ≠ newAddr
  | .truncateNode nid _ => InUse sbi m nid
  | .allocNidDone nid => Prealloc m nid ∧ Bound sbi m nid
  | .allocNidFailed nid _ => Prealloc m nid ∧ ¬ Bound sbi m nid
  | .recoverInodePage ino _ => ino ∈ usableNids sbi
  | .recoverXattrData _ prevXnid _ _ _ _ => prevXnid = 0 ∨ InUse sbi m prevXnid
  | _ => True

instance (sbi : SbInfo) (m : NodeManager) (op : NidOp) : Decidable (op.Allowed sbi m) := by
  unfold NidOp.Allowed
  cases op <;> infer_instance

/-- One operation. -/
def NidOp.run (sbi : SbInfo) (m : NodeManager) : NidOp → Option NodeManager
  | .getNodeInfo nid nomem => some (m.getNodeInfo sbi nid nomem).2
  | .newNodePage nid ino => some (m.newNodePage nid ino)
  | .writeNodePage nid nomem newBlkaddr fsyncDone =>
    some (m.writeNodePage sbi nid nomem newBlkaddr fsyncDone)
  | .truncateNode nid nomem => some (m.truncateNode sbi nid nomem)
  | .flushNatEntries reason => (Node.flushNatEntries sbi reason m.nat).map ({ m with nat := · })
  | .tryToFreeNats nrShrink =>
    some { m with nat := { m.nat with cache := m.nat.cache.tryToFreeNats nrShrink } }
  | .allocNid fuel => (Node.allocNid sbi fuel m).map (·.2)
  | .allocNidDone nid => some (m.withFree (m.nat.free.allocNidDone nid))
  | .allocNidFailed nid mem => some (m.withFree (m.nat.free.allocNidFailed nid mem))
  | .buildFreeNids sync mem => some (Node.buildFreeNids sbi sync false mem m)
  | .tryToFreeNids nrShrink => some (m.withFree (m.nat.free.tryToFreeNids nrShrink))
  | .recoverInodePage ino nomem => some (m.recoverInodePage sbi ino nomem)
  | .recoverXattrData fuel prevXnid ino nomem pageErr mem =>
    m.recoverXattrData sbi fuel prevXnid ino nomem pageErr mem

/-- A step of a run: an operation whose callers keep their promises. -/
def nidOp (sbi : SbInfo) (m : NodeManager) (op : NidOp) : Option NodeManager :=
  if op.Allowed sbi m then op.run sbi m else none

end F2fs.Node

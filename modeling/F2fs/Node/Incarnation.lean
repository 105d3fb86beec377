/-
  The version of a nid over its incarnations.

  `set_node_addr` increments the version when a node that has an address is removed, and the
  cache, the journal and the NAT block carry it on.  `recover_inode_page` keeps it when the
  nid gets a node again, `new_node_page` sets it to 0.  `mismatched_iff` says when the version
  tells two incarnations apart.

  A run has the operations that read or set an entry.  `none` is what cannot happen: a new
  node for a nid that has one, the removal of a node that is not there, a block written to no
  address, an unmount with dirty entries.
-/
import F2fs.Node.NatOps

namespace F2fs.Node

open F2fs.Checkpoint

variable (sbi : SbInfo)

/-! ## Operations -/

/-- `new_node_page`, for a nid of `alloc_nid`. -/
def newNodePage (s : NatState) (nid ino : Nat) : Option NatState :=
  if (nodeInfo sbi s nid).blockAddr ≠ nullAddr then none
  else
    let newNi : NodeInfo := ⟨nid, ino, nullAddr, 0⟩
    some { s with cache := s.cache.setNodeAddr newNi newAddr false }

/-- `__write_node_page`, to the block that `allocate_data_block` finds. -/
def writeNodePage (s : NatState) (nid newBlkaddr : Nat) (fsyncDone nomem : Bool) :
    Option NatState :=
  let (ni, s) := getNodeInfo sbi s nid nomem
  -- this page is already truncated
  if ni.blkAddr = nullAddr then some s
  else if newBlkaddr = nullAddr ∨ newBlkaddr = newAddr then none
  else some { s with cache := s.cache.setNodeAddr ni newBlkaddr fsyncDone }

/-- `truncate_node`, and the removal of the old node in `recover_xattr_data`. -/
def truncateNode (s : NatState) (nid : Nat) (nomem : Bool) : Option NatState :=
  let (ni, s) := getNodeInfo sbi s nid nomem
  if ni.blkAddr = nullAddr then none
  else some { s with cache := s.cache.setNodeAddr ni nullAddr false }

/-- `recover_inode_page`, which returns `-EINVAL` for an inode that has an address. -/
def recoverInodePage (s : NatState) (ino : Nat) (nomem : Bool) : NatState :=
  let (oldNi, s) := getNodeInfo sbi s ino nomem
  if oldNi.blkAddr ≠ nullAddr then s
  else { s with cache := s.cache.setNodeAddr { oldNi with ino := ino } newAddr false }

/-- `destroy_node_manager` and `init_node_manager`. -/
def remount (s : NatState) : Option NatState :=
  if s.cache.dirtyNatCnt ≠ 0 then none else some { s with cache := NatCache.init }

inductive NodeOp where
  | getNodeInfo (nid : Nat) (nomem : Bool)
  | newNodePage (nid ino : Nat)
  | writeNodePage (nid newBlkaddr : Nat) (fsyncDone nomem : Bool)
  | truncateNode (nid : Nat) (nomem : Bool)
  | recoverInodePage (ino : Nat) (nomem : Bool)
  | flushNatEntries (reason : CpReason)
  | tryToFreeNats (nrShrink : Nat)
  | remount

def nodeStep (s : NatState) : NodeOp → Option NatState
  | .getNodeInfo nid nomem => some (getNodeInfo sbi s nid nomem).2
  | .newNodePage nid ino => newNodePage sbi s nid ino
  | .writeNodePage nid newBlkaddr fsyncDone nomem =>
    writeNodePage sbi s nid newBlkaddr fsyncDone nomem
  | .truncateNode nid nomem => truncateNode sbi s nid nomem
  | .recoverInodePage ino nomem => some (recoverInodePage sbi s ino nomem)
  | .flushNatEntries reason => flushNatEntries sbi reason s
  | .tryToFreeNats nrShrink => some { s with cache := s.cache.tryToFreeNats nrShrink }
  | .remount => remount s

/-- The part of `struct f2fs_summary` that names the owner of a block. -/
structure OwnerSummary where
  nid : Nat
  version : UInt8

/-- `get_node_info` and `set_summary`, when a data block of the node is allocated. -/
def ownerSummary (s : NatState) (nid : Nat) (nomem : Bool) : OwnerSummary :=
  ⟨nid, (getNodeInfo sbi s nid nomem).1.version⟩

/-- The version check of `is_alive`. -/
def mismatched (s : NatState) (sum : OwnerSummary) (nomem : Bool) : Bool :=
  sum.version != (getNodeInfo sbi s sum.nid nomem).1.version

/-! ## What becomes of a nid -/

/-- What an operation does to one nid. -/
inductive NidEvent where
  | fresh
  | recovered
  /-- `written`: the node has an address when it is removed. -/
  | removed (written : Bool)
  deriving DecidableEq, Repr

/-- The version of a nid, and whether it has a node. -/
structure Incarnation where
  version : UInt8
  live : Bool
  deriving DecidableEq, Repr

def Incarnation.after (i : Incarnation) : NidEvent → Incarnation
  | .fresh => ⟨0, true⟩
  | .recovered => ⟨i.version, true⟩
  | .removed written => ⟨if written then i.version + 1 else i.version, false⟩

/-- Only a nid without a node gets one, and only one with a node loses it. -/
def Incarnation.Allows (i : Incarnation) : NidEvent → Prop
  | .fresh | .recovered => i.live = false
  | .removed _ => i.live = true

def incarnation (s : NatState) (nid : Nat) : Incarnation :=
  ⟨(nodeInfo sbi s nid).version, decide ((nodeInfo sbi s nid).blockAddr ≠ nullAddr)⟩

/-- What an operation in state `s` means for `nid`. -/
def nidEvent (nid : Nat) (s : NatState) : NodeOp → Option NidEvent
  | .newNodePage n _ => if n = nid then some .fresh else none
  | .truncateNode n _ =>
    if n = nid then some (.removed (decide ((nodeInfo sbi s nid).blockAddr ≠ newAddr))) else none
  | .recoverInodePage n _ =>
    if n = nid ∧ (nodeInfo sbi s nid).blockAddr = nullAddr then some .recovered else none
  | _ => none

/-- The events of a nid in a run. -/
def nidEvents (nid : Nat) : NatState → List NodeOp → List NidEvent
  | _, [] => []
  | s, op :: ops =>
    (nidEvent sbi nid s op).toList ++
      match nodeStep sbi s op with
      | some s' => nidEvents nid s' ops
      | none => []

/-! ## One operation -/

variable {sbi}

theorem nidEvent_newNodePage (nid : Nat) (s : NatState) (n ino : Nat) :
    nidEvent sbi nid s (.newNodePage n ino) = if n = nid then some .fresh else none := rfl

theorem nidEvent_truncateNode (nid : Nat) (s : NatState) (n : Nat) (nomem : Bool) :
    nidEvent sbi nid s (.truncateNode n nomem) =
      if n = nid then some (.removed (decide ((nodeInfo sbi s nid).blockAddr ≠ newAddr)))
      else none := rfl

theorem nidEvent_recoverInodePage (nid : Nat) (s : NatState) (n : Nat) (nomem : Bool) :
    nidEvent sbi nid s (.recoverInodePage n nomem) =
      if n = nid ∧ (nodeInfo sbi s nid).blockAddr = nullAddr then some .recovered
      else none := rfl

/-- The entry that `set_node_addr` works on has the version and the address it was called
    with, if these are the ones of the nid or the nid is reallocated. -/
theorem nodeEntry_eq {s : NatState} {ni : NodeInfo} {newBlkaddr : Nat}
    (h : newBlkaddr = newAddr ∨ ((nodeInfo sbi s ni.nid).version = ni.version ∧
      (nodeInfo sbi s ni.nid).blockAddr = ni.blkAddr)) :
    (s.cache.nodeEntry ni newBlkaddr).version = ni.version ∧
      (s.cache.nodeEntry ni newBlkaddr).blkAddr = ni.blkAddr := by
  unfold NatCache.nodeEntry
  cases hl : s.cache.natRoot.lookup ni.nid with
  | none => exact ⟨rfl, rfl⟩
  | some e =>
    simp only
    by_cases hnew : newBlkaddr = newAddr
    · rw [if_pos hnew]
      exact ⟨rfl, rfl⟩
    · rw [if_neg hnew]
      rw [nodeInfo_of_lookup hl] at h
      exact h.resolve_left hnew

/-- The version and the address after `set_node_addr`, for any nid. -/
theorem incarnation_setNodeAddr {s : NatState} (hwf : s.Wf sbi) (ni : NodeInfo)
    (newBlkaddr : Nat) (fsyncDone : Bool)
    (h : newBlkaddr = newAddr ∨ ((nodeInfo sbi s ni.nid).version = ni.version ∧
      (nodeInfo sbi s ni.nid).blockAddr = ni.blkAddr)) (nid : Nat) :
    incarnation sbi { s with cache := s.cache.setNodeAddr ni newBlkaddr fsyncDone } nid =
      if nid = ni.nid then
        ⟨if ni.blkAddr ≠ newAddr ∧ newBlkaddr = nullAddr then ni.version + 1 else ni.version,
          decide (newBlkaddr ≠ nullAddr)⟩
      else incarnation sbi s nid := by
  have hinfo := (setNodeAddr_nodeInfo hwf ni newBlkaddr fsyncDone).2 nid
  rw [incarnation, hinfo]
  by_cases hnid : nid = ni.nid
  · obtain ⟨hversion, haddr⟩ := nodeEntry_eq h
    rw [if_pos hnid, if_pos hnid, ← hversion, ← haddr]
    rfl
  · rw [if_neg hnid, if_neg hnid]
    rfl

/-- `s'` is a state between operations in which `nid` has met `event`. -/
structure Met (sbi : SbInfo) (nid : Nat) (s s' : NatState) (event : Option NidEvent) : Prop where
  wf : s'.Wf sbi
  allowed : ∀ e, event = some e → (incarnation sbi s nid).Allows e
  after : incarnation sbi s' nid = event.elim (incarnation sbi s nid) (incarnation sbi s nid).after

/-- Where every value stays, the nid has met nothing. -/
theorem Met.quiet {s s' : NatState} {nid : Nat} (hwf : s'.Wf sbi)
    (h : nodeInfo sbi s' nid = nodeInfo sbi s nid) : Met sbi nid s s' none where
  wf := hwf
  allowed := nofun
  after := by
    rw [incarnation, h]
    rfl

section

variable {s s' : NatState} (hwf : s.Wf sbi) (nid : Nat)

include hwf

theorem newNodePage_met {n ino : Nat} (h : newNodePage sbi s n ino = some s') :
    Met sbi nid s s' (nidEvent sbi nid s (.newNodePage n ino)) := by
  unfold newNodePage at h
  split_ifs at h with hfree
  cases h
  have hafter := incarnation_setNodeAddr hwf ⟨n, ino, nullAddr, 0⟩ newAddr false (Or.inl rfl) nid
  have hwf' := (setNodeAddr_nodeInfo hwf ⟨n, ino, nullAddr, 0⟩ newAddr false).1
  by_cases hn : n = nid
  · subst hn
    rw [nidEvent_newNodePage, if_pos rfl]
    refine ⟨hwf', fun e he => ?_, ?_⟩
    · cases he
      exact decide_eq_false hfree
    · rw [hafter, if_pos rfl]
      rfl
  · rw [nidEvent_newNodePage, if_neg hn]
    exact ⟨hwf', nofun, by rw [hafter, if_neg (Ne.symm hn)]; rfl⟩

/-- `get_node_info` changes no value. -/
theorem getNodeInfo_value (n : Nat) (nomem : Bool) :
    ∃ s₁, getNodeInfo sbi s n nomem = (NodeInfo.ofRaw n (nodeInfo sbi s n), s₁) ∧ s₁.Wf sbi ∧
      ∀ m, nodeInfo sbi s₁ m = nodeInfo sbi s m := by
  obtain ⟨hwf', hinfo, -, -⟩ := getNodeInfo_spec hwf n nomem
  exact ⟨_, Prod.ext (getNodeInfo_fst s n nomem) rfl, hwf', hinfo⟩

omit hwf in
/-- `set_node_addr` of a node as it was read. -/
theorem incarnation_reset {s₁ : NatState} (hwf₁ : s₁.Wf sbi)
    (hinfo : ∀ m, nodeInfo sbi s₁ m = nodeInfo sbi s m) (n ino newBlkaddr : Nat)
    (fsyncDone : Bool) :
    incarnation sbi
      { s₁ with
        cache := s₁.cache.setNodeAddr { NodeInfo.ofRaw n (nodeInfo sbi s n) with ino := ino }
          newBlkaddr fsyncDone } nid =
      if nid = n then
        ⟨if (nodeInfo sbi s n).blockAddr ≠ newAddr ∧ newBlkaddr = nullAddr then
            (nodeInfo sbi s n).version + 1 else (nodeInfo sbi s n).version,
          decide (newBlkaddr ≠ nullAddr)⟩
      else incarnation sbi s nid := by
  have hvalue : (nodeInfo sbi s₁ n).version = (nodeInfo sbi s n).version ∧
      (nodeInfo sbi s₁ n).blockAddr = (nodeInfo sbi s n).blockAddr := by
    rw [hinfo]
    exact ⟨rfl, rfl⟩
  have hsame : incarnation sbi s₁ nid = incarnation sbi s nid := by
    rw [incarnation, hinfo]
    rfl
  rw [← hsame]
  exact incarnation_setNodeAddr hwf₁ { NodeInfo.ofRaw n (nodeInfo sbi s n) with ino := ino }
    newBlkaddr fsyncDone (Or.inr hvalue) nid

theorem writeNodePage_met {n newBlkaddr : Nat} {fsyncDone nomem : Bool}
    (h : writeNodePage sbi s n newBlkaddr fsyncDone nomem = some s') : Met sbi nid s s' none := by
  obtain ⟨s₁, hget, hwf₁, hinfo⟩ := getNodeInfo_value hwf n nomem
  rw [writeNodePage, hget] at h
  dsimp only at h
  split_ifs at h with hgone haddr
  · cases h
    exact .quiet hwf₁ (hinfo nid)
  · cases h
    rw [not_or] at haddr
    refine ⟨(setNodeAddr_nodeInfo hwf₁ _ newBlkaddr fsyncDone).1, nofun, ?_⟩
    refine (incarnation_reset nid hwf₁ hinfo n (nodeInfo sbi s n).ino newBlkaddr
      fsyncDone).trans ?_
    by_cases hn : nid = n
    · have hlive : (nodeInfo sbi s n).blockAddr ≠ nullAddr := hgone
      rw [if_pos hn, if_neg (fun hboth => haddr.1 hboth.2), decide_eq_true haddr.1,
        ← decide_eq_true hlive, ← hn]
      rfl
    · rw [if_neg hn]
      rfl

theorem truncateNode_met {n : Nat} {nomem : Bool}
    (h : truncateNode sbi s n nomem = some s') :
    Met sbi nid s s' (nidEvent sbi nid s (.truncateNode n nomem)) := by
  obtain ⟨s₁, hget, hwf₁, hinfo⟩ := getNodeInfo_value hwf n nomem
  rw [truncateNode, hget] at h
  dsimp only at h
  split_ifs at h with hgone
  cases h
  have hwf' := (setNodeAddr_nodeInfo hwf₁ (NodeInfo.ofRaw n (nodeInfo sbi s n)) nullAddr false).1
  have hafter := incarnation_reset (s := s) nid hwf₁ hinfo n (nodeInfo sbi s n).ino nullAddr false
  by_cases hn : n = nid
  · rw [nidEvent_truncateNode, if_pos hn]
    refine ⟨hwf', fun e he => ?_, hafter.trans ?_⟩
    · cases he
      exact decide_eq_true (hn ▸ hgone)
    · rw [if_pos hn.symm, hn, decide_eq_false (not_not.mpr rfl)]
      by_cases hnew : (nodeInfo sbi s nid).blockAddr ≠ newAddr
      · rw [if_pos ⟨hnew, rfl⟩, decide_eq_true hnew]
        rfl
      · rw [if_neg (fun hboth => hnew hboth.1), decide_eq_false hnew]
        rfl
  · rw [nidEvent_truncateNode, if_neg hn]
    exact ⟨hwf', nofun, hafter.trans (if_neg (Ne.symm hn))⟩

theorem recoverInodePage_met (n : Nat) (nomem : Bool) :
    Met sbi nid s (recoverInodePage sbi s n nomem)
      (nidEvent sbi nid s (.recoverInodePage n nomem)) := by
  obtain ⟨s₁, hget, hwf₁, hinfo⟩ := getNodeInfo_value hwf n nomem
  rw [recoverInodePage, hget, nidEvent_recoverInodePage]
  dsimp only
  by_cases hlive : (NodeInfo.ofRaw n (nodeInfo sbi s n)).blkAddr ≠ nullAddr
  · rw [if_pos hlive, if_neg]
    · exact .quiet hwf₁ (hinfo nid)
    · rintro ⟨hn, hnull⟩
      exact hlive (hn ▸ hnull)
  · have hnull : (nodeInfo sbi s n).blockAddr = nullAddr := not_not.mp hlive
    have hafter := incarnation_reset (s := s) nid hwf₁ hinfo n n newAddr false
    have hwf' := (setNodeAddr_nodeInfo hwf₁
      { NodeInfo.ofRaw n (nodeInfo sbi s n) with ino := n } newAddr false).1
    rw [if_neg hlive]
    by_cases hn : n = nid
    · rw [if_pos ⟨hn, hn ▸ hnull⟩]
      refine ⟨hwf', fun e he => ?_, hafter.trans ?_⟩
      · cases he
        exact decide_eq_false (not_not.mpr (hn ▸ hnull))
      · rw [if_pos hn.symm, if_neg (fun hboth => absurd hboth.2 (by decide)), hn,
          decide_eq_true (show newAddr ≠ nullAddr by decide)]
        rfl
    · rw [if_neg (fun hboth => hn hboth.1)]
      exact ⟨hwf', nofun, hafter.trans (if_neg (Ne.symm hn))⟩

theorem remount_met (h : remount s = some s') : Met sbi nid s s' none := by
  unfold remount at h
  split_ifs at h with hdirty
  cases h
  refine .quiet ⟨NatCache.inv_init, hwf.distinct, hwf.le, nofun⟩ ?_
  show persisted sbi s nid = nodeInfo sbi s nid
  rw [nodeInfo]
  cases hl : s.cache.natRoot.lookup nid with
  | none => rfl
  | some e =>
    refine (hwf.coherent nid e hl ?_).symm
    -- nothing is dirty
    have hnone : s.cache.dirtyKeys = ∅ := by
      rw [← Finset.card_eq_zero, ← hwf.cache.dirtyCnt]
      exact not_not.mp hdirty
    have hclean : ¬s.cache.dirty nid = true := by
      rw [← NatCache.mem_dirtyKeys, hnone]
      exact Finset.notMem_empty nid
    rw [NatCache.dirty_of_lookup hl] at hclean
    exact eq_false_of_ne_true hclean

/-- What one operation does to a nid. -/
theorem nodeStep_met {op : NodeOp} (h : nodeStep sbi s op = some s') :
    Met sbi nid s s' (nidEvent sbi nid s op) := by
  cases op with
  | getNodeInfo n nomem =>
    obtain ⟨s₁, hget, hwf₁, hinfo⟩ := getNodeInfo_value hwf n nomem
    rw [nodeStep, hget] at h
    cases h
    exact .quiet hwf₁ (hinfo nid)
  | newNodePage n ino => exact newNodePage_met hwf nid h
  | writeNodePage n newBlkaddr fsyncDone nomem => exact writeNodePage_met hwf nid h
  | truncateNode n nomem => exact truncateNode_met hwf nid h
  | recoverInodePage n nomem =>
    cases h
    exact recoverInodePage_met hwf nid n nomem
  | flushNatEntries reason =>
    obtain ⟨s₁, hrun, hwf₁, hinfo, -⟩ := flushNatEntries_entry hwf reason
    rw [nodeStep, hrun] at h
    cases h
    exact .quiet hwf₁ (hinfo nid)
  | tryToFreeNats nrShrink =>
    cases h
    obtain ⟨hwf₁, hinfo⟩ := tryToFreeNats_nodeInfo hwf nrShrink
    exact .quiet hwf₁ (hinfo nid)
  | remount => exact remount_met hwf nid h

end

/-! ## Runs -/

/-- Events that can follow one another. -/
def Incarnation.AllowsAll : Incarnation → List NidEvent → Prop
  | _, [] => True
  | i, e :: es => i.Allows e ∧ (i.after e).AllowsAll es

/-- What a run does to a nid: its events, one after the other. -/
theorem nodeRun_met (nid : Nat) : ∀ (ops : List NodeOp) {s s' : NatState}, s.Wf sbi →
    ops.foldlM (nodeStep sbi) s = some s' →
    s'.Wf sbi ∧ (incarnation sbi s nid).AllowsAll (nidEvents sbi nid s ops) ∧
      incarnation sbi s' nid =
        (nidEvents sbi nid s ops).foldl Incarnation.after (incarnation sbi s nid) := by
  intro ops
  induction ops with
  | nil =>
    intro s s' hwf hrun
    cases hrun
    exact ⟨hwf, trivial, rfl⟩
  | cons op ops ih =>
    intro s s' hwf hrun
    rw [List.foldlM_cons] at hrun
    obtain ⟨s₁, hstep, hrest⟩ := Option.bind_eq_some_iff.mp hrun
    have hmet := nodeStep_met hwf nid hstep
    obtain ⟨hwf', hallows, hafter⟩ := ih hmet.wf hrest
    rw [nidEvents, hstep]
    dsimp only
    cases hevent : nidEvent sbi nid s op with
    | none =>
      have hsame := hmet.after
      rw [hevent, Option.elim_none] at hsame
      rw [hsame] at hallows hafter
      exact ⟨hwf', hallows, hafter⟩
    | some e =>
      have hnext := hmet.after
      rw [hevent, Option.elim_some] at hnext
      rw [hnext] at hallows hafter
      exact ⟨hwf', ⟨hmet.allowed e hevent, hallows⟩, hafter⟩

def NidEvent.allocates : NidEvent → Bool
  | .fresh | .recovered => true
  | .removed _ => false

/-- How often the nid gets a node. -/
def allocations (es : List NidEvent) : Nat := es.countP (·.allocates)

def removals (es : List NidEvent) : Nat := es.countP (!·.allocates)

/-- Allocations and removals alternate. -/
theorem allocations_add : ∀ (es : List NidEvent) {i : Incarnation}, i.AllowsAll es →
    allocations es + i.live.toNat = removals es + (es.foldl Incarnation.after i).live.toNat := by
  intro es
  induction es with
  | nil => exact fun _ => rfl
  | cons e es ih =>
    intro i h
    obtain ⟨hallow, hrest⟩ := h
    have hes := ih hrest
    rw [List.foldl_cons, allocations, removals, List.countP_cons, List.countP_cons]
    unfold allocations removals at hes
    cases e with
    | fresh =>
      rw [show i.live = false from hallow]
      simp only [Incarnation.after, NidEvent.allocates, Bool.toNat_true, Bool.toNat_false,
        if_true, Bool.not_true, Bool.false_eq_true, if_false] at hes ⊢
      omega
    | recovered =>
      rw [show i.live = false from hallow]
      simp only [Incarnation.after, NidEvent.allocates, Bool.toNat_true, Bool.toNat_false,
        if_true, Bool.not_true, Bool.false_eq_true, if_false] at hes ⊢
      omega
    | removed written =>
      rw [show i.live = true from hallow]
      simp only [Incarnation.after, NidEvent.allocates, Bool.toNat_true, Bool.toNat_false,
        if_true, Bool.not_false, Bool.false_eq_true, if_false] at hes ⊢
      omega

/-- The removals of a node with an address since the nid last went through `new_node_page`,
    on top of `n`. -/
def countWritten (n : Nat) : NidEvent → Nat
  | .fresh => 0
  | .recovered => n
  | .removed written => if written then n + 1 else n

def writtenSinceFresh (es : List NidEvent) : Nat := es.foldl countWritten 0

theorem writtenSinceFresh_le (es : List NidEvent) : writtenSinceFresh es ≤ removals es := by
  have hloop : ∀ (es : List NidEvent) (n : Nat), es.foldl countWritten n ≤ n + removals es := by
    intro es
    induction es with
    | nil => exact fun n => Nat.le_refl n
    | cons e es ih =>
      intro n
      have hes := ih (countWritten n e)
      rw [List.foldl_cons, removals, List.countP_cons]
      unfold removals at hes
      cases e with
      | fresh =>
        simp only [countWritten, NidEvent.allocates] at hes ⊢
        omega
      | recovered =>
        simp only [countWritten, NidEvent.allocates] at hes ⊢
        omega
      | removed written =>
        cases written with
        | false =>
          simp only [countWritten, NidEvent.allocates, Bool.false_eq_true, if_false] at hes ⊢
          omega
        | true =>
          simp only [countWritten, NidEvent.allocates, if_true, Bool.not_false] at hes ⊢
          omega
  exact (hloop es 0).trans (Nat.le_of_eq (Nat.zero_add _))

/-- The version after a run. -/
theorem version_foldl (es : List NidEvent) (i : Incarnation) :
    (es.foldl Incarnation.after i).version =
      (if .fresh ∈ es then 0 else i.version) + UInt8.ofNat (writtenSinceFresh es) := by
  induction es using List.reverseRecOn with
  | nil => simp [writtenSinceFresh]
  | append_singleton es e ih =>
    rw [writtenSinceFresh, List.foldl_append, List.foldl_append, List.foldl_cons, List.foldl_nil,
      List.foldl_cons, List.foldl_nil, ← writtenSinceFresh]
    cases e with
    | fresh =>
      rw [if_pos (List.mem_append_right es List.mem_cons_self)]
      rfl
    | recovered =>
      have hmem : NidEvent.fresh ∈ es ++ [.recovered] ↔ NidEvent.fresh ∈ es := by simp
      simp only [hmem]
      exact ih
    | removed written =>
      have hmem : NidEvent.fresh ∈ es ++ [.removed written] ↔ NidEvent.fresh ∈ es := by simp
      simp only [hmem]
      cases written with
      | false => exact ih
      | true =>
        show (es.foldl Incarnation.after i).version + 1 = _ + UInt8.ofNat (writtenSinceFresh es + 1)
        rw [ih, UInt8.ofNat_add, UInt8.add_assoc]
        rfl

/-! ## Two looks at a nid -/

/-- The versions differ: with a `new_node_page` in between, the one before is not the number
    of removals since; else one of the removed nodes had an address. -/
def TellsApart (version : UInt8) (es : List NidEvent) : Prop :=
  if .fresh ∈ es then version.toNat ≠ writtenSinceFresh es else writtenSinceFresh es ≠ 0

instance (version : UInt8) (es : List NidEvent) : Decidable (TellsApart version es) := by
  unfold TellsApart
  infer_instance

/-- Fewer than 256 removals do not bring a version back. -/
theorem version_ne_iff (es : List NidEvent) (i : Incarnation)
    (hfew : writtenSinceFresh es < 256) :
    i.version ≠ (es.foldl Incarnation.after i).version ↔ TellsApart i.version es := by
  have hcount : (UInt8.ofNat (writtenSinceFresh es)).toNat = writtenSinceFresh es :=
    UInt8.toNat_ofNat_of_lt' hfew
  have hv := i.version.toNat_lt
  rw [version_foldl, TellsApart, ne_eq, ← UInt8.toNat_inj, UInt8.toNat_add, hcount]
  by_cases hfresh : NidEvent.fresh ∈ es
  · rw [if_pos hfresh, if_pos hfresh, UInt8.toNat_zero, Nat.zero_add, Nat.mod_eq_of_lt hfew]
  · rw [if_neg hfresh, if_neg hfresh]
    omega

/-- The states of a mount are states between operations. -/
theorem wf_mount {image : NatState} (hdistinct : image.journal.Distinct)
    (hle : image.journal.n ≤ natJournalEntries) :
    ({ image with cache := NatCache.init } : NatState).Wf sbi :=
  ⟨NatCache.inv_init, hdistinct, hle, nofun⟩

/-- In every run from a mount on, between any two looks with fewer than 256 allocations of the
    nid in between, the version check of `is_alive` finds the summary of the first look stale
    exactly if the operations in between tell the incarnations apart. -/
theorem mismatched_iff (sbi : SbInfo) (image s s' : NatState) (before between : List NodeOp)
    (nid : Nat) (nomem nomem' : Bool) (hdistinct : image.journal.Distinct)
    (hle : image.journal.n ≤ natJournalEntries)
    (hbefore : before.foldlM (nodeStep sbi) { image with cache := NatCache.init } = some s)
    (hbetween : between.foldlM (nodeStep sbi) s = some s')
    (hlive : (nodeInfo sbi s' nid).blockAddr ≠ nullAddr)
    (hfew : allocations (nidEvents sbi nid s between) < 256) :
    mismatched sbi s' (ownerSummary sbi s nid nomem) nomem' = true ↔
      TellsApart (nodeInfo sbi s nid).version (nidEvents sbi nid s between) := by
  obtain ⟨hwf, -, -⟩ := nodeRun_met nid before (wf_mount hdistinct hle) hbefore
  obtain ⟨-, hallows, hafter⟩ := nodeRun_met nid between hwf hbetween
  have hbalance := allocations_add _ hallows
  have hlive' : (incarnation sbi s' nid).live = true := decide_eq_true hlive
  rw [← hafter, hlive', Bool.toNat_true] at hbalance
  have hbool := (incarnation sbi s nid).live.toNat_le
  have hle' := writtenSinceFresh_le (nidEvents sbi nid s between)
  have hne := version_ne_iff (nidEvents sbi nid s between) (incarnation sbi s nid) (by omega)
  rw [← hafter] at hne
  rw [mismatched, ownerSummary, getNodeInfo_fst, getNodeInfo_fst, bne_iff_ne]
  exact hne

/-! ### A node created, removed and created again -/

/-- A volume without any node. -/
def formatted : NatState where
  cache := NatCache.init
  free := FreeNidInfo.init 0
  journal := ⟨0, fun _ => (0, {})⟩
  pages := fun _ _ => {}
  natBitmap := fun _ => false
  natBitsFlag := false
  fullNatBits := fun _ => false
  emptyNatBits := fun _ => false

def createOps : List NodeOp := [.newNodePage 5 5, .writeNodePage 5 6000 false false]

def recreateOps : List NodeOp :=
  [.truncateNode 5 false, .flushNatEntries {}, .newNodePage 5 5]

theorem recreate_mismatched : ∃ s s',
    createOps.foldlM (nodeStep smallSbi) formatted = some s ∧
      recreateOps.foldlM (nodeStep smallSbi) s = some s' ∧
      (mismatched smallSbi s' (ownerSummary smallSbi s 5 false) false = true ↔
        TellsApart (nodeInfo smallSbi s 5).version (nidEvents smallSbi 5 s recreateOps)) := by
  have hrun : ((createOps.foldlM (nodeStep smallSbi) formatted).bind fun s =>
      (recreateOps.foldlM (nodeStep smallSbi) s).map fun s' =>
        ((nodeInfo smallSbi s' 5).blockAddr,
          allocations (nidEvents smallSbi 5 s recreateOps))) = some (newAddr, 1) := by
    decide +kernel
  obtain ⟨s, hs, hrest⟩ := Option.bind_eq_some_iff.mp hrun
  obtain ⟨s', hs', hend⟩ := Option.map_eq_some_iff.mp hrest
  obtain ⟨haddr, hallocs⟩ := Prod.mk.inj hend
  exact ⟨s, s', hs, hs', mismatched_iff smallSbi formatted s s' createOps recreateOps 5 false
    false (fun _ _ hi => absurd hi (Nat.not_lt_zero _)) (by decide) hs hs'
    (by rw [haddr]; decide) (by rw [hallocs]; decide)⟩

/-- The node is removed with an address and the nid gets a new one: the summaries of the old
    node still match. -/
theorem recreate_matches :
    ((createOps.foldlM (nodeStep smallSbi) formatted).bind fun s =>
      (recreateOps.foldlM (nodeStep smallSbi) s).map fun s' =>
        (nidEvents smallSbi 5 s recreateOps,
          mismatched smallSbi s' (ownerSummary smallSbi s 5 false) false)) =
      some ([.removed true, .fresh], false) := by
  decide +kernel

/-! ### Without a roll-forward -/

def NodeOp.recovers : NodeOp → Bool
  | .recoverInodePage _ _ => true
  | _ => false

theorem nidEvent_ne_recovered (nid : Nat) (s : NatState) {op : NodeOp} (h : op.recovers = false) :
    nidEvent sbi nid s op ≠ some .recovered := by
  intro hevent
  cases op with
  | recoverInodePage ino nomem => cases h
  | newNodePage n ino =>
    rw [nidEvent_newNodePage] at hevent
    split_ifs at hevent
    cases hevent
  | truncateNode n nomem =>
    rw [nidEvent_truncateNode] at hevent
    split_ifs at hevent
    cases hevent
  | getNodeInfo n nomem => cases hevent
  | writeNodePage n newBlkaddr fsyncDone nomem => cases hevent
  | flushNatEntries reason => cases hevent
  | tryToFreeNats nrShrink => cases hevent
  | remount => cases hevent

variable (sbi) in
theorem recovered_notMem (nid : Nat) : ∀ (ops : List NodeOp) (s : NatState),
    (∀ op ∈ ops, op.recovers = false) → NidEvent.recovered ∉ nidEvents sbi nid s ops := by
  intro ops
  induction ops with
  | nil => exact fun _ _ => List.not_mem_nil
  | cons op ops ih =>
    intro s hops hmem
    rw [nidEvents, List.mem_append] at hmem
    rcases hmem with hfirst | hrest
    · exact nidEvent_ne_recovered nid s (hops op List.mem_cons_self) (Option.mem_toList.mp hfirst)
    · cases hstep : nodeStep sbi s op with
      | none =>
        rw [hstep] at hrest
        exact absurd hrest List.not_mem_nil
      | some s₁ =>
        rw [hstep] at hrest
        exact ih s₁ (fun op' hop' => hops op' (List.mem_cons_of_mem _ hop')) hrest

/-- Every node has version 0, and so a nid that gets a new one. -/
theorem foldl_plain : ∀ (es : List NidEvent) {i : Incarnation}, NidEvent.recovered ∉ es →
    (i.live = true → i.version = 0) →
    (es.foldl Incarnation.after i).live = true → (es.foldl Incarnation.after i).version = 0 := by
  intro es
  induction es with
  | nil => exact fun _ h => h
  | cons e es ih =>
    intro i hnone h
    rw [List.mem_cons, not_or] at hnone
    refine ih hnone.2 ?_
    cases e with
    | fresh => exact fun _ => rfl
    | recovered => exact absurd rfl hnone.1
    | removed written => exact nofun

/-- On a volume whose nodes have version 0, without `recover_inode_page`, every node has
    version 0 at any time, however often its nid was reused: no summary is ever found stale. -/
theorem matches_of_noRecovery (image s s' : NatState) (before between : List NodeOp) (nid : Nat)
    (nomem nomem' : Bool) (hdistinct : image.journal.Distinct)
    (hle : image.journal.n ≤ natJournalEntries)
    (hzero : (persisted sbi image nid).blockAddr ≠ nullAddr →
      (persisted sbi image nid).version = 0)
    (hbefore : before.foldlM (nodeStep sbi) { image with cache := NatCache.init } = some s)
    (hbetween : between.foldlM (nodeStep sbi) s = some s')
    (hops : ∀ op ∈ before ++ between, op.recovers = false)
    (hlive : (nodeInfo sbi s nid).blockAddr ≠ nullAddr)
    (hlive' : (nodeInfo sbi s' nid).blockAddr ≠ nullAddr) :
    mismatched sbi s' (ownerSummary sbi s nid nomem) nomem' = false := by
  obtain ⟨hwf, -, hs⟩ := nodeRun_met nid before (wf_mount hdistinct hle) hbefore
  obtain ⟨-, -, hs'⟩ := nodeRun_met nid between hwf hbetween
  have hbefore' := recovered_notMem sbi nid before { image with cache := NatCache.init }
    fun op hop => hops op (List.mem_append_left _ hop)
  have hbetween' := recovered_notMem sbi nid between s
    fun op hop => hops op (List.mem_append_right _ hop)
  have hplain : (incarnation sbi s nid).live = true → (incarnation sbi s nid).version = 0 := by
    rw [hs]
    exact foldl_plain _ hbefore' fun h => hzero (of_decide_eq_true h)
  have hplain' : (incarnation sbi s' nid).live = true → (incarnation sbi s' nid).version = 0 := by
    rw [hs']
    exact foldl_plain _ hbetween' hplain
  have hversion : (nodeInfo sbi s nid).version = 0 := hplain (decide_eq_true hlive)
  have hversion' : (nodeInfo sbi s' nid).version = 0 := hplain' (decide_eq_true hlive')
  rw [mismatched, ownerSummary, getNodeInfo_fst, getNodeInfo_fst]
  show ((nodeInfo sbi s nid).version != (nodeInfo sbi s' nid).version) = false
  rw [hversion, hversion']
  rfl

theorem matches_of_noRecovery_recreated : ∃ s s',
    createOps.foldlM (nodeStep smallSbi) formatted = some s ∧
      recreateOps.foldlM (nodeStep smallSbi) s = some s' ∧
      mismatched smallSbi s' (ownerSummary smallSbi s 5 false) false = false := by
  have hrun : ((createOps.foldlM (nodeStep smallSbi) formatted).bind fun s =>
      (recreateOps.foldlM (nodeStep smallSbi) s).map fun s' =>
        ((nodeInfo smallSbi s 5).blockAddr, (nodeInfo smallSbi s' 5).blockAddr)) =
      some (6000, newAddr) := by
    decide +kernel
  obtain ⟨s, hs, hrest⟩ := Option.bind_eq_some_iff.mp hrun
  obtain ⟨s', hs', hend⟩ := Option.map_eq_some_iff.mp hrest
  obtain ⟨haddr, haddr'⟩ := Prod.mk.inj hend
  exact ⟨s, s', hs, hs', matches_of_noRecovery formatted s s' createOps recreateOps 5 false false
    (fun _ _ hi => absurd hi (Nat.not_lt_zero _)) (by decide) (fun _ => by decide) hs hs'
    (by decide) (by rw [haddr]; decide) (by rw [haddr']; decide)⟩

end F2fs.Node

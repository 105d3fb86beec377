/-
  What a successful `f2fs_do_sync_file` leaves for roll-forward recovery.

  `Recoverable`: the last dnode of the inode written since the checkpoint has the
  fsync mark, and an inode that is not in the checkpoint has an inode block with both
  marks.  `need_inode_block_update` infers this from three flags of the inode's NAT
  entry.  `NodeInv` says what the flags mean; it is kept by every step but one kind:
  `Renews`, a step that gives the entry the flags of `nat_reset_flag`, `HAS_LAST_FSYNC`
  and `IS_CHECKPOINTED` among them.  That happens when an entry the shrinker dropped is
  read back, and when a NAT flush writes the entry, which is before its checkpoint
  commits.

  `sync_file_recoverable`: in a run whose renewing steps all find the inode recoverable,
  every call that returns 0 saw it recoverable at its last test.  `stale_run` is a run
  without that condition: the entry is read back after an unmarked dnode.
-/
import F2fs.File.SyncFile

namespace F2fs.File

open F2fs.Checkpoint F2fs.Node

variable {sbi : SbInfo}

/-! ## Recoverable inodes -/

/-- The dnodes of the inode in the log, newest first. -/
def dnodesOf (ino : Nat) (log : List NodeWrite) : List NodeWrite :=
  log.filter fun w => decide (w.ino = ino) && w.isDnode

/-- The last dnode written carries the fsync mark. -/
def LastMarked (ino : Nat) (log : List NodeWrite) : Prop :=
  ∀ w, (dnodesOf ino log).head? = some w → w.isFsyncDnode = true

/-- Some inode block written carries the fsync and the dentry mark. -/
def InodeMarked (ino : Nat) (log : List NodeWrite) : Prop :=
  ∃ w ∈ dnodesOf ino log, w.nid = ino ∧ w.isFsyncDnode = true ∧ w.isDentDnode = true

/-- `inCp`: the inode is in the checkpoint. -/
def Recoverable (inCp : Prop) (ino : Nat) (log : List NodeWrite) : Prop :=
  LastMarked ino log ∧ (¬ inCp → InodeMarked ino log)

theorem mem_dnodesOf {ino : Nat} {log : List NodeWrite} {w : NodeWrite} :
    w ∈ dnodesOf ino log ↔ w ∈ log ∧ w.ino = ino ∧ w.isDnode = true := by
  unfold dnodesOf
  rw [List.mem_filter, Bool.and_eq_true, decide_eq_true_eq]

theorem dnodesOf_cons_of_ne {ino : Nat} {log : List NodeWrite} {w : NodeWrite}
    (h : w.ino ≠ ino) : dnodesOf ino (w :: log) = dnodesOf ino log := by
  unfold dnodesOf
  rw [List.filter_cons_of_neg (by simp [h])]

theorem InodeMarked.cons {ino : Nat} {log : List NodeWrite} (h : InodeMarked ino log)
    (w : NodeWrite) : InodeMarked ino (w :: log) := by
  obtain ⟨v, hv, hmarks⟩ := h
  rw [mem_dnodesOf] at hv
  exact ⟨v, mem_dnodesOf.mpr ⟨List.mem_cons_of_mem _ hv.1, hv.2⟩, hmarks⟩

/-- A marked dnode is the last one written. -/
theorem lastMarked_cons {ino : Nat} {log : List NodeWrite} {w : NodeWrite}
    (hf : w.isFsyncDnode = true) (hd : w.isDnode = true) (hino : w.ino = ino) :
    LastMarked ino (w :: log) := by
  intro v hv
  unfold dnodesOf at hv
  rw [List.filter_cons_of_pos (by simp [hd, hino])] at hv
  rw [← Option.some.inj hv, hf]

/-! ## The invariant -/

/-- What the flags of the inode's NAT entry say about the log. -/
structure NodeInv (sbi : SbInfo) (inCp : Prop) (ino : Nat) (s : Nodes) : Prop where
  wf : s.nm.Wf sbi
  /-- The NAT and the footer agree on the inode of a node. -/
  inoAgree : ∀ nid, s.blkAddr sbi nid ≠ nullAddr →
    (nodeInfo sbi s.nm nid).ino = (s.pages nid).ino
  /-- Only dnodes are marked. -/
  marks : ∀ nid, (s.pages nid).isFsyncDnode = true → (s.pages nid).isDnode = true
  /-- `HAS_LAST_FSYNC` -/
  last : s.Exists sbi ino → ∀ e, s.nm.cache.natRoot.lookup ino = some e →
    e.hasLastFsync = true → LastMarked ino s.log
  /-- Until an inode block has both marks, the entry of a new inode stays in the cache,
      with neither `IS_CHECKPOINTED` nor `HAS_FSYNCED_INODE`. -/
  unmarked : s.Exists sbi ino → ¬ inCp → ¬ InodeMarked ino s.log →
    ∃ e, s.nm.cache.natRoot.lookup ino = some e ∧ e.isDirty = true ∧
      e.isCheckpointed = false ∧ e.hasFsyncedInode = false
  /-- Its page has no mark that a rewrite would repeat. -/
  stale : s.Exists sbi ino → ¬ inCp → ¬ InodeMarked ino s.log → s.cpError = false →
    (s.pages ino).isFsyncDnode = false
  unborn : ¬ s.Exists sbi ino → ∀ e, s.nm.cache.natRoot.lookup ino = some e →
    e.hasFsyncedInode = false

/-- The step gives the NAT entry of the inode the flags of `nat_reset_flag`. -/
def Renews (ino : Nat) (s : Nodes) : NodeOp → Prop
  | .getNodeInfo nid nomem =>
    nid = ino ∧ nomem = false ∧ s.nm.cache.natRoot.lookup ino = none
  | .flushNatEntries reason => FlushRenews reason s.nm ino
  | _ => False

/-- The step renews the entry of an existing inode only when it is recoverable. -/
def RenewOk (sbi : SbInfo) (inCp : Prop) (ino : Nat) (s : Nodes) (op : NodeOp) : Prop :=
  Renews ino s op → s.Exists sbi ino → Recoverable inCp ino s.log

/-- `need_inode_block_update` is right about what was written. -/
theorem NodeInv.recoverable {inCp : Prop} {ino : Nat} {s : Nodes} (h : NodeInv sbi inCp ino s)
    (hex : s.Exists sbi ino) (htest : s.nm.cache.needInodeBlockUpdate ino = false) :
    Recoverable inCp ino s.log := by
  unfold NatCache.needInodeBlockUpdate at htest
  cases hl : s.nm.cache.natRoot.lookup ino with
  | none => rw [hl] at htest; cases htest
  | some e =>
      rw [hl] at htest
      simp only [Bool.not_eq_false', Bool.and_eq_true, Bool.or_eq_true] at htest
      refine ⟨h.last hex e hl htest.1, fun hcp => ?_⟩
      by_contra hno
      obtain ⟨e', he', -, hckpt, hfsynced⟩ := h.unmarked hex hcp hno
      rw [hl] at he'
      rw [← Option.some.inj he'] at hckpt hfsynced
      rw [hckpt, hfsynced] at htest
      exact absurd htest.2 (by decide)

/-- A step keeps the invariant, and the inode. -/
structure Keeps (sbi : SbInfo) (inCp : Prop) (ino : Nat) (s s' : Nodes) : Prop where
  inv : NodeInv sbi inCp ino s'
  lives : s.Exists sbi ino → s'.Exists sbi ino

theorem Keeps.trans {inCp : Prop} {ino : Nat} {s₁ s₂ s₃ : Nodes}
    (h₁ : Keeps sbi inCp ino s₁ s₂) (h₂ : Keeps sbi inCp ino s₂ s₃) : Keeps sbi inCp ino s₁ s₃ :=
  ⟨h₂.inv, fun he => h₂.lives (h₁.lives he)⟩

/-- Once the property holds, the flags may be anything that keeps the NAT well formed. -/
theorem NodeInv.of_recoverable {inCp : Prop} {ino : Nat} {s : Nodes} {nm : NatState}
    (h : NodeInv sbi inCp ino s) (hwf : nm.Wf sbi)
    (hinfo : ∀ n, nodeInfo sbi nm n = nodeInfo sbi s.nm n)
    (hrec : s.Exists sbi ino → Recoverable inCp ino s.log)
    (hunborn : ¬ s.Exists sbi ino → ∀ e, nm.cache.natRoot.lookup ino = some e →
      e.hasFsyncedInode = false) : Keeps sbi inCp ino s { s with nm := nm } := by
  have hblk : ∀ n, ({ s with nm := nm } : Nodes).blkAddr sbi n = s.blkAddr sbi n := fun n => by
    unfold Nodes.blkAddr
    rw [hinfo]
  have hex : ({ s with nm := nm } : Nodes).Exists sbi ino ↔ s.Exists sbi ino := by
    unfold Nodes.Exists
    rw [hblk]
  refine ⟨⟨hwf, fun n hn => ?_, h.marks, fun he _ _ _ => (hrec (hex.mp he)).1,
    fun he hcp hno => absurd ((hrec (hex.mp he)).2 hcp) hno,
    fun he hcp hno => absurd ((hrec (hex.mp he)).2 hcp) hno, fun he => hunborn (mt hex.mpr he)⟩,
    hex.mpr⟩
  rw [hblk] at hn
  rw [hinfo]
  exact h.inoAgree n hn

/-- A NAT in which the inode's entry is what it was, up to fields no test reads. -/
theorem NodeInv.of_same {inCp : Prop} {ino : Nat} {s : Nodes} {nm : NatState}
    (h : NodeInv sbi inCp ino s) (hwf : nm.Wf sbi)
    (hinfo : ∀ n, nodeInfo sbi nm n = nodeInfo sbi s.nm n)
    (hentry : nm.cache.natRoot.lookup ino = s.nm.cache.natRoot.lookup ino ∨
      (nm.cache.natRoot.lookup ino = none ∧ s.nm.cache.Clean ino) ∨
      ∃ e, s.nm.cache.natRoot.lookup ino = some e ∧
        nm.cache.natRoot.lookup ino = some { e with isDirty := true }) :
    Keeps sbi inCp ino s { s with nm := nm } := by
  have hblk : ∀ n, ({ s with nm := nm } : Nodes).blkAddr sbi n = s.blkAddr sbi n := fun n => by
    unfold Nodes.blkAddr
    rw [hinfo]
  have hex : ({ s with nm := nm } : Nodes).Exists sbi ino ↔ s.Exists sbi ino := by
    unfold Nodes.Exists
    rw [hblk]
  -- every entry of the new cache has the flags of an entry of the old one
  have hback : ∀ e, nm.cache.natRoot.lookup ino = some e →
      ∃ e₀, s.nm.cache.natRoot.lookup ino = some e₀ ∧ e.hasLastFsync = e₀.hasLastFsync ∧
        e.hasFsyncedInode = e₀.hasFsyncedInode := by
    intro e he
    rcases hentry with hsame | ⟨hnone, -⟩ | ⟨e₀, h₀, hnew⟩
    · exact ⟨e, hsame ▸ he, rfl, rfl⟩
    · rw [hnone] at he
      cases he
    · rw [hnew] at he
      rw [← Option.some.inj he]
      exact ⟨e₀, h₀, rfl, rfl⟩
  refine ⟨⟨hwf, fun n hn => ?_, h.marks, fun he e hl hlast => ?_, fun he hcp hno => ?_,
    fun he => h.stale (hex.mp he), fun he e hl => ?_⟩, hex.mpr⟩
  · rw [hblk] at hn
    rw [hinfo]
    exact h.inoAgree n hn
  · obtain ⟨e₀, h₀, heq, -⟩ := hback e hl
    exact h.last (hex.mp he) e₀ h₀ (heq ▸ hlast)
  · obtain ⟨e, hl, hd, hckpt, hfs⟩ := h.unmarked (hex.mp he) hcp hno
    rcases hentry with hsame | ⟨-, e', he', hclean⟩ | ⟨e₀, h₀, hnew⟩
    · exact ⟨e, hsame.trans hl, hd, hckpt, hfs⟩
    · -- a dirty entry is not dropped
      rw [hl] at he'
      rw [← Option.some.inj he', hd] at hclean
      cases hclean
    · rw [hl] at h₀
      rw [← Option.some.inj h₀] at hnew
      exact ⟨_, hnew, rfl, hckpt, hfs⟩
  · obtain ⟨e₀, h₀, -, heq⟩ := hback e hl
    rw [heq]
    exact h.unborn (mt hex.mpr he) e₀ h₀

/-! ### Pages -/

/-- A page that changes stays in its file. -/
theorem Nodes.setPage_ino {s : Nodes} {nid : Nat} {p : NodePage}
    (hp : p.ino = (s.pages nid).ino) (n : Nat) :
    ((s.setPage nid p).pages n).ino = (s.pages n).ino := by
  show (Function.update s.pages nid p n).ino = _
  by_cases h : n = nid
  · subst h
    rw [Function.update_self, hp]
  · rw [Function.update_of_ne h]

theorem Nodes.exists_setPage {s : Nodes} {nid : Nat} {p : NodePage}
    (hp : p.ino = (s.pages nid).ino) (ino : Nat) :
    (s.setPage nid p).Exists sbi ino ↔ s.Exists sbi ino := by
  unfold Nodes.Exists
  rw [Nodes.setPage_ino hp]
  rfl

theorem NodeInv.setPage {inCp : Prop} {ino : Nat} {s : Nodes} (h : NodeInv sbi inCp ino s)
    (nid : Nat) {p : NodePage} (hino : p.ino = (s.pages nid).ino)
    (hdnode : p.isFsyncDnode = true → p.isDnode = true)
    (hstale : nid = ino → s.Exists sbi ino → ¬ inCp → ¬ InodeMarked ino s.log →
      s.cpError = false → p.isFsyncDnode = false) :
    Keeps sbi inCp ino s (s.setPage nid p) := by
  have hex : (s.setPage nid p).Exists sbi ino ↔ s.Exists sbi ino := Nodes.exists_setPage hino ino
  refine ⟨⟨h.wf, fun n hn => ?_, fun n => ?_, fun he => h.last (hex.mp he),
    fun he => h.unmarked (hex.mp he), fun he hcp hno herr => ?_,
    fun he => h.unborn (mt hex.mpr he)⟩, hex.mpr⟩
  · rw [Nodes.setPage_ino hino]
    exact h.inoAgree n hn
  · show (Function.update s.pages nid p n).isFsyncDnode = true →
      (Function.update s.pages nid p n).isDnode = true
    by_cases hn : n = nid
    · subst hn
      rw [Function.update_self]
      exact hdnode
    · rw [Function.update_of_ne hn]
      exact h.marks n
  · show (Function.update s.pages nid p ino).isFsyncDnode = false
    by_cases hn : ino = nid
    · subst hn
      rw [Function.update_self]
      exact hstale rfl (hex.mp he) hcp hno herr
    · rw [Function.update_of_ne hn]
      exact h.stale (hex.mp he) hcp hno herr

/-! ### Addresses -/

/-- The entry of the inode after `set_node_addr` on another nid. -/
theorem entry_of_other {c : NatCache} (hc : c.Inv none) {ni : NodeInfo} {newBlkaddr ino : Nat}
    {fsyncDone : Bool} (hne : ino ≠ ni.nid) {e' : NatEntry}
    (he' : (c.setNodeAddr ni newBlkaddr fsyncDone).natRoot.lookup ino = some e') :
    ∃ e, c.natRoot.lookup ino = some e ∧ e'.isDirty = e.isDirty ∧
      e'.isCheckpointed = e.isCheckpointed ∧ e'.hasFsyncedInode = e.hasFsyncedInode ∧
      e'.hasLastFsync = if ni.ino = ino then fsyncDone else e.hasLastFsync := by
  rw [(NatCache.setNodeAddr_spec hc ni newBlkaddr fsyncDone).2, if_neg hne] at he'
  obtain ⟨e, he, rfl⟩ := Option.map_eq_some_iff.mp he'
  refine ⟨e, he, ?_⟩
  by_cases hino : ino = ni.ino
  · rw [if_pos hino, if_pos hino.symm]
    have hnot : decide (ni.nid = ni.ino) = false :=
      decide_eq_false fun heq => hne (hino.trans heq.symm)
    refine ⟨rfl, rfl, ?_, rfl⟩
    simp [NatEntry.fsyncMark, hnot]
  · rw [if_neg hino, if_neg fun heq => hino heq.symm]
    exact ⟨rfl, rfl, rfl, rfl⟩

/-- `set_node_addr` on another nid keeps the entry. -/
theorem entry_kept {c : NatCache} (hc : c.Inv none) (ni : NodeInfo) (newBlkaddr : Nat)
    (fsyncDone : Bool) {ino : Nat} (hne : ino ≠ ni.nid) {e : NatEntry}
    (he : c.natRoot.lookup ino = some e) :
    ∃ e', (c.setNodeAddr ni newBlkaddr fsyncDone).natRoot.lookup ino = some e' := by
  rw [(NatCache.setNodeAddr_spec hc ni newBlkaddr fsyncDone).2, if_neg hne, he]
  exact ⟨_, rfl⟩

/-- The entry `set_node_addr` was called for. -/
theorem entry_of_self {c : NatCache} (hc : c.Inv none) (ni : NodeInfo) (newBlkaddr : Nat)
    (fsyncDone : Bool) :
    ∃ e', (c.setNodeAddr ni newBlkaddr fsyncDone).natRoot.lookup ni.nid = some e' ∧
      e'.isDirty = true ∧
      e'.isCheckpointed = ((c.nodeEntry ni newBlkaddr).changeAddr newBlkaddr).isCheckpointed ∧
      e'.hasFsyncedInode = ((c.nodeEntry ni newBlkaddr).hasFsyncedInode ||
        (fsyncDone && decide (ni.nid = ni.ino))) ∧
      (ni.nid = ni.ino → e'.hasLastFsync = fsyncDone) := by
  rw [(NatCache.setNodeAddr_spec hc ni newBlkaddr fsyncDone).2, if_pos rfl, Option.map_some]
  refine ⟨_, rfl, ?_⟩
  by_cases hino : ni.nid = ni.ino
  · rw [if_pos hino]
    exact ⟨rfl, rfl, rfl, fun _ => rfl⟩
  · rw [if_neg hino, decide_eq_false hino, Bool.and_false, Bool.or_false]
    exact ⟨rfl, rfl, rfl, fun h => absurd h hino⟩

/-- Its flags come from the entry it was, if any. -/
theorem nodeEntry_flags {c : NatCache} (ni : NodeInfo) (newBlkaddr : Nat) :
    (∀ e, c.natRoot.lookup ni.nid = some e →
      (c.nodeEntry ni newBlkaddr).hasFsyncedInode = e.hasFsyncedInode ∧
      (c.nodeEntry ni newBlkaddr).isCheckpointed = e.isCheckpointed) ∧
    (c.natRoot.lookup ni.nid = none →
      (c.nodeEntry ni newBlkaddr).hasFsyncedInode = false) := by
  unfold NatCache.nodeEntry
  refine ⟨fun e he => ?_, fun hnone => ?_⟩
  · rw [he]
    simp only
    split <;> exact ⟨rfl, rfl⟩
  · rw [hnone]
    rfl

/-- Reading a nid gives its entry no flag `HAS_FSYNCED_INODE` it did not have. -/
theorem getNodeInfo_fsynced {s : NatState} (nid : Nat) (nomem : Bool) {e' : NatEntry}
    (he' : (getNodeInfo sbi s nid nomem).2.cache.natRoot.lookup nid = some e') :
    s.cache.natRoot.lookup nid = some e' ∨
      (s.cache.natRoot.lookup nid = none ∧ e'.hasFsyncedInode = false) := by
  unfold getNodeInfo at he'
  cases hl : s.cache.natRoot.lookup nid with
  | some e =>
      rw [hl] at he'
      exact Or.inl (hl.symm.trans he')
  | none =>
      rw [hl] at he'
      cases nomem with
      | true =>
          have hnone : s.cache.natRoot.lookup nid = some e' := he'
          rw [hl] at hnone
          cases hnone
      | false =>
          simp only [Bool.false_eq_true, if_false, initNatEntry_lookup] at he'
          rw [if_pos (show nid = (NatEntry.alloc nid).nid from rfl)] at he'
          rw [← Option.some.inj he']
          exact Or.inr ⟨rfl, rfl⟩

/-- `get_node_info` and then `set_node_addr`, for a node that has an address. -/
structure Moved (sbi : SbInfo) (s : NatState) (nid newBlkaddr : Nat) (fsyncDone : Bool)
    (s' : NatState) : Prop where
  wf : s'.Wf sbi
  blkAddr : (nodeInfo sbi s' nid).blockAddr = newBlkaddr
  ino : (nodeInfo sbi s' nid).ino = (nodeInfo sbi s nid).ino
  infoOther : ∀ n, n ≠ nid → nodeInfo sbi s' n = nodeInfo sbi s n
  other : ∀ n, n ≠ nid → ∀ e', s'.cache.natRoot.lookup n = some e' →
    ∃ e, s.cache.natRoot.lookup n = some e ∧ e'.isDirty = e.isDirty ∧
      e'.isCheckpointed = e.isCheckpointed ∧ e'.hasFsyncedInode = e.hasFsyncedInode ∧
      e'.hasLastFsync = if (nodeInfo sbi s nid).ino = n then fsyncDone else e.hasLastFsync
  kept : ∀ n, n ≠ nid → ∀ e, s.cache.natRoot.lookup n = some e →
    ∃ e', s'.cache.natRoot.lookup n = some e'
  self : ∃ e', s'.cache.natRoot.lookup nid = some e' ∧ e'.isDirty = true ∧
    ((nodeInfo sbi s nid).ino = nid → e'.hasLastFsync = fsyncDone) ∧
    (∀ e, s.cache.natRoot.lookup nid = some e → newBlkaddr ≠ nullAddr →
      e'.isCheckpointed = e.isCheckpointed) ∧
    ∃ was : Bool, (∀ e, s.cache.natRoot.lookup nid = some e → was = e.hasFsyncedInode) ∧
      (s.cache.natRoot.lookup nid = none → was = false) ∧
      e'.hasFsyncedInode = (was || (fsyncDone && decide (nid = (nodeInfo sbi s nid).ino)))

theorem moved {s : NatState} (hwf : s.Wf sbi) (nid : Nat) {newBlkaddr : Nat}
    (hnew : newBlkaddr ≠ newAddr) (fsyncDone nomem : Bool) :
    Moved sbi s nid newBlkaddr fsyncDone
      { (getNodeInfo sbi s nid nomem).2 with
        cache := (getNodeInfo sbi s nid nomem).2.cache.setNodeAddr
          (getNodeInfo sbi s nid nomem).1 newBlkaddr fsyncDone } := by
  obtain ⟨hwf₁, hinfo₁, hother₁, hkept₁⟩ := getNodeInfo_spec hwf nid nomem
  have hfs₁ : ∀ e', (getNodeInfo sbi s nid nomem).2.cache.natRoot.lookup nid = some e' →
      s.cache.natRoot.lookup nid = some e' ∨
        (s.cache.natRoot.lookup nid = none ∧ e'.hasFsyncedInode = false) :=
    fun _ => getNodeInfo_fsynced nid nomem
  rw [getNodeInfo_fst]
  set s₁ := (getNodeInfo sbi s nid nomem).2 with hs₁
  set ni := NodeInfo.ofRaw nid (nodeInfo sbi s nid) with hni
  obtain ⟨hwf₂, hinfo₂⟩ := setNodeAddr_nodeInfo hwf₁ ni newBlkaddr fsyncDone
  have hraw : (s₁.cache.writtenEntry ni newBlkaddr).blkAddr = newBlkaddr ∧
      (s₁.cache.writtenEntry ni newBlkaddr).ino = (nodeInfo sbi s nid).ino := by
    refine ⟨rfl, ?_⟩
    show (s₁.cache.nodeEntry ni newBlkaddr).ino = _
    unfold NatCache.nodeEntry
    cases hl : s₁.cache.natRoot.lookup ni.nid with
    | none => rfl
    | some e =>
        simp only [if_neg hnew]
        rw [← hinfo₁ nid, nodeInfo_of_lookup (n := nid) hl]
        rfl
  refine ⟨hwf₂, ?_, ?_, fun n hn => ?_, fun n hn e' he' => ?_, fun n hn e he => ?_, ?_⟩
  · rw [hinfo₂, if_pos (show nid = ni.nid from rfl)]
    exact hraw.1
  · rw [hinfo₂, if_pos (show nid = ni.nid from rfl)]
    exact hraw.2
  · rw [hinfo₂, if_neg (show n ≠ ni.nid from hn), hinfo₁]
  · obtain ⟨e, he, hrest⟩ := entry_of_other hwf₁.cache hn he'
    rw [hother₁ n hn] at he
    exact ⟨e, he, hrest⟩
  · exact entry_kept hwf₁.cache ni newBlkaddr fsyncDone hn ((hother₁ n hn).trans he)
  · obtain ⟨e', he', hd, hckpt, hfs, hlast⟩ :=
      entry_of_self hwf₁.cache ni newBlkaddr fsyncDone
    obtain ⟨hsome, hnone⟩ := nodeEntry_flags (c := s₁.cache) ni newBlkaddr
    refine ⟨e', he', hd, fun h => hlast h.symm, fun e he hne => ?_,
      (s₁.cache.nodeEntry ni newBlkaddr).hasFsyncedInode, fun e he => ?_, fun hl => ?_, hfs⟩
    · rw [hckpt, ← (hsome e (hkept₁ e he)).2]
      exact if_neg (not_or.mpr ⟨hnew, hne⟩)
    · exact (hsome e (hkept₁ e he)).1
    · cases hl₁ : s₁.cache.natRoot.lookup nid with
      | none => exact hnone hl₁
      | some e₁ =>
          rw [(hsome e₁ hl₁).1]
          rcases hfs₁ e₁ hl₁ with hsame | ⟨-, hfalse⟩
          · rw [hl] at hsame
            cases hsame
          · exact hfalse

/-! ### Writes -/

/-- Reading a nid that has no address. -/
theorem NodeInv.read_null {inCp : Prop} {ino : Nat} {s : Nodes} (h : NodeInv sbi inCp ino s)
    (nid : Nat) (hnull : s.blkAddr sbi nid = nullAddr) (nomem : Bool) :
    Keeps sbi inCp ino s { s with nm := (getNodeInfo sbi s.nm nid nomem).2 } := by
  obtain ⟨hwf, hinfo, hother, -⟩ := getNodeInfo_spec h.wf nid nomem
  by_cases hn : ino = nid
  · subst hn
    have hnot : ¬ s.Exists sbi ino := fun hex => hex.1 hnull
    refine h.of_recoverable hwf hinfo (fun hex => absurd hex hnot) fun _ e' he' => ?_
    rcases getNodeInfo_fsynced ino nomem he' with hsame | ⟨-, hfalse⟩
    · exact h.unborn hnot e' hsame
    · exact hfalse
  · exact h.of_same hwf hinfo (Or.inl (hother ino hn))

theorem writeNodePage_setPage (s : Nodes) (nid blk : Nat) (nomem : Bool) (p : NodePage) :
    (s.setPage nid p).writeNodePage sbi nid blk nomem =
      if s.cpError = true then s.setPage nid p
      else if (getNodeInfo sbi s.nm nid nomem).1.blkAddr = nullAddr then
        { s.setPage nid p with nm := (getNodeInfo sbi s.nm nid nomem).2 }
      else
        { s.setPage nid p with
          nm := { (getNodeInfo sbi s.nm nid nomem).2 with
            cache := (getNodeInfo sbi s.nm nid nomem).2.cache.setNodeAddr
              (getNodeInfo sbi s.nm nid nomem).1 blk p.isFsyncDnode }
          log := p.write nid :: s.log } := by
  have hself : (s.setPage nid p).pages nid = p := Function.update_self _ _ _
  unfold Nodes.writeNodePage
  rw [hself]
  rfl

/-- A page that its caller marked as `p` is written.  `HAS_LAST_FSYNC` becomes its fsync
    mark; on the page of a new inode that mark must come with the dentry mark. -/
theorem NodeInv.write {inCp : Prop} {ino : Nat} {s : Nodes} (h : NodeInv sbi inCp ino s)
    {nid blk : Nat} (nomem : Bool) {p : NodePage} (hino : p.ino = (s.pages nid).ino)
    (hdnode : p.isFsyncDnode = true → p.isDnode = true) (hblk : IsBlkaddr blk)
    (hmark : nid = ino → s.Exists sbi ino → ¬ inCp → ¬ InodeMarked ino s.log →
      s.cpError = false → p.isFsyncDnode = true → p.isDentDnode = true) :
    Keeps sbi inCp ino s ((s.setPage nid p).writeNodePage sbi nid blk nomem) := by
  have hfst : (getNodeInfo sbi s.nm nid nomem).1.blkAddr = s.blkAddr sbi nid := by
    rw [getNodeInfo_fst]
    rfl
  rw [writeNodePage_setPage]
  by_cases herr : s.cpError = true
  · rw [if_pos herr]
    exact h.setPage nid hino hdnode fun _ _ _ _ hok => absurd (herr.symm.trans hok) (by decide)
  rw [if_neg herr]
  by_cases hnull : s.blkAddr sbi nid = nullAddr
  · rw [if_pos (hfst.trans hnull)]
    have hpage := h.setPage nid hino hdnode fun hn hex => absurd hnull (hn ▸ hex.1)
    exact hpage.trans (hpage.inv.read_null nid hnull nomem)
  rw [if_neg (fun heq => hnull (hfst.symm.trans heq))]
  -- the write itself
  have hm := moved h.wf nid hblk.2 p.isFsyncDnode nomem
  have hagree := h.inoAgree nid hnull
  rw [← hino] at hagree
  set nm' : NatState := { (getNodeInfo sbi s.nm nid nomem).2 with
    cache := (getNodeInfo sbi s.nm nid nomem).2.cache.setNodeAddr
      (getNodeInfo sbi s.nm nid nomem).1 blk p.isFsyncDnode } with hnm'
  set s' : Nodes := { s.setPage nid p with nm := nm', log := p.write nid :: s.log } with hs'
  have hpages : ∀ n, (s'.pages n).ino = (s.pages n).ino := Nodes.setPage_ino hino
  have haddr : ∀ n, s'.blkAddr sbi n ≠ nullAddr ↔ s.blkAddr sbi n ≠ nullAddr := by
    intro n
    by_cases hn : n = nid
    · subst hn
      exact ⟨fun _ => hnull, fun _ => by rw [Nodes.blkAddr, hm.blkAddr]; exact hblk.1⟩
    · rw [Nodes.blkAddr, hm.infoOther n hn]
      rfl
  have hex : s'.Exists sbi ino ↔ s.Exists sbi ino := by
    unfold Nodes.Exists
    rw [hpages, haddr]
  have hlog : ¬ InodeMarked ino s'.log → ¬ InodeMarked ino s.log :=
    fun hno hmarked => hno (hmarked.cons _)
  -- an inode page with the fsync mark has the dentry mark too, and counts
  have hfirst : nid = ino → s'.Exists sbi ino → ¬ inCp → ¬ InodeMarked ino s'.log →
      p.isFsyncDnode = false := by
    intro hn he hcp hno
    by_contra hf
    have hf' : p.isFsyncDnode = true := by simpa using hf
    refine hno ⟨p.write nid, mem_dnodesOf.mpr ⟨List.mem_cons_self, ?_, hdnode hf'⟩, hn, hf',
      hmark hn (hex.mp he) hcp (hlog hno) (by simpa using herr) hf'⟩
    show p.ino = ino
    rw [hino, hn]
    exact (hex.mp he).2
  refine ⟨⟨hm.wf, fun n hn => ?_, fun n => ?_, fun he e' he' hlast => ?_, fun he hcp hno => ?_,
    fun he hcp hno hok => ?_, fun he e' he' => ?_⟩, hex.mpr⟩
  · rw [hpages]
    by_cases hnn : n = nid
    · subst hnn
      rw [hm.ino, hagree, hino]
    · rw [hm.infoOther n hnn]
      exact h.inoAgree n ((haddr n).mp hn)
  · show (Function.update s.pages nid p n).isFsyncDnode = true →
      (Function.update s.pages nid p n).isDnode = true
    by_cases hnn : n = nid
    · subst hnn
      rw [Function.update_self]
      exact hdnode
    · rw [Function.update_of_ne hnn]
      exact h.marks n
  · -- `HAS_LAST_FSYNC` is the mark of this write, if it is of this file
    by_cases hfile : p.ino = ino
    · have hf : p.isFsyncDnode = true := by
        by_cases hn : ino = nid
        · subst hn
          obtain ⟨e, he₁, -, hl, -⟩ := hm.self
          rw [he'] at he₁
          rw [← hl (hagree.trans hfile), ← Option.some.inj he₁]
          exact hlast
        · obtain ⟨e, -, -, -, -, hl⟩ := hm.other ino hn e' he'
          rw [if_pos (hagree.trans hfile)] at hl
          rw [← hl]
          exact hlast
      exact lastMarked_cons hf (hdnode hf) hfile
    · have hn : ino ≠ nid := fun heq => by
        subst heq
        exact hfile (hino.trans (hex.mp he).2)
      obtain ⟨e, hl, -, -, -, heq⟩ := hm.other ino hn e' he'
      rw [if_neg (fun heq => hfile (hagree.symm.trans heq))] at heq
      have hold := h.last (hex.mp he) e hl (heq ▸ hlast)
      unfold LastMarked at hold ⊢
      rw [dnodesOf_cons_of_ne (show (p.write nid).ino ≠ ino from hfile)]
      exact hold
  · obtain ⟨e, hl, hd, hckpt, hfs⟩ := h.unmarked (hex.mp he) hcp (hlog hno)
    by_cases hn : ino = nid
    · subst hn
      obtain ⟨e', he', hd', -, hc', was, hwas, -, hf'⟩ := hm.self
      refine ⟨e', he', hd', (hc' e hl hblk.1).trans hckpt, ?_⟩
      rw [hf', hwas e hl, hfs, hfirst rfl he hcp hno]
      rfl
    · obtain ⟨e', he'⟩ := hm.kept ino hn e hl
      obtain ⟨e₀, h₀, hd', hc', hf', -⟩ := hm.other ino hn e' he'
      rw [hl] at h₀
      rw [← Option.some.inj h₀] at hd' hc' hf'
      exact ⟨e', he', hd'.trans hd, hc'.trans hckpt, hf'.trans hfs⟩
  · show (Function.update s.pages nid p ino).isFsyncDnode = false
    by_cases hn : ino = nid
    · subst hn
      rw [Function.update_self]
      exact hfirst rfl he hcp hno
    · rw [Function.update_of_ne hn]
      exact h.stale (hex.mp he) hcp (hlog hno) hok
  · have hnot := mt hex.mpr he
    by_cases hn : ino = nid
    · subst hn
      obtain ⟨e₁, he₁, -, -, -, was, hwas, hnone, hf'⟩ := hm.self
      rw [he'] at he₁
      have hfile : ¬ ino = (nodeInfo sbi s.nm ino).ino := fun heq =>
        hnot ⟨hnull, hino.symm.trans (hagree.symm.trans heq.symm)⟩
      rw [Option.some.inj he₁, hf', decide_eq_false hfile, Bool.and_false, Bool.or_false]
      cases hl : s.nm.cache.natRoot.lookup ino with
      | none => exact hnone hl
      | some e => rw [hwas e hl]; exact h.unborn hnot e hl
    · obtain ⟨e, hl, -, -, hf', -⟩ := hm.other ino hn e' he'
      rw [hf']
      exact h.unborn hnot e hl

/-- `new_node_page`. -/
theorem NodeInv.newNodePage {inCp : Prop} {ino : Nat} {s s' : Nodes}
    (h : NodeInv sbi inCp ino s) {nid ino' : Nat} {isDnode isColdNode : Bool}
    (hs : s.newNodePage sbi nid ino' isDnode isColdNode = some s') :
    Keeps sbi inCp ino s s' := by
  unfold Nodes.newNodePage at hs
  split at hs
  case isFalse => cases hs
  case isTrue hguard =>
  obtain ⟨hnull, -, -⟩ := hguard
  obtain rfl := (Option.some.inj hs).symm
  set ni : NodeInfo := { nid := nid, ino := ino', blkAddr := nullAddr, version := 0 } with hni
  obtain ⟨hwf, hinfo⟩ := setNodeAddr_nodeInfo h.wf ni newAddr false
  have hraw : (s.nm.cache.writtenEntry ni newAddr).blkAddr = newAddr ∧
      (s.nm.cache.writtenEntry ni newAddr).ino = ino' := by
    refine ⟨rfl, ?_⟩
    show (s.nm.cache.nodeEntry ni newAddr).ino = _
    unfold NatCache.nodeEntry
    cases s.nm.cache.natRoot.lookup ni.nid <;> rfl
  obtain ⟨hsome, hnone⟩ := nodeEntry_flags (c := s.nm.cache) ni newAddr
  obtain ⟨e₁, he₁, hd₁, hckpt₁, hfs₁, hlast₁⟩ := entry_of_self h.wf.cache ni newAddr false
  -- the new node's entry starts unmarked if no inode had the nid
  have hfresh : ¬ s.Exists sbi nid → ino = nid → e₁.hasFsyncedInode = false := by
    rintro hnot rfl
    rw [hfs₁, Bool.false_and, Bool.or_false]
    cases hl : s.nm.cache.natRoot.lookup ino with
    | none => exact hnone hl
    | some e => rw [(hsome e hl).1]; exact h.unborn hnot e hl
  have hdead : ¬ s.Exists sbi nid := fun hex => hex.1 hnull
  set p : NodePage :=
    { ino := ino', isDnode := isDnode, isColdNode := isColdNode, dirty := true } with hp
  set t : Nodes := ({ s with
    nm := { s.nm with cache := s.nm.cache.setNodeAddr ni newAddr false } }).setPage nid p with ht
  have hpages : ∀ n, n ≠ nid → t.pages n = s.pages n := fun n hn => Function.update_of_ne hn _ _
  have hself : t.pages nid = p := Function.update_self _ _ _
  have haddr : ∀ n, n ≠ nid → t.blkAddr sbi n = s.blkAddr sbi n := fun n hn => by
    unfold Nodes.blkAddr
    exact congrArg RawNat.blockAddr ((hinfo n).trans (if_neg hn))
  have hex : ino ≠ nid → (t.Exists sbi ino ↔ s.Exists sbi ino) := fun hn => by
    unfold Nodes.Exists
    rw [haddr ino hn, hpages ino hn]
  refine ⟨⟨hwf, fun n hn => ?_, fun n => ?_, fun he e' he' hlast => ?_, fun he hcp hno => ?_,
    fun he hcp hno hok => ?_, fun he e' he' => ?_⟩,
    fun he => (hex fun heq => hdead (heq ▸ he)).mpr he⟩
  · by_cases hnn : n = nid
    · subst hnn
      rw [hself]
      exact (congrArg RawNat.ino ((hinfo n).trans (if_pos rfl))).trans hraw.2
    · rw [hpages n hnn]
      rw [haddr n hnn] at hn
      exact (congrArg RawNat.ino ((hinfo n).trans (if_neg hnn))).trans (h.inoAgree n hn)
  · by_cases hnn : n = nid
    · subst hnn
      rw [hself]
      exact nofun
    · rw [hpages n hnn]
      exact h.marks n
  · by_cases hn : ino = nid
    · subst hn
      have hino : ino' = ino := by
        have := he.2
        rw [hself] at this
        exact this
      have hl := hlast₁ hino.symm
      rw [show e' = e₁ from Option.some.inj (he'.symm.trans he₁), hl] at hlast
      cases hlast
    · obtain ⟨e, hl, -, -, -, heq⟩ := entry_of_other h.wf.cache hn he'
      split at heq
      · rw [heq] at hlast
        cases hlast
      · exact h.last ((hex hn).mp he) e hl (heq ▸ hlast)
  · by_cases hn : ino = nid
    · exact ⟨e₁, hn ▸ he₁, hd₁, hckpt₁, hfresh hdead hn⟩
    · obtain ⟨e, hl, hd, hckpt, hfs⟩ := h.unmarked ((hex hn).mp he) hcp hno
      obtain ⟨e', he'⟩ := entry_kept h.wf.cache ni newAddr false hn hl
      obtain ⟨e₀, h₀, hd', hc', hf', -⟩ := entry_of_other h.wf.cache hn he'
      rw [hl] at h₀
      rw [← Option.some.inj h₀] at hd' hc' hf'
      exact ⟨e', he', hd'.trans hd, hc'.trans hckpt, hf'.trans hfs⟩
  · by_cases hn : ino = nid
    · subst hn
      rw [hself]
    · rw [hpages ino hn]
      exact h.stale ((hex hn).mp he) hcp hno hok
  · by_cases hn : ino = nid
    · rw [show e' = e₁ from Option.some.inj (he'.symm.trans (hn ▸ he₁))]
      exact hfresh hdead hn
    · obtain ⟨e, hl, -, -, hf', -⟩ := entry_of_other h.wf.cache hn he'
      rw [hf']
      exact h.unborn (mt (hex hn).mpr he) e hl

/-- `truncate_node`. -/
theorem NodeInv.truncateNode {inCp : Prop} {ino : Nat} {s s' : Nodes}
    (h : NodeInv sbi inCp ino s) {nid : Nat} {nomem : Bool}
    (hs : s.truncateNode sbi nid nomem = some s') : Keeps sbi inCp ino s s' := by
  unfold Nodes.truncateNode at hs
  split at hs
  case isFalse => cases hs
  case isTrue hguard =>
  obtain ⟨hnn, hinode⟩ := hguard
  obtain rfl := (Option.some.inj hs).symm
  have hm := moved h.wf nid (show nullAddr ≠ newAddr by decide) false nomem
  have hagree := h.inoAgree nid hnn
  set nm' : NatState := { (getNodeInfo sbi s.nm nid nomem).2 with
    cache := (getNodeInfo sbi s.nm nid nomem).2.cache.setNodeAddr
      (getNodeInfo sbi s.nm nid nomem).1 nullAddr false } with hnm'
  have hgone : ∀ n, n = nid → ¬ s.Exists sbi n := fun n hn hex => by
    subst hn
    exact hinode hex.2
  have hex : ({ s with nm := nm' } : Nodes).Exists sbi ino ↔ s.Exists sbi ino := by
    by_cases hn : ino = nid
    · refine ⟨fun he => absurd ?_ he.1, fun he => absurd he (hgone ino hn)⟩
      rw [hn]
      exact hm.blkAddr
    · unfold Nodes.Exists Nodes.blkAddr
      rw [show nodeInfo sbi ({ s with nm := nm' } : Nodes).nm ino = nodeInfo sbi s.nm ino from
        hm.infoOther ino hn]
  have hkeep : NodeInv sbi inCp ino { s with nm := nm' } := by
    refine ⟨hm.wf, fun n hn => ?_, h.marks, fun he e' he' hlast => ?_, fun he hcp hno => ?_,
      fun he => h.stale (hex.mp he), fun he e' he' => ?_⟩
    · by_cases heq : n = nid
      · exact absurd (heq ▸ hm.blkAddr) hn
      · have hinfo := hm.infoOther n heq
        unfold Nodes.blkAddr at hn
        rw [hinfo] at hn ⊢
        exact h.inoAgree n hn
    · have hn : ino ≠ nid := fun heq => hgone ino heq (hex.mp he)
      obtain ⟨e, hl, -, -, -, heq⟩ := hm.other ino hn e' he'
      split at heq
      · rw [heq] at hlast
        cases hlast
      · exact h.last (hex.mp he) e hl (heq ▸ hlast)
    · have hn : ino ≠ nid := fun heq => hgone ino heq (hex.mp he)
      obtain ⟨e, hl, hd, hckpt, hfs⟩ := h.unmarked (hex.mp he) hcp hno
      obtain ⟨e', he'⟩ := hm.kept ino hn e hl
      obtain ⟨e₀, h₀, hd', hc', hf', -⟩ := hm.other ino hn e' he'
      rw [hl] at h₀
      rw [← Option.some.inj h₀] at hd' hc' hf'
      exact ⟨e', he', hd'.trans hd, hc'.trans hckpt, hf'.trans hfs⟩
    · have hnot := mt hex.mpr he
      by_cases hn : ino = nid
      · subst hn
        obtain ⟨e₁, he₁, -, -, -, was, hwas, hnone, hf'⟩ := hm.self
        rw [show e' = e₁ from Option.some.inj (he'.symm.trans he₁), hf', Bool.false_and,
          Bool.or_false]
        cases hl : s.nm.cache.natRoot.lookup ino with
        | none => exact hnone hl
        | some e => rw [hwas e hl]; exact h.unborn hnot e hl
      · obtain ⟨e, hl, -, -, hf', -⟩ := hm.other ino hn e' he'
        rw [hf']
        exact h.unborn hnot e hl
  have hpage := hkeep.setPage nid (p := { s.pages nid with dirty := false }) rfl
    (h.marks nid) fun hn hx => absurd (hex.mp hx) (hgone ino hn.symm)
  exact ⟨hpage.inv, fun he => hpage.lives (hex.mpr he)⟩

/-- `fsync_node_pages` marks the page of a new inode with both marks. -/
theorem NodeInv.fsyncNodePage {inCp : Prop} {ino : Nat} {s s' : Nodes}
    (h : NodeInv sbi inCp ino s) {i nid blk : Nat} {last : Option Nat} {nomem : Bool}
    (hs : s.fsyncNodePage sbi i last nid blk nomem = some s') : Keeps sbi inCp ino s s' := by
  unfold Nodes.fsyncNodePage at hs
  simp only at hs
  split at hs
  case isFalse => cases hs
  case isTrue hguard =>
  obtain ⟨hdnode, -, -, -, hblk⟩ := hguard
  obtain rfl := (Option.some.inj hs).symm
  refine h.write nomem rfl (fun _ => hdnode) hblk fun hn he hcp hno _ hf => ?_
  subst hn
  obtain ⟨e, hl, -, hckpt, hfs⟩ := h.unmarked he hcp hno
  have hneed : s.nm.cache.needDentryMark nid = true := by
    unfold NatCache.needDentryMark
    rw [hl]
    simp [hckpt, hfs]
  unfold Nodes.fsyncMarked at hf ⊢
  simp only at hf ⊢
  rw [hf, he.2, decide_eq_true rfl, hneed]
  rfl

/-- One step outside the calls. -/
theorem NodeInv.step {inCp : Prop} {ino : Nat} {s s' : Nodes} (h : NodeInv sbi inCp ino s)
    {op : NodeOp} (hok : RenewOk sbi inCp ino s op) (hs : s.step sbi op = some s') :
    Keeps sbi inCp ino s s' := by
  cases op with
  | getNodeInfo nid nomem =>
      obtain rfl := (Option.some.inj hs).symm
      obtain ⟨hwf, hinfo, hother, hkept⟩ := getNodeInfo_spec h.wf nid nomem
      by_cases hn : ino = nid
      · subst hn
        cases hl : s.nm.cache.natRoot.lookup ino with
        | some e => exact h.of_same hwf hinfo (Or.inl ((hkept e hl).trans hl.symm))
        | none =>
            cases nomem with
            | true =>
                -- nothing is cached, so nothing is renewed
                refine h.of_same hwf hinfo (Or.inl ?_)
                unfold Node.getNodeInfo
                rw [hl]
                exact hl
            | false =>
                refine h.of_recoverable hwf hinfo (hok ⟨rfl, rfl, hl⟩) fun hnot e' he' => ?_
                rcases getNodeInfo_fsynced ino false he' with hsame | ⟨-, hfalse⟩
                · exact h.unborn hnot e' hsame
                · exact hfalse
      · exact h.of_same hwf hinfo (Or.inl (hother ino hn))
  | tryToFreeNats nrShrink =>
      obtain rfl := (Option.some.inj hs).symm
      obtain ⟨hwf, hinfo⟩ := tryToFreeNats_nodeInfo h.wf nrShrink
      refine h.of_same hwf hinfo ?_
      rcases (NatCache.tryToFreeNats_spec nrShrink h.wf.cache).2 ino with hsame | hgone
      · exact Or.inl hsame
      · exact Or.inr (Or.inl hgone)
  | flushNatEntries reason =>
      obtain ⟨nm, hrun, hwf, hinfo, hentry, hfs⟩ := flushNatEntries_entry h.wf reason
      have hstep : some { s with nm := nm } = some s' := by
        rw [← hs]
        show _ = (Node.flushNatEntries sbi reason s.nm).map _
        rw [hrun]
        rfl
      obtain rfl := (Option.some.inj hstep).symm
      by_cases hren : FlushRenews reason s.nm ino
      · refine h.of_recoverable hwf hinfo (hok hren) fun hnot e' he' => ?_
        by_contra hf
        obtain ⟨e, he, hf'⟩ := hfs ino e' he' (by simpa using hf)
        rw [h.unborn hnot e he] at hf'
        cases hf'
      · refine h.of_same hwf hinfo ?_
        rcases hentry ino hren with hsame | ⟨e, he, -, hnew⟩
        · exact Or.inl hsame
        · exact Or.inr (Or.inr ⟨e, he, hnew⟩)
  | newNodePage nid ino' isDnode isColdNode => exact h.newNodePage hs
  | truncateNode nid nomem => exact h.truncateNode hs
  | setPageDirty nid =>
      obtain rfl := (Option.some.inj hs).symm
      exact h.setPage nid rfl (h.marks nid) fun hn he hcp hno herr => hn ▸ h.stale he hcp hno herr
  | syncNodePage nid blk nomem =>
      simp only [Nodes.step, Nodes.syncNodePage] at hs
      split at hs
      · rename_i hguard
        obtain rfl := (Option.some.inj hs).symm
        exact h.write nomem rfl nofun hguard.2 fun _ _ _ _ _ => nofun
      · cases hs
  | writepage nid blk nomem =>
      simp only [Nodes.step, Nodes.writepage] at hs
      split at hs
      · rename_i hguard
        obtain rfl := (Option.some.inj hs).symm
        refine h.write nomem rfl (h.marks nid) hguard fun hn he hcp hno herr hf => ?_
        subst hn
        exact absurd (hf.symm.trans (h.stale he hcp hno herr)) (by decide)
      · cases hs
  | stopCheckpoint =>
      obtain rfl := (Option.some.inj hs).symm
      exact ⟨⟨h.wf, h.inoAgree, h.marks, h.last, h.unmarked, fun _ _ _ => nofun, h.unborn⟩, id⟩

/-! ## Calls -/

/-- A call on the inode: the inode exists, and once the call is past its last test the log
    at that test was recoverable. -/
structure CallInv (sbi : SbInfo) (inCp : Prop) (ino : Nat) (s : Nodes) (th : SyncThread) :
    Prop where
  active : th.ino = ino → th.pc ≠ .idle → s.Exists sbi ino
  tested : th.ino = ino → th.pc = .waiting ∨ th.pc = .returned 0 →
    ∀ log, th.test = some log → Recoverable inCp ino log

/-- A call that only goes on, to a place before or at its test. -/
theorem CallInv.goto {inCp : Prop} {ino : Nat} {s s' : Nodes} {th th' : SyncThread}
    (h : CallInv sbi inCp ino s th) (hlives : s.Exists sbi ino → s'.Exists sbi ino)
    (hino : th'.ino = th.ino) (hpc : th.pc ≠ .idle)
    (hnot : ¬ (th'.pc = .waiting ∨ th'.pc = .returned 0)) : CallInv sbi inCp ino s' th' :=
  ⟨fun hi _ => hlives (h.active (hino ▸ hi) hpc), fun _ hat => absurd hat hnot⟩

theorem NodeInv.writeInode {inCp : Prop} {ino : Nat} {s : Nodes} (h : NodeInv sbi inCp ino s)
    (i : Nat) : Keeps sbi inCp ino s (s.writeInode i) :=
  h.setPage i rfl (h.marks i) fun hn he hcp hno herr => hn ▸ h.stale he hcp hno herr

theorem Keeps.refl {inCp : Prop} {ino : Nat} {s : Nodes} (h : NodeInv sbi inCp ino s) :
    Keeps sbi inCp ino s s := ⟨h, id⟩

/-- Up to the node writes: a call that ends here saw no update due. -/
theorem checkInode_inv {inCp : Prop} {ino : Nat} {s : Nodes} {th : SyncThread}
    (h : NodeInv sbi inCp ino s) (hc : CallInv sbi inCp ino s th) (hpc : th.pc = .entered)
    (f : InodeFlags) (flushRet : Int) :
    Keeps sbi inCp ino s (checkInode s th f flushRet).1 ∧
      CallInv sbi inCp ino (checkInode s th f flushRet).1 (checkInode s th f flushRet).2 := by
  have hidle : th.pc ≠ .idle := by rw [hpc]; exact nofun
  unfold checkInode
  split
  · have hw := h.writeInode th.ino
    exact ⟨hw, hc.goto hw.lives rfl hidle (by simp)⟩
  · split
    · exact ⟨.refl h, hc.goto id rfl hidle (by simp)⟩
    · refine ⟨.refl h, fun hi _ => hc.active hi hidle, fun hi hat log hlog => ?_⟩
      rw [← Option.some.inj hlog]
      simp only at hi hat
      split at hat
      · simp at hat
      · rename_i hneed
        have hclean : s.nm.cache.needInodeBlockUpdate th.ino = false := by
          unfold Nodes.needInodePageUpdate at hneed
          simp only [Bool.or_eq_true, not_or, Bool.not_eq_true] at hneed
          exact hneed.2
        exact h.recoverable (hc.active hi hidle) (hi ▸ hclean)

theorem testBlock_inv {inCp : Prop} {ino : Nat} {s : Nodes} {th : SyncThread}
    (h : NodeInv sbi inCp ino s) (hc : CallInv sbi inCp ino s th) (hpc : th.pc = .blockTest) :
    Keeps sbi inCp ino s (testBlock s th).1 ∧
      CallInv sbi inCp ino (testBlock s th).1 (testBlock s th).2 := by
  have hidle : th.pc ≠ .idle := by rw [hpc]; exact nofun
  unfold testBlock
  split
  · exact ⟨.refl h, hc.goto id rfl hidle (by simp [eio])⟩
  · split
    · have hw := h.writeInode th.ino
      exact ⟨hw, hc.goto hw.lives rfl hidle (by simp)⟩
    · rename_i hneed
      refine ⟨.refl h, fun hi _ => hc.active hi hidle, fun hi _ log hlog => ?_⟩
      rw [← Option.some.inj hlog]
      exact h.recoverable (hc.active hi hidle) (by
        rw [← show th.ino = ino from hi]
        simpa using hneed)

/-- One step of a call. -/
theorem syncStep_inv {inCp : Prop} {ino : Nat} {s s' : Nodes} {th th' : SyncThread}
    (h : NodeInv sbi inCp ino s) (hc : CallInv sbi inCp ino s th) {op : SyncOp}
    (hs : syncStep sbi s th op = some (s', th')) :
    Keeps sbi inCp ino s s' ∧ CallInv sbi inCp ino s' th' := by
  cases op with
  | enter i atomic =>
      simp only [syncStep, Option.ite_none_right_eq_some, Option.some.injEq, Prod.mk.injEq] at hs
      obtain ⟨hex, rfl, rfl⟩ := hs
      exact ⟨.refl h, fun hi _ => hi ▸ hex, fun _ hat => by simp at hat⟩
  | fail err =>
      simp only [syncStep, Option.ite_none_right_eq_some, Option.some.injEq, Prod.mk.injEq] at hs
      obtain ⟨⟨hpc, herr⟩, rfl, rfl⟩ := hs
      exact ⟨.refl h, hc.goto id rfl (by rw [hpc]; exact nofun) (by simp [herr])⟩
  | checkInode f flushRet =>
      simp only [syncStep, Option.ite_none_right_eq_some, Option.some.injEq] at hs
      obtain ⟨hpc, heq⟩ := hs
      have hinv := checkInode_inv h hc hpc f flushRet
      rw [heq] at hinv
      exact hinv
  | checkCp e cpRet =>
      simp only [syncStep, Option.ite_none_right_eq_some, Option.some.injEq, Prod.mk.injEq] at hs
      obtain ⟨hpc, rfl, rfl⟩ := hs
      refine ⟨.refl h, hc.goto id rfl (by rw [hpc]; exact nofun) ?_⟩
      simp only
      split <;> simp
  | startFsync last =>
      simp only [syncStep, Option.ite_none_right_eq_some, Option.some.injEq, Prod.mk.injEq] at hs
      obtain ⟨⟨hpc, -⟩, rfl, rfl⟩ := hs
      refine ⟨.refl h, hc.goto id rfl (by rw [hpc]; exact nofun) ?_⟩
      simp only
      split <;> simp
  | fsyncNodePage nid blk nomem =>
      simp only [syncStep] at hs
      split at hs
      case h_2 => cases hs
      case h_1 last hpc =>
      have hidle : th.pc ≠ .idle := by rw [hpc]; exact nofun
      split at hs
      · simp only [Option.some.injEq, Prod.mk.injEq] at hs
        obtain ⟨rfl, rfl⟩ := hs
        exact ⟨.refl h, hc.goto id rfl hidle (by simp [eio])⟩
      · obtain ⟨s₁, hw, heq⟩ := Option.map_eq_some_iff.mp hs
        simp only [Prod.mk.injEq] at heq
        obtain ⟨rfl, rfl⟩ := heq
        have hk := h.fsyncNodePage hw
        refine ⟨hk, ?_⟩
        split
        · exact hc.goto hk.lives rfl hidle (by simp)
        · exact hc.goto hk.lives rfl hidle (by simp [hpc])
  | endFsync =>
      simp only [syncStep, Option.ite_none_right_eq_some, Option.some.injEq, Prod.mk.injEq] at hs
      obtain ⟨hpc, rfl, rfl⟩ := hs
      exact ⟨.refl h, hc.goto id rfl (by rw [hpc]; exact nofun) (by simp)⟩
  | testBlock =>
      simp only [syncStep, Option.ite_none_right_eq_some, Option.some.injEq] at hs
      obtain ⟨hpc, heq⟩ := hs
      have hinv := testBlock_inv h hc hpc
      rw [heq] at hinv
      exact hinv
  | finish ret =>
      simp only [syncStep, Option.ite_none_right_eq_some, Option.some.injEq, Prod.mk.injEq] at hs
      obtain ⟨hpc, rfl, rfl⟩ := hs
      exact ⟨.refl h, fun hi _ => hc.active hi (by rw [hpc]; exact nofun),
        fun hi _ => hc.tested hi (Or.inl hpc)⟩

/-! ## Runs -/

/-- The state a checkpoint leaves: every cached entry was flushed, and nothing has been
    written since. -/
structure AtCheckpoint (sbi : SbInfo) (s : SyncState) : Prop where
  wf : s.nm.Wf sbi
  flushed : ∀ nid e, s.nm.cache.natRoot.lookup nid = some e →
    e.isDirty = false ∧ e.isCheckpointed = true ∧ e.hasFsyncedInode = false
  inoAgree : ∀ nid, s.blkAddr sbi nid ≠ nullAddr →
    (nodeInfo sbi s.nm nid).ino = (s.pages nid).ino
  marks : ∀ nid, (s.pages nid).isFsyncDnode = true → (s.pages nid).isDnode = true
  log : s.log = []
  calls : ∀ t, (s.threads t).test = none ∧
    ((s.threads t).pc ≠ .idle → s.Exists sbi (s.threads t).ino)

/-- The nodes and all calls. -/
structure SyncInv (sbi : SbInfo) (inCp : Prop) (ino : Nat) (s : SyncState) : Prop where
  nodes : NodeInv sbi inCp ino s.toNodes
  calls : ∀ t, CallInv sbi inCp ino s.toNodes (s.threads t)

theorem AtCheckpoint.inv {s : SyncState} (h : AtCheckpoint sbi s) (ino : Nat) :
    SyncInv sbi (s.Exists sbi ino) ino s where
  nodes :=
    { wf := h.wf
      inoAgree := h.inoAgree
      marks := h.marks
      last := fun _ _ _ _ w hw => by
        rw [h.log] at hw
        cases hw
      unmarked := fun hex hcp => absurd hex hcp
      stale := fun hex hcp => absurd hex hcp
      unborn := fun _ e he => (h.flushed ino e he).2.2 }
  calls := fun t => ⟨fun hi hpc => hi ▸ (h.calls t).2 hpc, fun _ _ log hlog => by
    rw [(h.calls t).1] at hlog
    cases hlog⟩

/-- No step of the nodes renews the entry of an existing inode that is not recoverable. -/
def RenewsRecoverable (sbi : SbInfo) (inCp : Prop) (ino : Nat) (s : SyncState) : Op → Prop
  | .node op => RenewOk sbi inCp ino s.toNodes op
  | .sync _ _ => True

theorem SyncInv.step {inCp : Prop} {ino : Nat} {s s' : SyncState} (h : SyncInv sbi inCp ino s)
    {op : Op} (hok : RenewsRecoverable sbi inCp ino s op) (hs : step sbi s op = some s') :
    SyncInv sbi inCp ino s' := by
  cases op with
  | node op =>
      obtain ⟨n, hn, rfl⟩ := Option.map_eq_some_iff.mp hs
      have hk := h.nodes.step hok hn
      exact ⟨hk.inv, fun t => ⟨fun hi hpc => hk.lives ((h.calls t).active hi hpc),
        (h.calls t).tested⟩⟩
  | sync t op =>
      obtain ⟨⟨n, th⟩, hn, rfl⟩ := Option.map_eq_some_iff.mp hs
      obtain ⟨hk, hcall⟩ := syncStep_inv h.nodes (h.calls t) hn
      refine ⟨hk.inv, fun u => ?_⟩
      by_cases hu : u = t
      · subst hu
        simp only [Function.update_self]
        exact hcall
      · simp only [Function.update_of_ne hu]
        exact ⟨fun hi hpc => hk.lives ((h.calls u).active hi hpc), (h.calls u).tested⟩

theorem SyncInv.run {inCp : Prop} {ino : Nat} {s s' : SyncState} (h : SyncInv sbi inCp ino s)
    (hrun : Run sbi (RenewsRecoverable sbi inCp ino) s s') : SyncInv sbi inCp ino s' := by
  induction hrun with
  | refl => exact h
  | step op _ hok hs ih => exact ih.step hok hs

/-- Every call for the inode that returned 0, not through a checkpoint, saw it recoverable
    at its last test. -/
def SyncedRecoverable (inCp : Prop) (ino : Nat) (s : SyncState) : Prop :=
  ∀ t log, (s.threads t).ino = ino → (s.threads t).pc = .returned 0 →
    (s.threads t).test = some log → Recoverable inCp ino log

/-- In a run from a checkpoint in which the inode's NAT entry is renewed only while the inode
    is recoverable, every successful fsync is recoverable. -/
theorem sync_file_recoverable {s₀ s : SyncState} (ino : Nat) (h₀ : AtCheckpoint sbi s₀)
    (hrun : Run sbi (RenewsRecoverable sbi (s₀.Exists sbi ino) ino) s₀ s) :
    SyncedRecoverable (s₀.Exists sbi ino) ino s :=
  fun t log hi hret hlog => (((h₀.inv ino).run hrun).calls t).tested hi (Or.inr hret) log hlog

/-! ### A stale flag -/

theorem Run.foldlM {ok : SyncState → Op → Prop} {s₀ s' : SyncState} :
    ∀ (ops : List Op) (s : SyncState), (∀ op ∈ ops, ∀ s, ok s op) → Run sbi ok s₀ s →
      ops.foldlM (File.step sbi) s = some s' → Run sbi ok s₀ s'
  | [], s, _, hrun, h => by
    rw [← Option.some.inj h]
    exact hrun
  | op :: ops, s, hok, hrun, h => by
    rw [List.foldlM_cons] at h
    obtain ⟨s₁, hs, hrest⟩ := Option.bind_eq_some_iff.mp h
    exact Run.foldlM ops s₁ (fun o ho => hok o (List.mem_cons_of_mem _ ho))
      (.step op hrun (hok op List.mem_cons_self s) hs) hrest

/-- Inode 4 and its dnode 9, both in the checkpoint; nothing is cached. -/
def syncStart : SyncState where
  nm :=
    { cache := NatCache.init
      free := FreeNidInfo.init 100
      journal := { n := 0, slot := fun _ => (0, {}) }
      pages := fun _ i =>
        if i = 4 then { ino := 4, blockAddr := 5000 }
        else if i = 9 then { ino := 4, blockAddr := 5001 } else {}
      natBitmap := fun _ => false
      natBitsFlag := false
      fullNatBits := fun _ => false
      emptyNatBits := fun _ => false }
  pages := fun _ => { ino := 4, isDnode := true, isColdNode := true }
  log := []
  cpError := false
  threads := fun _ => {}

theorem syncStart_atCheckpoint : AtCheckpoint smallSbi syncStart where
  wf := ⟨NatCache.inv_init, fun _ _ ha => absurd ha (Nat.not_lt_zero _), Nat.zero_le _, nofun⟩
  flushed := nofun
  inoAgree := by
    intro nid h
    have hinfo : nodeInfo smallSbi syncStart.nm nid =
        if nid % natEntryPerBlock = 4 then { ino := 4, blockAddr := 5000 }
        else if nid % natEntryPerBlock = 9 then { ino := 4, blockAddr := 5001 } else {} := rfl
    unfold Nodes.blkAddr at h
    rw [hinfo] at h ⊢
    split
    · rfl
    · split
      · rfl
      · rename_i h4 h9
        rw [if_neg h4, if_neg h9] at h
        exact absurd rfl h
  marks := nofun
  log := rfl
  calls := fun _ => ⟨rfl, fun h => absurd rfl h⟩

/-- Nothing of the mount or the inode asks for a checkpoint. -/
def plainCpEnv : CpEnv where
  isReg := true
  nlink := 1
  sbiNeedCp := false
  fileWrongPino := false
  spaceForRollForward := true
  pino := 3
  fastboot := false
  activeLogs := 6
  transDir := false

/-- An fsync after an append, up to its node writes. -/
def appendFsync : List Op :=
  [.sync 0 (.enter 4 false), .sync 0 (.checkInode ⟨true, true, false⟩ 0),
    .sync 0 (.checkCp plainCpEnv 0), .sync 0 (.startFsync none)]

/-- Dnode 9 is written; the fsync then finds its inode not updated, and writes it. -/
def durableOps : List Op :=
  [.node (.setPageDirty 9)] ++ appendFsync ++
    [.sync 0 (.fsyncNodePage 9 7000 false), .sync 0 .endFsync, .sync 0 .testBlock,
      .sync 0 (.startFsync none), .sync 0 (.fsyncNodePage 4 7001 false), .sync 0 .endFsync,
      .sync 0 .testBlock, .sync 0 (.finish 0)]

theorem durable_run : ∃ s, Run smallSbi
    (RenewsRecoverable smallSbi (syncStart.Exists smallSbi 4) 4) syncStart s ∧
    (s.threads 0).pc = .returned 0 ∧
    SyncedRecoverable (syncStart.Exists smallSbi 4) 4 s := by
  have hret : (durableOps.foldlM (step smallSbi) syncStart).map
      (fun s => (s.threads 0).pc) = some (.returned 0) := by decide +kernel
  obtain ⟨s, hs, hpc⟩ := Option.map_eq_some_iff.mp hret
  have hok : ∀ op ∈ durableOps, ∀ s,
      RenewsRecoverable smallSbi (syncStart.Exists smallSbi 4) 4 s op := by
    intro op hop s
    simp only [durableOps, appendFsync, List.cons_append, List.nil_append, List.mem_cons,
      List.not_mem_nil, or_false] at hop
    rcases hop with rfl | rfl | rfl | rfl | rfl | rfl | rfl | rfl | rfl | rfl | rfl | rfl | rfl
    all_goals first | trivial | exact fun h => h.elim
  have hrun := Run.foldlM durableOps syncStart hok .refl hs
  exact ⟨s, hrun, hpc, sync_file_recoverable 4 syncStart_atCheckpoint hrun⟩

/-- `sync_node_pages` writes dnode 9 unmarked, with the inode's entry not cached; reading the
    entry sets `HAS_LAST_FSYNC`, and the fsync after it writes nothing. -/
def staleOps : List Op :=
  [.node (.setPageDirty 9), .node (.syncNodePage 9 7000 false),
    .node (.getNodeInfo 4 false)] ++ appendFsync ++
    [.sync 0 .endFsync, .sync 0 .testBlock, .sync 0 (.finish 0)]

/-- The fsync returns 0 and its last dnode has no mark. -/
theorem stale_run : ¬ ∀ (sbi : SbInfo) (s₀ s : SyncState) (ino : Nat), AtCheckpoint sbi s₀ →
    Run sbi (fun _ _ => True) s₀ s → SyncedRecoverable (s₀.Exists sbi ino) ino s := by
  intro hall
  have hend : (staleOps.foldlM (step smallSbi) syncStart).map
      (fun s => ((s.threads 0).ino, (s.threads 0).pc, (s.threads 0).test)) =
      some (4, .returned 0, some [⟨9, 4, true, false, false⟩]) := by decide +kernel
  obtain ⟨s, hs, hth⟩ := Option.map_eq_some_iff.mp hend
  simp only [Prod.mk.injEq] at hth
  have hrun : Run smallSbi (fun _ _ => True) syncStart s :=
    Run.foldlM staleOps syncStart (fun _ _ _ => trivial) .refl hs
  have hrec := hall smallSbi syncStart s 4 syncStart_atCheckpoint hrun 0 _ hth.1 hth.2.1 hth.2.2
  exact absurd (hrec.1 _ rfl) (by decide)

end F2fs.File

/-
  What the marks of a written node block say.

  `fsync_node_pages` sets the fsync and the dentry mark of the pages it writes, and
  `sync_node_pages` clears them.  The marks stay in the footer of the page after the
  write.  `f2fs_write_node_page` and `move_node_page` neither set nor clear them, so
  the next write of the page through one of these repeats what the last one had.

  A run is a list of `Event`s, newest first.  `MarkMeansFsync` says of a run that every
  marked block was written by `fsync_node_pages`, that roll-forward replays an inode up
  to such a block, and that no other write leaves `HAS_LAST_FSYNC` in the NAT entry of
  the inode.  `markMeansFsync_iff`: it holds exactly of the runs with no `StaleMark`
  step, a write of a page that still has a mark.

  `HAS_LAST_FSYNC` is also set where a NAT entry is read or flushed (`nat_reset_flag`);
  that is not a write of a node, and is the subject of `SyncDurable`.
-/
import F2fs.File.SyncDurable

namespace F2fs.File

open F2fs.Checkpoint F2fs.Node

variable {sbi : SbInfo}

/-! ## Runs -/

/-- One of the two marks. -/
def NodePage.marked (p : NodePage) : Bool := p.isFsyncDnode || p.isDentDnode

/-- One of the two marks. -/
def NodeWrite.marked (w : NodeWrite) : Bool := w.isFsyncDnode || w.isDentDnode

/-- A step of a run. -/
structure Event where
  before : SyncState
  op : Op
  after : SyncState

/-- The step writes the block. -/
def Event.Writes (e : Event) (w : NodeWrite) : Prop := e.after.log = w :: e.before.log

/-- A run from `s₀` with its steps, newest first. -/
inductive Trace (sbi : SbInfo) (s₀ : SyncState) : List Event → SyncState → Prop where
  | nil : Trace sbi s₀ [] s₀
  | step {l : List Event} {s s' : SyncState} (op : Op) : Trace sbi s₀ l s →
      step sbi s op = some s' → Trace sbi s₀ (⟨s, op, s'⟩ :: l) s'

/-- The step is a write by `fsync_node_pages`. -/
def Op.ByFsync : Op → Prop
  | .sync _ (.fsyncNodePage ..) => True
  | _ => False

/-- The dnodes of the inode that roll-forward replays, newest first: those up to the last
    one with the fsync mark. -/
def replayed (ino : Nat) (log : List NodeWrite) : List NodeWrite :=
  (dnodesOf ino log).dropWhile fun w => !w.isFsyncDnode

/-- The marks of the blocks a run wrote mean what their names say. -/
structure MarkMeansFsync (sbi : SbInfo) (l : List Event) (s : SyncState) : Prop where
  written : ∀ e ∈ l, ∀ w, e.Writes w → w.marked = true → e.op.ByFsync
  /-- Roll-forward takes an inode to where an fsync left it. -/
  replays : ∀ ino w rest, replayed ino s.log = w :: rest →
    ∃ e ∈ l, e.op.ByFsync ∧ e.Writes w ∧ dnodesOf ino e.after.log = w :: rest
  /-- `HAS_LAST_FSYNC` of the inode after a write of one of its nodes -/
  lastFsync : ∀ e ∈ l, ∀ w, e.Writes w → ¬ e.op.ByFsync → ∀ ent,
    e.after.nm.cache.natRoot.lookup (nodeInfo sbi e.before.nm w.nid).ino = some ent →
    ent.hasLastFsync = false

/-- `__write_node_page` gets to the write. -/
def Nodes.Writable (sbi : SbInfo) (s : Nodes) (nid : Nat) : Prop :=
  s.cpError = false ∧ s.blkAddr sbi nid ≠ nullAddr

/-- `f2fs_write_node_page` or `move_node_page` writes a page that still has a mark. -/
def StaleMark (sbi : SbInfo) (s : SyncState) : Op → Prop
  | .node (.writepage nid _ _) => s.Writable sbi nid ∧ (s.pages nid).marked = true
  | _ => False

theorem StaleMark.not_byFsync {s : SyncState} {op : Op} (h : StaleMark sbi s op) :
    ¬ op.ByFsync := by
  cases op with
  | node op => exact id
  | sync t op => exact h.elim

/-! ## Steps -/

/-- A write of the page `p` as a block. -/
structure Written (sbi : SbInfo) (s : Nodes) (w : NodeWrite) (s' : Nodes) : Prop where
  log : s'.log = w :: s.log
  /-- `set_node_addr` gives the inode's entry the mark of the block. -/
  fsyncDone : ∀ ent,
    s'.nm.cache.natRoot.lookup (nodeInfo sbi s.nm w.nid).ino = some ent →
    ent.hasLastFsync = w.isFsyncDnode

/-- `__write_node_page` of a page its caller marked as `p`. -/
theorem writeNodePage_cases {s : Nodes} (hwf : s.nm.Wf sbi) {nid blk : Nat} (nomem : Bool)
    (p : NodePage) (hblk : IsBlkaddr blk) :
    ((s.setPage nid p).writeNodePage sbi nid blk nomem).nm.Wf sbi ∧
      (¬ s.Writable sbi nid ∧
          ((s.setPage nid p).writeNodePage sbi nid blk nomem).log = s.log ∨
        s.Writable sbi nid ∧
          Written sbi s (p.write nid) ((s.setPage nid p).writeNodePage sbi nid blk nomem)) := by
  have hfst : (getNodeInfo sbi s.nm nid nomem).1.blkAddr = s.blkAddr sbi nid := by
    rw [getNodeInfo_fst]
    rfl
  rw [writeNodePage_setPage]
  by_cases herr : s.cpError = true
  · rw [if_pos herr]
    exact ⟨hwf, Or.inl ⟨fun hw => absurd (herr.symm.trans hw.1) (by decide), rfl⟩⟩
  rw [if_neg herr]
  by_cases hnull : s.blkAddr sbi nid = nullAddr
  · rw [if_pos (hfst.trans hnull)]
    exact ⟨(getNodeInfo_spec hwf nid nomem).1, Or.inl ⟨fun hw => hw.2 hnull, rfl⟩⟩
  rw [if_neg (fun heq => hnull (hfst.symm.trans heq))]
  have hm := moved hwf nid hblk.2 p.isFsyncDnode nomem
  refine ⟨hm.wf, Or.inr ⟨⟨Bool.not_eq_true _ ▸ herr, hnull⟩, rfl, fun ent hent => ?_⟩⟩
  -- the entry is the written node's own, or that of another nid
  by_cases hself : (nodeInfo sbi s.nm nid).ino = nid
  · obtain ⟨e, he, -, hlast, -⟩ := hm.self
    have hent' : some ent = some e := by
      rw [← he, ← hent]
      exact congrArg _ hself
    rw [Option.some.inj hent']
    exact hlast hself
  · obtain ⟨e, -, -, -, -, hlast⟩ := hm.other (nodeInfo sbi s.nm nid).ino hself ent hent
    rw [hlast, if_pos rfl]
    rfl

/-- What a step does to the NAT and the log. -/
structure Logged (sbi : SbInfo) (s : SyncState) (op : Op) (s' : SyncState) : Prop where
  wf : s'.nm.Wf sbi
  log : ¬ StaleMark sbi s op ∧ s'.log = s.log ∨
    ∃ w, Written sbi s.toNodes w s'.toNodes ∧
      (w.marked = true ↔ StaleMark sbi s op ∨ op.ByFsync ∧ w.marked = true)

theorem Nodes.step_logged {s : SyncState} (hwf : s.nm.Wf sbi) {op : NodeOp} {n : Nodes}
    (hs : s.toNodes.step sbi op = some n) :
    Logged sbi s (.node op) { s with toNodes := n } := by
  cases op with
  | getNodeInfo nid nomem =>
      obtain rfl := (Option.some.inj hs).symm
      exact ⟨(getNodeInfo_spec hwf nid nomem).1, Or.inl ⟨id, rfl⟩⟩
  | tryToFreeNats nrShrink =>
      obtain rfl := (Option.some.inj hs).symm
      exact ⟨(tryToFreeNats_nodeInfo hwf nrShrink).1, Or.inl ⟨id, rfl⟩⟩
  | flushNatEntries reason =>
      obtain ⟨nm, hrun, hwf', -⟩ := flushNatEntries_entry hwf reason
      obtain ⟨nm', hrun', rfl⟩ := Option.map_eq_some_iff.mp hs
      rw [hrun] at hrun'
      rw [← Option.some.inj hrun']
      exact ⟨hwf', Or.inl ⟨id, rfl⟩⟩
  | newNodePage nid ino isDnode isColdNode =>
      simp only [Nodes.step, Nodes.newNodePage, Option.ite_none_right_eq_some,
        Option.some.injEq] at hs
      obtain ⟨-, rfl⟩ := hs
      exact ⟨(setNodeAddr_nodeInfo hwf _ newAddr false).1, Or.inl ⟨id, rfl⟩⟩
  | truncateNode nid nomem =>
      simp only [Nodes.step, Nodes.truncateNode, Option.ite_none_right_eq_some,
        Option.some.injEq] at hs
      obtain ⟨-, rfl⟩ := hs
      exact ⟨(moved hwf nid (show nullAddr ≠ newAddr by decide) false nomem).wf,
        Or.inl ⟨id, rfl⟩⟩
  | setPageDirty nid =>
      obtain rfl := (Option.some.inj hs).symm
      exact ⟨hwf, Or.inl ⟨id, rfl⟩⟩
  | syncNodePage nid blk nomem =>
      simp only [Nodes.step, Nodes.syncNodePage, Option.ite_none_right_eq_some,
        Option.some.injEq] at hs
      obtain ⟨⟨-, hblk⟩, rfl⟩ := hs
      obtain ⟨hwf', hlog⟩ := writeNodePage_cases hwf nomem { s.pages nid with
        isFsyncDnode := false, isDentDnode := false, dirty := false } hblk
      apply Logged.mk hwf'
      rcases hlog with ⟨-, hsame⟩ | ⟨-, hw⟩
      · exact Or.inl ⟨id, hsame⟩
      · -- the mark was taken off the page
        refine Or.inr ⟨_, hw, fun h => absurd h Bool.false_ne_true, fun h => ?_⟩
        exact h.elim False.elim fun h => h.1.elim
  | writepage nid blk nomem =>
      simp only [Nodes.step, Nodes.writepage, Option.ite_none_right_eq_some,
        Option.some.injEq] at hs
      obtain ⟨hblk, rfl⟩ := hs
      obtain ⟨hwf', hlog⟩ := writeNodePage_cases hwf nomem { s.pages nid with dirty := false } hblk
      apply Logged.mk hwf'
      rcases hlog with ⟨hnot, hsame⟩ | ⟨hcan, hw⟩
      · exact Or.inl ⟨fun h => hnot h.1, hsame⟩
      · -- the block has the marks of the page
        exact Or.inr ⟨_, hw, ⟨fun h => Or.inl ⟨hcan, h⟩, fun h => h.elim And.right And.right⟩⟩
  | stopCheckpoint =>
      obtain rfl := (Option.some.inj hs).symm
      exact ⟨hwf, Or.inl ⟨id, rfl⟩⟩

/-- A call writes nodes in `fsync_node_pages` only. -/
theorem syncStep_logged {s : SyncState} (hwf : s.nm.Wf sbi) {t : Nat} {op : SyncOp} {n : Nodes}
    {th : SyncThread} (hs : syncStep sbi s.toNodes (s.threads t) op = some (n, th)) :
    Logged sbi s (.sync t op)
      { toNodes := n, threads := Function.update s.threads t th } := by
  cases op with
  | enter ino atomic =>
      simp only [syncStep, Option.ite_none_right_eq_some, Option.some.injEq, Prod.mk.injEq] at hs
      obtain ⟨-, rfl, -⟩ := hs
      exact ⟨hwf, Or.inl ⟨id, rfl⟩⟩
  | fail err =>
      simp only [syncStep, Option.ite_none_right_eq_some, Option.some.injEq, Prod.mk.injEq] at hs
      obtain ⟨-, rfl, -⟩ := hs
      exact ⟨hwf, Or.inl ⟨id, rfl⟩⟩
  | checkInode f flushRet =>
      simp only [syncStep, Option.ite_none_right_eq_some, Option.some.injEq] at hs
      obtain ⟨-, heq⟩ := hs
      obtain rfl : (checkInode s.toNodes (s.threads t) f flushRet).1 = n := congrArg Prod.fst heq
      unfold checkInode
      split
      · exact ⟨hwf, Or.inl ⟨id, rfl⟩⟩
      · split <;> exact ⟨hwf, Or.inl ⟨id, rfl⟩⟩
  | checkCp e cpRet =>
      simp only [syncStep, Option.ite_none_right_eq_some, Option.some.injEq, Prod.mk.injEq] at hs
      obtain ⟨-, rfl, -⟩ := hs
      exact ⟨hwf, Or.inl ⟨id, rfl⟩⟩
  | startFsync last =>
      simp only [syncStep, Option.ite_none_right_eq_some, Option.some.injEq, Prod.mk.injEq] at hs
      obtain ⟨-, rfl, -⟩ := hs
      exact ⟨hwf, Or.inl ⟨id, rfl⟩⟩
  | fsyncNodePage nid blk nomem =>
      simp only [syncStep] at hs
      split at hs
      case h_2 => cases hs
      case h_1 last hpc =>
      split at hs
      · simp only [Option.some.injEq, Prod.mk.injEq] at hs
        obtain ⟨rfl, -⟩ := hs
        exact ⟨hwf, Or.inl ⟨id, rfl⟩⟩
      · obtain ⟨n', hw, heq⟩ := Option.map_eq_some_iff.mp hs
        obtain ⟨rfl, -⟩ := Prod.mk.inj heq
        simp only [Nodes.fsyncNodePage, Option.ite_none_right_eq_some, Option.some.injEq] at hw
        obtain ⟨⟨-, -, -, -, hblk⟩, rfl⟩ := hw
        obtain ⟨hwf', hlog⟩ := writeNodePage_cases hwf nomem
          (Nodes.fsyncMarked s.nm.cache nid last (s.pages nid)) hblk
        apply Logged.mk hwf'
        rcases hlog with ⟨-, hsame⟩ | ⟨-, hw⟩
        · exact Or.inl ⟨id, hsame⟩
        · exact Or.inr ⟨_, hw, ⟨fun h => Or.inr ⟨trivial, h⟩, fun h => h.elim False.elim And.right⟩⟩
  | endFsync =>
      simp only [syncStep, Option.ite_none_right_eq_some, Option.some.injEq, Prod.mk.injEq] at hs
      obtain ⟨-, rfl, -⟩ := hs
      exact ⟨hwf, Or.inl ⟨id, rfl⟩⟩
  | testBlock =>
      simp only [syncStep, Option.ite_none_right_eq_some, Option.some.injEq] at hs
      obtain ⟨-, heq⟩ := hs
      obtain rfl : (testBlock s.toNodes (s.threads t)).1 = n := congrArg Prod.fst heq
      unfold testBlock
      split
      · exact ⟨hwf, Or.inl ⟨id, rfl⟩⟩
      · split <;> exact ⟨hwf, Or.inl ⟨id, rfl⟩⟩
  | finish ret =>
      simp only [syncStep, Option.ite_none_right_eq_some, Option.some.injEq, Prod.mk.injEq] at hs
      obtain ⟨-, rfl, -⟩ := hs
      exact ⟨hwf, Or.inl ⟨id, rfl⟩⟩

theorem step_logged {s s' : SyncState} (hwf : s.nm.Wf sbi) {op : Op}
    (hs : step sbi s op = some s') : Logged sbi s op s' := by
  cases op with
  | node op =>
      obtain ⟨n, hn, rfl⟩ := Option.map_eq_some_iff.mp hs
      exact Nodes.step_logged hwf hn
  | sync t op =>
      obtain ⟨⟨n, th⟩, hn, rfl⟩ := Option.map_eq_some_iff.mp hs
      exact syncStep_logged hwf hn

/-- A step that writes a block writes it as `Written` says. -/
theorem Logged.written {s s' : SyncState} {op : Op} (h : Logged sbi s op s') {w : NodeWrite}
    (hw : s'.log = w :: s.log) :
    Written sbi s.toNodes w s'.toNodes ∧
      (w.marked = true ↔ StaleMark sbi s op ∨ op.ByFsync ∧ w.marked = true) := by
  rcases h.log with ⟨-, hsame⟩ | ⟨v, hv, hmark⟩
  · exact absurd (hsame.symm.trans hw).symm (List.cons_ne_self w _)
  · obtain rfl : v = w := (List.cons.inj (hv.log.symm.trans hw)).1
    exact ⟨hv, hmark⟩

/-! ## Marks of a run -/

theorem Trace.wf {s₀ s : SyncState} {l : List Event} (hwf : s₀.nm.Wf sbi)
    (ht : Trace sbi s₀ l s) : s.nm.Wf sbi := by
  induction ht with
  | nil => exact hwf
  | step op _ hs ih => exact (step_logged ih hs).wf

/-- Every event of a run is a step. -/
theorem Trace.logged {s₀ s : SyncState} {l : List Event} (hwf : s₀.nm.Wf sbi)
    (ht : Trace sbi s₀ l s) : ∀ e ∈ l, Logged sbi e.before e.op e.after := by
  induction ht with
  | nil => exact fun e he => absurd he List.not_mem_nil
  | step op htail hs ih =>
      intro e he
      rcases List.mem_cons.mp he with rfl | hmem
      · exact step_logged (htail.wf hwf) hs
      · exact ih e hmem

theorem dnodesOf_cons_of_eq {ino : Nat} {log : List NodeWrite} {w : NodeWrite}
    (hino : w.ino = ino) (hd : w.isDnode = true) :
    dnodesOf ino (w :: log) = w :: dnodesOf ino log :=
  List.filter_cons_of_pos (by simp [hino, hd])

/-- One more block, and what roll-forward replays. -/
theorem replayed_cons (ino : Nat) (w : NodeWrite) (log : List NodeWrite) :
    replayed ino (w :: log) = replayed ino log ∨
      w.isFsyncDnode = true ∧ dnodesOf ino (w :: log) = w :: dnodesOf ino log ∧
        replayed ino (w :: log) = w :: dnodesOf ino log := by
  unfold replayed
  by_cases hw : w.ino = ino ∧ w.isDnode = true
  · have hcons : dnodesOf ino (w :: log) = w :: dnodesOf ino log := dnodesOf_cons_of_eq hw.1 hw.2
    rw [hcons]
    cases hf : w.isFsyncDnode with
    | false => exact Or.inl (List.dropWhile_cons_of_pos (by rw [hf]; rfl))
    | true => exact Or.inr ⟨rfl, rfl, List.dropWhile_cons_of_neg (by rw [hf]; decide)⟩
  · left
    unfold dnodesOf
    rw [List.filter_cons_of_neg (by simpa using hw)]

/-- What roll-forward replays ends in a block that some step of the run wrote with the
    mark. -/
theorem Trace.replays {s₀ s : SyncState} {l : List Event} (hwf : s₀.nm.Wf sbi)
    (hlog : s₀.log = []) (ht : Trace sbi s₀ l s) {ino : Nat} {w : NodeWrite}
    {rest : List NodeWrite} (hr : replayed ino s.log = w :: rest) :
    ∃ e ∈ l, e.Writes w ∧ w.isFsyncDnode = true ∧ dnodesOf ino e.after.log = w :: rest := by
  induction ht with
  | nil =>
      rw [hlog] at hr
      exact absurd hr (by simp [replayed, dnodesOf])
  | @step l s s' op htail hs ih =>
      have hearlier : replayed ino s.log = w :: rest →
          ∃ e ∈ (⟨s, op, s'⟩ : Event) :: l, e.Writes w ∧ w.isFsyncDnode = true ∧
            dnodesOf ino e.after.log = w :: rest := fun h => by
        obtain ⟨e, he, hrest⟩ := ih h
        exact ⟨e, List.mem_cons_of_mem _ he, hrest⟩
      rcases (step_logged (htail.wf hwf) hs).log with ⟨-, hsame⟩ | ⟨v, hv, -⟩
      · exact hearlier (hsame ▸ hr)
      · rw [hv.log] at hr
        rcases replayed_cons ino v s.log with hold | ⟨hf, hd, hnew⟩
        · exact hearlier (hold ▸ hr)
        · obtain ⟨rfl, rfl⟩ := List.cons.inj (hnew.symm.trans hr)
          refine ⟨_, List.mem_cons_self, hv.log, hf, ?_⟩
          rw [← hd]
          exact congrArg (dnodesOf ino) hv.log

/-- The marks of a run mean fsync exactly if no step of it writes a page that still has a
    mark outside `fsync_node_pages` and `sync_node_pages`. -/
theorem markMeansFsync_iff {s₀ s : SyncState} {l : List Event} (hwf : s₀.nm.Wf sbi)
    (hlog : s₀.log = []) (ht : Trace sbi s₀ l s) :
    MarkMeansFsync sbi l s ↔ ∀ e ∈ l, ¬ StaleMark sbi e.before e.op := by
  have hsteps := ht.logged hwf
  refine ⟨fun h e he hstale => ?_, fun h => ?_⟩
  · -- a stale mark is written
    rcases (hsteps e he).log with ⟨hnot, -⟩ | ⟨w, hw, hmark⟩
    · exact hnot hstale
    · exact hstale.not_byFsync (h.written e he w hw.log (hmark.mpr (Or.inl hstale)))
  · have hwritten : ∀ e ∈ l, ∀ w, e.Writes w → w.marked = true → e.op.ByFsync := by
      intro e he w hw hm
      rcases ((hsteps e he).written hw).2.mp hm with hstale | ⟨hby, -⟩
      · exact absurd hstale (h e he)
      · exact hby
    refine ⟨hwritten, fun ino w rest hr => ?_, fun e he w hw hby ent hent => ?_⟩
    · obtain ⟨e, he, hw, hf, hd⟩ := ht.replays hwf hlog hr
      exact ⟨e, he, hwritten e he w hw (by rw [NodeWrite.marked, hf]; rfl), hw, hd⟩
    · rw [((hsteps e he).written hw).1.fsyncDone ent hent]
      by_contra hf
      have hf' : w.isFsyncDnode = true := by simpa using hf
      exact hby (hwritten e he w hw (by rw [NodeWrite.marked, hf']; rfl))

/-! ### A mark that stays -/

/-- Not a write by `f2fs_write_node_page` or `move_node_page`. -/
def Op.NotWritepage : Op → Prop
  | .node (.writepage ..) => False
  | _ => True

theorem Op.NotWritepage.not_stale {op : Op} (h : op.NotWritepage) (s : SyncState) :
    ¬ StaleMark sbi s op := by
  intro hstale
  cases op with
  | sync t op => exact hstale
  | node op =>
      cases op with
      | writepage nid blk nomem => exact h
      | _ => exact hstale

theorem Trace.foldlM {s₀ s' : SyncState} :
    ∀ (ops : List Op) (l : List Event) (s : SyncState), Trace sbi s₀ l s →
      ops.foldlM (File.step sbi) s = some s' → ∃ l', Trace sbi s₀ l' s' ∧
        ∀ P : Op → Prop, (∀ e ∈ l, P e.op) → (∀ op ∈ ops, P op) → ∀ e ∈ l', P e.op
  | [], l, s, ht, h => by
    rw [← Option.some.inj h]
    exact ⟨l, ht, fun _ hl _ => hl⟩
  | op :: ops, l, s, ht, h => by
    rw [List.foldlM_cons] at h
    obtain ⟨s₁, hs, hrest⟩ := Option.bind_eq_some_iff.mp h
    obtain ⟨l', ht', hall⟩ := Trace.foldlM ops _ s₁ (.step op ht hs) hrest
    refine ⟨l', ht', fun P hl hops => hall P (fun e he => ?_) fun o ho =>
      hops o (List.mem_cons_of_mem _ ho)⟩
    rcases List.mem_cons.mp he with rfl | hmem
    · exact hops op List.mem_cons_self
    · exact hl e hmem

/-- An fsync that writes a dnode and then its inode. -/
theorem durable_marks : ∃ l s, Trace smallSbi syncStart l s ∧ s.log.length = 2 ∧
    MarkMeansFsync smallSbi l s := by
  have hend : (durableOps.foldlM (step smallSbi) syncStart).map (fun s => s.log.length) =
      some 2 := by decide +kernel
  obtain ⟨s, hs, hlen⟩ := Option.map_eq_some_iff.mp hend
  obtain ⟨l, ht, hall⟩ := Trace.foldlM durableOps [] syncStart .nil hs
  have hnot : ∀ op ∈ durableOps, op.NotWritepage := by
    intro op hop
    simp only [durableOps, appendFsync, List.cons_append, List.nil_append, List.mem_cons,
      List.not_mem_nil, or_false] at hop
    rcases hop with rfl | rfl | rfl | rfl | rfl | rfl | rfl | rfl | rfl | rfl | rfl | rfl | rfl
    all_goals trivial
  have hops := hall Op.NotWritepage (fun e he => absurd he List.not_mem_nil) hnot
  refine ⟨l, s, ht, hlen, ?_⟩
  exact (markMeansFsync_iff syncStart_atCheckpoint.wf rfl ht).mpr
    fun e he => (hops e he).not_stale e.before

/-- Dnode 9 is dirtied and fsynced, and dirtied again. -/
def redirtiedOps : List Op :=
  [.node (.setPageDirty 9)] ++ appendFsync ++
    [.sync 0 (.fsyncNodePage 9 7000 false), .node (.setPageDirty 9)]

/-- Writeback then writes it with the mark of the fsync. -/
theorem writepage_keeps_mark : ¬ ∀ (sbi : SbInfo) (s₀ s : SyncState) (l : List Event),
    AtCheckpoint sbi s₀ → Trace sbi s₀ l s → MarkMeansFsync sbi l s := by
  intro hall
  have hend : ((redirtiedOps.foldlM (step smallSbi) syncStart).bind fun s =>
      (step smallSbi s (.node (.writepage 9 7001 false))).map fun s' => (s.log, s'.log)) =
      some ([⟨9, 4, true, true, false⟩],
        [⟨9, 4, true, true, false⟩, ⟨9, 4, true, true, false⟩]) := by
    decide +kernel
  obtain ⟨s, hs, hlast⟩ := Option.bind_eq_some_iff.mp hend
  obtain ⟨s', hstep, hlogs⟩ := Option.map_eq_some_iff.mp hlast
  obtain ⟨hlog, hlog'⟩ := Prod.mk.inj hlogs
  obtain ⟨l, ht, -⟩ := Trace.foldlM redirtiedOps [] syncStart .nil hs
  have hmarks := hall smallSbi syncStart s' _ syncStart_atCheckpoint (.step _ ht hstep)
  have hwrites : Event.Writes ⟨s, .node (.writepage 9 7001 false), s'⟩
      ⟨9, 4, true, true, false⟩ := by
    unfold Event.Writes
    rw [hlog, hlog']
  exact hmarks.written _ List.mem_cons_self _ hwrites rfl

end F2fs.File

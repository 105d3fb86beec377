/-
  The operations on nids as runs of elementary moves.

  Each operation of `NidOp` takes and releases the locks of the node manager a few times;
  a move is what happens between.  An invariant of nids is then shown move by move, and
  `nidRun_rule` carries it over any run of operations.  `recover` stands apart: it binds a
  nid that nobody took.
-/
import F2fs.Node.NidInv

namespace F2fs.Node

open FreeNidInfo F2fs.Checkpoint

/-- One move; moves of kind `recover` only with `recovery`. -/
inductive NidMove (sbi : SbInfo) (recovery : Bool) (m : NodeManager) : NodeManager → Prop
  | read (nid : Nat) (nomem : Bool) : NidMove sbi recovery m (m.getNodeInfo sbi nid nomem).2
  | write (ni : NodeInfo) (newBlkaddr : Nat) (fsyncDone : Bool)
      (hmem : ni.nid ∈ usableNids sbi) (htaken : Prealloc m ni.nid ∨ Bound sbi m ni.nid)
      (hpre : Prealloc m ni.nid → newBlkaddr ≠ nullAddr) :
      NidMove sbi recovery m (m.setNodeAddr ni newBlkaddr fsyncDone)
  | recover (ni : NodeInfo) (hrec : recovery = true) (hmem : ni.nid ∈ usableNids sbi) :
      NidMove sbi recovery m
        ((m.withFree (m.nat.free.removeFreeNid ni.nid)).setNodeAddr ni newAddr false)
  | dropClean (nrShrink : Nat) : NidMove sbi recovery m
      { m with nat := { m.nat with cache := m.nat.cache.tryToFreeNats nrShrink } }
  | take (nid : Nat) (he : (m.nat.free.view nid).state = some .freeNid) :
      NidMove sbi recovery m (m.withFree (m.nat.free.takeFreeNid nid))
  | done (nid : Nat) (he : Prealloc m nid) (hbound : Bound sbi m nid) :
      NidMove sbi recovery m (m.withFree (m.nat.free.allocNidDone nid))
  | failed (nid : Nat) (mem : Bool) (he : Prealloc m nid) (hunbound : ¬ Bound sbi m nid) :
      NidMove sbi recovery m (m.withFree (m.nat.free.allocNidFailed nid mem))
  | build (sync mem : Bool) : NidMove sbi recovery m (buildFreeNids sbi sync false mem m)
  | dropFree (nrShrink : Nat) :
      NidMove sbi recovery m (m.withFree (m.nat.free.tryToFreeNids nrShrink))
  | flush (drained : Bool) (L : List Nat) (s : NatState)
      (hf : NidsFlushed sbi m.nat drained L s) : NidMove sbi recovery m { m with nat := s }

section

variable {sbi : SbInfo} {recovery : Bool} {m m' : NodeManager}

/-- A nid that was taken or is bound is not in the list. -/
theorem NidsInv.not_listed (h : NidsInv sbi m.nat) {nid : Nat}
    (htaken : Prealloc m nid ∨ Bound sbi m nid) :
    (m.nat.free.view nid).state ≠ some .freeNid := by
  intro hfree
  rcases htaken with hpre | hbound
  · rw [show (m.nat.free.view nid).state = some .preallocNid from hpre] at hfree
    cases hfree
  · exact hbound ((h.free nid hfree).2.nodeInfo h.wf)

theorem NidMove.inv (hm : NidMove sbi recovery m m') (h : NidsInv sbi m.nat) :
    NidsInv sbi m'.nat := by
  cases hm with
  | read nid nomem => exact (h.getNodeInfo nid nomem).1
  | write ni newBlkaddr fsyncDone hmem htaken hpre =>
      exact h.setNodeAddr fsyncDone hmem (h.not_listed htaken) hpre
  | recover ni hrec hmem =>
      have h' := h.removeFreeNid ni.nid
      have hview := removeFreeNid_view m.nat.free ni.nid ni.nid
      rw [if_pos rfl] at hview
      refine NidsInv.setNodeAddr h' false hmem ?_ fun _ => by decide
      show ((m.nat.free.removeFreeNid ni.nid).view ni.nid).state ≠ _
      rw [hview]
      exact NidView.unlist_free
  | dropClean nrShrink => exact (h.tryToFreeNats nrShrink).1
  | take nid he => exact h.take he
  | done nid he _ => exact h.done he
  | failed nid mem he hunbound => exact h.failed mem he (not_not.mp hunbound)
  | build sync mem =>
      obtain ⟨f, next, hbuild, hf⟩ := buildFreeNids_settled h.toReadable h.settled sync false mem
      rw [hbuild]
      exact h.ofSettled hf
  | dropFree nrShrink => exact h.tryToFreeNids nrShrink
  | flush drained L s hf => exact h.flushed hf

/-- A run of moves. -/
def NidMoves (sbi : SbInfo) (recovery : Bool) : NodeManager → NodeManager → Prop :=
  Relation.ReflTransGen (NidMove sbi recovery)

theorem NidMoves.one (hm : NidMove sbi recovery m m') : NidMoves sbi recovery m m' :=
  Relation.ReflTransGen.single hm

theorem NidMoves.inv (hm : NidMoves sbi recovery m m') (h : NidsInv sbi m.nat) :
    NidsInv sbi m'.nat := by
  induction hm with
  | refl => exact h
  | tail _ hstep ih => exact hstep.inv ih

/-! ## Operations -/

theorem getNodeInfo_bound (h : NidsInv sbi m.nat) (nid : Nat) (nomem : Bool) (n : Nat) :
    (Bound sbi (m.getNodeInfo sbi nid nomem).2 n ↔ Bound sbi m n) ∧
      (Prealloc (m.getNodeInfo sbi nid nomem).2 n ↔ Prealloc m n) ∧
      (m.getNodeInfo sbi nid nomem).1.nid = nid ∧
      ((m.getNodeInfo sbi nid nomem).1.blkAddr ≠ nullAddr ↔ Bound sbi m nid) := by
  obtain ⟨-, hfree, -, -, hinfo⟩ := h.getNodeInfo nid nomem
  have hfst : (Node.getNodeInfo sbi m.nat nid nomem).1 = _ := getNodeInfo_fst m.nat nid nomem
  unfold NodeManager.getNodeInfo Bound Prealloc
  dsimp only
  rw [hfst, hinfo, hfree]
  exact ⟨Iff.rfl, Iff.rfl, rfl, Iff.rfl⟩

/-- A written address is read back. -/
theorem setNodeAddr_bound (h : NidsInv sbi m.nat) (ni : NodeInfo) {newBlkaddr : Nat}
    (fsyncDone : Bool) (haddr : newBlkaddr ≠ nullAddr) :
    Bound sbi (m.setNodeAddr ni newBlkaddr fsyncDone) ni.nid := by
  obtain ⟨-, hinfo⟩ := setNodeAddr_nodeInfo h.wf ni newBlkaddr fsyncDone
  unfold Bound NodeManager.setNodeAddr
  dsimp only
  rw [hinfo, if_pos rfl]
  exact haddr

/-- `get_node_info` and `set_node_addr` of a bound nid. -/
theorem rewrite_moves (h : NidsInv sbi m.nat) {nid newBlkaddr : Nat} (nomem fsyncDone : Bool)
    (hmem : nid ∈ usableNids sbi) (hbound : Bound sbi m nid)
    (hpre : Prealloc m nid → newBlkaddr ≠ nullAddr) :
    NidMoves sbi recovery m ((m.getNodeInfo sbi nid nomem).2.setNodeAddr
      (m.getNodeInfo sbi nid nomem).1 newBlkaddr fsyncDone) := by
  obtain ⟨hb, hp, hnid, -⟩ := getNodeInfo_bound h nid nomem nid
  have hread : NidMoves sbi recovery m (m.getNodeInfo sbi nid nomem).2 :=
    NidMoves.one (.read nid nomem)
  generalize (m.getNodeInfo sbi nid nomem).1 = ni at hnid ⊢
  subst hnid
  exact hread.tail (.write ni newBlkaddr fsyncDone hmem (Or.inr (hb.mpr hbound))
    fun hp' => hpre (hp.mp hp'))

theorem truncateNode_moves (h : NidsInv sbi m.nat) {nid : Nat} (nomem : Bool)
    (hused : InUse sbi m nid) :
    NidMoves sbi recovery m (m.truncateNode sbi nid nomem) :=
  rewrite_moves h nomem false hused.1 hused.2.1 fun hp => absurd hp hused.2.2

/-- `alloc_nid` hands out a nid that is not bound. -/
theorem allocNid_moves : ∀ (fuel : Nat) {m m' : NodeManager} {r : Option Nat},
    NidsInv sbi m.nat → allocNid sbi fuel m = some (r, m') →
    NidMoves sbi recovery m m' ∧ ∀ nid, r = some nid → Prealloc m' nid ∧ ¬ Bound sbi m' nid
  | 0, _, _, _, _, hrun => nomatch hrun
  | fuel + 1, m, m', r, h, hrun => by
      unfold allocNid at hrun
      dsimp only at hrun
      split_ifs at hrun with hzero hcnt
      · cases hrun
        exact ⟨.refl, nofun⟩
      · cases hlist : m.nat.free.freeNidList with
        | nil =>
            rw [hlist] at hrun
            cases hrun
        | cons nid rest =>
            rw [hlist] at hrun
            cases hrun
            have he : (m.nat.free.view nid).state = some .freeNid :=
              (h.list.mem nid).mp (by rw [hlist]; exact List.mem_cons_self)
            have hview := takeFreeNid_view m.nat.free nid he
            rw [if_pos rfl] at hview
            refine ⟨NidMoves.one (.take nid he), fun n hn => ?_⟩
            cases hn
            exact ⟨congrArg NidView.state hview,
              fun hb => hb ((h.free nid he).2.nodeInfo h.wf)⟩
      · have hbuild : NidMove sbi recovery m (buildFreeNids sbi true false true m) :=
          .build true true
        obtain ⟨hmoves, hr⟩ := allocNid_moves fuel (hbuild.inv h) hrun
        exact ⟨(NidMoves.one hbuild).trans hmoves, hr⟩

/-- The operation that binds a nid nobody took. -/
def NidOp.isRecovery : NidOp → Bool
  | .recoverInodePage _ _ => true
  | _ => false

/-- Every operation is a run of moves. -/
theorem nidOp_moves (h : NidsInv sbi m.nat) {op : NidOp}
    (hrec : op.isRecovery = true → recovery = true) (hop : nidOp sbi m op = some m') :
    NidMoves sbi recovery m m' := by
  unfold nidOp at hop
  split_ifs at hop with hallow
  cases op with
  | getNodeInfo nid nomem =>
      cases hop
      exact NidMoves.one (.read nid nomem)
  | newNodePage nid ino =>
      cases hop
      obtain ⟨hpre, -⟩ := hallow
      exact NidMoves.one (.write _ newAddr false (h.prealloc nid hpre).1 (Or.inl hpre)
        fun _ => by decide)
  | writeNodePage nid nomem newBlkaddr fsyncDone =>
      cases hop
      obtain ⟨hmem, hnull, -⟩ := hallow
      obtain ⟨-, -, -, hni⟩ := getNodeInfo_bound h nid nomem nid
      unfold NodeManager.writeNodePage
      dsimp only
      split_ifs with haddr
      · exact NidMoves.one (.read nid nomem)
      · exact rewrite_moves h nomem fsyncDone hmem (hni.mp haddr) fun _ => hnull
  | truncateNode nid nomem =>
      cases hop
      exact truncateNode_moves h nomem hallow
  | flushNatEntries reason =>
      obtain ⟨s, hflush, rfl⟩ := Option.map_eq_some_iff.mp hop
      obtain ⟨drained, L, s', hflush', hf⟩ := flushNatEntries_nids h.wf reason
      rw [hflush'] at hflush
      cases hflush
      exact NidMoves.one (.flush drained L _ hf)
  | tryToFreeNats nrShrink =>
      cases hop
      exact NidMoves.one (.dropClean nrShrink)
  | allocNid fuel =>
      obtain ⟨⟨r, m₁⟩, hrun, rfl⟩ := Option.map_eq_some_iff.mp hop
      exact (allocNid_moves fuel h hrun).1
  | allocNidDone nid =>
      cases hop
      exact NidMoves.one (.done nid hallow.1 hallow.2)
  | allocNidFailed nid mem =>
      cases hop
      exact NidMoves.one (.failed nid mem hallow.1 hallow.2)
  | buildFreeNids sync mem =>
      cases hop
      exact NidMoves.one (.build sync mem)
  | tryToFreeNids nrShrink =>
      cases hop
      exact NidMoves.one (.dropFree nrShrink)
  | recoverInodePage ino nomem =>
      cases hop
      obtain ⟨-, -, hnid, -⟩ := getNodeInfo_bound h ino nomem ino
      unfold NodeManager.recoverInodePage
      dsimp only
      split_ifs with haddr
      · exact NidMoves.one (.read ino nomem)
      · have hmove : NidMove sbi recovery (m.getNodeInfo sbi ino nomem).2 _ :=
          .recover { (m.getNodeInfo sbi ino nomem).1 with ino := ino } (hrec rfl)
            (by rw [show NodeInfo.nid _ = ino from hnid]; exact hallow)
        rw [show NodeInfo.nid { (m.getNodeInfo sbi ino nomem).1 with ino := ino } = ino
          from hnid] at hmove
        exact (NidMoves.one (.read ino nomem)).tail hmove
  | recoverXattrData fuel prevXnid ino nomem pageErr mem =>
      obtain ⟨⟨r, m₂⟩, hrun, rfl⟩ := Option.map_eq_some_iff.mp hop
      have hprev : NidMoves sbi recovery m
          (if prevXnid = 0 then m else m.truncateNode sbi prevXnid nomem) := by
        split_ifs with h0
        · exact .refl
        · exact truncateNode_moves h nomem (hallow.resolve_left h0)
      have h₁ := hprev.inv h
      have halloc : NidMoves sbi recovery _ m₂ ∧ _ := allocNid_moves fuel h₁ hrun
      obtain ⟨hmoves, hr⟩ := halloc
      have h₂ := hmoves.inv h₁
      refine (hprev.trans hmoves).trans ?_
      cases r with
      | none => exact .refl
      | some nid =>
          obtain ⟨hpre, hunbound⟩ := hr nid rfl
          dsimp only
          split_ifs
          · exact NidMoves.one (.failed nid mem hpre hunbound)
          · have hnew : NidMove sbi recovery m₂ (m₂.newNodePage nid ino) :=
              .write _ newAddr false (h₂.prealloc nid hpre).1 (Or.inl hpre) fun _ => by decide
            exact (NidMoves.one hnew).tail (.done nid hpre
              (setNodeAddr_bound h₂ { nid := nid, ino := ino, blkAddr := nullAddr, version := 0 }
                false (by decide)))

/-- What every move keeps, every run of operations keeps. -/
theorem nidRun_rule {P : NodeManager → Prop}
    (hstep : ∀ m m', NidsInv sbi m.nat → P m → NidMove sbi recovery m m' → P m')
    {ops : List NidOp} (hrec : ∀ op ∈ ops, op.isRecovery = true → recovery = true)
    (h : NidsInv sbi m.nat) (hP : P m) (hrun : ops.foldlM (nidOp sbi) m = some m') :
    NidsInv sbi m'.nat ∧ P m' := by
  refine OptionFold.foldlM_inv (P := fun m => NidsInv sbi m.nat ∧ P m)
    (fun m op m' hop hm hm' => ?_)
    ⟨h, hP⟩ hrun
  have hmoves := nidOp_moves hm.1 (hrec op hop) hm'
  refine ⟨hmoves.inv hm.1, ?_⟩
  have hboth : ∀ m₁, NidMoves sbi recovery m m₁ → P m₁ := by
    intro m₁ hm₁
    induction hm₁ with
    | refl => exact hm.2
    | tail hprefix hmove ih => exact hstep _ _ (NidMoves.inv hprefix hm.1) ih hmove
  exact hboth m' hmoves

end

end F2fs.Node

/-
  The lists of discard commands are lists: no command is on one of them twice.

  `Linked` says so, with what an insertion needs besides: a pointer that is on a list or
  in the tree is not one that `kmem_cache_alloc` still has to give out.  It is kept by
  every operation, whether or not the commands are in order.
-/
import F2fs.Segment.DiscardRun

namespace F2fs.Segment.Discard

open IntervalTree

/-- Every list holds a command once, and every pointer in use was allocated. -/
structure Linked (dcc : DiscardCmdControl) : Prop where
  nodup : ∀ l, (dcc.lists l).Nodup
  onList : ∀ l, ∀ i ∈ dcc.lists l, i < dcc.nextId
  inTree : ∀ dc ∈ dcc.cmds, dc.id < dcc.nextId

theorem linked_init : Linked .init :=
  ⟨fun _ => List.nodup_nil, fun _ _ h => absurd h List.not_mem_nil,
    fun _ h => absurd h List.not_mem_nil⟩

namespace Linked

variable {rb : Rebalance DiscardCmd} {dcc dcc' : DiscardCmdControl}

/-- Other commands on the same lists. -/
theorem of_cmds (h : Linked dcc) (hlists : dcc'.lists = dcc.lists)
    (hnext : dcc'.nextId = dcc.nextId) (hcmds : ∀ dc ∈ dcc'.cmds, ∃ c ∈ dcc.cmds, c.id = dc.id) :
    Linked dcc' := by
  refine ⟨fun l => hlists ▸ h.nodup l, fun l i hi => ?_, fun dc hdc => ?_⟩
  · rw [hnext]
    exact h.onList l i (hlists ▸ hi)
  · obtain ⟨c, hc, hid⟩ := hcmds dc hdc
    rw [hnext, ← hid]
    exact h.inTree c hc

theorem modify (h : Linked dcc) (id : Nat) {f : DiscardCmd → DiscardCmd}
    (hf : ∀ c, (f c).id = c.id) : Linked (dcc.modify id f) := by
  have hcmds : ∀ dc ∈ (dcc.modify id f).cmds, ∃ c ∈ dcc.cmds, c.id = dc.id := by
    intro dc hdc
    rw [DiscardCmdControl.cmds_modify] at hdc
    obtain ⟨c, hc, rfl⟩ := List.mem_map.mp hdc
    refine ⟨c, hc, ?_⟩
    split
    · exact (hf c).symm
    · rfl
  exact h.of_cmds rfl rfl hcmds

theorem listDel (h : Linked dcc) (id : Nat) : Linked (dcc.listDel id) :=
  ⟨fun l => (h.nodup l).filter _, fun l i hi => h.onList l i (List.mem_of_mem_filter hi), h.inTree⟩

theorem listAddTail (h : Linked dcc) {id : Nat} (hid : id < dcc.nextId)
    (hnew : ∀ l, id ∉ dcc.lists l) (l : DiscardList) : Linked (dcc.listAddTail id l) := by
  have hlist : ∀ l', (dcc.listAddTail id l).lists l' =
      if l' = l then dcc.lists l ++ [id] else dcc.lists l' := fun l' => by
    unfold DiscardCmdControl.listAddTail
    exact Function.update_apply dcc.lists l _ l'
  refine ⟨fun l' => ?_, fun l' i hi => ?_, h.inTree⟩
  · rw [hlist]
    split
    · exact List.Nodup.append (h.nodup l) (List.nodup_singleton id)
        (List.disjoint_singleton.mpr (hnew l))
    · exact h.nodup l'
  · rw [hlist] at hi
    split at hi
    · rcases List.mem_append.mp hi with hold | hself
      · exact h.onList l i hold
      · rw [List.mem_singleton.mp hself]
        exact hid
    · exact h.onList l' i hi

theorem listMoveTail (h : Linked dcc) {id : Nat} (hid : id < dcc.nextId) (l : DiscardList) :
    Linked (dcc.listMoveTail id l) :=
  (h.listDel id).listAddTail hid (fun _ hi => by simpa using List.of_mem_filter hi) l

/-- A counter changed. -/
theorem counters (h : Linked dcc) (issued issing cnt : Int) (blks : Nat) :
    Linked { dcc with issuedDiscard := issued, issingDiscard := issing, discardCmdCnt := cnt,
                      undiscardBlks := blks } :=
  ⟨h.nodup, h.onList, h.inTree⟩

theorem insertDiscardTree (h : Linked dcc) {bdev : Nat} {di : DiscardInfo}
    (hs : Discard.insertDiscardTree rb dcc bdev di = some dcc') : Linked dcc' := by
  unfold Discard.insertDiscardTree createDiscardCmd at hs
  obtain ⟨root, hroot, rfl⟩ := Option.map_eq_some_iff.mp hs
  -- the counter goes up before the command is put on its list
  have hup : Linked { dcc with nextId := dcc.nextId + 1 } :=
    ⟨h.nodup, fun l i hi => (h.onList l i hi).trans (Nat.lt_succ_self _),
      fun dc hdc => (h.inTree dc hdc).trans (Nat.lt_succ_self _)⟩
  have hnew : ∀ l, dcc.nextId ∉ dcc.lists l := fun l hi => lt_irrefl _ (h.onList l _ hi)
  have hadd := hup.listAddTail (Nat.lt_succ_self dcc.nextId) hnew (.pend (plistIdx di.len))
  refine ⟨hadd.nodup, hadd.onList, fun dc hdc => ?_⟩
  have hdc' : dc ∈ (rb.insertColor root).toList := hdc
  rw [rb.toList_insertColor] at hdc'
  rcases (mem_link dcc.root hroot).mp hdc' with rfl | hold
  · exact Nat.lt_succ_self _
  · exact (h.inTree dc hold).trans (Nat.lt_succ_self _)

theorem removeDiscardCmd (h : Linked dcc) (dc : DiscardCmd) :
    Linked (Discard.removeDiscardCmd rb dcc dc) := by
  refine ⟨(h.listDel dc.id).nodup, (h.listDel dc.id).onList, fun c hc => ?_⟩
  have hc' : c ∈ (rb.erase dcc.root (dcc.indexOf dc.id)).toList := hc
  rw [rb.toList_erase] at hc'
  exact h.inTree c (List.mem_of_mem_eraseIdx hc')

theorem submitDiscardCmd (h : Linked dcc) {dc : DiscardCmd} (hdc : dc ∈ dcc.cmds) (fstrim : Bool)
    (res : IssueResult) : Linked (Discard.submitDiscardCmd rb dcc dc fstrim res) := by
  have hid := h.inTree dc hdc
  have h₁ : Linked (dcc.modify dc.id fun c => { c with error := res.error }) :=
    h.modify dc.id fun _ => rfl
  unfold Discard.submitDiscardCmd
  split
  · exact h
  · split
    · have h₂ := (h₁.modify dc.id (f := fun c => { c with state := .submit }) fun _ => rfl).counters
        (dcc.issuedDiscard + 1) (dcc.issingDiscard + 1) dcc.discardCmdCnt dcc.undiscardBlks
      split
      · exact h₂.listMoveTail hid _
      · exact h₂
    · exact h₁.removeDiscardCmd _

theorem punchDiscardCmd (h : Linked dcc) {dc : DiscardCmd} (hdc : dc ∈ dcc.cmds) {blkaddr : Nat}
    (hs : Discard.punchDiscardCmd rb dcc dc blkaddr = some dcc') : Linked dcc' := by
  have hid := h.inTree dc hdc
  unfold Discard.punchDiscardCmd at hs
  simp only at hs
  split at hs
  · rw [← Option.some.inj hs]
    exact h.removeDiscardCmd dc
  · split at hs
    · have hcut := (h.modify dc.id (f := fun c =>
          { c with di := { c.di with len := blkaddr - dc.lstart } }) fun _ => rfl).listMoveTail
        hid (.pend (plistIdx (blkaddr - dc.lstart)))
      split at hs
      · exact (hcut.counters dcc.issuedDiscard dcc.issingDiscard
          dcc.discardCmdCnt _).insertDiscardTree
          hs
      · rw [← Option.some.inj hs]
        exact hcut.counters dcc.issuedDiscard dcc.issingDiscard dcc.discardCmdCnt _
    · split at hs
      · rw [← Option.some.inj hs]
        exact ((h.modify dc.id (f := fun c =>
          { c with di := ⟨c.di.lstart + 1, c.di.len - 1, c.di.start + 1⟩ })
            fun _ => rfl).listMoveTail
          hid (.pend (plistIdx (dc.di.len - 1)))).counters _ _ _ _
      · rw [← Option.some.inj hs]
        exact h.counters _ _ _ _

theorem mergeBack (h : Linked dcc) {prev : DiscardCmd} (hprev : prev.id < dcc.nextId)
    (di : DiscardInfo) : Linked (Discard.mergeBack dcc prev di).1 :=
  ((h.modify prev.id (f := fun c => { c with di := { prev.di with len := prev.len + di.len } })
    fun _ => rfl).listMoveTail hprev (.pend (plistIdx (prev.len + di.len)))).counters _ _ _ _

theorem mergeFront (h : Linked dcc) {next : DiscardCmd} (hnext : next.id < dcc.nextId)
    (di : DiscardInfo) (tdc : Option DiscardCmd) :
    Linked (Discard.mergeFront rb dcc next di tdc) := by
  have hmerged := ((h.modify next.id (f := fun c =>
      { c with di := ⟨di.lstart, next.len + di.len, di.start⟩ }) fun _ => rfl).listMoveTail
    hnext (.pend (plistIdx (next.len + di.len)))).counters dcc.issuedDiscard dcc.issingDiscard
    dcc.discardCmdCnt (u32 (dcc.undiscardBlks + di.len))
  unfold Discard.mergeFront
  cases tdc with
  | none => exact hmerged
  | some tdc => exact hmerged.removeDiscardCmd tdc

theorem fillGap (h : Linked dcc) {bdev : Nat} {p n : Option DiscardCmd} {di : DiscardInfo}
    (hp : ∀ prev, p = some prev → prev.id < dcc.nextId)
    (hn : ∀ next, n = some next → next.id < dcc.nextId)
    (hs : Discard.fillGap rb dcc bdev p n di = some dcc') : Linked dcc' := by
  unfold Discard.fillGap at hs
  split at hs
  · rw [← Option.some.inj hs]
    exact h
  · split at hs
    · rename_i prev hback
      have hb := h.mergeBack (hp prev (backTarget_some hback).1) di
      simp only at hs
      split at hs
      · rename_i next hfront
        rw [← Option.some.inj hs]
        exact hb.mergeFront (hn next (frontTarget_some hfront).1) _ _
      · rw [← Option.some.inj hs]
        exact hb
    · split at hs
      · rename_i next hfront
        rw [← Option.some.inj hs]
        exact h.mergeFront (hn next (frontTarget_some hfront).1) di none
      · exact h.insertDiscardTree hs

theorem get (h : Linked dcc) {id : Nat} {dc : DiscardCmd} (hget : dcc.get id = some dc) :
    dc.id < dcc.nextId :=
  h.inTree dc (List.mem_of_find?_eq_some hget)

theorem updateLoop {r : DiscardRange} (fuel : Nat) : ∀ {dcc : DiscardCmdControl} {prev : Nat}
    {next : Option Nat}, Linked dcc → Discard.updateLoop rb r fuel dcc prev next = some dcc' →
      Linked dcc' := by
  induction fuel with
  | zero => intro dcc prev next _ hs; cases hs
  | succ fuel ih =>
      intro dcc prev next h hs
      rw [Discard.updateLoop] at hs
      obtain ⟨prevDc, hprev, hs⟩ := Option.bind_eq_some_iff.mp hs
      simp only at hs
      split at hs
      · rw [← Option.some.inj hs]
        exact h
      · obtain ⟨dcc₁, hfill, hs⟩ := Option.bind_eq_some_iff.mp hs
        have h₁ : Linked dcc₁ := h.fillGap (fun p hp => Option.some.inj hp ▸ h.get hprev)
          (fun n hn => by
            obtain ⟨id, -, hget⟩ := Option.bind_eq_some_iff.mp hn
            exact h.get hget) hfill
        split at hs
        · rw [← Option.some.inj hs]
          exact h₁
        · exact ih h₁ hs

end Linked

/-! ## Runs -/

variable {devStart : Nat → Nat} {rb : Rebalance DiscardCmd}

theorem DiscardInv.neighbours {dcc : DiscardCmdControl} (h : DiscardInv devStart dcc) (x : Nat) :
    (∀ dc, (lookup DiscardCmd.lstart DiscardCmd.len dcc.root x true).entry = some dc →
      dc ∈ dcc.cmds) ∧
      (∀ dc, (lookup DiscardCmd.lstart DiscardCmd.len dcc.root x true).next = some dc →
        dc ∈ dcc.cmds) := by
  have hpos : ∀ y ∈ dcc.root.toList, 0 < y.len := fun y hy => (h.tree.valid y hy).len_pos
  unfold DiscardCmdControl.cmds
  rcases lookup_spec h.tree.ordered hpos x with
    ⟨A, dc, B, hc, -, -, hlook⟩ | ⟨A, B, hc, -, hlook⟩
  · rw [hlook, hc]
    refine ⟨fun c hentry => ?_, fun c hnext => ?_⟩
    · rw [← Option.some.inj hentry]
      exact List.mem_append_right _ List.mem_cons_self
    · exact List.mem_append_right _ (List.mem_cons_of_mem _ (List.mem_of_head? hnext))
  · rw [hlook, hc]
    exact ⟨nofun, fun c hnext => List.mem_append_right _ (List.mem_of_head? hnext)⟩

theorem Linked.updateDiscardTreeRange {dcc dcc' : DiscardCmdControl} {r : DiscardRange}
    (hinv : DiscardInv devStart dcc) (h : Linked dcc)
    (hs : Discard.updateDiscardTreeRange rb dcc r = some dcc') : Linked dcc' := by
  unfold Discard.updateDiscardTreeRange at hs
  simp only at hs
  split at hs
  · exact h.updateLoop _ hs
  · obtain ⟨dcc₁, hfill, hs⟩ := Option.bind_eq_some_iff.mp hs
    have h₁ : Linked dcc₁ := h.fillGap (fun p hp => by cases hp)
      (fun n hn => h.inTree n ((hinv.neighbours r.lstart).2 n hn)) hfill
    split at hs
    · rw [← Option.some.inj hs]
      exact h₁
    · exact h₁.updateLoop _ hs

theorem Linked.onCmd {dcc : DiscardCmdControl} (h : Linked dcc) (id : Nat)
    {f : DiscardCmd → DiscardCmdControl} (hf : ∀ dc ∈ dcc.cmds, Linked (f dc)) :
    Linked (Discard.onCmd dcc id f) := by
  unfold Discard.onCmd
  cases hget : dcc.get id with
  | none => exact h
  | some dc => exact hf dc (List.mem_of_find?_eq_some hget)

theorem Linked.step {dcc dcc' : DiscardCmdControl} (hinv : DiscardInv devStart dcc)
    (h : Linked dcc) {op : DiscardOp devStart} (hs : op.step rb dcc = some dcc') :
    Linked dcc' := by
  cases op with
  | queue q => exact h.updateDiscardTreeRange hinv hs
  | punch blkaddr =>
      simp only [DiscardOp.step] at hs
      split at hs
      · rename_i dc hentry
        exact h.punchDiscardCmd ((hinv.neighbours blkaddr).1 dc hentry) hs
      · rw [← Option.some.inj hs]
        exact h
  | submit id fstrim res =>
      rw [← Option.some.inj hs]
      exact h.onCmd id fun dc hdc => h.submitDiscardCmd hdc fstrim res
  | endio id error =>
      rw [← Option.some.inj hs]
      exact h.onCmd id fun dc _ => h.modify dc.id fun _ => rfl
  | remove id =>
      rw [← Option.some.inj hs]
      exact h.onCmd id fun dc _ => h.removeDiscardCmd dc

/-- A run from a tree in order leaves one in order, with its lists intact. -/
theorem discardRun_linked (ops : List (DiscardOp devStart)) : ∀ {dcc dcc' : DiscardCmdControl},
    DiscardInv devStart dcc → Linked dcc → ops.foldlM (DiscardOp.step rb) dcc = some dcc' →
      DiscardInv devStart dcc' ∧ Linked dcc' := by
  induction ops with
  | nil =>
      intro dcc dcc' hinv h hs
      rw [← Option.some.inj hs]
      exact ⟨hinv, h⟩
  | cons op ops ih =>
      intro dcc dcc' hinv h hs
      rw [List.foldlM_cons] at hs
      obtain ⟨dcc₁, hstep, hrest⟩ := Option.bind_eq_some_iff.mp hs
      obtain ⟨dcc₂, hstep', hinv'⟩ := op.step_inv rb hinv
      obtain rfl : dcc₂ = dcc₁ := Option.some.inj (hstep'.symm.trans hstep)
      exact ih hinv' (h.step hinv hstep) hrest

end F2fs.Segment.Discard

/-
  Runs of the discard command tree: any sequence of ranges queued, blocks punched out,
  commands submitted, completed and removed, from `create_discard_cmd_control` on.

  `__queue_discard_cmd` is where device addresses come in: the blocks it is given lie on
  one device, and it takes the device's first block off their logical start.
-/
import F2fs.Segment.DiscardTree

namespace F2fs.Segment.Discard

open IntervalTree

/-! ## Operations -/

/-- The arguments of `__queue_discard_cmd`: blocks of one device. -/
structure QueuedBlocks (devStart : Nat → Nat) where
  bdev : Nat
  blkstart : Nat
  blklen : Nat
  onDevice : devStart bdev ≤ blkstart
  stop_lt : blkstart + blklen < 2 ^ 32

variable {devStart : Nat → Nat}

/-- What `__queue_discard_cmd` passes on. -/
def QueuedBlocks.range (q : QueuedBlocks devStart) : DiscardRange where
  bdev := q.bdev
  lstart := q.blkstart
  start := q.blkstart - devStart q.bdev
  len := q.blklen

theorem QueuedBlocks.rangeOk (q : QueuedBlocks devStart) : RangeOk devStart q.range where
  start := Nat.sub_add_cancel q.onDevice
  stop := q.stop_lt

/-- One operation.  Commands are named by their pointer; a block to punch out is looked up
    as `f2fs_wait_discard_bio` does. -/
inductive DiscardOp (devStart : Nat → Nat) where
  | queue (q : QueuedBlocks devStart)
  | punch (blkaddr : Nat)
  | submit (id : Nat) (fstrim : Bool) (res : IssueResult)
  | endio (id : Nat) (error : Int)
  | remove (id : Nat)

/-- An operation through a pointer; without a command there it changes nothing. -/
def onCmd (dcc : DiscardCmdControl) (id : Nat) (f : DiscardCmd → DiscardCmdControl) :
    DiscardCmdControl :=
  ((dcc.get id).map f).getD dcc

def DiscardOp.step (rb : Rebalance DiscardCmd) (dcc : DiscardCmdControl) :
    DiscardOp devStart → Option DiscardCmdControl
  | queue q => updateDiscardTreeRange rb dcc q.range
  | punch blkaddr =>
    match (lookup DiscardCmd.lstart DiscardCmd.len dcc.root blkaddr true).entry with
    | some dc => punchDiscardCmd rb dcc dc blkaddr
    | none => some dcc
  | submit id fstrim res => some (onCmd dcc id fun dc => submitDiscardCmd rb dcc dc fstrim res)
  | endio id error => some (onCmd dcc id fun dc => submitDiscardEndio dcc dc error)
  | remove id => some (onCmd dcc id fun dc => removeDiscardCmd rb dcc dc)

def discardRun (rb : Rebalance DiscardCmd) (ops : List (DiscardOp devStart)) :
    Option DiscardCmdControl :=
  ops.foldlM (DiscardOp.step rb) .init

/-! ## The invariant along a run -/

theorem discardInv_init : DiscardInv devStart .init := ⟨InTree.nil, books_init⟩

theorem onCmd_inv {dcc : DiscardCmdControl} (h : DiscardInv devStart dcc) (id : Nat)
    {f : DiscardCmd → DiscardCmdControl}
    (hf : ∀ A dc B, dcc.cmds = A ++ dc :: B → DiscardInv devStart (f dc)) :
    DiscardInv devStart (onCmd dcc id f) := by
  unfold onCmd
  cases hget : dcc.get id with
  | none => exact h
  | some dc =>
      obtain ⟨A, B, hc⟩ := List.append_of_mem (List.mem_of_find?_eq_some hget)
      exact hf A dc B hc

theorem DiscardOp.step_inv (rb : Rebalance DiscardCmd) {dcc : DiscardCmdControl}
    (h : DiscardInv devStart dcc) (op : DiscardOp devStart) :
    ∃ dcc', op.step rb dcc = some dcc' ∧ DiscardInv devStart dcc' := by
  cases op with
  | queue q =>
      obtain ⟨dcc', hupd, hinv, -⟩ := updateDiscardTreeRange_spec rb q.rangeOk h
      exact ⟨dcc', hupd, hinv⟩
  | punch blkaddr =>
      have hpos : ∀ y ∈ dcc.root.toList, 0 < y.len := fun y hy => (h.tree.valid y hy).len_pos
      unfold DiscardOp.step
      rcases lookup_spec h.tree.ordered hpos blkaddr with
        ⟨A, dc, B, hc, hle, hlt, hlook⟩ | ⟨A, B, -, -, hlook⟩
      · obtain ⟨dcc', hpunch, hinv, -⟩ := punchDiscardCmd_spec rb h hc hle hlt
        simp only [hlook]
        exact ⟨dcc', hpunch, hinv⟩
      · simp only [hlook]
        exact ⟨dcc, rfl, h⟩
  | submit id fstrim res =>
      exact ⟨_, rfl, onCmd_inv h id fun A dc B hc => submitDiscardCmd_inv h hc fstrim res⟩
  | endio id error =>
      exact ⟨_, rfl, onCmd_inv h id fun A dc B hc => submitDiscardEndio_inv h hc error⟩
  | remove id =>
      exact ⟨_, rfl, onCmd_inv h id fun A dc B hc => removeDiscardCmd_inv h hc⟩

theorem discardRun_inv (rb : Rebalance DiscardCmd) (ops : List (DiscardOp devStart)) :
    ∀ {dcc : DiscardCmdControl}, DiscardInv devStart dcc →
      ∃ dcc', ops.foldlM (DiscardOp.step rb) dcc = some dcc' ∧ DiscardInv devStart dcc' := by
  induction ops with
  | nil => intro dcc h; exact ⟨dcc, rfl, h⟩
  | cons op ops ih =>
      intro dcc h
      obtain ⟨dcc₁, hstep, h₁⟩ := op.step_inv rb h
      obtain ⟨dcc₂, hrun, h₂⟩ := ih h₁
      refine ⟨dcc₂, ?_, h₂⟩
      rw [List.foldlM_cons, hstep]
      exact hrun

/-! ## The counters do not wrap -/

theorem blocks_le {stop : Nat} (l : List DiscardCmd) : ∀ {lo : Nat}, lo ≤ stop →
    Ordered DiscardCmd.lstart DiscardCmd.len l → (∀ dc ∈ l, lo ≤ dc.lstart) →
    (∀ dc ∈ l, dc.stop ≤ stop) → lo + blocks l ≤ stop := by
  induction l with
  | nil => intro lo hlo _ _ _; exact hlo
  | cons dc l ih =>
      intro lo _ ho hlow hstop
      obtain ⟨hdc, ho'⟩ := Ordered.cons.mp ho
      have hrest : dc.lstart + dc.len + blocks l ≤ stop :=
        ih (hstop dc (by simp)) ho' hdc fun c hc => hstop c (by simp [hc])
      have := hlow dc (by simp)
      rw [blocks_cons]
      omega

theorem DiscardInv.blocks_lt {dcc : DiscardCmdControl} (h : DiscardInv devStart dcc) :
    blocks dcc.cmds < 2 ^ 32 := by
  have hle : 0 + blocks dcc.cmds ≤ 2 ^ 32 - 1 :=
    blocks_le dcc.cmds (Nat.zero_le _) h.tree.ordered (fun _ _ => Nat.zero_le _) fun dc hdc => by
      have := (h.tree.valid dc hdc).stop_lt
      omega
  omega

/-! ## What holds in every reachable state -/

/-- The state of the discard commands as it should be. -/
structure DiscardTreeOk (devStart : Nat → Nat) (dcc : DiscardCmdControl) : Prop where
  nonempty : ∀ dc ∈ dcc.cmds, 0 < dc.len
  /-- in order of `lstart`, and disjoint -/
  ordered : dcc.cmds.Pairwise fun a b => a.lstart + a.len ≤ b.lstart
  start : ∀ dc ∈ dcc.cmds, dc.start + devStart dc.bdev = dc.lstart
  undiscardBlks : dcc.undiscardBlks = (dcc.cmds.map DiscardCmd.len).sum
  discardCmdCnt : dcc.discardCmdCnt = dcc.cmds.length
  pend : ∀ dc ∈ dcc.cmds, dc.state = .prep →
    ∀ l, dc.id ∈ dcc.lists l ↔ l = .pend (plistIdx dc.len)

theorem DiscardInv.ok {dcc : DiscardCmdControl} (h : DiscardInv devStart dcc) :
    DiscardTreeOk devStart dcc where
  nonempty dc hdc := (h.tree.valid dc hdc).len_pos
  ordered := h.tree.ordered
  start dc hdc := (h.tree.valid dc hdc).start_eq
  undiscardBlks := h.books.blks.trans (u32_of_lt h.blocks_lt)
  discardCmdCnt := h.books.cnt
  pend := h.books.pend

/-- Every run keeps the tree in order and the books right; a queued range is covered
    besides what was, and a block punched out of a command not issued is uncovered. -/
theorem discardRun_ok (rb : Rebalance DiscardCmd) (devStart : Nat → Nat)
    (ops : List (DiscardOp devStart)) :
    ∃ dcc, discardRun rb ops = some dcc ∧ DiscardTreeOk devStart dcc ∧
      (∀ q : QueuedBlocks devStart, ∃ dcc', updateDiscardTreeRange rb dcc q.range = some dcc' ∧
        cover dcc'.cmds = cover dcc.cmds ∪ Set.Ico q.blkstart (q.blkstart + q.blklen)) ∧
      ∀ dc ∈ dcc.cmds, dc.state = .prep → ∀ blkaddr, dc.lstart ≤ blkaddr →
        blkaddr < dc.lstart + dc.len → ∃ dcc', punchDiscardCmd rb dcc dc blkaddr = some dcc' ∧
          cover dcc'.cmds = cover dcc.cmds \ {blkaddr} := by
  obtain ⟨dcc, hrun, h⟩ := discardRun_inv rb ops discardInv_init
  refine ⟨dcc, hrun, h.ok, fun q => ?_, fun dc hdc hprep blkaddr hle hlt => ?_⟩
  · obtain ⟨dcc', hupd, -, hcov⟩ := updateDiscardTreeRange_spec rb q.rangeOk h
    exact ⟨dcc', hupd, Set.ext hcov⟩
  · obtain ⟨A, B, hc⟩ := List.append_of_mem hdc
    obtain ⟨dcc', hpunch, -, hcov⟩ := punchDiscardCmd_spec rb h hc hle hlt
    exact ⟨dcc', hpunch, Set.ext (hcov hprep)⟩

/-- A gap between two commands is merged with both of them. -/
example : (discardRun (Rebalance.unbalanced DiscardCmd)
    ([.queue ⟨0, 10, 5, by decide, by decide⟩, .queue ⟨0, 20, 5, by decide, by decide⟩,
      .queue ⟨0, 12, 10, by decide, by decide⟩] : List (DiscardOp fun _ => 0))).map
        (fun dcc => dcc.cmds.map DiscardCmd.di) = some [⟨10, 15, 10⟩] := by
  decide +kernel

end F2fs.Segment.Discard

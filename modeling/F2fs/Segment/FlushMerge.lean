/-
  `f2fs_issue_flush` and the flush thread (`segment.c`) on a volume of one device, without
  `NOBARRIER`.

  The tasks and the thread take turns at every access to shared state, in any order; what the
  device answers comes with the turn.  A command is on the stack of its call, so it goes by the
  task.  The device counts the writes that it has acknowledged; a flush makes those durable that
  were acknowledged when it was submitted.

  Waking the thread up is left out: it looks at its condition whenever it gets a turn.
-/
import F2fs.Lib.Handoff

namespace F2fs.Segment

/-! ## State -/

/-- A flush: about to be submitted, submitted after so many writes, or over. -/
inductive FlushWork where
  | ready
  | sent (completed : Nat)
  | ended (ret : Int)
  deriving DecidableEq, Repr

/-- Where a task stands in `f2fs_issue_flush`. -/
inductive FlushPc where
  | outside
  | entered
  /-- without `FLUSH_MERGE` -/
  | plain (w : FlushWork)
  /-- at `atomic_inc_return` -/
  | counting
  /-- it returned 1 -/
  | first (w : FlushWork)
  /-- at `llist_add` -/
  | filling
  | added
  | waiting
  /-- there is no thread -/
  | detaching
  | flushing (w : FlushWork)
  | returned (ret : Option Int)
  deriving DecidableEq, Repr

/-- A task and its `struct flush_cmd`: `ret` is `none` as long as nobody has written it, and
    `done` the completion.  The device had acknowledged `began` writes when the call began. -/
structure FlushTask where
  pc : FlushPc
  began : Nat
  ret : Option Int
  done : Bool
  deriving DecidableEq, Repr

/-- Where `issue_flush_thread` stands. -/
inductive FlushThread where
  | gone
  | top
  | working (w : FlushWork)
  | asleep
  deriving DecidableEq, Repr

/-- The lists a command can be on: `issue_list`, `dispatch_list`, and the list of a task that
    does the work of the thread. -/
inductive FlushList (τ : Type) where
  | issue
  | dispatch
  | own (i : τ)
  deriving DecidableEq, Repr

/-- `struct flush_cmd_control`, the device, the mount option and the tasks.  `lost`: a call has
    come back with a command that nobody had written to. -/
structure FlushState (τ : Type) where
  completed : Nat
  durable : Nat
  flushMerge : Bool
  issingFlush : Int
  held : FlushList τ → List τ
  /-- `f2fs_issue_flush` is not `NULL` -/
  issueFlush : Bool
  /-- `kthread_should_stop` -/
  shouldStop : Bool
  thread : FlushThread
  task : τ → FlushTask
  lost : Bool

/-- After `create_flush_cmd_control`, with or without a thread. -/
def createFlushCmdControl (τ : Type) (flushMerge : Bool) : FlushState τ where
  completed := 0
  durable := 0
  flushMerge := flushMerge
  issingFlush := 0
  held _ := []
  issueFlush := flushMerge
  shouldStop := false
  thread := if flushMerge then .top else .gone
  task _ := ⟨.outside, 0, none, false⟩
  lost := false

namespace FlushState

variable {τ : Type} [DecidableEq τ]

def setTask (s : FlushState τ) (i : τ) (t : FlushTask) : FlushState τ :=
  { s with task := Function.update s.task i t }

def setPc (s : FlushState τ) (i : τ) (pc : FlushPc) : FlushState τ :=
  s.setTask i { s.task i with pc := pc }

def setHeld (s : FlushState τ) (p : FlushList τ) (l : List τ) : FlushState τ :=
  { s with held := Function.update s.held p l }

/-- `llist_del_all` of `issue_list`; `l` is the list as its new owner keeps it. -/
def detach (s : FlushState τ) (p : FlushList τ) (l : List τ) : FlushState τ :=
  (s.setHeld .issue []).setHeld p l

/-- `ret` and `complete`. -/
def answer (s : FlushState τ) (j : τ) (ret : Int) : FlushState τ :=
  s.setTask j { s.task j with ret := some ret, done := true }

def decIssing (s : FlushState τ) : FlushState τ := { s with issingFlush := s.issingFlush - 1 }

end FlushState

section

variable {τ : Type} [DecidableEq τ]

/-! ## Steps -/

/-- `submit_flush_wait`: the bio goes out, or comes back with `ret`. -/
def submitFlushWait (s : FlushState τ) (ret : Int) : FlushWork → FlushState τ × FlushWork
  | .ready => (s, .sent s.completed)
  | .sent k => ({ s with durable := if ret = 0 then max s.durable k else s.durable }, .ended ret)
  | .ended r => (s, .ended r)

/-- The next step of a task in `f2fs_issue_flush`; `none` while it waits. -/
def f2fsIssueFlush (s : FlushState τ) (i : τ) (ret : Int) : Option (FlushState τ) :=
  match (s.task i).pc with
  | .outside => none
  | .entered => some (s.setPc i (if s.flushMerge then .counting else .plain .ready))
  | .plain (.ended r) => some (s.setPc i (.returned (some r)))
  | .plain w => let (s, w) := submitFlushWait s ret w; some (s.setPc i (.plain w))
  | .counting =>
    let n := s.issingFlush + 1
    some ({ s with issingFlush := n }.setPc i (if n = 1 then .first .ready else .filling))
  | .first (.ended r) => some (s.decIssing.setPc i (.returned (some r)))
  | .first w => let (s, w) := submitFlushWait s ret w; some (s.setPc i (.first w))
  | .filling => some ((s.setHeld .issue (i :: s.held .issue)).setPc i .added)
  | .added => some (s.setPc i (if s.issueFlush then .waiting else .detaching))
  | .waiting =>
    if (s.task i).done then some (s.decIssing.setPc i (.returned (s.task i).ret)) else none
  | .detaching =>
    if s.held .issue = [] then some (s.setPc i .waiting)
    else some ((s.detach (.own i) (s.held .issue)).setPc i (.flushing .ready))
  | .flushing (.ended r) =>
    match s.held (.own i) with
    | [] => some ({ s with lost := s.lost || (s.task i).ret.isNone }.setPc i
        (.returned (s.task i).ret))
    | j :: l =>
      let s := s.setHeld (.own i) l
      if j = i then some (s.decIssing.setTask i { s.task i with ret := some r })
      else some (s.answer j r)
  | .flushing w => let (s, w) := submitFlushWait s ret w; some (s.setPc i (.flushing w))
  | .returned _ => some (s.setPc i .outside)

/-- The next step of the thread; `none` when it is gone or asleep for good reason. -/
def issueFlushThread (s : FlushState τ) (ret : Int) : Option (FlushState τ) :=
  match s.thread with
  | .gone => none
  | .top =>
    if s.shouldStop then some { s with thread := .gone }
    else if s.held .issue = [] then some { s with thread := .asleep }
    else some { s.detach .dispatch (s.held .issue).reverse with thread := .working .ready }
  | .working (.ended r) =>
    match s.held .dispatch with
    | [] => some { s with thread := .asleep }
    | j :: l => some ((s.setHeld .dispatch l).answer j r)
  | .working w => let (s, w) := submitFlushWait s ret w; some { s with thread := .working w }
  | .asleep =>
    if s.shouldStop ∨ s.held .issue ≠ [] then some { s with thread := .top } else none

/-- Turns of the tasks and the thread, writes that the device acknowledges, and what a remount
    does. -/
inductive FlushAct (τ : Type) where
  | write
  | call (i : τ)
  | task (i : τ) (ret : Int)
  | thread (ret : Int)
  | option (flushMerge : Bool)
  /-- `destroy_flush_cmd_control` up to `kthread_stop` -/
  | destroy
  /-- `kthread_run` -/
  | create
  /-- its result is stored -/
  | publish
  deriving DecidableEq, Repr

def flushAct (s : FlushState τ) : FlushAct τ → Option (FlushState τ)
  | .write => some { s with completed := s.completed + 1 }
  | .call i =>
    if (s.task i).pc = .outside then some (s.setTask i ⟨.entered, s.completed, none, false⟩)
    else none
  | .task i ret => f2fsIssueFlush s i ret
  | .thread ret => issueFlushThread s ret
  | .option flushMerge => some { s with flushMerge := flushMerge }
  | .destroy =>
    if s.issueFlush then some { s with issueFlush := false, shouldStop := true } else none
  | .create =>
    if s.issueFlush = false ∧ s.thread = .gone then
      some { s with thread := .top, shouldStop := false }
    else none
  | .publish =>
    if s.thread = .gone ∨ s.shouldStop then none else some { s with issueFlush := true }

/-- Any interleaving of them. -/
def flushRun (s : FlushState τ) (acts : List (FlushAct τ)) : Option (FlushState τ) :=
  acts.foldlM flushAct s

end

end F2fs.Segment

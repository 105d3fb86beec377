/-
  A call of `f2fs_issue_flush` that returns 0 has made durable what the device had acknowledged
  when the call began, in every interleaving of the calls, the thread, and remounts that stop
  and start the thread.

  A command is on one list at most (`Handoff.Apart`), and whoever has the list submits its flush
  after the command was put there (`Covers`).  All this is up to the first call that comes back
  with a command nobody has written to, which takes a thread that is stopped (`Threaded`).
-/
import F2fs.Segment.FlushMerge
import F2fs.Lib.OptionFold

namespace F2fs.Segment

open Handoff

/-! ## The invariant -/

/-- What a flush does for a call that began after `began` writes. -/
def Covers (durable began : Nat) : FlushWork → Prop
  | .ready => True
  | .sent k => began ≤ k
  | .ended r => r = 0 → began ≤ durable

/-- The command of the task may be on a list. -/
def FlushPc.OnList : FlushPc → Prop
  | .added => True
  | .waiting => True
  | .detaching => True
  | .flushing _ => True
  | _ => False

/-- The flush that a task does for itself alone. -/
def FlushPc.ownWork : FlushPc → FlushWork
  | .plain w => w
  | .first w => w
  | _ => .ready

/-- The flush that a task does for its list. -/
def FlushPc.listWork : FlushPc → FlushWork
  | .flushing w => w
  | _ => .ready

def FlushThread.listWork : FlushThread → FlushWork
  | .working w => w
  | _ => .ready

namespace FlushState

variable {τ : Type}

/-- The flush for the commands on a list. -/
def workOf (s : FlushState τ) : FlushList τ → FlushWork
  | .issue => .ready
  | .dispatch => s.thread.listWork
  | .own i => (s.task i).pc.listWork

end FlushState

/-- A command that waits for its answer. -/
structure FlushTask.Open (t : FlushTask) : Prop where
  onList : t.pc.OnList
  ret : t.ret = none
  done : t.done = false

/-- Nobody has written to the command yet, and it is on no list. -/
def FlushPc.Fresh : FlushPc → Prop
  | .entered => True
  | .counting => True
  | .filling => True
  | _ => False

/-- Where a task does not get while there is a thread. -/
def FlushPc.NoThread : FlushPc → Prop
  | .detaching => True
  | .flushing _ => True
  | _ => False

/-- What holds of one task. -/
structure TaskOk (durable completed : Nat) (t : FlushTask) : Prop where
  began : t.pc ≠ .outside → t.began ≤ completed
  own : Covers durable t.began t.pc.ownWork
  fresh : t.pc.Fresh → t.ret = none ∧ t.done = false
  answered : t.pc.OnList → t.ret = some 0 → t.began ≤ durable
  back : t.pc = .returned (some 0) → t.began ≤ durable

structure FlushInv {τ : Type} (s : FlushState τ) : Prop where
  apart : Apart s.held
  waits : ∀ p, ∀ i ∈ s.held p, (s.task i).Open
  covers : ∀ p, ∀ i ∈ s.held p, Covers s.durable (s.task i).began (s.workOf p)
  task : ∀ i, TaskOk s.durable s.completed (s.task i)
  own : ∀ i, s.held (.own i) ≠ [] → ∃ w, (s.task i).pc = .flushing w
  dispatch : s.held .dispatch ≠ [] → ∃ w, s.thread = .working w

section

variable {τ : Type} {s s' : FlushState τ} {i j : τ} {durable completed : Nat}

theorem Covers.mono {began d d' : Nat} {w : FlushWork} (h : Covers d began w) (hd : d ≤ d') :
    Covers d' began w := by
  cases w with
  | ready => trivial
  | sent k => exact h
  | ended r => exact fun hr => (h hr).trans hd

theorem TaskOk.mono {t : FlushTask} {d c : Nat} (h : TaskOk durable completed t)
    (hd : durable ≤ d) (hc : completed ≤ c) : TaskOk d c t :=
  ⟨fun hpc => (h.began hpc).trans hc, h.own.mono hd, h.fresh,
    fun ho hr => (h.answered ho hr).trans hd, fun hb => (h.back hb).trans hd⟩

theorem FlushPc.Fresh.notOnList {pc : FlushPc} (h : pc.Fresh) : ¬pc.OnList := by
  intro ho
  cases pc <;> first | exact h.elim | exact ho.elim

/-- A task goes on without a word to its command. -/
theorem TaskOk.goto {t : FlushTask} (h : TaskOk durable completed t) (hin : t.pc ≠ .outside)
    {pc : FlushPc} (hown : Covers durable t.began pc.ownWork) (hfresh : pc.Fresh → t.pc.Fresh)
    (hon : pc.OnList → t.ret = none ∨ t.pc.OnList)
    (hback : pc = .returned (some 0) → t.began ≤ durable) :
    TaskOk durable completed { t with pc := pc } := by
  refine ⟨fun _ => h.began hin, hown, fun hf => h.fresh (hfresh hf), fun ho hr => ?_, hback⟩
  rcases hon ho with hnone | hold
  · rw [show t.ret = some 0 from hr] at hnone
    cases hnone
  · exact h.answered hold hr

theorem FlushTask.Open.inside {t : FlushTask} (h : t.Open) : t.pc ≠ .outside := by
  intro hpc
  have := h.onList
  rw [hpc] at this
  exact this

/-- A task whose command is on no list because of where it stands. -/
theorem FlushInv.notHeld (h : FlushInv s) (hpc : ¬(s.task i).pc.OnList) (p : FlushList τ) :
    i ∉ s.held p := fun hi => hpc (h.waits p i hi).onList

theorem FlushInv.noList (h : FlushInv s) (hpc : ∀ w, (s.task i).pc ≠ .flushing w) :
    s.held (.own i) = [] := by
  by_contra hne
  obtain ⟨w, hw⟩ := h.own i hne
  exact hpc w hw

/-- What the flush of a task does for the commands on its list. -/
def ListOk (s : FlushState τ) (p : FlushList τ) (w : FlushWork) : Prop :=
  ∀ j ∈ s.held p, Covers s.durable (s.task j).began w

/-- A task that keeps its place keeps its list. -/
theorem FlushInv.listOk (h : FlushInv s) (i : τ) :
    s.held (.own i) = [] ∨ ∃ w, (s.task i).pc = .flushing w ∧ ListOk s (.own i) w := by
  by_cases hne : s.held (.own i) = []
  · exact .inl hne
  · obtain ⟨w, hw⟩ := h.own i hne
    refine .inr ⟨w, hw, fun j hj => ?_⟩
    have hcov : Covers s.durable (s.task j).began (s.task i).pc.listWork := h.covers (.own i) j hj
    rwa [hw] at hcov

/-- The counters, the option and the pointer do not matter. -/
theorem FlushInv.congr (h : FlushInv s) (hd : s'.durable = s.durable)
    (hc : s'.completed = s.completed) (hheld : s'.held = s.held) (ht : s'.task = s.task)
    (hthread : s'.thread = s.thread) : FlushInv s' := by
  have hwork : s'.workOf = s.workOf := by
    funext p
    cases p with
    | issue => rfl
    | dispatch => exact congrArg FlushThread.listWork hthread
    | own k => exact congrArg (fun f => (f k).pc.listWork) ht
  refine ⟨hheld ▸ h.apart, ?_, ?_, ?_, ?_, ?_⟩
  · rw [hheld, ht]
    exact h.waits
  · rw [hheld, ht, hd, hwork]
    exact h.covers
  · rw [ht, hd, hc]
    exact h.task
  · rw [hheld, ht]
    exact h.own
  · rw [hheld, hthread]
    exact h.dispatch

/-- More writes are acknowledged, or durable. -/
theorem FlushInv.raise (h : FlushInv s) {d c : Nat} (hd : s.durable ≤ d) (hc : s.completed ≤ c) :
    FlushInv { s with durable := d, completed := c } :=
  ⟨h.apart, h.waits, fun p j hj => (h.covers p j hj).mono hd, fun j => (h.task j).mono hd hc,
    h.own, h.dispatch⟩

/-- A flush goes on: the calls that it is for began before it is submitted. -/
theorem submitFlushWait_spec (s : FlushState τ) (ret : Int) (w : FlushWork) :
    ∃ d, (submitFlushWait s ret w).1 = { s with durable := d } ∧ s.durable ≤ d ∧
      ∀ b ≤ s.completed, Covers s.durable b w → Covers d b (submitFlushWait s ret w).2 := by
  cases w with
  | ready => exact ⟨s.durable, rfl, le_rfl, fun b hb _ => hb⟩
  | sent k =>
    refine ⟨_, rfl, ?_, fun b _ hk => fun hret => ?_⟩
    · split
      · exact le_max_left _ _
      · exact le_rfl
    · rw [if_pos hret]
      exact (show b ≤ k from hk).trans (le_max_right _ _)
  | ended r => exact ⟨s.durable, rfl, le_rfl, fun b _ hr => hr⟩

theorem lost_submitFlushWait (s : FlushState τ) (ret : Int) (w : FlushWork) :
    (submitFlushWait s ret w).1.lost = s.lost := by
  cases w <;> rfl

/-- The thread goes on: it has no list, or a flush that does what the list needs. -/
theorem FlushInv.setThread (h : FlushInv s) {th : FlushThread}
    (hlist : s.held .dispatch = [] ∨ ∃ w, th = .working w ∧ ListOk s .dispatch w) :
    FlushInv { s with thread := th } := by
  refine ⟨h.apart, h.waits, fun p j hj => ?_, h.task, h.own, fun hne => ?_⟩
  · cases p with
    | issue => exact h.covers .issue j hj
    | dispatch =>
      rcases hlist with hnil | ⟨w, rfl, hw⟩
      · have hj' : j ∈ s.held .dispatch := hj
        rw [hnil] at hj'
        cases hj'
      · exact hw j hj
    | own k => exact h.covers (.own k) j hj
  · rcases hlist with hnil | ⟨w, rfl, -⟩
    · exact absurd hnil hne
    · exact ⟨w, rfl⟩

variable [DecidableEq τ]

/-! ## Changes of one task -/

theorem task_setTask (s : FlushState τ) (i j : τ) (t : FlushTask) :
    (s.setTask i t).task j = if j = i then t else s.task j := by
  unfold FlushState.setTask
  by_cases hj : j = i
  · subst hj
    simp
  · simp [hj]

/-- A task goes on: its command stays open or is on no list, and it has no list, or a flush
    that does what its list needs. -/
theorem FlushInv.setTask (h : FlushInv s) {t : FlushTask}
    (hheld : (∀ p, i ∉ s.held p) ∨ t.Open ∧ t.began = (s.task i).began)
    (hlist : s.held (.own i) = [] ∨ ∃ w, t.pc = .flushing w ∧ ListOk s (.own i) w)
    (ht : TaskOk s.durable s.completed t) : FlushInv (s.setTask i t) := by
  have hbegan : ∀ p, ∀ j ∈ s.held p, ((s.setTask i t).task j).began = (s.task j).began := by
    intro p j hj
    rw [task_setTask]
    split
    · rename_i hji
      rcases hheld with hno | ⟨-, hbegan⟩
      · exact absurd (hji ▸ hj) (hno p)
      · rw [hji]
        exact hbegan
    · rfl
  refine ⟨h.apart, fun p j hj => ?_, fun p j hj => ?_, fun j => ?_, fun j hne => ?_, h.dispatch⟩
  · rw [task_setTask]
    split
    · rename_i hji
      rcases hheld with hno | ⟨hopen, -⟩
      · exact absurd (hji ▸ hj) (hno p)
      · exact hopen
    · exact h.waits p j hj
  · rw [hbegan p j hj]
    have hold := h.covers p j hj
    cases p with
    | issue => exact hold
    | dispatch => exact hold
    | own k =>
      show Covers s.durable _ (((s.setTask i t).task k).pc.listWork)
      rw [task_setTask]
      split
      · rename_i hki
        subst hki
        rcases hlist with hnil | ⟨w, hw, hlist⟩
        · have hj' : j ∈ s.held (.own k) := hj
          rw [hnil] at hj'
          cases hj'
        · rw [hw]
          exact hlist j hj
      · exact hold
  · rw [task_setTask]
    split
    · exact ht
    · exact h.task j
  · rw [task_setTask]
    split
    · rename_i hji
      subst hji
      rcases hlist with hnil | ⟨w, hw, -⟩
      · exact absurd hnil hne
      · exact ⟨w, hw⟩
    · exact h.own j hne

/-- A step of a task with no command on a list and no list of its own, before and after. -/
theorem FlushInv.setPc (h : FlushInv s) {pc : FlushPc} (hno : ¬(s.task i).pc.OnList)
    (ht : TaskOk s.durable s.completed { s.task i with pc := pc }) : FlushInv (s.setPc i pc) :=
  h.setTask (.inl (h.notHeld hno)) (.inl (h.noList fun _ hw => hno (hw ▸ trivial))) ht

/-! ## Changes of the lists -/

/-- A command goes on `issue_list`. -/
theorem FlushInv.post (h : FlushInv s) (hi : ∀ p, i ∉ s.held p) (hopen : (s.task i).Open) :
    FlushInv (s.setHeld .issue (i :: s.held .issue)) := by
  refine ⟨h.apart.post hi, fun p j hj => ?_, fun p j hj => ?_, h.task, fun j hne => h.own j ?_,
    fun hne => h.dispatch ?_⟩
  · rcases mem_update.mp hj with ⟨-, hj⟩ | ⟨-, hj⟩
    · rcases List.mem_cons.mp hj with rfl | hj
      · exact hopen
      · exact h.waits .issue j hj
    · exact h.waits p j hj
  · rcases mem_update.mp hj with ⟨rfl, -⟩ | ⟨-, hj⟩
    · trivial
    · exact h.covers p j hj
  · exact hne
  · exact hne

/-- `issue_list` as a whole goes to someone who has no list and is about to flush. -/
theorem FlushInv.detach (h : FlushInv s) {p : FlushList τ} (hp : .issue ≠ p)
    {l : List τ} (hl : l.Perm (s.held .issue)) (hwork : s.workOf p = .ready)
    (hown : ∀ k, p = .own k → ∃ w, (s.task k).pc = .flushing w)
    (hdispatch : p = .dispatch → ∃ w, s.thread = .working w) : FlushInv (s.detach p l) := by
  have hmem : ∀ r, ∀ j ∈ (s.detach p l).held r, r = p ∧ j ∈ s.held .issue ∨ j ∈ s.held r := by
    intro r j hj
    rcases mem_update.mp hj with ⟨hr, hj⟩ | ⟨-, hj⟩
    · exact .inl ⟨hr, hl.mem_iff.mp hj⟩
    · rcases mem_update.mp hj with ⟨-, hj⟩ | ⟨-, hj⟩
      · cases hj
      · exact .inr hj
  refine ⟨h.apart.take hp hl, fun r j hj => ?_, fun r j hj => ?_, h.task, fun k hne => ?_,
    fun hne => ?_⟩
  · rcases hmem r j hj with ⟨-, hj⟩ | hj
    · exact h.waits .issue j hj
    · exact h.waits r j hj
  · rcases hmem r j hj with ⟨rfl, -⟩ | hj
    · show Covers _ _ (s.workOf r)
      rw [hwork]
      trivial
    · exact h.covers r j hj
  · obtain ⟨j, hj⟩ := List.exists_mem_of_ne_nil _ hne
    rcases hmem _ j hj with ⟨hr, -⟩ | hj
    · exact hown k hr.symm
    · exact h.own k (List.ne_nil_of_mem hj)
  · obtain ⟨j, hj⟩ := List.exists_mem_of_ne_nil _ hne
    rcases hmem _ j hj with ⟨hr, -⟩ | hj
    · exact hdispatch hr.symm
    · exact h.dispatch (List.ne_nil_of_mem hj)

/-- The first command leaves its list. -/
theorem FlushInv.pop (h : FlushInv s) {p : FlushList τ} {l : List τ} (hp : s.held p = j :: l) :
    FlushInv (s.setHeld p l) ∧ ∀ r, j ∉ (s.setHeld p l).held r := by
  obtain ⟨hapart, hnot⟩ := h.apart.pop hp
  have hmem : ∀ r, ∀ k ∈ (s.setHeld p l).held r, k ∈ s.held r := by
    intro r k hk
    rcases mem_update.mp hk with ⟨hr, hin⟩ | ⟨-, hin⟩
    · rw [hr, hp]
      exact List.mem_cons_of_mem _ hin
    · exact hin
  refine ⟨⟨hapart, fun r k hk => h.waits r k (hmem r k hk),
    fun r k hk => h.covers r k (hmem r k hk), h.task, fun k hne => ?_, fun hne => ?_⟩, hnot⟩
  · obtain ⟨a, ha⟩ := List.exists_mem_of_ne_nil _ hne
    exact h.own k (List.ne_nil_of_mem (hmem _ a ha))
  · obtain ⟨a, ha⟩ := List.exists_mem_of_ne_nil _ hne
    exact h.dispatch (List.ne_nil_of_mem (hmem _ a ha))

/-- A command is answered by someone whose flush did what it needs. -/
theorem FlushInv.answered (h : FlushInv s) (hno : ∀ p, j ∉ s.held p) (hopen : (s.task j).Open)
    {r : Int} (hr : r = 0 → (s.task j).began ≤ s.durable) (done : Bool) :
    FlushInv (s.setTask j { s.task j with ret := some r, done := done }) := by
  refine h.setTask (.inl hno) (h.listOk j) ⟨(h.task j).began, (h.task j).own, fun hf => ?_,
    fun _ heq => hr (Option.some.inj heq), fun hb => ?_⟩
  · exact absurd hopen.onList (FlushPc.Fresh.notOnList hf)
  · have hon := hopen.onList
    rw [show (s.task j).pc = .returned (some 0) from hb] at hon
    exact hon.elim

/-! ## Steps -/

/-- A task goes on whose command is on no list, before and after. -/
theorem FlushInv.go (h : FlushInv s) {old pc : FlushPc} (hpc : (s.task i).pc = old)
    (hno : ¬old.OnList) (hin : old ≠ .outside) (hown : Covers s.durable (s.task i).began pc.ownWork)
    (hfresh : pc.Fresh → old.Fresh) (hon : ¬pc.OnList)
    (hback : pc = .returned (some 0) → (s.task i).began ≤ s.durable) : FlushInv (s.setPc i pc) := by
  subst hpc
  exact h.setPc hno ((h.task i).goto hin hown hfresh (fun ho => absurd ho hon) hback)

/-- A step of the flush that a task does for itself. -/
theorem FlushInv.ownFlush (h : FlushInv s) {mk : FlushWork → FlushPc}
    (hmk : mk = .plain ∨ mk = .first) {w : FlushWork} (hpc : (s.task i).pc = mk w) (ret : Int) :
    FlushInv ((submitFlushWait s ret w).1.setPc i (mk (submitFlushWait s ret w).2)) := by
  obtain ⟨d, hd, hle, hcov⟩ := submitFlushWait_spec s ret w
  have hbase : FlushInv { s with durable := d } := h.raise hle le_rfl
  have hown : ∀ v, (mk v).ownWork = v := by rcases hmk with rfl | rfl <;> exact fun _ => rfl
  have hno : ∀ v, ¬(mk v).OnList ∧ ¬(mk v).Fresh ∧ mk v ≠ .outside ∧ mk v ≠ .returned (some 0) := by
    rcases hmk with rfl | rfl <;> exact fun _ => ⟨id, id, by simp, by simp⟩
  have hin : (s.task i).pc ≠ .outside := hpc ▸ (hno w).2.2.1
  have hwork := (h.task i).own
  rw [hpc, hown] at hwork
  rw [hd]
  refine hbase.go hpc (hno w).1 (hno w).2.2.1 ?_ (fun hf => absurd hf (hno _).2.1) (hno _).1
    fun hb => absurd hb (hno _).2.2.2
  rw [hown]
  exact hcov _ ((h.task i).began hin) hwork

/-- A step of the flush that a task does for its list. -/
theorem FlushInv.listFlush (h : FlushInv s) {w : FlushWork} (hpc : (s.task i).pc = .flushing w)
    (ret : Int) :
    FlushInv ((submitFlushWait s ret w).1.setPc i (.flushing (submitFlushWait s ret w).2)) := by
  obtain ⟨d, hd, hle, hcov⟩ := submitFlushWait_spec s ret w
  have hbase : FlushInv { s with durable := d } := h.raise hle le_rfl
  have hin : (s.task i).pc ≠ .outside := by simp [hpc]
  rw [hd]
  refine hbase.setTask ?_ (.inr ⟨_, rfl, fun j hj => ?_⟩) ?_
  · by_cases hheld : ∃ p, i ∈ s.held p
    · obtain ⟨p, hp⟩ := hheld
      have hopen := h.waits p i hp
      exact .inr ⟨⟨trivial, hopen.ret, hopen.done⟩, rfl⟩
    · exact .inl fun p hp => hheld ⟨p, hp⟩
  · have hold : Covers s.durable (s.task j).began (s.task i).pc.listWork := h.covers (.own i) j hj
    rw [hpc] at hold
    exact hcov _ ((h.task j).began (h.waits _ j hj).inside) hold
  · exact (hbase.task i).goto hin trivial False.elim (fun _ => .inr (by rw [hpc]; trivial))
      (by simp)

/-- A task that waits for its command goes on to wait. -/
theorem FlushInv.stay (h : FlushInv s) {old pc : FlushPc} (hpc : (s.task i).pc = old)
    (hold : old.OnList) (hnew : pc.OnList) (hnot : ∀ w, old ≠ .flushing w)
    (hwork : pc.listWork = .ready) : FlushInv (s.setPc i pc) := by
  subst hpc
  have hin : (s.task i).pc ≠ .outside := fun hno => by rw [hno] at hold; exact hold
  have hown : pc.ownWork = .ready := by cases pc <;> first | rfl | exact hnew.elim
  refine h.setTask ?_ (.inl (h.noList hnot)) ((h.task i).goto hin ?_ ?_ (fun _ => .inr hold) ?_)
  · by_cases hheld : ∃ p, i ∈ s.held p
    · obtain ⟨p, hp⟩ := hheld
      have hopen := h.waits p i hp
      exact .inr ⟨⟨hnew, hopen.ret, hopen.done⟩, rfl⟩
    · exact .inl fun p hp => hheld ⟨p, hp⟩
  · rw [hown]
    trivial
  · exact fun hf => absurd hnew hf.notOnList
  · exact fun hno => by rw [hno] at hnew; exact hnew.elim

theorem f2fsIssueFlush_inv (h : FlushInv s) {ret : Int} (hlost : s'.lost = false)
    (hstep : f2fsIssueFlush s i ret = some s') : FlushInv s' := by
  have ht := h.task i
  unfold f2fsIssueFlush at hstep
  cases hpc : (s.task i).pc with
  | outside =>
    rw [hpc] at hstep
    cases hstep
  | entered =>
    rw [hpc] at hstep
    cases hstep
    refine h.go hpc id (by simp) ?_ (fun _ => trivial) ?_ ?_
    · split <;> trivial
    · split <;> exact id
    · split <;> simp
  | plain w =>
    have hw := ht.own
    rw [hpc] at hstep hw
    cases w with
    | ended r =>
      cases hstep
      exact h.go hpc id (by simp) trivial id id fun hb => hw (by cases hb; rfl)
    | ready =>
      cases hstep
      exact h.ownFlush (.inl rfl) hpc ret
    | sent k =>
      cases hstep
      exact h.ownFlush (.inl rfl) hpc ret
  | counting =>
    rw [hpc] at hstep
    cases hstep
    have hbase : FlushInv { s with issingFlush := s.issingFlush + 1 } :=
      h.congr rfl rfl rfl rfl rfl
    refine hbase.go hpc id (by simp) ?_ (fun _ => trivial) ?_ ?_
    · split <;> trivial
    · split <;> exact id
    · split <;> simp
  | first w =>
    have hw := ht.own
    rw [hpc] at hstep hw
    cases w with
    | ended r =>
      cases hstep
      have hbase : FlushInv s.decIssing := h.congr rfl rfl rfl rfl rfl
      exact hbase.go hpc id (by simp) trivial id id fun hb => hw (by cases hb; rfl)
    | ready =>
      cases hstep
      exact h.ownFlush (.inr rfl) hpc ret
    | sent k =>
      cases hstep
      exact h.ownFlush (.inr rfl) hpc ret
  | filling =>
    rw [hpc] at hstep
    cases hstep
    obtain ⟨hret, hdone⟩ := ht.fresh (by rw [hpc]; trivial)
    have hno : ∀ p, i ∉ s.held p := h.notHeld (by rw [hpc]; exact id)
    have hadded : FlushInv (s.setPc i .added) := by
      refine h.setPc (by rw [hpc]; exact id) (ht.goto ?_ trivial False.elim (fun _ => .inl hret) ?_)
      · simp [hpc]
      · simp
    refine hadded.post hno ?_
    rw [FlushState.setPc, task_setTask, if_pos rfl]
    exact ⟨trivial, hret, hdone⟩
  | added =>
    rw [hpc] at hstep
    cases hstep
    refine h.stay hpc trivial ?_ (by simp) ?_
    · split <;> trivial
    · split <;> rfl
  | waiting =>
    rw [hpc] at hstep
    dsimp only at hstep
    split at hstep
    · rename_i hdone
      cases hstep
      have hno : ∀ p, i ∉ s.held p := fun p hp => by
        have := (h.waits p i hp).done
        rw [hdone] at this
        cases this
      have hbase : FlushInv s.decIssing := h.congr rfl rfl rfl rfl rfl
      refine hbase.setTask (.inl hno) (.inl (h.noList fun w hw => ?_)) (ht.goto ?_ trivial
        False.elim False.elim fun hb => ?_)
      · rw [hpc] at hw
        cases hw
      · simp [hpc]
      · exact ht.answered (by rw [hpc]; trivial) (FlushPc.returned.inj hb)
    · cases hstep
  | detaching =>
    rw [hpc] at hstep
    dsimp only at hstep
    split at hstep
    · cases hstep
      exact h.stay hpc trivial trivial (by simp) rfl
    · cases hstep
      have hflushing : FlushInv (s.setPc i (.flushing .ready)) :=
        h.stay hpc trivial trivial (by simp) rfl
      have hwork : ((s.setPc i (.flushing .ready)).task i).pc = .flushing .ready := by
        rw [FlushState.setPc, task_setTask, if_pos rfl]
      refine hflushing.detach (p := .own i) (fun hno => by cases hno) (List.Perm.refl _) ?_
        (fun k hk => ?_) (fun hno => by cases hno)
      · exact congrArg FlushPc.listWork hwork
      · cases hk
        exact ⟨_, hwork⟩
  | flushing w =>
    rw [hpc] at hstep
    cases w with
    | ended r =>
      dsimp only at hstep
      split at hstep
      · rename_i hnil
        cases hstep
        have hsome : ((s.task i).ret.isNone) = false := (Bool.or_eq_false_iff.mp hlost).2
        have hno : ∀ p, i ∉ s.held p := fun p hp => by
          rw [(h.waits p i hp).ret] at hsome
          cases hsome
        have hbase : FlushInv { s with lost := s.lost || (s.task i).ret.isNone } :=
          h.congr rfl rfl rfl rfl rfl
        refine hbase.setTask (.inl hno) (.inl hnil)
          (ht.goto ?_ trivial False.elim False.elim fun hb => ?_)
        · simp [hpc]
        · exact ht.answered (by rw [hpc]; trivial) (FlushPc.returned.inj hb)
      · rename_i j l hl
        obtain ⟨hpop, hno⟩ := h.pop hl
        have hj : j ∈ s.held (.own i) := hl ▸ List.mem_cons_self
        have hopen := h.waits _ j hj
        have hcov : Covers s.durable (s.task j).began (s.task i).pc.listWork := h.covers _ j hj
        rw [hpc] at hcov
        split at hstep
        · rename_i hji
          subst hji
          cases hstep
          have hbase : FlushInv (s.setHeld (.own j) l).decIssing := hpop.congr rfl rfl rfl rfl rfl
          exact hbase.answered hno hopen hcov (s.task j).done
        · cases hstep
          exact hpop.answered hno hopen hcov true
    | ready =>
      cases hstep
      exact h.listFlush hpc ret
    | sent k =>
      cases hstep
      exact h.listFlush hpc ret
  | returned r =>
    rw [hpc] at hstep
    cases hstep
    exact h.go hpc id (by simp) trivial False.elim id (by simp)

theorem issueFlushThread_inv (h : FlushInv s) {ret : Int}
    (hstep : issueFlushThread s ret = some s') : FlushInv s' := by
  unfold issueFlushThread at hstep
  have hidle : (∀ w, s.thread ≠ .working w) → s.held .dispatch = [] := by
    intro hno
    by_contra hne
    obtain ⟨w, hw⟩ := h.dispatch hne
    exact hno w hw
  have hflush : ∀ w, s.thread = .working w →
      FlushInv { (submitFlushWait s ret w).1 with
        thread := .working (submitFlushWait s ret w).2 } := by
    intro w hth
    obtain ⟨d, hd, hle, hcov⟩ := submitFlushWait_spec s ret w
    have hbase : FlushInv { s with durable := d } := h.raise hle le_rfl
    rw [hd]
    refine hbase.setThread (.inr ⟨_, rfl, fun j hj => ?_⟩)
    have hold : Covers s.durable (s.task j).began s.thread.listWork := h.covers .dispatch j hj
    rw [hth] at hold
    exact hcov _ ((h.task j).began (h.waits _ j hj).inside) hold
  cases hth : s.thread with
  | gone =>
    rw [hth] at hstep
    cases hstep
  | top =>
    have hnil : s.held .dispatch = [] := hidle (by simp [hth])
    rw [hth] at hstep
    dsimp only at hstep
    split at hstep
    · cases hstep
      exact h.setThread (.inl hnil)
    · split at hstep
      · cases hstep
        exact h.setThread (.inl hnil)
      · cases hstep
        have hbase : FlushInv { s with thread := .working .ready } := h.setThread (.inl hnil)
        exact hbase.detach (p := .dispatch) (by simp) (List.reverse_perm _) rfl (by simp)
          fun _ => ⟨_, rfl⟩
  | asleep =>
    have hnil : s.held .dispatch = [] := hidle (by simp [hth])
    rw [hth] at hstep
    dsimp only at hstep
    split at hstep
    · cases hstep
      exact h.setThread (.inl hnil)
    · cases hstep
  | working w =>
    rw [hth] at hstep
    cases w with
    | ended r =>
      dsimp only at hstep
      split at hstep
      · rename_i hnil
        cases hstep
        exact h.setThread (.inl hnil)
      · rename_i j l hl
        cases hstep
        obtain ⟨hpop, hno⟩ := h.pop hl
        have hj : j ∈ s.held .dispatch := hl ▸ List.mem_cons_self
        have hcov : Covers s.durable (s.task j).began s.thread.listWork := h.covers .dispatch j hj
        rw [hth] at hcov
        exact hpop.answered hno (h.waits _ j hj) hcov true
    | ready =>
      cases hstep
      exact hflush _ hth
    | sent k =>
      cases hstep
      exact hflush _ hth

theorem flushAct_inv (h : FlushInv s) {a : FlushAct τ} (hlost : s'.lost = false)
    (hstep : flushAct s a = some s') : FlushInv s' := by
  cases a with
  | write =>
    cases hstep
    exact h.raise le_rfl (Nat.le_succ _)
  | call i =>
    dsimp only [flushAct] at hstep
    split at hstep
    · rename_i hpc
      cases hstep
      have hno : ¬(s.task i).pc.OnList := by rw [hpc]; exact id
      refine h.setTask (.inl (h.notHeld hno)) (.inl (h.noList (by simp [hpc]))) ?_
      exact ⟨fun _ => le_rfl, trivial, fun _ => ⟨rfl, rfl⟩, False.elim, by simp⟩
    · cases hstep
  | task i ret => exact f2fsIssueFlush_inv h hlost hstep
  | thread ret => exact issueFlushThread_inv h hstep
  | option b =>
    cases hstep
    exact h.congr rfl rfl rfl rfl rfl
  | destroy =>
    dsimp only [flushAct] at hstep
    split at hstep
    · cases hstep
      exact h.congr rfl rfl rfl rfl rfl
    · cases hstep
  | create =>
    dsimp only [flushAct] at hstep
    split at hstep
    · rename_i hgone
      cases hstep
      have hnil : s.held .dispatch = [] := by
        by_contra hne
        obtain ⟨w, hw⟩ := h.dispatch hne
        rw [hgone.2] at hw
        cases hw
      have hbase : FlushInv { s with thread := .top } := h.setThread (.inl hnil)
      exact hbase.congr rfl rfl rfl rfl rfl
    · cases hstep
  | publish =>
    dsimp only [flushAct] at hstep
    split at hstep
    · cases hstep
    · cases hstep
      exact h.congr rfl rfl rfl rfl rfl

/-- What is lost stays lost. -/
theorem lost_of_flushAct {a : FlushAct τ} (hlost : s.lost = true) (hstep : flushAct s a = some s') :
    s'.lost = true := by
  cases a with
  | task i ret =>
    dsimp only [flushAct, f2fsIssueFlush] at hstep
    repeat' split at hstep
    all_goals cases hstep
    all_goals simp [FlushState.setPc, FlushState.setTask, FlushState.setHeld, FlushState.detach,
      FlushState.answer, FlushState.decIssing, lost_submitFlushWait, hlost]
  | thread ret =>
    dsimp only [flushAct, issueFlushThread] at hstep
    repeat' split at hstep
    all_goals cases hstep
    all_goals simp [FlushState.setTask, FlushState.setHeld, FlushState.detach,
      FlushState.answer, lost_submitFlushWait, hlost]
  | write => cases hstep; exact hlost
  | option b => cases hstep; exact hlost
  | call i =>
    dsimp only [flushAct] at hstep
    split at hstep <;> cases hstep
    exact hlost
  | destroy =>
    dsimp only [flushAct] at hstep
    split at hstep <;> cases hstep
    exact hlost
  | create =>
    dsimp only [flushAct] at hstep
    split at hstep <;> cases hstep
    exact hlost
  | publish =>
    dsimp only [flushAct] at hstep
    split at hstep <;> cases hstep
    exact hlost

/-! ## Every run -/

omit [DecidableEq τ] in
theorem createFlushCmdControl_inv (flushMerge : Bool) :
    FlushInv (createFlushCmdControl τ flushMerge) where
  apart := Apart.empty
  waits _ _ h := absurd h List.not_mem_nil
  covers _ _ h := absurd h List.not_mem_nil
  task _ :=
    ⟨fun h => absurd rfl h, trivial, False.elim, False.elim, by simp [createFlushCmdControl]⟩
  own _ h := absurd rfl h
  dispatch h := absurd rfl h

theorem flushRun_inv {flushMerge : Bool} {acts : List (FlushAct τ)}
    (hrun : flushRun (createFlushCmdControl τ flushMerge) acts = some s) (hlost : s.lost = false) :
    FlushInv s := by
  have hkept : s.lost = false → FlushInv s := by
    refine OptionFold.foldlM_inv (P := fun s : FlushState τ => s.lost = false → FlushInv s)
      (fun s a s' _ h hstep hlost' => ?_) (fun _ => createFlushCmdControl_inv flushMerge) hrun
    have hlost : s.lost = false := by
      by_contra hne
      rw [lost_of_flushAct (Bool.not_eq_false _ ▸ hne) hstep] at hlost'
      cases hlost'
    exact flushAct_inv (h hlost) hlost' hstep
  exact hkept hlost

/-- The pointer is set, and no call has missed the thread. -/
structure Threaded (s : FlushState τ) : Prop where
  published : s.issueFlush = true
  lost : s.lost = false
  noThread : ∀ i, ¬(s.task i).pc.NoThread

theorem Threaded.setTask (h : Threaded s) {t : FlushTask} (ht : ¬t.pc.NoThread)
    (hissue : s'.issueFlush = s.issueFlush) (hlost : s'.lost = s.lost)
    (htask : s'.task = (s.setTask i t).task) : Threaded s' := by
  refine ⟨hissue.trans h.published, hlost.trans h.lost, fun j => ?_⟩
  rw [htask, task_setTask]
  split
  · exact ht
  · exact h.noThread j

theorem f2fsIssueFlush_threaded (h : Threaded s) {ret : Int}
    (hstep : f2fsIssueFlush s i ret = some s') : Threaded s' := by
  unfold f2fsIssueFlush at hstep
  cases hpc : (s.task i).pc with
  | outside =>
    rw [hpc] at hstep
    cases hstep
  | entered =>
    rw [hpc] at hstep
    cases hstep
    exact h.setTask (t := { s.task i with pc := _ }) (by split <;> exact id) rfl rfl rfl
  | plain w =>
    rw [hpc] at hstep
    cases w <;> cases hstep <;> exact h.setTask (t := { s.task i with pc := _ }) id rfl rfl rfl
  | counting =>
    rw [hpc] at hstep
    cases hstep
    exact h.setTask (t := { s.task i with pc := _ }) (by split <;> exact id) rfl rfl rfl
  | first w =>
    rw [hpc] at hstep
    cases w <;> cases hstep <;> exact h.setTask (t := { s.task i with pc := _ }) id rfl rfl rfl
  | filling =>
    rw [hpc] at hstep
    cases hstep
    exact h.setTask (t := { s.task i with pc := _ }) id rfl rfl rfl
  | added =>
    rw [hpc] at hstep
    cases hstep
    rw [if_pos h.published]
    exact h.setTask (t := { s.task i with pc := _ }) id rfl rfl rfl
  | waiting =>
    rw [hpc] at hstep
    dsimp only at hstep
    split at hstep <;> cases hstep
    exact h.setTask (t := { s.task i with pc := _ }) id rfl rfl rfl
  | detaching => exact absurd (by rw [hpc]; trivial) (h.noThread i)
  | flushing w => exact absurd (by rw [hpc]; trivial) (h.noThread i)
  | returned r =>
    rw [hpc] at hstep
    cases hstep
    exact h.setTask (t := { s.task i with pc := _ }) id rfl rfl rfl

theorem issueFlushThread_threaded (h : Threaded s) {ret : Int}
    (hstep : issueFlushThread s ret = some s') : Threaded s' := by
  have hflush : ∀ {w v s₁}, submitFlushWait s ret w = (s₁, v) →
      Threaded { s₁ with thread := .working v } := by
    intro w v s₁ heq
    cases w <;> cases heq <;> exact ⟨h.published, h.lost, h.noThread⟩
  have hanswer : ∀ l j r, Threaded ((s.setHeld .dispatch l).answer j r) := fun l j r =>
    h.setTask (t := { s.task j with ret := some r, done := true }) (h.noThread j) rfl rfl rfl
  unfold issueFlushThread at hstep
  repeat' split at hstep
  all_goals cases hstep
  all_goals first
    | exact ⟨h.published, h.lost, h.noThread⟩
    | exact hanswer _ _ _
    | exact hflush ‹_›

/-- Without a thread that is stopped no call is lost. -/
theorem flushRun_threaded {acts : List (FlushAct τ)}
    (hrun : flushRun (createFlushCmdControl τ true) acts = some s) (hno : .destroy ∉ acts) :
    Threaded s := by
  refine OptionFold.foldlM_inv (fun s a s' ha h hstep => ?_) ⟨rfl, rfl, fun _ => id⟩ hrun
  cases a with
  | task i ret => exact f2fsIssueFlush_threaded h hstep
  | thread ret => exact issueFlushThread_threaded h hstep
  | destroy => exact absurd ha hno
  | write =>
    cases hstep
    exact ⟨h.published, h.lost, h.noThread⟩
  | option b =>
    cases hstep
    exact ⟨h.published, h.lost, h.noThread⟩
  | call i =>
    dsimp only [flushAct] at hstep
    split at hstep <;> cases hstep
    exact h.setTask id rfl rfl rfl
  | create =>
    dsimp only [flushAct] at hstep
    split at hstep <;> cases hstep
    exact ⟨h.published, h.lost, h.noThread⟩
  | publish =>
    dsimp only [flushAct] at hstep
    split at hstep <;> cases hstep
    exact ⟨rfl, h.lost, h.noThread⟩

/-- Two calls, the second of which begins after a write and is merged: the thread flushes for
    it. -/
def mergedCalls : List (FlushAct Bool) :=
  [.call false, .task false 0, .task false 0, .task false 0, .write, .call true, .task true 0,
    .task true 0, .task true 0, .thread 0, .task true 0, .thread 0, .thread 0, .thread 0,
    .task true 0]

/-- The thread is stopped between `llist_add` and the look at `f2fs_issue_flush`: the call detaches
    the command of another call, flushes for that one and comes back, while its own command is
    still with the thread. -/
def stoppedCall : List (FlushAct (Fin 3)) :=
  [.call 0, .task 0 0, .task 0 0, .call 1, .task 1 0, .task 1 0, .task 1 0, .thread 0, .destroy,
    .call 2, .task 2 0, .task 2 0, .task 2 0, .task 1 0, .task 1 0, .task 1 0, .task 1 0,
    .task 1 0, .task 1 0]

example : (flushRun (createFlushCmdControl (Fin 3) true) stoppedCall).any (fun s =>
    s.lost && decide ((s.task 1).pc = .returned none)) = true := by decide

end

end F2fs.Segment

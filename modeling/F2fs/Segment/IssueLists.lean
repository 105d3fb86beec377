/-
  `__issue_discard_cmd`: the pending lists are walked from the longest commands down to
  the granularity, each with `list_for_each_entry_safe`.

  The safe walk reads the pointer to the next command before `__submit_discard_cmd` may
  free the command at hand, and nothing but the command at hand leaves its list, so the
  pointer stays good (`listWalk_ends`).  `cmd_lock` is dropped between two lists.

  `issueDiscard_iff` puts both loops together.
-/
import F2fs.Segment.DiscardLinks
import F2fs.Segment.IssueRange

namespace F2fs.Segment.Discard

open IntervalTree Loop

variable {devStart : Nat → Nat} (rb : Rebalance DiscardCmd) (env : Surroundings devStart)
  (dpolicy : DiscardPolicy)

/-! ## The walk -/

/-- What follows a command on its list: the command there, if any.  `none` for a command
    that is not on the list. -/
def DiscardCmdControl.listNext (dcc : DiscardCmdControl) (l : DiscardList) (id : Nat) :
    Option (Option Nat) :=
  if id ∈ dcc.lists l then some (((dcc.lists l).dropWhile fun i => i ≠ id).tail.head?) else none

/-- Where `__issue_discard_cmd` is: before the lists below number `left`, or in the walk of
    list `i`, at `dc` and with `tmp` behind it. -/
inductive ListPc where
  | lists (left : Nat)
  | walk (i dc : Nat) (tmp : Option Nat)

/-- The variables of `__issue_discard_cmd`; `visited` are the commands the walks were at. -/
structure ListWalk where
  dcc : DiscardCmdControl
  pc : ListPc
  iter : Nat := 0
  issued : Nat := 0
  ioInterrupted : Bool := false
  submits : Nat := 0
  unlocks : Nat := 0
  looks : Nat := 0
  visited : List Nat := []

/-- How it ends: it returns, or it reads a command that was freed or left the list. -/
inductive ListsEnd where
  | ok (w : ListWalk) (ret : Int)
  | lost (id : Nat)

/-- The return. -/
def ListWalk.finish (w : ListWalk) : ListsEnd :=
  .ok w (if w.issued = 0 ∧ w.ioInterrupted = true then -1 else w.issued)

/-- `dc` becomes the command, and `tmp` the one behind it. -/
def ListWalk.goto (w : ListWalk) (i id : Nat) : Turn ListWalk ListsEnd :=
  match w.dcc.get id, w.dcc.listNext (.pend i) id with
  | some _, some tmp => .next { w with pc := .walk i id tmp }
  | _, _ => .done (.lost id)

/-- From the label `next`: others have the lock, and the lists below are left. -/
def ListWalk.unlock (w : ListWalk) (i : Nat) : Turn ListWalk ListsEnd :=
  let w' := { w with
    dcc := env.unlocked rb w.unlocks w.dcc, unlocks := w.unlocks + 1, pc := .lists i }
  if dpolicy.maxRequests ≤ w.iter then .done w'.finish else .next w'

/-- The body of the walk up to the test of `max_requests`. -/
def ListWalk.visit (w : ListWalk) (i : Nat) (dc : DiscardCmd) : ListWalk :=
  let w := { w with iter := w.iter + 1, looks := w.looks + 1, visited := dc.id :: w.visited }
  if dpolicy.ioAware = true ∧ i < dpolicy.ioAwareGran ∧ env.idle w.looks = false then
    { w with ioInterrupted := true }
  else
    { w with
      dcc := submitDiscardCmd rb w.dcc dc dpolicy.fstrim (env.issue w.submits)
      issued := w.issued + 1
      submits := w.submits + 1 }

/-- One step of either loop. -/
def ListWalk.turn (w : ListWalk) : Turn ListWalk ListsEnd :=
  match w.pc with
  | .lists 0 => .done w.finish
  | .lists (i + 1) =>
    if i + 1 < dpolicy.granularity then .done w.finish
    else
      match (w.dcc.lists (.pend i)).head? with
      | none => w.unlock rb env dpolicy i
      | some id => w.goto i id
  | .walk i id tmp =>
    match w.dcc.get id with
    | none => .done (.lost id)
    | some dc =>
      let w := w.visit rb env dpolicy i dc
      if dpolicy.maxRequests ≤ w.iter then w.unlock rb env dpolicy i
      else
        match tmp with
        | none => w.unlock rb env dpolicy i
        | some tmp => w.goto i tmp

/-- `__issue_discard_cmd` from its start. -/
def issueDiscardCmd (dcc : DiscardCmdControl) : ListWalk where
  dcc := dcc
  pc := .lists maxPlistNum

/-- No pointer was lost, and every pending command that is long enough and that the other
    threads leave alone was visited, unless the limit was met. -/
def ListsIssued (dcc : DiscardCmdControl) (out : ListsEnd) : Prop :=
  ∃ w ret, out = .ok w ret ∧ DiscardInv devStart w.dcc ∧
    (dpolicy.maxRequests ≤ w.iter ∨ ∀ c ∈ dcc.cmds, c.state = .prep →
      dpolicy.granularity ≤ c.len → env.Stays rb c → c.id ∈ w.visited)

/-! ## One command -/

section Visit

variable {rb} {dcc : DiscardCmdControl} {dc : DiscardCmd}

theorem Linked.listNext_eq (h : Linked dcc) {l : DiscardList} {P R : List Nat} {id : Nat}
    (hl : dcc.lists l = P ++ id :: R) : dcc.listNext l id = some R.head? := by
  have hnodup := h.nodup l
  rw [hl, List.nodup_middle, List.nodup_cons] at hnodup
  have hP : ∀ i ∈ P, i ≠ id := fun i hi heq => hnodup.1 (List.mem_append_left _ (heq ▸ hi))
  have hdrop : (P ++ id :: R).dropWhile (fun i => i ≠ id) = id :: R := by
    rw [List.dropWhile_append_of_pos fun i hi => decide_eq_true (hP i hi)]
    exact List.dropWhile_cons_of_neg (by simp)
  unfold DiscardCmdControl.listNext
  rw [hl, hdrop, if_pos (List.mem_append_right _ List.mem_cons_self)]
  rfl

/-- Submitting a command takes it off its pending list or leaves the list alone. -/
theorem submitDiscardCmd_lists (fstrim : Bool) (res : IssueResult) (i : Nat) :
    (submitDiscardCmd rb dcc dc fstrim res).lists (.pend i) = dcc.lists (.pend i) ∨
      (submitDiscardCmd rb dcc dc fstrim res).lists (.pend i) =
        (dcc.lists (.pend i)).filter fun j => j ≠ dc.id := by
  unfold submitDiscardCmd
  split
  · exact Or.inl rfl
  · split
    · split
      · have hne : DiscardList.pend i ≠ if fstrim = true then .fstrim else .wait := by
          cases fstrim <;> simp
        exact Or.inr (Function.update_of_ne hne _ _)
      · exact Or.inl rfl
    · exact Or.inr rfl

/-- Submitting a command leaves the others in the tree. -/
theorem mem_submitDiscardCmd (h : Books dcc) (hdc : dc ∈ dcc.cmds) (fstrim : Bool)
    (res : IssueResult) {c : DiscardCmd} (hc : c ∈ dcc.cmds) (hne : c.id ≠ dc.id) :
    c ∈ (submitDiscardCmd rb dcc dc fstrim res).cmds := by
  by_cases hprep : dc.state = .prep
  · obtain ⟨A, B, hsplit⟩ := List.append_of_mem hdc
    rw [submitDiscardCmd_cmds h hsplit hprep]
    rw [hsplit] at hc
    rcases List.mem_append.mp hc with hA | hB
    · split <;> exact List.mem_append_left _ hA
    · have hB' : c ∈ B := (List.mem_cons.mp hB).resolve_left fun heq => hne (heq ▸ rfl)
      split
      · exact List.mem_append_right _ (List.mem_cons_of_mem _ hB')
      · exact List.mem_append_right _ hB'
  · unfold submitDiscardCmd
    rw [if_pos hprep]
    exact hc

/-- The body of the walk at a command: what is behind it on the list stays there, and the
    other commands stay in the tree. -/
structure Visited (rb : Rebalance DiscardCmd) (env : Surroundings devStart)
    (dpolicy : DiscardPolicy) (w : ListWalk) (i : Nat) (dc : DiscardCmd) (R : List Nat) : Prop where
  inv : DiscardInv devStart (w.visit rb env dpolicy i dc).dcc
  linked : Linked (w.visit rb env dpolicy i dc).dcc
  behind : ∃ P, (w.visit rb env dpolicy i dc).dcc.lists (.pend i) = P ++ R
  others : ∀ c ∈ w.dcc.cmds, c.id ≠ dc.id → c ∈ (w.visit rb env dpolicy i dc).dcc.cmds
  visited : (w.visit rb env dpolicy i dc).visited = dc.id :: w.visited

theorem visit_spec {env : Surroundings devStart} {dpolicy : DiscardPolicy} {w : ListWalk}
    (hinv : DiscardInv devStart w.dcc) (h : Linked w.dcc) {i : Nat} (hdc : dc ∈ w.dcc.cmds)
    {P R : List Nat} (hl : w.dcc.lists (.pend i) = P ++ dc.id :: R) :
    Visited rb env dpolicy w i dc R := by
  obtain ⟨A, B, hsplit⟩ := List.append_of_mem hdc
  have hsame : P ++ dc.id :: R = (P ++ [dc.id]) ++ R := List.append_cons _ _ _
  have hnodup := h.nodup (.pend i)
  rw [hl, List.nodup_middle, List.nodup_cons] at hnodup
  have hfilter : (P ++ dc.id :: R).filter (fun j => j ≠ dc.id) = P ++ R := by
    have hkeep : ∀ j ∈ P ++ R, j ≠ dc.id := fun j hj heq => hnodup.1 (heq ▸ hj)
    rw [List.filter_append, List.filter_cons_of_neg (by simp), ← List.filter_append]
    exact List.filter_eq_self.mpr fun j hj => decide_eq_true (hkeep j hj)
  by_cases hbusy : dpolicy.ioAware = true ∧ i < dpolicy.ioAwareGran ∧
      env.idle (w.looks + 1) = false
  · have hvisit : w.visit rb env dpolicy i dc = { w with
        iter := w.iter + 1, looks := w.looks + 1, visited := dc.id :: w.visited,
        ioInterrupted := true } := if_pos hbusy
    constructor <;> rw [hvisit]
    · exact hinv
    · exact h
    · exact ⟨P ++ [dc.id], hl.trans hsame⟩
    · exact fun c hc _ => hc
  · have hvisit : w.visit rb env dpolicy i dc = { w with
        iter := w.iter + 1, looks := w.looks + 1, visited := dc.id :: w.visited,
        dcc := submitDiscardCmd rb w.dcc dc dpolicy.fstrim (env.issue w.submits),
        issued := w.issued + 1, submits := w.submits + 1 } := if_neg hbusy
    constructor <;> rw [hvisit]
    · exact submitDiscardCmd_inv hinv hsplit dpolicy.fstrim (env.issue w.submits)
    · exact h.submitDiscardCmd hdc dpolicy.fstrim (env.issue w.submits)
    · have hlists : (submitDiscardCmd rb w.dcc dc dpolicy.fstrim (env.issue w.submits)).lists
            (.pend i) = _ ∨ _ = _ :=
        submitDiscardCmd_lists dpolicy.fstrim (env.issue w.submits) i
      rw [hl, hfilter, hsame] at hlists
      exact hlists.elim (fun heq => ⟨_, heq⟩) fun heq => ⟨_, heq⟩
    · exact fun c hc hne => mem_submitDiscardCmd hinv.books hdc dpolicy.fstrim
        (env.issue w.submits) hc hne

end Visit

/-! ## The walks -/

section Walk

variable {rb env dpolicy}

/-- A pending command long enough, whose list is below number `left`. -/
def ListAhead (dpolicy : DiscardPolicy) (w : ListWalk) (left : Nat) (c : DiscardCmd) : Prop :=
  c ∈ w.dcc.cmds ∧ c.state = .prep ∧ dpolicy.granularity ≤ c.len ∧ plistIdx c.len < left

/-- From the state `w` the walks end, and visit the commands `need`. -/
def ListsEndWell (rb : Rebalance DiscardCmd) (env : Surroundings devStart)
    (dpolicy : DiscardPolicy) (w : ListWalk) (visited : List Nat) (need : DiscardCmd → Prop) :
    Prop :=
  ∃ l w' ret, Trail (ListWalk.turn rb env dpolicy) w l (.ok w' ret) ∧
    DiscardInv devStart w'.dcc ∧ visited ⊆ w'.visited ∧
    (dpolicy.maxRequests ≤ w'.iter ∨ ∀ c, need c → env.Stays rb c → c.id ∈ w'.visited)

/-- One more step in front. -/
theorem ListsEndWell.cons {w w₁ : ListWalk} {visited visited₁ : List Nat}
    {need need₁ : DiscardCmd → Prop} (h : ListsEndWell rb env dpolicy w₁ visited₁ need₁)
    (hturn : w.turn rb env dpolicy = .next w₁) (hvisited : visited ⊆ visited₁)
    (hneed : ∀ c, need c → env.Stays rb c → c.id ∈ visited₁ ∨ need₁ c) :
    ListsEndWell rb env dpolicy w visited need := by
  obtain ⟨l, w', ret, htrail, hinv, hsub, hvis⟩ := h
  refine ⟨w :: l, w', ret, .next hturn htrail, hinv, fun i hi => hsub (hvisited hi), ?_⟩
  rcases hvis with hmax | hall
  · exact Or.inl hmax
  · refine Or.inr fun c hc hst => ?_
    rcases hneed c hc hst with hdone | hlater
    · exact hsub hdone
    · exact hall c hlater hst

/-- The lists below number `i`, for the induction over them. -/
def ListsBelow (rb : Rebalance DiscardCmd) (env : Surroundings devStart)
    (dpolicy : DiscardPolicy) (i : Nat) : Prop :=
  ∀ w : ListWalk, DiscardInv devStart w.dcc → Linked w.dcc → w.pc = .lists i →
    ListsEndWell rb env dpolicy w w.visited (ListAhead dpolicy w i)

/-- The label `next`: what is needed is on the lists below, or was visited. -/
theorem unlock_ends {w w₀ : ListWalk} {i : Nat} (hbelow : ListsBelow rb env dpolicy i)
    (hinv : DiscardInv devStart w.dcc) (h : Linked w.dcc)
    (hturn : w₀.turn rb env dpolicy = w.unlock rb env dpolicy i)
    {visited : List Nat} (hvisited : visited ⊆ w.visited) {need : DiscardCmd → Prop}
    (hneed : dpolicy.maxRequests ≤ w.iter ∨
      ∀ c, need c → c.id ∈ w.visited ∨ ListAhead dpolicy w i c) :
    ListsEndWell rb env dpolicy w₀ visited need := by
  obtain ⟨dcc, hrun, hinv'⟩ := discardRun_inv rb (env.others w.unlocks) hinv
  have hunlocked : env.unlocked rb w.unlocks w.dcc = dcc := by
    unfold Surroundings.unlocked
    rw [hrun]
    rfl
  have hlinked := (discardRun_linked (env.others w.unlocks) hinv h hrun).2
  unfold ListWalk.unlock at hturn
  simp only [hunlocked] at hturn
  set w' : ListWalk := { w with dcc := dcc, unlocks := w.unlocks + 1, pc := .lists i } with hw'
  by_cases hmax : dpolicy.maxRequests ≤ w.iter
  · rw [if_pos hmax] at hturn
    exact ⟨[w₀], w', _, .done hturn, hinv', hvisited, Or.inl hmax⟩
  · rw [if_neg hmax] at hturn
    refine (hbelow w' hinv' hlinked rfl).cons hturn hvisited fun c hc hst => ?_
    rcases (hneed.resolve_left hmax) c hc with hdone | ⟨hmem, hrest⟩
    · exact Or.inl hdone
    · have hstays := hst w.unlocks w.dcc hinv hmem
      rw [hunlocked] at hstays
      exact Or.inr ⟨hstays, hrest⟩

theorem goto_eq {w : ListWalk} (hinv : DiscardInv devStart w.dcc) (h : Linked w.dcc) {i id : Nat}
    {P R : List Nat} (hl : w.dcc.lists (.pend i) = P ++ id :: R) :
    w.goto i id = .next { w with pc := .walk i id R.head? } := by
  obtain ⟨dc, hdc, rfl⟩ := hinv.books.owner (.pend i) id
    (hl ▸ List.mem_append_right _ List.mem_cons_self)
  obtain ⟨A, B, hat⟩ := hinv.books.at_mem hdc
  unfold ListWalk.goto
  rw [hat.get_eq, h.listNext_eq hl]

/-- The walk of one list from a command on, the induction being on what is behind it. -/
theorem listWalk_ends {i : Nat} (hbelow : ListsBelow rb env dpolicy i) (R : List Nat) :
    ∀ (w : ListWalk) (P : List Nat) (id : Nat), DiscardInv devStart w.dcc → Linked w.dcc →
      w.pc = .walk i id R.head? → w.dcc.lists (.pend i) = P ++ id :: R →
      ListsEndWell rb env dpolicy w w.visited
        (fun c => ListAhead dpolicy w (i + 1) c ∧ (c.id ∈ id :: R ∨ plistIdx c.len < i)) := by
  induction R with
  | nil =>
      intro w P id hinv h hpc hl
      obtain ⟨dc, hdc, rfl⟩ := hinv.books.owner (.pend i) id
        (hl ▸ List.mem_append_right _ List.mem_cons_self)
      obtain ⟨A, B, hat⟩ := hinv.books.at_mem hdc
      have hv : Visited rb env dpolicy w i dc [] := visit_spec hinv h hdc hl
      have hturn : w.turn rb env dpolicy =
          (w.visit rb env dpolicy i dc).unlock rb env dpolicy i := by
        unfold ListWalk.turn
        rw [hpc]
        simp only [hat.get_eq]
        exact ite_self _
      refine unlock_ends hbelow hv.inv hv.linked hturn
        (hv.visited ▸ List.subset_cons_self _ _) (Or.inr fun c hc => ?_)
      obtain ⟨⟨hmem, hprep, hlong, -⟩, hplace⟩ := hc
      by_cases hself : c.id = dc.id
      · exact Or.inl (by rw [hv.visited, hself]; exact List.mem_cons_self)
      · refine Or.inr ⟨hv.others c hmem hself, hprep, hlong, ?_⟩
        exact hplace.resolve_left fun hin => hself (List.mem_singleton.mp hin)
  | cons next R ih =>
      intro w P id hinv h hpc hl
      obtain ⟨dc, hdc, rfl⟩ := hinv.books.owner (.pend i) id
        (hl ▸ List.mem_append_right _ List.mem_cons_self)
      obtain ⟨A, B, hat⟩ := hinv.books.at_mem hdc
      have hv : Visited rb env dpolicy w i dc (next :: R) := visit_spec hinv h hdc hl
      have hturn : w.turn rb env dpolicy =
          if dpolicy.maxRequests ≤ (w.visit rb env dpolicy i dc).iter then
            (w.visit rb env dpolicy i dc).unlock rb env dpolicy i
          else (w.visit rb env dpolicy i dc).goto i next := by
        unfold ListWalk.turn
        rw [hpc]
        simp only [hat.get_eq, List.head?_cons]
      have hsub : w.visited ⊆ (w.visit rb env dpolicy i dc).visited :=
        hv.visited ▸ List.subset_cons_self _ _
      by_cases hmax : dpolicy.maxRequests ≤ (w.visit rb env dpolicy i dc).iter
      · rw [if_pos hmax] at hturn
        exact unlock_ends hbelow hv.inv hv.linked hturn hsub (Or.inl hmax)
      · -- the pointer read before the command was submitted is still on the list
        rw [if_neg hmax] at hturn
        obtain ⟨P', hP'⟩ := hv.behind
        rw [goto_eq hv.inv hv.linked hP'] at hturn
        refine (ih { w.visit rb env dpolicy i dc with pc := .walk i next R.head? } P' next hv.inv
          hv.linked rfl hP').cons hturn hsub fun c hc _ => ?_
        obtain ⟨⟨hmem, hrest⟩, hplace⟩ := hc
        by_cases hself : c.id = dc.id
        · left
          show c.id ∈ (w.visit rb env dpolicy i dc).visited
          rw [hv.visited, hself]
          exact List.mem_cons_self
        · refine Or.inr ⟨⟨hv.others c hmem hself, hrest⟩, ?_⟩
          exact hplace.imp_left fun hin => (List.mem_cons.mp hin).resolve_left hself

/-- The list of a long command is not below the granularity. -/
theorem granularity_le {len i : Nat} (hgran : dpolicy.granularity ≤ maxPlistNum)
    (hlong : dpolicy.granularity ≤ len) (hi : plistIdx len < i) (hle : i ≤ maxPlistNum) :
    dpolicy.granularity ≤ i := by
  unfold plistIdx at hi
  unfold maxPlistNum at hgran hi hle
  split at hi <;> omega

theorem listsBelow (hgran : dpolicy.granularity ≤ maxPlistNum) (left : Nat) :
    left ≤ maxPlistNum → ListsBelow rb env dpolicy left := by
  induction left with
  | zero =>
      intro _ w hinv _ hpc
      have hturn : w.turn rb env dpolicy = .done w.finish := by
        unfold ListWalk.turn
        rw [hpc]
      exact ⟨[w], w, _, .done hturn, hinv, fun _ => id,
        Or.inr fun c hc => absurd hc.2.2.2 (Nat.not_lt_zero _)⟩
  | succ i ih =>
      intro hle w hinv h hpc
      have hbelow := ih ((Nat.le_succ i).trans hle)
      have hturn : w.turn rb env dpolicy =
          if i + 1 < dpolicy.granularity then .done w.finish
          else
            match (w.dcc.lists (.pend i)).head? with
            | none => w.unlock rb env dpolicy i
            | some id => w.goto i id := by
        unfold ListWalk.turn
        rw [hpc]
      by_cases hshort : i + 1 < dpolicy.granularity
      · rw [if_pos hshort] at hturn
        refine ⟨[w], w, _, .done hturn, hinv, fun _ => id, Or.inr fun c hc => ?_⟩
        have := granularity_le hgran hc.2.2.1 hc.2.2.2 hle
        omega
      rw [if_neg hshort] at hturn
      -- a command that is needed is on this list or on one below
      have hplace : ∀ c, ListAhead dpolicy w (i + 1) c →
          c.id ∈ w.dcc.lists (.pend i) ∨ plistIdx c.len < i := by
        intro c hc
        obtain ⟨hmem, hprep, -, hlt⟩ := hc
        rcases Nat.lt_or_eq_of_le (Nat.lt_succ_iff.mp hlt) with hless | heq
        · exact Or.inr hless
        · exact Or.inl ((hinv.books.pend c hmem hprep _).mpr (by rw [heq]))
      cases hl : w.dcc.lists (.pend i) with
      | nil =>
          rw [hl, List.head?_nil] at hturn
          refine unlock_ends hbelow hinv h hturn (fun _ => id) (Or.inr fun c hc => ?_)
          have hlt := (hplace c hc).resolve_left (by rw [hl]; exact List.not_mem_nil)
          exact Or.inr ⟨hc.1, hc.2.1, hc.2.2.1, hlt⟩
      | cons id R =>
          rw [hl, List.head?_cons] at hturn
          have hl' : w.dcc.lists (.pend i) = [] ++ id :: R := hl
          simp only [goto_eq hinv h hl'] at hturn
          refine (listWalk_ends hbelow R { w with pc := .walk i id R.head? } [] id hinv h rfl
            hl').cons hturn (fun _ hi => hi) fun c hc _ => Or.inr ⟨hc, ?_⟩
          rw [← hl]
          exact hplace c hc

end Walk

/-- `__issue_discard_cmd` always ends, with what is asked of it. -/
theorem issueLists_trail {dcc : DiscardCmdControl} (hinv : DiscardInv devStart dcc)
    (h : Linked dcc) (hgran : dpolicy.granularity ≤ maxPlistNum) :
    ∃ l out, Trail (ListWalk.turn rb env dpolicy) (issueDiscardCmd dcc) l out ∧
      ListsIssued rb env dpolicy dcc out := by
  have hbelow : ListsBelow rb env dpolicy maxPlistNum := listsBelow hgran maxPlistNum le_rfl
  obtain ⟨l, w, ret, htrail, hinv', -, hvis⟩ := hbelow (issueDiscardCmd dcc) hinv h rfl
  refine ⟨l, .ok w ret, htrail, w, ret, rfl, hinv', ?_⟩
  apply hvis.imp_right
  intro hall c hc hprep hlong hst
  refine hall c ⟨hc, hprep, hlong, ?_⟩ hst
  unfold plistIdx maxPlistNum
  split <;> omega

/-- Both loops end on every tree.  What is asked of them holds exactly if no command that
    the walk of the range submits is refused. -/
theorem issueDiscard_iff (ops : List (DiscardOp devStart)) {dcc : DiscardCmdControl}
    (hrun : discardRun rb ops = some dcc) (start «end» : Nat) (listPolicy : DiscardPolicy)
    (hgran : listPolicy.granularity ≤ maxPlistNum) :
    ∃ l out l' out',
      Trail (RangeWalk.turn rb env dpolicy «end») (issueDiscardCmdRange dcc start) l out ∧
      Trail (ListWalk.turn rb env listPolicy) (issueDiscardCmd dcc) l' out' ∧
      (RangeIssued rb env dpolicy dcc start «end» out ∧ ListsIssued rb env listPolicy dcc out' ↔
        ∀ w ∈ l, ¬ w.Refused env dpolicy «end») := by
  obtain ⟨hinv, hlinked⟩ := discardRun_linked ops discardInv_init linked_init hrun
  obtain ⟨l, out, htrail, hiff⟩ := issueRange_trail rb env dpolicy hinv start «end»
  obtain ⟨l', out', htrail', hlists⟩ := issueLists_trail rb env listPolicy hinv hlinked hgran
  exact ⟨l, out, l', out', htrail, htrail', ⟨fun h => hiff.mp h.1, fun h => ⟨hiff.mpr h, hlists⟩⟩⟩

/-! ### A refused discard -/

/-- One command of 20 blocks. -/
def oneQueued : List (DiscardOp fun _ => 0) := [.queue ⟨0, 1000, 20, by decide, by decide⟩]

/-- `f2fs_trim_fs` with the smallest `minlen`. -/
def trimPolicy : DiscardPolicy where
  fstrim := true
  maxRequests := 8
  ioAwareGran := maxPlistNum
  ioAware := false
  granularity := 1

/-- A device that answers every discard with `error`, and nobody else about. -/
def quiet (error : Int) : Surroundings fun _ => 0 where
  issue _ := ⟨error, true⟩
  others _ := []
  signal _ := false
  idle _ := true

/-- The command is submitted by either loop. -/
theorem oneQueued_issued : ∃ dcc, discardRun (Rebalance.unbalanced DiscardCmd) oneQueued =
    some dcc ∧
    ∃ l out l' out',
      Trail (RangeWalk.turn (Rebalance.unbalanced DiscardCmd) (quiet 0) trimPolicy 2000)
        (issueDiscardCmdRange dcc 512) l out ∧
      Trail (ListWalk.turn (Rebalance.unbalanced DiscardCmd) (quiet 0) trimPolicy)
        (issueDiscardCmd dcc) l' out' ∧
      RangeIssued (Rebalance.unbalanced DiscardCmd) (quiet 0) trimPolicy dcc 512 2000 out ∧
      ListsIssued (Rebalance.unbalanced DiscardCmd) (quiet 0) trimPolicy dcc out' := by
  have hsome : (discardRun (Rebalance.unbalanced DiscardCmd) oneQueued).isSome = true := by
    decide +kernel
  obtain ⟨dcc, hrun⟩ := Option.isSome_iff_exists.mp hsome
  obtain ⟨l, out, l', out', htrail, htrail', hiff⟩ :=
    issueDiscard_iff (Rebalance.unbalanced DiscardCmd) (quiet 0) trimPolicy oneQueued hrun 512 2000
      trimPolicy (by decide)
  refine ⟨dcc, hrun, l, out, l', out', htrail, htrail', hiff.mpr fun w _ href => ?_⟩
  obtain ⟨-, -, -, -, -, -, -, herr⟩ := href
  exact herr rfl

/-- The device does not support discards: the walk of the range reads the command it has
    just freed. -/
theorem refused_freed : ¬ ∀ (devStart : Nat → Nat) (rb : Rebalance DiscardCmd)
    (env : Surroundings devStart) (dpolicy : DiscardPolicy) (ops : List (DiscardOp devStart))
    (dcc : DiscardCmdControl), discardRun rb ops = some dcc → ∀ start «end», ∃ n out,
      Loop.run (RangeWalk.turn rb env dpolicy «end») n (issueDiscardCmdRange dcc start) = some out ∧
      RangeIssued rb env dpolicy dcc start «end» out := by
  intro hall
  have hfreed : (discardRun (Rebalance.unbalanced DiscardCmd) oneQueued).bind (fun dcc =>
      (Loop.run (RangeWalk.turn (Rebalance.unbalanced DiscardCmd) (quiet (-95)) trimPolicy 2000) 1
        (issueDiscardCmdRange dcc 512)).map fun out =>
          match out with
          | .ok _ _ => none
          | .freed id => some id) = some (some 0) := by
    decide +kernel
  obtain ⟨dcc, hrun, hout⟩ := Option.bind_eq_some_iff.mp hfreed
  obtain ⟨out, hone, hid⟩ := Option.map_eq_some_iff.mp hout
  obtain ⟨n, out', hn, hok⟩ := hall _ (Rebalance.unbalanced DiscardCmd) (quiet (-95)) trimPolicy
    oneQueued dcc hrun 512 2000
  obtain rfl : out = out' := run_unique hone hn
  obtain ⟨w, signalled, rfl, -⟩ := hok
  cases hid

end F2fs.Segment.Discard

/-
  `__issue_discard_cmd_range`: a walk through the discard command tree that hands the
  pending commands of a range to the block layer.

  The loop holds pointers.  Every read through one goes by `DiscardCmdControl.get`, and
  a read that finds no command ends the walk with `freed`.  Each time `cmd_lock` is
  dropped other threads run operations of their own (`Surroundings.others`).

  A command the block layer refuses is removed by `__submit_discard_cmd`.  The loop then
  still reads the command, for its `lstart` and `len` or for its `rb_node`.
  `issueRange_trail`: the walk always ends, it reads a freed command exactly when some
  submission of it is refused, and otherwise it submits every pending command of the
  range that is long enough, unless a fatal signal stops it.
-/
import F2fs.Segment.DiscardRun
import F2fs.Lib.Loop

namespace F2fs.Segment.Discard

open IntervalTree Loop

/-! ## What the loops depend on -/

/-- `struct discard_policy`, what the loops read of it; `fstrim` is
    `type == DPOLICY_FSTRIM`. -/
structure DiscardPolicy where
  fstrim : Bool
  maxRequests : Nat
  ioAwareGran : Nat
  ioAware : Bool
  granularity : Nat

/-- What the loops meet: the block layer's answers, what other threads do each time the
    lock is dropped, `fatal_signal_pending`, and `is_idle`. -/
structure Surroundings (devStart : Nat → Nat) where
  issue : Nat → IssueResult
  others : Nat → List (DiscardOp devStart)
  signal : Nat → Bool
  idle : Nat → Bool

variable {devStart : Nat → Nat} (rb : Rebalance DiscardCmd) (env : Surroundings devStart)
  (dpolicy : DiscardPolicy)

/-- The commands when the lock is taken again. -/
def Surroundings.unlocked (n : Nat) (dcc : DiscardCmdControl) : DiscardCmdControl :=
  ((env.others n).foldlM (DiscardOp.step rb) dcc).getD dcc

theorem Surroundings.unlocked_inv {dcc : DiscardCmdControl} (h : DiscardInv devStart dcc)
    (n : Nat) : DiscardInv devStart (env.unlocked rb n dcc) := by
  obtain ⟨dcc', hrun, hinv⟩ := discardRun_inv rb (env.others n) h
  unfold Surroundings.unlocked
  rw [hrun]
  exact hinv

/-- The other threads leave the command alone. -/
def Surroundings.Stays (c : DiscardCmd) : Prop :=
  ∀ n dcc, DiscardInv devStart dcc → c ∈ dcc.cmds → c ∈ (env.unlocked rb n dcc).cmds

/-! ## The walk -/

/-- The variables of `__issue_discard_cmd_range`.  `submits`, `unlocks` and `checks` count
    what was asked of the surroundings, and `visited` are the commands submitted. -/
structure RangeWalk where
  dcc : DiscardCmdControl
  cur : Option Nat
  start : Nat
  issued : Nat := 0
  submits : Nat := 0
  unlocks : Nat := 0
  checks : Nat := 0
  visited : List Nat := []

/-- How a walk ends: at the end of the loop, or at a read of a command that was freed. -/
inductive RangeEnd where
  | ok (w : RangeWalk) (signalled : Bool)
  | freed (id : Nat)

/-- From the label `next` to the loop. -/
def RangeWalk.begin (w : RangeWalk) : RangeWalk :=
  let near := lookup DiscardCmd.lstart DiscardCmd.len w.dcc.root w.start true
  { w with cur := (near.entry.or near.next).map DiscardCmd.id, issued := 0 }

/-- From the label `skip` to the end of the iteration. -/
def RangeWalk.skip (w : RangeWalk) (id : Nat) : Turn RangeWalk RangeEnd :=
  match w.dcc.get id with
  | none => .done (.freed id)
  | some dc =>
    let w' := { w with cur := (w.dcc.rbNext dc.id).map DiscardCmd.id, checks := w.checks + 1 }
    if env.signal w.checks then .done (.ok w' true) else .next w'

/-- `__submit_discard_cmd` of a pending command. -/
def RangeWalk.submit (w : RangeWalk) (dc : DiscardCmd) : RangeWalk :=
  { w with
    dcc := submitDiscardCmd rb w.dcc dc dpolicy.fstrim (env.issue w.submits)
    issued := w.issued + 1
    submits := w.submits + 1
    visited := dc.id :: w.visited }

/-- Past `max_requests`: the range goes on behind the command, after others had the lock. -/
def RangeWalk.restart (w : RangeWalk) (id : Nat) : Turn RangeWalk RangeEnd :=
  match w.dcc.get id with
  | none => .done (.freed id)
  | some dc =>
    .next { w with
      start := dc.lstart + dc.len
      dcc := env.unlocked rb w.unlocks w.dcc
      unlocks := w.unlocks + 1 }.begin

/-- One iteration of the loop. -/
def RangeWalk.turn («end» : Nat) (w : RangeWalk) : Turn RangeWalk RangeEnd :=
  match w.cur with
  | none => .done (.ok w false)
  | some id =>
    match w.dcc.get id with
    | none => .done (.freed id)
    | some dc =>
      if «end» < dc.lstart then .done (.ok w false)
      else if dc.len < dpolicy.granularity then w.skip env id
      else if dc.state ≠ .prep then { w with dcc := w.dcc.listMoveTail id .fstrim }.skip env id
      else
        let w := w.submit rb env dpolicy dc
        if dpolicy.maxRequests ≤ w.issued then w.restart rb env id else w.skip env id

/-- `__issue_discard_cmd_range` from its start. -/
def issueDiscardCmdRange (dcc : DiscardCmdControl) (start : Nat) : RangeWalk :=
  RangeWalk.begin { dcc := dcc, cur := none, start := start }

/-! ## What is to hold -/

/-- A pending command of the range that is long enough. -/
structure PendingIn (start «end» : Nat) (c : DiscardCmd) : Prop where
  prep : c.state = .prep
  long : dpolicy.granularity ≤ c.len
  reaches : start < c.stop
  begins : c.lstart ≤ «end»

/-- The walk reads no freed command and, unless a fatal signal stopped it, submits every
    pending command of the range the other threads leave alone. -/
def RangeIssued (dcc : DiscardCmdControl) (start «end» : Nat) (out : RangeEnd) : Prop :=
  ∃ w signalled, out = .ok w signalled ∧ DiscardInv devStart w.dcc ∧
    (signalled = false → ∀ c ∈ dcc.cmds, PendingIn dpolicy start «end» c → env.Stays rb c →
      c.id ∈ w.visited)

/-- The walk is about to submit a command that the block layer refuses. -/
def RangeWalk.Refused («end» : Nat) (w : RangeWalk) : Prop :=
  ∃ id dc, w.cur = some id ∧ w.dcc.get id = some dc ∧ dc.lstart ≤ «end» ∧
    dpolicy.granularity ≤ dc.len ∧ dc.state = .prep ∧ (env.issue w.submits).error ≠ 0

/-! ## Submitting one command -/

section Submit

variable {rb} {dcc : DiscardCmdControl} {A B : List DiscardCmd} {dc : DiscardCmd}

/-- What `submitDiscardCmd` leaves of the commands in order. -/
theorem submitDiscardCmd_cmds (h : Books dcc) (hc : dcc.cmds = A ++ dc :: B)
    (hprep : dc.state = .prep) (fstrim : Bool) (res : IssueResult) :
    (submitDiscardCmd rb dcc dc fstrim res).cmds =
      if res.error = 0 then A ++ { dc with state := .submit, error := res.error } :: B
      else A ++ B := by
  have hat := h.at_cmds hc
  have hcmds₁ := hat.map_eq fun c => { c with error := res.error }
  have hat₁ : (dcc.modify dc.id fun c => { c with error := res.error }).At A
      { dc with error := res.error } B := ⟨hcmds₁, hat.before, hat.after⟩
  unfold submitDiscardCmd
  rw [if_neg (not_not.mpr hprep)]
  by_cases herr : res.error = 0
  · rw [if_pos herr, if_pos herr]
    have hcmds₂ := hat₁.map_eq fun c => { c with state := .submit }
    by_cases hbio : res.bio = true
    · rw [if_pos hbio]
      exact hcmds₂
    · rw [if_neg hbio]
      exact hcmds₂
  · rw [if_neg herr, if_neg herr]
    exact hat₁.erase_eq rb

/-- A command that is not pending may go to another list. -/
theorem DiscardInv.listMoveTail (h : DiscardInv devStart dcc) (hc : dcc.cmds = A ++ dc :: B)
    (hstate : dc.state ≠ .prep) (l : DiscardList) :
    DiscardInv devStart (dcc.listMoveTail dc.id l) := by
  refine ⟨h.tree, ?_⟩
  refine h.books.replace hc dc rfl hc (fun l' i hi => ?_) (fun hp => absurd hp hstate)
    h.books.blks rfl rfl
  rw [DiscardCmdControl.mem_listMoveTail]
  simp [hi]

theorem get_none_of_removed (h : Books dcc) (hc : dcc.cmds = A ++ dc :: B)
    {dcc' : DiscardCmdControl} (hc' : dcc'.cmds = A ++ B) : dcc'.get dc.id = none := by
  have hat := h.at_cmds hc
  unfold DiscardCmdControl.get
  rw [List.find?_eq_none, hc']
  intro c hm
  rw [decide_eq_true_eq]
  rcases List.mem_append.mp hm with hA | hB
  · exact hat.before c hA
  · exact hat.after c hB

end Submit

/-! ## The walk through the commands -/

section Walk

variable {rb env dpolicy} {«end» : Nat}

/-- How the walk goes on from a place where the commands `need` are still to be submitted. -/
structure GoesOn (rb : Rebalance DiscardCmd) (env : Surroundings devStart)
    (dpolicy : DiscardPolicy) («end» : Nat) (visited : List Nat) (need : DiscardCmd → Prop)
    (l : List RangeWalk) (out : RangeEnd) : Prop where
  ended : (∃ s ∈ l, s.Refused env dpolicy «end») ∧ (∃ id, out = .freed id) ∨
    (∀ s ∈ l, ¬ s.Refused env dpolicy «end») ∧ ∃ w signalled, out = .ok w signalled ∧
      DiscardInv devStart w.dcc ∧ visited ⊆ w.visited ∧
      (signalled = false → ∀ c, need c → env.Stays rb c → c.id ∈ w.visited)

/-- One iteration before the rest of the walk. -/
theorem GoesOn.cons {visited visited' : List Nat} {need need' : DiscardCmd → Prop}
    {l : List RangeWalk} {out : RangeEnd} (h : GoesOn rb env dpolicy «end» visited' need' l out)
    {w : RangeWalk} (hw : ¬ w.Refused env dpolicy «end») (hvisited : visited ⊆ visited')
    (hneed : ∀ c, need c → env.Stays rb c → c.id ∈ visited' ∨ need' c) :
    GoesOn rb env dpolicy «end» visited need (w :: l) out := by
  apply GoesOn.mk
  rcases h.ended with ⟨⟨s, hs, href⟩, hout⟩ | ⟨hall, w', sig, hout, hinv, hsub, hvis⟩
  · exact Or.inl ⟨⟨s, List.mem_cons_of_mem _ hs, href⟩, hout⟩
  · refine Or.inr ⟨fun s hs => ?_, w', sig, hout, hinv, fun i hi => hsub (hvisited hi),
      fun hsig c hc hst => ?_⟩
    · rcases List.mem_cons.mp hs with rfl | hs
      · exact hw
      · exact hall s hs
    · rcases hneed c hc hst with hdone | hlater
      · exact hsub hdone
      · exact hvis hsig c hlater hst

/-- The loop ends here. -/
theorem GoesOn.stop {need : DiscardCmd → Prop} {w w' : RangeWalk} {signalled : Bool}
    (hinv : DiscardInv devStart w'.dcc) (hw : ¬ w.Refused env dpolicy «end»)
    (hneed : signalled = false → ∀ c, need c → c.id ∈ w'.visited) :
    GoesOn rb env dpolicy «end» w'.visited need [w] (.ok w' signalled) :=
  ⟨Or.inr ⟨fun s hs => by rw [List.mem_singleton.mp hs]; exact hw, w', signalled, rfl, hinv,
    fun _ => id, fun hsig c hc _ => hneed hsig c hc⟩⟩

/-- Not refused: the command at hand is not submitted, or is taken. -/
theorem not_refused {w : RangeWalk} {dc : DiscardCmd} (hcur : w.cur = some dc.id)
    (hget : w.dcc.get dc.id = some dc)
    (h : dc.lstart ≤ «end» → dpolicy.granularity ≤ dc.len → dc.state = .prep →
      (env.issue w.submits).error = 0) : ¬ w.Refused env dpolicy «end» := by
  intro href
  obtain ⟨id, dc', hcur', hget', hle, hlong, hprep, herr⟩ := href
  obtain rfl : dc.id = id := Option.some.inj (hcur.symm.trans hcur')
  obtain rfl : dc = dc' := Option.some.inj (hget.symm.trans hget')
  exact herr (h hle hlong hprep)

/-- The commands still to be submitted when those of `B` are ahead. -/
def Ahead (dpolicy : DiscardPolicy) («end» : Nat) (B : List DiscardCmd) (c : DiscardCmd) : Prop :=
  c ∈ B ∧ c.state = .prep ∧ dpolicy.granularity ≤ c.len ∧ c.lstart ≤ «end»

/-- From the label `next`, where the commands that reach behind `start` are ahead. -/
def RoundOk (rb : Rebalance DiscardCmd) (env : Surroundings devStart) (dpolicy : DiscardPolicy)
    («end» : Nat) (w : RangeWalk) : Prop :=
  ∃ l out, Trail (RangeWalk.turn rb env dpolicy «end») w.begin l out ∧
    GoesOn rb env dpolicy «end» w.visited
      (fun c => Ahead dpolicy «end» w.dcc.cmds c ∧ w.start < c.stop) l out

/-- The end of an iteration that leaves the command in the tree. -/
theorem skip_goesOn {A B : List DiscardCmd} {dc dc' : DiscardCmd} {w w₀ : RangeWalk}
    (hc : w.dcc.cmds = A ++ dc' :: B) (hid : dc'.id = dc.id) (hinv : DiscardInv devStart w.dcc)
    (hturn : w₀.turn rb env dpolicy «end» = w.skip env dc.id)
    (hw₀ : ¬ w₀.Refused env dpolicy «end») (hvisited : w₀.visited ⊆ w.visited)
    (hdone : Ahead dpolicy «end» [dc] dc → dc.id ∈ w.visited)
    (ih : ∀ w' : RangeWalk, w'.dcc = w.dcc → w'.cur = B.head?.map DiscardCmd.id →
      w'.start = w.start → w'.visited = w.visited →
      ∃ l out, Trail (RangeWalk.turn rb env dpolicy «end») w' l out ∧
        GoesOn rb env dpolicy «end» w'.visited (Ahead dpolicy «end» B) l out) :
    ∃ l out, Trail (RangeWalk.turn rb env dpolicy «end») w₀ l out ∧
      GoesOn rb env dpolicy «end» w₀.visited (Ahead dpolicy «end» (dc :: B)) l out := by
  have hat := hinv.books.at_cmds hc
  have hnext : w.dcc.rbNext dc'.id = B.head? := hat.rbNext_eq
  have hget : w.dcc.get dc.id = some dc' := hid ▸ hat.get_eq
  unfold RangeWalk.skip at hturn
  simp only [hget, hnext] at hturn
  set w' : RangeWalk :=
    { w with cur := B.head?.map DiscardCmd.id, checks := w.checks + 1 } with hw'
  by_cases hsig : env.signal w.checks = true
  · rw [if_pos hsig] at hturn
    have hstop : GoesOn rb env dpolicy «end» w'.visited (Ahead dpolicy «end» (dc :: B)) [w₀]
        (.ok w' true) := GoesOn.stop hinv hw₀ (fun h => absurd h (by decide))
    apply Exists.intro [w₀]
    apply Exists.intro (RangeEnd.ok w' true)
    refine ⟨.done hturn, ⟨?_⟩⟩
    rcases hstop.ended with hbad | ⟨hall, v, s, hout, hv, hsub, hvis⟩
    · exact Or.inl hbad
    · exact Or.inr ⟨hall, v, s, hout, hv, fun i hi => hsub (hvisited hi), hvis⟩
  · rw [if_neg hsig] at hturn
    obtain ⟨l, out, htrail, hgo⟩ := ih w' rfl rfl rfl rfl
    refine ⟨w₀ :: l, out, .next hturn htrail, hgo.cons hw₀ hvisited fun c hneed _ => ?_⟩
    obtain ⟨hmem, hrest⟩ := hneed
    rcases List.mem_cons.mp hmem with rfl | hB
    · exact Or.inl (hdone ⟨List.mem_singleton_self _, hrest⟩)
    · exact Or.inr ⟨hB, hrest⟩

/-- The walk through the commands `B`, the induction being on them.  It starts over behind a
    command of `B` at most. -/
theorem walk_goesOn (B : List DiscardCmd) : ∀ (A : List DiscardCmd) (w : RangeWalk),
    DiscardInv devStart w.dcc → w.dcc.cmds = A ++ B → w.cur = B.head?.map DiscardCmd.id →
    (∀ b ∈ B, w.start < b.stop) →
    (∀ w' : RangeWalk, DiscardInv devStart w'.dcc → w.start < w'.start → w'.start < 2 ^ 32 →
      RoundOk rb env dpolicy «end» w') →
    ∃ l out, Trail (RangeWalk.turn rb env dpolicy «end») w l out ∧
      GoesOn rb env dpolicy «end» w.visited (Ahead dpolicy «end» B) l out := by
  induction B with
  | nil =>
      intro A w hinv hc hcur _ _
      have hturn : w.turn rb env dpolicy «end» = .done (.ok w false) := by
        unfold RangeWalk.turn
        rw [hcur]
        rfl
      refine ⟨[w], _, .done hturn, GoesOn.stop hinv ?_ fun _ c hc => absurd hc.1 List.not_mem_nil⟩
      intro href
      obtain ⟨id, -, hcur', -⟩ := href
      rw [hcur] at hcur'
      cases hcur'
  | cons dc B ih =>
      intro A w hinv hc hcur hreach hround
      have hat := hinv.books.at_cmds hc
      have hget : w.dcc.get dc.id = some dc := hat.get_eq
      have hcur' : w.cur = some dc.id := hcur
      have hassoc : ∀ d : DiscardCmd, A ++ d :: B = A ++ [d] ++ B := fun d => by simp
      have htree : InTree devStart (A ++ dc :: B) := hc ▸ hinv.tree
      have hturn : w.turn rb env dpolicy «end» =
          if «end» < dc.lstart then .done (.ok w false)
          else if dc.len < dpolicy.granularity then w.skip env dc.id
          else if dc.state ≠ .prep then
            { w with dcc := w.dcc.listMoveTail dc.id .fstrim }.skip env dc.id
          else if dpolicy.maxRequests ≤ (w.submit rb env dpolicy dc).issued then
            (w.submit rb env dpolicy dc).restart rb env dc.id
          else (w.submit rb env dpolicy dc).skip env dc.id := by
        unfold RangeWalk.turn
        rw [hcur']
        simp only [hget]
      by_cases hend : «end» < dc.lstart
      · -- everything ahead begins behind the range
        rw [if_pos hend] at hturn
        refine ⟨[w], _, .done hturn, GoesOn.stop hinv ?_ fun _ c hneed => ?_⟩
        · exact not_refused hcur' hget fun hle => absurd hle (by omega)
        · have hle : dc.lstart ≤ c.lstart := by
            rcases List.mem_cons.mp hneed.1 with rfl | hB
            · exact le_rfl
            · have hbehind : dc.lstart + dc.len ≤ c.lstart := htree.le_start c hB
              omega
          have := hneed.2.2.2
          omega
      rw [if_neg hend] at hturn
      by_cases hshort : dc.len < dpolicy.granularity
      · rw [if_pos hshort] at hturn
        refine skip_goesOn hc rfl hinv hturn ?_ (fun _ => id)
          (fun h => ?_) fun w' hd hcur₁ hs hv => ?_
        · exact not_refused hcur' hget fun _ hlong => absurd hshort (by omega)
        · exact absurd h.2.2.1 (by omega)
        · exact ih (A ++ [dc]) w' (hd ▸ hinv) (by rw [hd, hc, hassoc]) hcur₁
            (fun b hb => hs ▸ hreach b (List.mem_cons_of_mem _ hb)) (hs ▸ hround)
      rw [if_neg hshort] at hturn
      by_cases hprep : dc.state ≠ .prep
      · rw [if_pos hprep] at hturn
        refine skip_goesOn (w := { w with dcc := w.dcc.listMoveTail dc.id .fstrim }) hc rfl
          (hinv.listMoveTail hc hprep .fstrim) hturn ?_ (fun _ => id) (fun h => ?_)
          fun w' hd hcur₁ hs hv => ?_
        · exact not_refused hcur' hget fun _ _ hp => absurd hp hprep
        · exact absurd h.2.1 hprep
        · exact ih (A ++ [dc]) w' (hd ▸ hinv.listMoveTail hc hprep .fstrim)
            (by rw [hd]; exact hc.trans (hassoc dc)) hcur₁
            (fun b hb => hs ▸ hreach b (List.mem_cons_of_mem _ hb)) (hs ▸ hround)
      rw [if_neg hprep] at hturn
      have hp : dc.state = .prep := not_not.mp hprep
      have hcmds : (submitDiscardCmd rb w.dcc dc dpolicy.fstrim (env.issue w.submits)).cmds = _ :=
        submitDiscardCmd_cmds hinv.books hc hp dpolicy.fstrim (env.issue w.submits)
      have hinv' : DiscardInv devStart (w.submit rb env dpolicy dc).dcc :=
        submitDiscardCmd_inv hinv hc dpolicy.fstrim (env.issue w.submits)
      by_cases herr : (env.issue w.submits).error = 0
      case neg =>
        -- the command is gone, and both ways on read it
        rw [if_neg herr] at hcmds
        have hgone : (w.submit rb env dpolicy dc).dcc.get dc.id = none :=
          get_none_of_removed hinv.books hc hcmds
        have hfreed : w.turn rb env dpolicy «end» = .done (.freed dc.id) := by
          rw [hturn]
          unfold RangeWalk.restart RangeWalk.skip
          rw [hgone]
          exact ite_self _
        refine ⟨[w], _, .done hfreed, ⟨Or.inl ⟨⟨w, List.mem_singleton_self w, ?_⟩, dc.id, rfl⟩⟩⟩
        exact ⟨dc.id, dc, hcur', hget, by omega, by omega, hp, herr⟩
      case pos =>
        rw [if_pos herr] at hcmds
        have hnot : ¬ w.Refused env dpolicy «end» := not_refused hcur' hget fun _ _ _ => herr
        by_cases hmax : dpolicy.maxRequests ≤ (w.submit rb env dpolicy dc).issued
        · rw [if_pos hmax] at hturn
          have hget' : (w.submit rb env dpolicy dc).dcc.get dc.id =
              some { dc with state := .submit, error := (env.issue w.submits).error } :=
            (hinv'.books.at_cmds hcmds).get_eq
          unfold RangeWalk.restart at hturn
          rw [hget'] at hturn
          set w' : RangeWalk := { w.submit rb env dpolicy dc with
            start := dc.lstart + dc.len
            dcc := env.unlocked rb w.unlocks (w.submit rb env dpolicy dc).dcc
            unlocks := w.unlocks + 1 } with hw'
          have hturn' : w.turn rb env dpolicy «end» = .next w'.begin := hturn
          obtain ⟨l, out, htrail, hgo⟩ := hround w' (env.unlocked_inv rb hinv' w.unlocks)
            (hreach dc List.mem_cons_self) htree.valid_mid.stop_lt
          refine ⟨w :: l, out, .next hturn' htrail,
            hgo.cons hnot (List.subset_cons_self dc.id w.visited) fun c hneed hst => ?_⟩
          rcases List.mem_cons.mp hneed.1 with rfl | hB
          · exact Or.inl List.mem_cons_self
          · -- the command begins behind the new start
            have hmem : c ∈ (w.submit rb env dpolicy dc).dcc.cmds := by
              show c ∈ (submitDiscardCmd rb w.dcc dc dpolicy.fstrim (env.issue w.submits)).cmds
              rw [hcmds]
              exact List.mem_append_right _ (List.mem_cons_of_mem _ hB)
            have hbehind := htree.le_start c hB
            have hpos := (htree.valid c (by simp [hB])).len_pos
            exact Or.inr ⟨⟨hst w.unlocks _ hinv' hmem, hneed.2⟩,
              (show dc.stop < c.stop by unfold DiscardCmd.stop at hbehind ⊢; omega)⟩
        · rw [if_neg hmax] at hturn
          refine skip_goesOn (w := w.submit rb env dpolicy dc) hcmds rfl hinv' hturn hnot
            (List.subset_cons_self dc.id w.visited) (fun _ => List.mem_cons_self)
            fun w' hd hcur₁ hs hv => ?_
          exact ih (A ++ [_]) w' (hd ▸ hinv') (by rw [hd]; exact hcmds.trans (hassoc _)) hcur₁
            (fun b hb => hs ▸ hreach b (List.mem_cons_of_mem _ hb)) (hs ▸ hround)

/-- The search at the label `next` finds where the commands behind `start` begin. -/
theorem begin_ok {w : RangeWalk} (hinv : DiscardInv devStart w.dcc)
    (hround : ∀ w' : RangeWalk, DiscardInv devStart w'.dcc → w.start < w'.start →
      w'.start < 2 ^ 32 → RoundOk rb env dpolicy «end» w') :
    RoundOk rb env dpolicy «end» w := by
  have hpos : ∀ y ∈ w.dcc.root.toList, 0 < y.len := fun y hy => (hinv.tree.valid y hy).len_pos
  have hsplit : ∃ A B, w.dcc.cmds = A ++ B ∧ w.begin.cur = B.head?.map DiscardCmd.id ∧
      (∀ a ∈ A, a.stop ≤ w.start) ∧ ∀ b ∈ B, w.start < b.stop := by
    rcases lookup_spec hinv.tree.ordered hpos w.start with
      ⟨A, dc, B, hc, hle, hlt, hlook⟩ | ⟨A, B, hc, hbetween, hlook⟩
    · have htree : InTree devStart (A ++ dc :: B) := hc ▸ hinv.tree
      refine ⟨A, dc :: B, hc, ?_, fun a ha => (htree.stop_le a ha).trans hle, fun b hb => ?_⟩
      · unfold RangeWalk.begin
        rw [hlook]
        rfl
      · rcases List.mem_cons.mp hb with rfl | hB
        · exact hlt
        · have hbehind := htree.le_start b hB
          exact (hlt.trans_le hbehind).trans_le (Nat.le_add_right _ _)
    · refine ⟨A, B, hc, ?_, hbetween.1, fun b hb => ?_⟩
      · unfold RangeWalk.begin
        rw [hlook]
        rfl
      · exact (hbetween.2 b hb).trans_le (Nat.le_add_right _ _)
  obtain ⟨A, B, hc, hcur, hA, hB⟩ := hsplit
  obtain ⟨l, out, htrail, hgo⟩ := walk_goesOn B A w.begin hinv hc hcur hB hround
  refine ⟨l, out, htrail, ⟨?_⟩⟩
  rcases hgo.ended with hbad | ⟨hall, v, sig, hout, hv, hsub, hvis⟩
  · exact Or.inl hbad
  · refine Or.inr ⟨hall, v, sig, hout, hv, hsub, fun hsig c hneed => ?_⟩
    obtain ⟨⟨hmem, hrest⟩, hreach⟩ := hneed
    apply hvis hsig c
    rw [hc] at hmem
    rcases List.mem_append.mp hmem with hcA | hcB
    · exact absurd hreach (not_lt.mpr (hA c hcA))
    · exact ⟨hcB, hrest⟩

/-- Each round begins further on, and below `2^32`. -/
theorem round_ok (k : Nat) : ∀ w : RangeWalk, DiscardInv devStart w.dcc →
    2 ^ 32 - w.start ≤ k → RoundOk rb env dpolicy «end» w := by
  induction k with
  | zero =>
      intro w hinv hk
      exact begin_ok hinv fun w' _ hlt hbound => by omega
  | succ k ih =>
      intro w hinv hk
      exact begin_ok hinv fun w' hinv' hlt hbound => ih w' hinv' (by omega)

end Walk

/-- `__issue_discard_cmd_range` ends, and what is asked of it holds exactly if no command
    it submits is refused. -/
theorem issueRange_trail {dcc : DiscardCmdControl} (h : DiscardInv devStart dcc)
    (start «end» : Nat) :
    ∃ l out, Trail (RangeWalk.turn rb env dpolicy «end») (issueDiscardCmdRange dcc start) l out ∧
      (RangeIssued rb env dpolicy dcc start «end» out ↔
        ∀ w ∈ l, ¬ w.Refused env dpolicy «end») := by
  have hround : RoundOk rb env dpolicy «end» { dcc := dcc, cur := none, start := start } :=
    round_ok (2 ^ 32) _ h (Nat.sub_le _ _)
  obtain ⟨l, out, htrail, hgo⟩ := hround
  refine ⟨l, out, htrail, ?_⟩
  rcases hgo.ended with ⟨⟨s, hs, href⟩, id, hout⟩ | ⟨hall, w, sig, hout, hinv, -, hvis⟩
  · refine ⟨fun hok => ?_, fun hall => absurd href (hall s hs)⟩
    obtain ⟨w, sig, hok, -⟩ := hok
    rw [hout] at hok
    cases hok
  · refine ⟨fun _ => hall, fun _ => ⟨w, sig, hout, hinv, fun hsig c hm hp hst => ?_⟩⟩
    exact hvis hsig c ⟨⟨hm, hp.prep, hp.long, hp.begins⟩, hp.reaches⟩ hst

end F2fs.Segment.Discard

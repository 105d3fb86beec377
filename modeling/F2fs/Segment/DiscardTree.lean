/-
  The discard command tree (`segment.c`): its commands are disjoint and in order, adding a
  range covers exactly that range besides, and punching a block out uncovers that block.

  The loop of `__update_discard_tree_range` is followed command by command.  Filling a gap
  always puts one command in the place of at most two neighbours of the gap and the gap
  itself (`InTree.replace`), whichever way it is merged; `fillGap_spec` says what that
  leaves, and `updateLoop_spec` is the induction over the commands behind the range's start.
-/
import F2fs.Segment.DiscardBooks

namespace F2fs.Segment.Discard

open IntervalTree

/-! ## Disjoint commands in order -/

/-- The first block behind a command. -/
abbrev DiscardCmd.stop (dc : DiscardCmd) : Nat := dc.lstart + dc.len

variable (devStart : Nat → Nat)

/-- A command has blocks, and they lie on its device as far from the device's start as
    their logical addresses say. -/
structure Valid (dc : DiscardCmd) : Prop where
  len_pos : 0 < dc.len
  stop_lt : dc.stop < 2 ^ 32
  start_eq : dc.start + devStart dc.bdev = dc.lstart

/-- What the list of commands of a tree looks like. -/
structure InTree (l : List DiscardCmd) : Prop where
  ordered : Ordered DiscardCmd.lstart DiscardCmd.len l
  valid : ∀ dc ∈ l, Valid devStart dc

/-- The blocks the commands cover. -/
def cover (l : List DiscardCmd) : Set Nat := {x | ∃ dc ∈ l, dc.lstart ≤ x ∧ x < dc.stop}

variable {devStart}

@[simp] theorem mem_cover_append {A B : List DiscardCmd} {x : Nat} :
    x ∈ cover (A ++ B) ↔ x ∈ cover A ∨ x ∈ cover B := by
  simp only [cover, Set.mem_ofPred_eq, List.mem_append, or_and_right, exists_or]

@[simp] theorem mem_cover_cons {dc : DiscardCmd} {B : List DiscardCmd} {x : Nat} :
    x ∈ cover (dc :: B) ↔ dc.lstart ≤ x ∧ x < dc.stop ∨ x ∈ cover B := by
  simp [cover]

@[simp] theorem not_mem_cover_nil {x : Nat} : x ∉ cover [] := by
  simp [cover]

namespace InTree

variable {A B M : List DiscardCmd} {dc : DiscardCmd}

theorem nil : InTree devStart [] :=
  ⟨List.Pairwise.nil, fun _ h => absurd h List.not_mem_nil⟩

/-- One command in the place of several. -/
theorem replace (h : InTree devStart (A ++ (M ++ B))) (hv : Valid devStart dc)
    (hA : ∀ a ∈ A, a.stop ≤ dc.lstart) (hB : ∀ b ∈ B, dc.stop ≤ b.lstart) :
    InTree devStart (A ++ dc :: B) := by
  obtain ⟨hoA, hoMB, hAMB⟩ := Ordered.append.mp h.ordered
  obtain ⟨-, hoB, -⟩ := Ordered.append.mp hoMB
  refine ⟨Ordered.append.mpr ⟨hoA, Ordered.cons.mpr ⟨hB, hoB⟩, ?_⟩, ?_⟩
  · intro a ha b hb
    rcases List.mem_cons.mp hb with rfl | hb
    · exact hA a ha
    · exact hAMB a ha b (List.mem_append_right _ hb)
  · intro c hc
    rcases List.mem_append.mp hc with hc | hc
    · exact h.valid c (List.mem_append_left _ hc)
    · rcases List.mem_cons.mp hc with rfl | hc
      · exact hv
      · exact h.valid c (by simp [hc])

theorem drop (h : InTree devStart (A ++ dc :: B)) : InTree devStart (A ++ B) := by
  have hsub : (A ++ B).Sublist (A ++ dc :: B) :=
    List.Sublist.append_left (List.sublist_cons_self _ _) _
  exact ⟨h.ordered.sublist hsub, fun c hc => h.valid c (hsub.subset hc)⟩

theorem stop_le (h : InTree devStart (A ++ dc :: B)) : ∀ a ∈ A, a.stop ≤ dc.lstart :=
  fun a ha => (Ordered.append.mp h.ordered).2.2 a ha dc List.mem_cons_self

theorem le_start (h : InTree devStart (A ++ dc :: B)) : ∀ b ∈ B, dc.stop ≤ b.lstart :=
  fun b hb => (Ordered.cons.mp (Ordered.append.mp h.ordered).2.1).1 b hb

theorem valid_mid (h : InTree devStart (A ++ dc :: B)) : Valid devStart dc :=
  h.valid dc (by simp)

end InTree

/-- The invariant of the tree and its books. -/
structure DiscardInv (devStart : Nat → Nat) (dcc : DiscardCmdControl) : Prop where
  tree : InTree devStart dcc.cmds
  books : Books dcc

/-! ## Filling one gap -/

section Gap

variable {rb : Rebalance DiscardCmd} {dcc : DiscardCmdControl} {A B : List DiscardCmd}
  {dc prev next : DiscardCmd} {di : DiscardInfo}

theorem Books.blks_grow (h : Books dcc) (hc : dcc.cmds = A ++ dc :: B) {di' : DiscardInfo} {k : Nat}
    (hlen : di'.len = dc.len + k) :
    u32 (dcc.undiscardBlks + k) = u32 (blocks (A ++ { dc with di := di' } :: B)) := by
  have hlen' : ({ dc with di := di' } : DiscardCmd).len = dc.len + k := hlen
  rw [h.blks, u32_u32_add, hc]
  simp only [blocks_append, blocks_cons, hlen']
  congr 1
  omega

variable (di) in
theorem mergeBack_spec (h : Books dcc) (hc : dcc.cmds = A ++ prev :: B) :
    (mergeBack dcc prev di).2 = { prev.di with len := prev.len + di.len } ∧
      (mergeBack dcc prev di).1.cmds =
        A ++ { prev with di := { prev.di with len := prev.len + di.len } } :: B ∧
      Books (mergeBack dcc prev di).1 := by
  have hcmds : (mergeBack dcc prev di).1.cmds =
      A ++ { prev with di := { prev.di with len := prev.len + di.len } } :: B :=
    (h.at_cmds hc).map_eq fun c => { c with di := { prev.di with len := prev.len + di.len } }
  refine ⟨rfl, hcmds, h.resize hc hcmds rfl ?_ rfl rfl⟩
  rw [hcmds]
  exact h.blks_grow hc rfl

variable (rb) in
theorem removeDiscardCmd_spec (h : Books dcc) (hc : dcc.cmds = A ++ dc :: B) :
    (removeDiscardCmd rb dcc dc).cmds = A ++ B ∧ Books (removeDiscardCmd rb dcc dc) := by
  have hcmds : (removeDiscardCmd rb dcc dc).cmds = A ++ B := (h.at_cmds hc).erase_eq rb
  exact ⟨hcmds, h.remove hc hcmds rfl rfl rfl rfl⟩

/-- `next_dc` after it took `di` in. -/
abbrev extended (next : DiscardCmd) (di : DiscardInfo) : DiscardCmd :=
  { next with di := ⟨di.lstart, next.len + di.len, di.start⟩ }

variable (rb di) in
theorem mergeFront_none_spec (h : Books dcc) (hc : dcc.cmds = A ++ next :: B) :
    (mergeFront rb dcc next di none).cmds = A ++ extended next di :: B ∧
      Books (mergeFront rb dcc next di none) := by
  have hcmds : (mergeFront rb dcc next di none).cmds = A ++ extended next di :: B :=
    (h.at_cmds hc).map_eq fun c => { c with di := ⟨di.lstart, next.len + di.len, di.start⟩ }
  refine ⟨hcmds, h.resize hc hcmds rfl ?_ rfl rfl⟩
  rw [hcmds]
  exact h.blks_grow hc rfl

variable (rb di) in
/-- The command `di` came from goes. -/
theorem mergeFront_some_spec (h : Books dcc) (hc : dcc.cmds = A ++ prev :: next :: B) :
    (mergeFront rb dcc next di (some prev)).cmds = A ++ extended next di :: B ∧
      Books (mergeFront rb dcc next di (some prev)) := by
  have hc' : dcc.cmds = (A ++ [prev]) ++ next :: B := by rw [hc, List.append_cons]
  obtain ⟨hcmds, hbooks⟩ := mergeFront_none_spec rb di h hc'
  rw [← List.append_cons] at hcmds
  exact removeDiscardCmd_spec rb hbooks hcmds

variable (rb) in
theorem insertDiscardTree_spec (h : Books dcc) (ht : InTree devStart dcc.cmds)
    (hfree : ∀ dc ∈ dcc.cmds, ¬ (dc.lstart ≤ di.lstart ∧ di.lstart < dc.stop)) (bdev : Nat) :
    ∃ dcc' A B, insertDiscardTree rb dcc bdev di = some dcc' ∧ dcc.cmds = A ++ B ∧
      Between DiscardCmd.lstart DiscardCmd.len di.lstart A B ∧
      dcc'.cmds = A ++ ⟨dcc.nextId, bdev, di, .prep, 0⟩ :: B ∧ Books dcc' := by
  obtain ⟨root, hroot⟩ := link_isSome (x := di.lstart) ⟨dcc.nextId, bdev, di, .prep, 0⟩ dcc.root
    hfree
  obtain ⟨A, B, hold, hbetween, hnew⟩ := toList_link dcc.root ht.ordered hroot
  have hcmds : (rb.insertColor root).toList = A ++ ⟨dcc.nextId, bdev, di, .prep, 0⟩ :: B :=
    (rb.toList_insertColor root).trans hnew
  refine ⟨{ (createDiscardCmd dcc bdev di).1 with root := rb.insertColor root }, A, B, ?_, hold,
    hbetween, hcmds, h.insert hold rfl hcmds rfl rfl rfl rfl⟩
  unfold insertDiscardTree createDiscardCmd
  exact Option.map_eq_some_iff.mpr ⟨root, hroot, rfl⟩

theorem backTarget_some {bdev : Nat} {p : Option DiscardCmd}
    (h : backTarget bdev di p = some prev) :
    p = some prev ∧ prev.bdev = bdev ∧ prev.lstart + prev.len = di.lstart := by
  cases p with
  | none => cases h
  | some q =>
      rw [backTarget] at h
      split_ifs at h with hcond
      cases h
      obtain ⟨hmerge, hadj⟩ := hcond
      simp only [canMerge, isDiscardBackMergeable, isDiscardMergeable, Bool.and_eq_true,
        decide_eq_true_eq] at hmerge hadj
      exact ⟨rfl, hmerge.2, hadj⟩

theorem frontTarget_some {bdev : Nat} {n : Option DiscardCmd}
    (h : frontTarget bdev di n = some next) :
    n = some next ∧ next.bdev = bdev ∧ di.lstart + di.len = next.lstart := by
  cases n with
  | none => cases h
  | some q =>
      rw [frontTarget] at h
      split_ifs at h with hcond
      cases h
      obtain ⟨hmerge, hadj⟩ := hcond
      simp only [canMerge, isDiscardFrontMergeable, isDiscardMergeable, Bool.and_eq_true,
        decide_eq_true_eq] at hmerge hadj
      exact ⟨rfl, hmerge.2, hadj⟩

/-- One command in the place of the commands `M` and the blocks from `lo` to `hi`. -/
theorem mem_cover_replace {M : List DiscardCmd} {lo hi : Nat}
    (h : ∀ x, dc.lstart ≤ x ∧ x < dc.lstart + dc.len ↔ x ∈ cover M ∨ lo ≤ x ∧ x < hi) (x : Nat) :
    x ∈ cover (A ++ dc :: B) ↔ x ∈ cover (A ++ (M ++ B)) ∨ lo ≤ x ∧ x < hi := by
  have := h x
  simp only [mem_cover_append, mem_cover_cons]
  tauto

/-- What is left of `next_dc` when the gap before it is filled. -/
structure SameStop (n n' : Option DiscardCmd) : Prop where
  id : n'.map DiscardCmd.id = n.map DiscardCmd.id
  stop : n'.map DiscardCmd.stop = n.map DiscardCmd.stop

theorem SameStop.refl (n : Option DiscardCmd) : SameStop n n := ⟨rfl, rfl⟩

/-- The outcome of filling the gap `di`: `X` is what lies in front of `next_dc` then. -/
structure Filled (devStart : Nat → Nat) (dcc : DiscardCmdControl) (n : Option DiscardCmd)
    (B : List DiscardCmd) (di : DiscardInfo) (dcc' : DiscardCmdControl) (X : List DiscardCmd)
    (n' : Option DiscardCmd) : Prop where
  inv : DiscardInv devStart dcc'
  cmds : dcc'.cmds = X ++ (n'.toList ++ B)
  next : SameStop n n'
  cover : ∀ x, x ∈ cover dcc'.cmds ↔
    x ∈ cover dcc.cmds ∨ di.lstart ≤ x ∧ x < di.lstart + di.len

/-- `di` lies between the commands in `L` and those in `R`, and on `bdev`. -/
structure Gap (devStart : Nat → Nat) (bdev : Nat) (di : DiscardInfo)
    (L R : List DiscardCmd) : Prop where
  below : ∀ a ∈ L, a.stop ≤ di.lstart
  above : ∀ b ∈ R, di.lstart + di.len ≤ b.lstart
  start : di.start + devStart bdev = di.lstart
  stop : di.lstart + di.len < 2 ^ 32

variable {bdev : Nat}

theorem fillGap_both (h : DiscardInv devStart dcc) (hc : dcc.cmds = A ++ prev :: next :: B)
    (hlen : di.len ≠ 0) (hback : backTarget bdev di (some prev) = some prev)
    (hfront : frontTarget bdev { prev.di with len := prev.len + di.len } (some next) =
      some next) :
    ∃ dcc' X n', fillGap rb dcc bdev (some prev) (some next) di = some dcc' ∧
      Filled devStart dcc (some next) B di dcc' X n' := by
  obtain ⟨-, hbp, hadjp⟩ := backTarget_some hback
  obtain ⟨-, hbn, hadjn⟩ := frontTarget_some hfront
  replace hadjn : prev.lstart + (prev.len + di.len) = next.lstart := hadjn
  obtain ⟨hdi, hcmds₁, hbooks₁⟩ := mergeBack_spec di h.books hc
  obtain ⟨hcmds₂, hbooks₂⟩ := mergeFront_some_spec rb
    { prev.di with len := prev.len + di.len } hbooks₁ hcmds₁
  have ht : InTree devStart (A ++ ([prev, next] ++ B)) := by
    have := h.tree
    rwa [hc] at this
  have ht' : InTree devStart ((A ++ [prev]) ++ next :: B) := by simpa using ht
  have hp := ht.valid prev (by simp)
  have hn := ht.valid next (by simp)
  have hstop : prev.lstart + (next.len + (prev.len + di.len)) = next.lstart + next.len := by
    omega
  refine ⟨_, A, some (extended next { prev.di with len := prev.len + di.len }), ?_,
    ⟨?_, hbooks₂⟩, hcmds₂, ⟨rfl, congrArg some hstop⟩, ?_⟩
  · unfold fillGap
    rw [if_neg hlen, hback]
    dsimp only
    rw [hdi, hfront]
  · rw [hcmds₂]
    refine ht.replace ⟨?_, ?_, ?_⟩ ht.stop_le fun b hb => hstop.le.trans (ht'.le_start b hb)
    · exact Nat.add_pos_left hn.len_pos _
    · exact hstop.le.trans_lt hn.stop_lt
    · have hstart := hp.start_eq
      rw [hbp] at hstart
      rwa [hbn]
  · rw [hcmds₂, hc]
    refine mem_cover_replace (M := [prev, next]) fun x => ?_
    show prev.lstart ≤ x ∧ x < prev.lstart + (next.len + (prev.len + di.len)) ↔ _
    simp only [mem_cover_cons, not_mem_cover_nil, or_false, DiscardCmd.stop]
    omega

theorem fillGap_back (h : DiscardInv devStart dcc) {n : Option DiscardCmd}
    (hc : dcc.cmds = A ++ prev :: (n.toList ++ B)) (hlen : di.len ≠ 0)
    (hgap : Gap devStart bdev di (A ++ [prev]) (n.toList ++ B))
    (hback : backTarget bdev di (some prev) = some prev)
    (hfront : frontTarget bdev { prev.di with len := prev.len + di.len } n = none) :
    ∃ dcc' X n', fillGap rb dcc bdev (some prev) n di = some dcc' ∧
      Filled devStart dcc n B di dcc' X n' := by
  obtain ⟨-, hbp, hadjp⟩ := backTarget_some hback
  obtain ⟨hdi, hcmds, hbooks⟩ := mergeBack_spec di h.books hc
  have ht : InTree devStart (A ++ ([prev] ++ (n.toList ++ B))) := by
    have := h.tree
    rwa [hc] at this
  have hp := ht.valid prev (by simp)
  have hstop : prev.lstart + (prev.len + di.len) = di.lstart + di.len := by omega
  refine ⟨_, A ++ [{ prev with di := { prev.di with len := prev.len + di.len } }], n, ?_,
    ⟨?_, hbooks⟩, by rw [hcmds, List.append_cons], SameStop.refl n, ?_⟩
  · unfold fillGap
    rw [if_neg hlen, hback]
    dsimp only
    rw [hdi, hfront]
  · rw [hcmds]
    refine ht.replace ⟨?_, ?_, hp.start_eq⟩ ht.stop_le fun b hb => hstop.le.trans (hgap.above b hb)
    · exact Nat.add_pos_left hp.len_pos _
    · exact hstop.le.trans_lt hgap.stop
  · rw [hcmds, hc]
    refine mem_cover_replace (M := [prev]) fun x => ?_
    show prev.lstart ≤ x ∧ x < prev.lstart + (prev.len + di.len) ↔ _
    simp only [mem_cover_cons, not_mem_cover_nil, or_false, DiscardCmd.stop]
    omega

theorem fillGap_front (h : DiscardInv devStart dcc) {p : Option DiscardCmd}
    (hc : dcc.cmds = (A ++ p.toList) ++ next :: B) (hlen : di.len ≠ 0)
    (hgap : Gap devStart bdev di (A ++ p.toList) (next :: B))
    (hback : backTarget bdev di p = none)
    (hfront : frontTarget bdev di (some next) = some next) :
    ∃ dcc' X n', fillGap rb dcc bdev p (some next) di = some dcc' ∧
      Filled devStart dcc (some next) B di dcc' X n' := by
  obtain ⟨-, hbn, hadjn⟩ := frontTarget_some hfront
  obtain ⟨hcmds, hbooks⟩ := mergeFront_none_spec rb di h.books hc
  have ht : InTree devStart ((A ++ p.toList) ++ ([next] ++ B)) := by
    have := h.tree
    rwa [hc] at this
  have hn := ht.valid next (by simp)
  have hstop : di.lstart + (next.len + di.len) = next.lstart + next.len := by omega
  refine ⟨_, A ++ p.toList, some (extended next di), ?_, ⟨?_, hbooks⟩, hcmds,
    ⟨rfl, congrArg some hstop⟩, ?_⟩
  · unfold fillGap
    rw [if_neg hlen, hback]
    dsimp only
    rw [hfront]
  · rw [hcmds]
    refine ht.replace ⟨?_, ?_, ?_⟩ hgap.below fun b hb => hstop.le.trans (ht.le_start b hb)
    · exact Nat.add_pos_left hn.len_pos _
    · exact hstop.le.trans_lt hn.stop_lt
    · rw [hbn]
      exact hgap.start
  · rw [hcmds, hc]
    refine mem_cover_replace (M := [next]) fun x => ?_
    show di.lstart ≤ x ∧ x < di.lstart + (next.len + di.len) ↔ _
    simp only [mem_cover_cons, not_mem_cover_nil, or_false, DiscardCmd.stop]
    have := hn.len_pos
    omega

variable (rb) in
/-- A new command goes into its gap. -/
theorem Gap.insert (hgap : Gap devStart bdev di A B) (h : DiscardInv devStart dcc)
    (hc : dcc.cmds = A ++ B) (hlen : di.len ≠ 0) :
    ∃ dcc', insertDiscardTree rb dcc bdev di = some dcc' ∧ DiscardInv devStart dcc' ∧
      dcc'.cmds = A ++ ⟨dcc.nextId, bdev, di, .prep, 0⟩ :: B := by
  have hlt : ∀ b ∈ B, di.lstart < b.lstart := fun b hb => by
    have := hgap.above b hb
    omega
  have hfree : ∀ dc ∈ dcc.cmds, ¬ (dc.lstart ≤ di.lstart ∧ di.lstart < dc.stop) := by
    intro dc hdc
    rw [hc] at hdc
    rcases List.mem_append.mp hdc with hdc | hdc
    · have := hgap.below dc hdc
      omega
    · have := hlt dc hdc
      omega
  obtain ⟨dcc', A', B', hins, hold, hbetween, hcmds, hbooks⟩ :=
    insertDiscardTree_spec rb h.books h.tree hfree bdev
  obtain ⟨rfl, rfl⟩ := hbetween.unique ⟨hgap.below, hlt⟩ (hold.symm.trans hc)
  have ht : InTree devStart (A' ++ ([] ++ B')) := by
    have := h.tree
    rwa [hc] at this
  refine ⟨dcc', hins, ⟨?_, hbooks⟩, hcmds⟩
  rw [hcmds]
  exact ht.replace ⟨Nat.pos_of_ne_zero hlen, hgap.stop, hgap.start⟩ hgap.below hgap.above

theorem fillGap_insert (h : DiscardInv devStart dcc) {p n : Option DiscardCmd}
    (hc : dcc.cmds = (A ++ p.toList) ++ (n.toList ++ B)) (hlen : di.len ≠ 0)
    (hgap : Gap devStart bdev di (A ++ p.toList) (n.toList ++ B))
    (hback : backTarget bdev di p = none) (hfront : frontTarget bdev di n = none) :
    ∃ dcc' X n', fillGap rb dcc bdev p n di = some dcc' ∧
      Filled devStart dcc n B di dcc' X n' := by
  obtain ⟨dcc', hins, hinv, hcmds⟩ := hgap.insert rb h hc hlen
  refine ⟨dcc', (A ++ p.toList) ++ [⟨dcc.nextId, bdev, di, .prep, 0⟩], n, ?_, hinv, ?_,
    SameStop.refl n, ?_⟩
  · unfold fillGap
    rw [if_neg hlen, hback]
    dsimp only
    rw [hfront]
    exact hins
  · rw [hcmds, List.append_cons]
  · rw [hcmds, hc]
    refine mem_cover_replace (M := []) fun x => ?_
    simp only [not_mem_cover_nil, false_or]

variable (rb) in
/-- The body of the loop fills the gap and leaves the commands behind `next_dc` alone. -/
theorem fillGap_spec (h : DiscardInv devStart dcc) {p n : Option DiscardCmd}
    (hc : dcc.cmds = A ++ (p.toList ++ (n.toList ++ B)))
    (hgap : Gap devStart bdev di (A ++ p.toList) (n.toList ++ B)) :
    ∃ dcc' X n', fillGap rb dcc bdev p n di = some dcc' ∧
      Filled devStart dcc n B di dcc' X n' := by
  by_cases hlen : di.len = 0
  · refine ⟨dcc, A ++ p.toList, n, ?_, h, by rw [hc, List.append_assoc], SameStop.refl n, ?_⟩
    · unfold fillGap
      rw [if_pos hlen]
    · intro x
      rw [hlen]
      exact ⟨Or.inl, fun hx => hx.resolve_right (by omega)⟩
  · cases hback : backTarget bdev di p with
    | some prev =>
        obtain ⟨rfl, -⟩ := backTarget_some hback
        cases hfront : frontTarget bdev { prev.di with len := prev.len + di.len } n with
        | some next =>
            obtain ⟨rfl, -⟩ := frontTarget_some hfront
            exact fillGap_both h hc hlen hback hfront
        | none => exact fillGap_back h hc hlen hgap hback hfront
    | none =>
        rw [← List.append_assoc] at hc
        cases hfront : frontTarget bdev di n with
        | some next =>
            obtain ⟨rfl, -⟩ := frontTarget_some hfront
            exact fillGap_front h hc hlen hgap hback hfront
        | none => exact fillGap_insert h hc hlen hgap hback hfront

end Gap

/-! ## The loop -/

section Update

variable {rb : Rebalance DiscardCmd} {r : DiscardRange}

/-- The blocks of a range that `__queue_discard_cmd` hands over. -/
structure RangeOk (devStart : Nat → Nat) (r : DiscardRange) : Prop where
  start : r.start + devStart r.bdev = r.lstart
  stop : r.lstart + r.len < 2 ^ 32

theorem gapAfter_none {prev : DiscardCmd} {n : Option DiscardCmd} (h : gapAfter r prev n = none) :
    r.lstart + r.len ≤ max (prev.lstart + prev.len) r.lstart := by
  simp only [gapAfter] at h
  split_ifs at h with hend
  exact hend

theorem gapAfter_some {prev : DiscardCmd} {n : Option DiscardCmd} {di : DiscardInfo}
    (h : gapAfter r prev n = some di) :
    di.lstart = max (prev.lstart + prev.len) r.lstart ∧ di.lstart < r.lstart + r.len ∧
      di.start = r.start + di.lstart - r.lstart ∧
      di.len = gapLen r di.lstart n := by
  simp only [gapAfter] at h
  split_ifs at h with hend
  rw [← Option.some.inj h]
  exact ⟨rfl, not_le.mp hend, rfl, rfl⟩

/-- The gap behind `prev` is one between the commands up to it and those after it. -/
theorem gapAfter_spec (hr : RangeOk devStart r) {A R : List DiscardCmd} {prev : DiscardCmd}
    (ht : InTree devStart (A ++ prev :: R)) (hR : ∀ b ∈ R, r.lstart < b.lstart)
    {di : DiscardInfo} (hdi : gapAfter r prev R.head? = some di) :
    Gap devStart r.bdev di (A ++ [prev]) R ∧ di.lstart = max (prev.lstart + prev.len) r.lstart ∧
      di.lstart + di.len ≤ r.lstart + r.len ∧
      ∀ x, di.lstart + di.len ≤ x → x < r.lstart + r.len → ∃ n ∈ R.head?, n.lstart ≤ x := by
  have hstart := hr.start
  have hstop := hr.stop
  obtain ⟨hls, hlt, hst, hlen⟩ := gapAfter_some hdi
  have hbelow : ∀ a ∈ A ++ [prev], a.stop ≤ di.lstart := by
    intro a ha
    rcases List.mem_append.mp ha with ha | ha
    · have := ht.stop_le a ha
      omega
    · rw [List.mem_singleton.mp ha, hls]
      exact le_max_left _ _
  cases R with
  | nil =>
      replace hlen : di.len = r.lstart + r.len - di.lstart := hlen
      refine ⟨⟨hbelow, fun b hb => absurd hb List.not_mem_nil, by omega, by omega⟩, hls,
        by omega, fun x _ _ => by omega⟩
  | cons next B =>
      replace hlen : di.len = if r.lstart + r.len < next.lstart then r.lstart + r.len - di.lstart
        else next.lstart - di.lstart := hlen
      have hnext : di.lstart ≤ next.lstart :=
        hls.le.trans (max_le (ht.le_start next (by simp)) (hR next (by simp)).le)
      have habove : ∀ b ∈ next :: B, next.lstart ≤ b.lstart := by
        intro b hb
        rcases List.mem_cons.mp hb with rfl | hb
        · exact le_rfl
        · have ht' : InTree devStart ((A ++ [prev]) ++ next :: B) := by simpa using ht
          exact (Nat.le_add_right _ _).trans (ht'.le_start b hb)
      have hmin : di.lstart + di.len = min (r.lstart + r.len) next.lstart := by
        rw [hlen]
        split_ifs <;> omega
      refine ⟨⟨hbelow, fun b hb => ?_, by omega, by omega⟩, hls, by omega, fun x hx hxlt => ?_⟩
      · have := habove b hb
        omega
      · exact ⟨next, rfl, by omega⟩

/-- What the loop does from `prev` on, with the commands `R` behind it. -/
def LoopOk (devStart : Nat → Nat) (rb : Rebalance DiscardCmd) (r : DiscardRange) (fuel : Nat) :
    Prop :=
  ∀ {dcc : DiscardCmdControl} {A R : List DiscardCmd} {prev : DiscardCmd},
    DiscardInv devStart dcc → dcc.cmds = A ++ prev :: R → R.length < fuel →
    (∀ b ∈ R, r.lstart < b.lstart) →
    (∀ x, r.lstart ≤ x → x < r.lstart + r.len → x < prev.stop → x ∈ cover dcc.cmds) →
    ∃ dcc', updateLoop rb r fuel dcc prev.id (R.head?.map DiscardCmd.id) = some dcc' ∧
      DiscardInv devStart dcc' ∧ ∀ x, x ∈ cover dcc'.cmds ↔
        x ∈ cover dcc.cmds ∨ r.lstart ≤ x ∧ x < r.lstart + r.len

/-- After the gap before `next` was filled the loop goes on at `next`. -/
theorem LoopOk.resume {fuel : Nat} (ih : LoopOk devStart rb r fuel)
    {dcc dcc₁ : DiscardCmdControl} {next : DiscardCmd} {B X : List DiscardCmd}
    {n' : Option DiscardCmd} {di : DiscardInfo}
    (hfilled : Filled devStart dcc (some next) B di dcc₁ X n') (hfuel : B.length < fuel)
    (hB : ∀ b ∈ B, r.lstart < b.lstart)
    (hdi : r.lstart ≤ di.lstart ∧ di.lstart + di.len ≤ r.lstart + r.len)
    (hdone : ∀ x, r.lstart ≤ x → x < r.lstart + r.len → x < next.stop → x ∈ cover dcc₁.cmds) :
    ∃ dcc', updateLoop rb r fuel dcc₁ next.id ((dcc₁.rbNext next.id).map DiscardCmd.id) =
        some dcc' ∧ DiscardInv devStart dcc' ∧ ∀ x, x ∈ cover dcc'.cmds ↔
          x ∈ cover dcc.cmds ∨ r.lstart ≤ x ∧ x < r.lstart + r.len := by
  obtain ⟨hid, hstop⟩ := hfilled.next
  obtain ⟨next', rfl, hid'⟩ := Option.map_eq_some_iff.mp hid
  have hstop' : next'.stop = next.stop := Option.some.inj hstop
  have hc₁ : dcc₁.cmds = X ++ next' :: B := hfilled.cmds
  have hrb : dcc₁.rbNext next.id = B.head? := by
    rw [← hid']
    exact (hfilled.inv.books.at_cmds hc₁).rbNext_eq
  obtain ⟨dcc₂, hloop, hinv₂, hcov₂⟩ := ih hfilled.inv hc₁ hfuel hB fun x hx hlt hx' =>
    hdone x hx hlt (hstop' ▸ hx')
  rw [hid', ← hrb] at hloop
  refine ⟨dcc₂, hloop, hinv₂, fun x => (hcov₂ x).trans ?_⟩
  rw [hfilled.cover]
  constructor
  · rintro ((hx | hx) | hx)
    · exact Or.inl hx
    · exact Or.inr ⟨by omega, by omega⟩
    · exact Or.inr hx
  · rintro (hx | hx)
    · exact Or.inl (Or.inl hx)
    · exact Or.inr hx

theorem updateLoop_spec (hr : RangeOk devStart r) (fuel : Nat) :
    LoopOk devStart rb r fuel := by
  induction fuel with
  | zero => intro dcc A R prev _ _ hfuel; exact absurd hfuel (Nat.not_lt_zero _)
  | succ fuel ih =>
      intro dcc A R prev h hc hfuel hR hdone
      have ht : InTree devStart (A ++ prev :: R) := hc ▸ h.tree
      have hget : dcc.get prev.id = some prev := (h.books.at_cmds hc).get_eq
      have hnext : (R.head?.map DiscardCmd.id).bind dcc.get = R.head? := by
        cases R with
        | nil => rfl
        | cons next B =>
            exact (h.books.at_cmds (hc.trans (List.append_cons A prev (next :: B)))).get_eq
      unfold updateLoop
      simp only [hget, hnext, Option.bind_eq_bind, Option.bind_some]
      cases hdi : gapAfter r prev R.head? with
      | none =>
          -- the range ends before `prev` does
          refine ⟨dcc, rfl, h, fun x => ⟨Or.inl, ?_⟩⟩
          rintro (hx | hx)
          · exact hx
          · have hend := gapAfter_none hdi
            refine hdone x hx.1 hx.2 ?_
            show x < prev.lstart + prev.len
            omega
      | some di =>
          obtain ⟨hgap, hls, hle, hrest⟩ := gapAfter_spec hr ht hR hdi
          have hsplit : R = R.head?.toList ++ R.tail := by cases R <;> rfl
          have hc' : dcc.cmds = A ++ ((some prev).toList ++ (R.head?.toList ++ R.tail)) := by
            rw [← hsplit, hc]
            rfl
          obtain ⟨dcc₁, X, n', hfill, hfilled⟩ := fillGap_spec rb h hc'
            (by rw [← hsplit]; exact hgap)
          have hcov := hfilled.cover
          -- everything up to the end of the command behind the gap is covered now
          have hcover : ∀ x, r.lstart ≤ x → x < r.lstart + r.len →
              (∀ n ∈ R.head?, x < n.stop) → x ∈ cover dcc₁.cmds := by
            intro x hx hlt hn
            rw [hcov]
            by_cases hp : x < prev.lstart + prev.len
            · exact Or.inl (hdone x hx hlt hp)
            · by_cases hd : x < di.lstart + di.len
              · exact Or.inr ⟨by omega, hd⟩
              · obtain ⟨n, hmem, hnx⟩ := hrest x (by omega) hlt
                refine Or.inl ⟨n, ?_, hnx, hn n hmem⟩
                rw [hc]
                exact List.mem_append_right _ (List.mem_cons_of_mem _ (List.mem_of_head? hmem))
          simp only [hfill, Option.bind_some]
          cases R with
          | nil =>
              refine ⟨dcc₁, rfl, hfilled.inv, fun x => ⟨fun hx => ?_, ?_⟩⟩
              · rcases (hcov x).mp hx with hx | hx
                · exact Or.inl hx
                · exact Or.inr ⟨by omega, by omega⟩
              · rintro (hx | hx)
                · exact (hcov x).mpr (Or.inl hx)
                · exact hcover x hx.1 hx.2 fun n hn => by cases hn
          | cons next B =>
              refine ih.resume hfilled ?_ (fun b hb => hR b (List.mem_cons_of_mem _ hb))
                ⟨by omega, hle⟩ fun x hx hlt hx' => hcover x hx hlt fun n hn => ?_
              · rw [List.length_cons] at hfuel
                exact Nat.lt_of_succ_lt_succ hfuel
              · rw [← Option.some.inj hn]
                exact hx'

/-- The gap in front of the first command is one, and reaches that command or the end of
    the range. -/
theorem firstGap_spec (hr : RangeOk devStart r) {R : List DiscardCmd} (ht : InTree devStart R)
    (hR : ∀ b ∈ R, r.lstart < b.lstart) :
    Gap devStart r.bdev (firstGap r R.head?) [] R ∧ (firstGap r R.head?).len ≤ r.len ∧
      ∀ x, r.lstart + (firstGap r R.head?).len ≤ x → x < r.lstart + r.len →
        ∃ n ∈ R.head?, n.lstart ≤ x := by
  have hstop := hr.stop
  have hle : (firstGap r R.head?).len ≤ r.len := min_le_right _ _
  cases R with
  | nil =>
      have hlen : (firstGap r ([] : List DiscardCmd).head?).len = r.len := min_self r.len
      rw [hlen]
      refine ⟨⟨fun a ha => absurd ha List.not_mem_nil, fun b hb => absurd hb List.not_mem_nil,
        hr.start, ?_⟩, le_rfl, fun x hx hlt => by omega⟩
      show r.lstart + (firstGap r ([] : List DiscardCmd).head?).len < 2 ^ 32
      omega
  | cons next B =>
      have hlt := hR next (by simp)
      have hlen : (firstGap r (next :: B).head?).len = min (next.lstart - r.lstart) r.len := rfl
      have hord : ∀ b ∈ next :: B, next.lstart ≤ b.lstart := by
        intro b hb
        rcases List.mem_cons.mp hb with rfl | hb
        · exact le_rfl
        · have ht' : InTree devStart ([] ++ next :: B) := ht
          exact (Nat.le_add_right _ _).trans (ht'.le_start b hb)
      refine ⟨⟨fun a ha => absurd ha List.not_mem_nil, fun b hb => ?_, hr.start, ?_⟩, hle,
        fun x hx hxlt => ⟨next, rfl, by omega⟩⟩
      · have := hord b hb
        show r.lstart + (firstGap r (next :: B).head?).len ≤ b.lstart
        omega
      · show r.lstart + (firstGap r (next :: B).head?).len < 2 ^ 32
        omega

variable (rb) in
/-- `__update_discard_tree_range` covers the range besides what was covered. -/
theorem updateDiscardTreeRange_spec (hr : RangeOk devStart r) {dcc : DiscardCmdControl}
    (h : DiscardInv devStart dcc) :
    ∃ dcc', updateDiscardTreeRange rb dcc r = some dcc' ∧ DiscardInv devStart dcc' ∧
      ∀ x, x ∈ cover dcc'.cmds ↔
        x ∈ cover dcc.cmds ∨ r.lstart ≤ x ∧ x < r.lstart + r.len := by
  have hpos : ∀ y ∈ dcc.root.toList, 0 < y.len := fun y hy => (h.tree.valid y hy).len_pos
  unfold updateDiscardTreeRange
  rcases lookup_spec h.tree.ordered hpos r.lstart with
    ⟨A, dc, R, hc, hle, hlt, hlook⟩ | ⟨A, R, hc, ⟨hA, hR⟩, hlook⟩
  · -- a command contains the first block of the range
    rw [hlook]
    have hlen : R.length < dcc.cmds.length + 1 := by
      show R.length < dcc.root.toList.length + 1
      rw [hc, List.length_append, List.length_cons]
      omega
    have ht : InTree devStart (A ++ dc :: R) := hc ▸ h.tree
    refine updateLoop_spec hr _ h hc hlen (fun b hb => ?_) fun x hx _ hstop => ?_
    · have := ht.le_start b hb
      have : dc.lstart + dc.len ≤ b.lstart := this
      omega
    · refine ⟨dc, ?_, by omega, hstop⟩
      show dc ∈ dcc.root.toList
      rw [hc]
      simp
  · rw [hlook]
    cases hlast : A.getLast? with
    | none =>
        -- no command at or before the range: the first iteration fills the gap in front
        rw [List.getLast?_eq_none_iff.mp hlast, List.nil_append] at hc
        have hsplit : R = R.head?.toList ++ R.tail := by cases R <;> rfl
        have ht : InTree devStart R := by
          have := h.tree
          rwa [show dcc.cmds = R from hc] at this
        obtain ⟨hgap, hle, hrest⟩ := firstGap_spec hr ht hR
        obtain ⟨dcc₁, X, n', hfill, hfilled⟩ := fillGap_spec rb (A := []) (p := none) h
          (by rw [← hsplit]; exact hc) (by rw [← hsplit]; exact hgap)
        have hcov := hfilled.cover
        have hcover : ∀ x, r.lstart ≤ x → x < r.lstart + r.len →
            (∀ n ∈ R.head?, x < n.stop) → x ∈ cover dcc₁.cmds := by
          intro x hx hlt hn
          rw [hcov]
          by_cases hd : x < r.lstart + (firstGap r R.head?).len
          · exact Or.inr ⟨hx, hd⟩
          · obtain ⟨n, hmem, hnx⟩ := hrest x (by omega) hlt
            refine Or.inl ⟨n, ?_, hnx, hn n hmem⟩
            rw [show dcc.cmds = R from hc]
            exact List.mem_of_head? hmem
        simp only [Option.none_or, hfill, Option.bind_eq_bind, Option.bind_some]
        cases R with
        | nil =>
            refine ⟨dcc₁, rfl, hfilled.inv, fun x => ⟨fun hx => ?_, ?_⟩⟩
            · rcases (hcov x).mp hx with hx | hx
              · exact Or.inl hx
              · exact Or.inr ⟨hx.1, hx.2.trans_le (Nat.add_le_add_left hle _)⟩
            · rintro (hx | hx)
              · exact (hcov x).mpr (Or.inl hx)
              · exact hcover x hx.1 hx.2 fun n hn => by cases hn
        | cons next B =>
            have hfuel : B.length < dcc.cmds.length + 1 := by
              rw [show dcc.cmds = next :: B from hc, List.length_cons]
              omega
            refine LoopOk.resume (updateLoop_spec hr _) hfilled hfuel
              (fun b hb => hR b (List.mem_cons_of_mem _ hb))
              ⟨le_rfl, Nat.add_le_add_left hle _⟩ fun x hx hlt hx' => hcover x hx hlt fun n hn => ?_
            rw [← Option.some.inj hn]
            exact hx'
    | some dc =>
        obtain ⟨A, rfl⟩ := List.getLast?_eq_some_iff.mp hlast
        have hc' : dcc.cmds = A ++ dc :: R := hc.trans (List.append_cons A dc R).symm
        have hlen : R.length < dcc.cmds.length + 1 := by
          rw [hc', List.length_append, List.length_cons]
          omega
        refine updateLoop_spec hr _ h hc' hlen hR fun x hx _ hstop => ?_
        have hle : dc.lstart + dc.len ≤ r.lstart := hA dc (by simp)
        have : x < dc.lstart + dc.len := hstop
        omega

end Update

/-! ## The other operations -/

section Others

variable {rb : Rebalance DiscardCmd} {dcc : DiscardCmdControl} {A B : List DiscardCmd}
  {dc : DiscardCmd}

theorem removeDiscardCmd_inv (h : DiscardInv devStart dcc) (hc : dcc.cmds = A ++ dc :: B) :
    DiscardInv devStart (removeDiscardCmd rb dcc dc) := by
  obtain ⟨hcmds, hbooks⟩ := removeDiscardCmd_spec rb h.books hc
  refine ⟨?_, hbooks⟩
  rw [hcmds]
  exact InTree.drop (hc ▸ h.tree)

/-- A change to the state of a command leaves the tree alone. -/
theorem DiscardInv.setState (h : DiscardInv devStart dcc) (hc : dcc.cmds = A ++ dc :: B)
    {dcc' : DiscardCmdControl} (state : DiscardState) (error : Int)
    (hcmds : dcc'.cmds = A ++ { dc with state := state, error := error } :: B)
    (hother : ∀ l i, i ≠ dc.id → (i ∈ dcc'.lists l ↔ i ∈ dcc.lists l))
    (hself : state = .prep → ∀ l, dc.id ∈ dcc'.lists l ↔ l = .pend (plistIdx dc.len))
    (hblks : dcc'.undiscardBlks = dcc.undiscardBlks)
    (hcnt : dcc'.discardCmdCnt = dcc.discardCmdCnt) (hnext : dcc'.nextId = dcc.nextId) :
    DiscardInv devStart dcc' := by
  have ht : InTree devStart (A ++ ([dc] ++ B)) := by
    have := h.tree
    rwa [hc] at this
  have hv := ht.valid dc (by simp)
  refine ⟨?_, h.books.replace hc { dc with state := state, error := error } rfl hcmds hother hself
    ?_ hcnt hnext⟩
  · rw [hcmds]
    exact ht.replace ⟨hv.len_pos, hv.stop_lt, hv.start_eq⟩ ht.stop_le ht.le_start
  · rw [hblks, h.books.blks, hcmds, hc]
    simp

theorem submitDiscardEndio_inv (h : DiscardInv devStart dcc) (hc : dcc.cmds = A ++ dc :: B)
    (error : Int) : DiscardInv devStart (submitDiscardEndio dcc dc error) := by
  have hcmds : (submitDiscardEndio dcc dc error).cmds =
      A ++ { dc with state := .done, error := error } :: B :=
    (h.books.at_cmds hc).map_eq fun c => { c with error := error, state := .done }
  exact h.setState hc .done error hcmds (fun _ _ _ => Iff.rfl) (fun hd => by cases hd) rfl rfl rfl

theorem submitDiscardCmd_inv (h : DiscardInv devStart dcc) (hc : dcc.cmds = A ++ dc :: B)
    (fstrim : Bool) (res : IssueResult) :
    DiscardInv devStart (submitDiscardCmd rb dcc dc fstrim res) := by
  unfold submitDiscardCmd
  by_cases hstate : dc.state ≠ .prep
  · rw [if_pos hstate]
    exact h
  · rw [if_neg hstate]
    have hprep := not_not.mp hstate
    -- the result of `__blkdev_issue_discard` is noted first
    have hcmds₁ : (dcc.modify dc.id fun c => { c with error := res.error }).cmds =
        A ++ { dc with state := dc.state, error := res.error } :: B :=
      (h.books.at_cmds hc).map_eq fun c => { c with error := res.error }
    have h₁ : DiscardInv devStart (dcc.modify dc.id fun c => { c with error := res.error }) :=
      h.setState hc dc.state res.error hcmds₁ (fun _ _ _ => Iff.rfl)
        (fun hd => h.books.pend dc (by simp [hc]) hd) rfl rfl rfl
    dsimp only
    by_cases herr : res.error = 0
    · rw [if_pos herr]
      have hcmds₂ := (h₁.books.at_cmds hcmds₁).map_eq fun c => { c with state := .submit }
      by_cases hbio : res.bio = true
      · rw [if_pos hbio]
        refine h₁.setState hcmds₁ .submit res.error hcmds₂ (fun l i hi => ?_)
          (fun hd => by cases hd) rfl rfl rfl
        rw [DiscardCmdControl.mem_listMoveTail]
        simp only [ne_eq, hi, not_false_eq_true, true_and, false_and, or_false]
        exact Iff.rfl
      · rw [if_neg hbio]
        exact h₁.setState hcmds₁ .submit res.error hcmds₂ (fun _ _ _ => Iff.rfl)
          (fun hd => by cases hd) rfl rfl rfl
    · rw [if_neg herr]
      exact removeDiscardCmd_inv h₁ hcmds₁

/-- A command cut down to a part of its blocks. -/
theorem DiscardInv.shrink (h : DiscardInv devStart dcc) (hc : dcc.cmds = A ++ dc :: B)
    {dcc' : DiscardCmdControl} (di : DiscardInfo) (hpos : 0 < di.len)
    (hlo : dc.lstart ≤ di.lstart) (hhi : di.lstart + di.len ≤ dc.lstart + dc.len)
    (hstart : di.start + devStart dc.bdev = di.lstart)
    (hcmds : dcc'.cmds = A ++ { dc with di := di } :: B)
    (hlists : dcc'.lists = (dcc.listMoveTail dc.id (.pend (plistIdx di.len))).lists)
    (hblks : dcc'.undiscardBlks = u32 (u32Sub dcc.undiscardBlks dc.len + di.len))
    (hcnt : dcc'.discardCmdCnt = dcc.discardCmdCnt) (hnext : dcc'.nextId = dcc.nextId) :
    DiscardInv devStart dcc' := by
  have ht : InTree devStart (A ++ ([dc] ++ B)) := by
    have := h.tree
    rwa [hc] at this
  have hv := ht.valid dc (by simp)
  refine ⟨?_, h.books.resize hc hcmds hlists ?_ hcnt hnext⟩
  · rw [hcmds]
    refine ht.replace ⟨hpos, hhi.trans_lt hv.stop_lt, hstart⟩ (fun a ha => ?_) fun b hb => ?_
    · exact (ht.stop_le a ha).trans hlo
    · exact hhi.trans (ht.le_start b hb)
  · have hlen : ({ dc with di := di } : DiscardCmd).len = di.len := rfl
    rw [hblks, h.books.blks, hcmds, hc]
    simp only [blocks_append, blocks_cons, hlen]
    unfold u32Sub u32
    omega

theorem InTree.cover_before (h : InTree devStart (A ++ dc :: B)) {x : Nat} (hx : x ∈ cover A) :
    x < dc.lstart := by
  obtain ⟨a, ha, -, hlt⟩ := hx
  exact hlt.trans_le (h.stop_le a ha)

theorem InTree.cover_after (h : InTree devStart (A ++ dc :: B)) {x : Nat} (hx : x ∈ cover B) :
    dc.lstart + dc.len ≤ x := by
  obtain ⟨b, hb, hle, -⟩ := hx
  exact (h.le_start b hb).trans hle

/-- One block gone from the commands that stand for `dc`. -/
theorem InTree.mem_cover_punch (h : InTree devStart (A ++ dc :: B)) {M : List DiscardCmd}
    {blkaddr : Nat} (hle : dc.lstart ≤ blkaddr) (hlt : blkaddr < dc.lstart + dc.len)
    (hM : ∀ x, x ∈ cover M ↔ (dc.lstart ≤ x ∧ x < dc.lstart + dc.len) ∧ x ≠ blkaddr) (x : Nat) :
    x ∈ cover (A ++ (M ++ B)) ↔ x ∈ cover (A ++ dc :: B) ∧ x ≠ blkaddr := by
  simp only [mem_cover_append, mem_cover_cons, hM]
  constructor
  · rintro (hx | ⟨hx, hne⟩ | hx)
    · have := h.cover_before hx
      exact ⟨Or.inl hx, by omega⟩
    · exact ⟨Or.inr (Or.inl hx), hne⟩
    · have := h.cover_after hx
      exact ⟨Or.inr (Or.inr hx), by omega⟩
  · rintro ⟨hx | hx | hx, hne⟩
    · exact Or.inl hx
    · exact Or.inr (Or.inl ⟨hx, hne⟩)
    · exact Or.inr (Or.inr hx)

variable (rb) in
/-- `__punch_discard_cmd` on a block of the command. -/
theorem punchDiscardCmd_spec (h : DiscardInv devStart dcc) (hc : dcc.cmds = A ++ dc :: B)
    {blkaddr : Nat} (hle : dc.lstart ≤ blkaddr) (hlt : blkaddr < dc.lstart + dc.len) :
    ∃ dcc', punchDiscardCmd rb dcc dc blkaddr = some dcc' ∧ DiscardInv devStart dcc' ∧
      (dc.state = .prep → ∀ x, x ∈ cover dcc'.cmds ↔ x ∈ cover dcc.cmds ∧ x ≠ blkaddr) := by
  have ht : InTree devStart (A ++ dc :: B) := hc ▸ h.tree
  have hv := ht.valid_mid
  have hpos := hv.len_pos
  have hstart := hv.start_eq
  have hstop : dc.lstart + dc.len < 2 ^ 32 := hv.stop_lt
  have hat := h.books.at_cmds hc
  unfold punchDiscardCmd
  by_cases hrm : dc.state = .done ∨ dc.len = 1
  · rw [if_pos hrm]
    refine ⟨_, rfl, removeDiscardCmd_inv h hc, fun hprep x => ?_⟩
    obtain ⟨hcmds, -⟩ := removeDiscardCmd_spec rb h.books hc
    have hone : dc.len = 1 := hrm.resolve_left (by rw [hprep]; decide)
    rw [hcmds, hc]
    refine ht.mem_cover_punch (M := []) hle hlt (fun y => ?_) x
    simp only [not_mem_cover_nil, false_iff]
    omega
  · rw [if_neg hrm]
    have hlen : dc.len ≠ 1 := fun hone => hrm (Or.inr hone)
    dsimp only
    by_cases hmid : dc.lstart < blkaddr
    · -- the command keeps what is in front of the block
      rw [if_pos hmid]
      generalize hdcc₁ : relocateDiscardCmd _ _ _ = dcc₁
      have hcmds₁ : dcc₁.cmds =
          A ++ { dc with di := { dc.di with len := blkaddr - dc.lstart } } :: B := by
        rw [← hdcc₁]
        exact hat.map_eq fun c => { c with di := { c.di with len := blkaddr - dc.lstart } }
      have h₁ : DiscardInv devStart dcc₁ := by
        refine h.shrink hc { dc.di with len := blkaddr - dc.lstart } ?_ le_rfl ?_ hstart
          hcmds₁ ?_ ?_ ?_ ?_
        · show 0 < blkaddr - dc.lstart
          omega
        · show dc.lstart + (blkaddr - dc.lstart) ≤ dc.lstart + dc.len
          omega
        · rw [← hdcc₁]; rfl
        · rw [← hdcc₁]; rfl
        · rw [← hdcc₁]; rfl
        · rw [← hdcc₁]; rfl
      by_cases hright : blkaddr < dc.lstart + dc.len - 1
      · -- what is behind it becomes a new command
        rw [if_pos hright]
        have hsplit : dcc₁.cmds =
            (A ++ [{ dc with di := { dc.di with len := blkaddr - dc.lstart } }]) ++ B := by
          rw [hcmds₁, List.append_cons]
        have hgap : Gap devStart dc.bdev ⟨blkaddr + 1, dc.lstart + dc.len - 1 - blkaddr,
            dc.start + blkaddr + 1 - dc.lstart⟩
            (A ++ [{ dc with di := { dc.di with len := blkaddr - dc.lstart } }]) B := by
          refine ⟨fun a ha => ?_, fun b hb => ?_, ?_, ?_⟩
          · show a.stop ≤ blkaddr + 1
            rcases List.mem_append.mp ha with ha | ha
            · have := ht.stop_le a ha
              omega
            · rw [List.mem_singleton.mp ha]
              show dc.lstart + (blkaddr - dc.lstart) ≤ blkaddr + 1
              omega
          · have : dc.lstart + dc.len ≤ b.lstart := ht.le_start b hb
            show blkaddr + 1 + (dc.lstart + dc.len - 1 - blkaddr) ≤ b.lstart
            omega
          · show dc.start + blkaddr + 1 - dc.lstart + devStart dc.bdev = blkaddr + 1
            omega
          · show blkaddr + 1 + (dc.lstart + dc.len - 1 - blkaddr) < 2 ^ 32
            omega
        obtain ⟨dcc₂, hins, hinv, hcmds₂⟩ := hgap.insert rb h₁ hsplit
          (show dc.lstart + dc.len - 1 - blkaddr ≠ 0 by omega)
        refine ⟨dcc₂, hins, hinv, fun _ x => ?_⟩
        rw [hcmds₂, hc, List.append_assoc]
        refine ht.mem_cover_punch (M := [_, _]) hle hlt (fun y => ?_) x
        simp only [mem_cover_cons, not_mem_cover_nil, or_false]
        show dc.lstart ≤ y ∧ y < dc.lstart + (blkaddr - dc.lstart) ∨
          blkaddr + 1 ≤ y ∧ y < blkaddr + 1 + (dc.lstart + dc.len - 1 - blkaddr) ↔ _
        omega
      · rw [if_neg hright]
        refine ⟨_, rfl, h₁, fun _ x => ?_⟩
        rw [hcmds₁, hc]
        refine ht.mem_cover_punch (M := [_]) hle hlt (fun y => ?_) x
        simp only [mem_cover_cons, not_mem_cover_nil, or_false]
        show dc.lstart ≤ y ∧ y < dc.lstart + (blkaddr - dc.lstart) ↔ _
        omega
    · rw [if_neg hmid, if_pos (show blkaddr < dc.lstart + dc.len - 1 by omega)]
      have hcmds := hat.map_eq fun c =>
        { c with di := ⟨c.di.lstart + 1, c.di.len - 1, c.di.start + 1⟩ }
      refine ⟨_, rfl, h.shrink hc ⟨dc.lstart + 1, dc.len - 1, dc.start + 1⟩ ?_ ?_ ?_ ?_ hcmds
        rfl rfl rfl rfl, fun _ x => ?_⟩
      · show 0 < dc.len - 1
        omega
      · exact Nat.le_succ _
      · show dc.lstart + 1 + (dc.len - 1) ≤ dc.lstart + dc.len
        omega
      · show dc.start + 1 + devStart dc.bdev = dc.lstart + 1
        omega
      · show x ∈ cover (dcc.modify dc.id _).cmds ↔ _
        rw [hcmds, hc]
        refine ht.mem_cover_punch (M := [_]) hle hlt (fun y => ?_) x
        simp only [mem_cover_cons, not_mem_cover_nil, or_false]
        show dc.lstart + 1 ≤ y ∧ y < dc.lstart + 1 + (dc.len - 1) ↔ _
        omega

end Others

end F2fs.Segment.Discard

/-
  A truncation from block 0 on, with what it leaves if it fails.

  Here a function returns its error beside the state in which it stops.  A run that does
  not fail is that of `truncate_blocks` (`truncateAll_settle`).  One that fails has met a
  node of the tree that cannot be read (`truncateAll_error`); the NAT entry of such a node
  stays (`PartFreed`), so that the run has freed all of the tree exactly if it could read
  all of it (`truncateAll_freed_iff`).
-/
import F2fs.Truncate.Exact

namespace F2fs.Truncate

open F2fs.Node

/-! ## The functions -/

/-- The result without the state of a failure. -/
def settle {α : Type} : Option Errno × α → Except Errno α
  | (none, a) => .ok a
  | (some e, _) => .error e

/-- A loop that stops at the first failure. -/
def sweep {α : Type} (step : α → Nat → Option Errno × α) : α → List Nat → Option Errno × α
  | a, [] => (none, a)
  | a, i :: L =>
    match step a i with
    | (some e, a) => (some e, a)
    | (none, a) => sweep step a L

section

variable (layout : InodeLayout) (env : TruncEnv)

/-- `truncate_dnode`, which fails before it changes anything. -/
def stopDnode (s : Index) (nid : Nat) : Option Errno × (Index × Int) :=
  match truncateDnode layout env s nid with
  | .error e => (some e, (s, 0))
  | .ok r => (none, r)

/-- A round of the loop over direct nodes. -/
def stopChild (p : Nat) (s : Index) (i : Nat) : Option Errno × Index :=
  match truncateChild layout env p s i with
  | .error e => (some e, s)
  | .ok s => (none, s)

/-- A round of the loop over indirect nodes; `free` is `truncate_nodes` on a child. -/
def stopIndirectChild (free : Index → Nat → Int → Option Errno × (Index × Int)) (p : Nat)
    (acc : Index × Int) (i : Nat) : Option Errno × (Index × Int) :=
  let childNid := acc.1.word p i
  if childNid = 0 then (none, (acc.1, acc.2 + (nidsPerBlock + 1)))
  else
    match free acc.1 childNid acc.2 with
    | (none, (s, ret)) =>
      if ret = nidsPerBlock + 1 then (none, (setNid s p i 0, acc.2 + ret)) else (none, (s, acc.2))
    | (some .enoent, (s, _)) => (none, (s, acc.2))
    | (some e, (s, _)) => (some e, (s, acc.2))

/-- `truncate_nodes` behind its loop. -/
def stopFinish (nid ofs : Nat) :
    Option Errno × (Index × Int) → Option Errno × (Index × Int)
  | (some e, r) => (some e, r)
  | (none, r) => (none, finishNodes nid ofs r)

/-- `truncate_nodes` on an indirect node. -/
def stopIndirect (s : Index) (nid ofs : Nat) : Option Errno × (Index × Int) :=
  if nid = 0 then (none, (s, nidsPerBlock + 1))
  else
    match getNodePage env s nid with
    | .error e => (some e, (s, 0))
    | .ok _ =>
      let (err, s) := sweep (stopChild layout env nid) s (slotsFrom ofs)
      stopFinish nid ofs (err, (s, (nidsPerBlock - ofs : Nat)))

/-- `truncate_nodes` on the double indirect node. -/
def stopDouble (s : Index) (nid : Nat) (nofs : Int) (ofs : Nat) :
    Option Errno × (Index × Int) :=
  if nid = 0 then (none, (s, nidsPerBlock + 1))
  else
    match getNodePage env s nid with
    | .error e => (some e, (s, 0))
    | .ok _ =>
      stopFinish nid ofs
        (sweep (stopIndirectChild (fun s c _ => stopIndirect layout env s c 0) nid)
          (s, nofs + ofs * (nidsPerBlock + 1) + 1) (slotsFrom ofs))

/-- The call for the tree of `i_nid[k]`. -/
def stopTop (s : Index) (k ofs : Nat) (nofs : Int) : Option Errno × (Index × Int) :=
  match topLevel k with
  | 0 => stopDnode layout env s (s.iNid k)
  | 1 => stopIndirect layout env s (s.iNid k) ofs
  | _ => stopDouble layout env s (s.iNid k) nofs ofs

/-- `-ENOENT` is no failure. -/
def stopTolerate : Option Errno × (Index × Int) → Option Errno × (Index × Int)
  | (some .enoent, (s, _)) => (none, (s, -2))
  | r => r

/-- The loop of `truncate_inode_blocks` from `i_nid[k]` on, with `n` of its slots to go. -/
def stopRest : Nat → Index → Nat → Int → Option Errno × Index
  | 0, s, _, _ => (none, s)
  | n + 1, s, k, nofs =>
    match stopTolerate (stopTop layout env s k 0 nofs) with
    | (some e, (s, _)) => (some e, s)
    | (none, (s, err)) => stopRest n (clearTop s k 0) (k + 1) (nofs + err)

/-- `truncate_blocks` at 0, on an inode page that is held. -/
def truncateAll (s : Index) : Option Errno × Index :=
  stopRest layout env defNidsPerInode
    (truncateDataBlocksRange layout s .inode 0 layout.addrsPerInode) 0 1

end

/-! ## Without a failure -/

section

variable (layout : InodeLayout) (env : TruncEnv) {s : Index} {k nid ofs : Nat} {nofs : Int}
  {e : Errno}

theorem sweep_error {α : Type} {step : α → Nat → Option Errno × α} :
    ∀ {L : List Nat} {a : α}, (sweep step a L).1 = some e → ∃ a' i, (step a' i).1 = some e := by
  intro L
  induction L with
  | nil => exact fun h => nomatch h
  | cons i L ih =>
    intro a h
    rw [sweep] at h
    rcases hs : step a i with ⟨_ | e', a'⟩
    · rw [hs] at h
      exact ih h
    · rw [hs] at h
      exact ⟨a, i, by rw [hs]; exact h⟩

theorem settle_sweep {α : Type} {step : α → Nat → Option Errno × α}
    {step' : α → Nat → Except Errno α} (h : ∀ a i, settle (step a i) = step' a i) :
    ∀ (L : List Nat) (a : α), settle (sweep step a L) = L.foldlM step' a := by
  intro L
  induction L with
  | nil => exact fun _ => rfl
  | cons i L ih =>
    intro a
    rw [sweep, List.foldlM_cons, ← h]
    rcases step a i with ⟨_ | e', a'⟩
    · exact ih a'
    · rfl

theorem settle_stopDnode (s : Index) (nid : Nat) :
    settle (stopDnode layout env s nid) = truncateDnode layout env s nid := by
  unfold stopDnode
  cases truncateDnode layout env s nid <;> rfl

theorem settle_stopChild (p : Nat) (s : Index) (i : Nat) :
    settle (stopChild layout env p s i) = truncateChild layout env p s i := by
  unfold stopChild
  cases truncateChild layout env p s i <;> rfl

theorem settle_stopIndirect (s : Index) (nid ofs : Nat) (nofs : Int) :
    settle (stopIndirect layout env s nid ofs) = truncateNodes layout env 0 s nid nofs ofs := by
  unfold stopIndirect truncateNodes
  by_cases h0 : nid = 0
  · rw [if_pos h0, if_pos h0]
    rfl
  rw [if_neg h0, if_neg h0]
  cases getNodePage env s nid with
  | error e => rfl
  | ok u =>
    have hloop := settle_sweep (settle_stopChild layout env nid) (slotsFrom ofs) s
    simp only
    rw [← hloop]
    rcases sweep (stopChild layout env nid) s (slotsFrom ofs) with ⟨_ | e, s₁⟩ <;> rfl

variable {layout env} in
/-- Only the node itself can be missing. -/
theorem stopIndirect_enoent (h : (stopIndirect layout env s nid ofs).1 = some .enoent) :
    (stopIndirect layout env s nid ofs).2.1 = s := by
  unfold stopIndirect at h ⊢
  split at h
  · cases h
  rename_i h0
  rw [if_neg h0]
  split at h
  · rfl
  · simp only at h
    rcases hloop : sweep (stopChild layout env nid) s (slotsFrom ofs) with ⟨_ | e, s₁⟩
    · rw [hloop] at h
      cases h
    · rw [hloop] at h
      obtain rfl : e = .enoent := Option.some.inj h
      obtain ⟨a, i, hs⟩ := sweep_error (e := .enoent) (by rw [hloop])
      unfold stopChild at hs
      split at hs
      · rename_i hc
        cases hs
        obtain ⟨r, hr, -⟩ := truncateChild_error hc
        cases hr
      · cases hs

theorem settle_stopIndirectChild (p : Nat) (acc : Index × Int) (i : Nat) :
    settle (stopIndirectChild (fun s c _ => stopIndirect layout env s c 0) p acc i) =
      truncateIndirectChild (fun s c n => truncateNodes layout env 0 s c n 0) p acc i := by
  unfold stopIndirectChild truncateIndirectChild
  simp only
  by_cases h0 : acc.1.word p i = 0
  · rw [if_pos h0, if_pos h0]
    rfl
  rw [if_neg h0, if_neg h0, ← settle_stopIndirect layout env acc.1 (acc.1.word p i) 0 acc.2]
  rcases hfree : stopIndirect layout env acc.1 (acc.1.word p i) 0 with ⟨_ | e, s₁, ret⟩
  · by_cases hret : ret = nidsPerBlock + 1
    · simp only [settle, if_pos hret]
    · simp only [settle, if_neg hret]
  · cases e with
    | enoent =>
      have hstay := stopIndirect_enoent (by rw [hfree])
      rw [hfree] at hstay
      simp only at hstay
      rw [hstay]
      rfl
    | e2big => rfl
    | read r => rfl
    | bug => rfl

theorem settle_stopDouble (s : Index) (nid : Nat) (nofs : Int) (ofs : Nat) :
    settle (stopDouble layout env s nid nofs ofs) = truncateNodes layout env 1 s nid nofs ofs := by
  unfold stopDouble
  rw [truncateNodes]
  by_cases h0 : nid = 0
  · rw [if_pos h0, if_pos h0]
    rfl
  rw [if_neg h0, if_neg h0]
  cases getNodePage env s nid with
  | error e => rfl
  | ok u =>
    have hloop := settle_sweep (settle_stopIndirectChild layout env nid) (slotsFrom ofs)
      (s, nofs + ofs * (nidsPerBlock + 1) + 1)
    simp only
    rw [← hloop]
    rcases sweep _ (s, nofs + ofs * (nidsPerBlock + 1) + 1) (slotsFrom ofs) with ⟨_ | e, s₁⟩ <;> rfl

variable {layout env} in
theorem stopDouble_enoent (h : (stopDouble layout env s nid nofs ofs).1 = some .enoent) :
    (stopDouble layout env s nid nofs ofs).2.1 = s := by
  unfold stopDouble at h ⊢
  split at h
  · cases h
  rename_i h0
  rw [if_neg h0]
  split at h
  · rfl
  · rcases hloop : sweep (stopIndirectChild (fun s c _ => stopIndirect layout env s c 0) nid)
      (s, nofs + ofs * (nidsPerBlock + 1) + 1) (slotsFrom ofs) with ⟨_ | e, r⟩
    · rw [hloop] at h
      cases h
    · rw [hloop] at h
      obtain rfl : e = .enoent := Option.some.inj h
      obtain ⟨a, i, hs⟩ := sweep_error (e := .enoent) (by rw [hloop])
      unfold stopIndirectChild at hs
      simp only at hs
      split at hs
      · cases hs
      split at hs
      · split at hs <;> cases hs
      · cases hs
      · rename_i hne _
        cases hs
        exact absurd rfl hne

theorem settle_stopTop (s : Index) (k ofs : Nat) (nofs : Int) :
    settle (stopTop layout env s k ofs nofs) = freeTop layout env s k ofs nofs := by
  unfold stopTop
  rcases topLevel_cases k with hl | hl | hl
  · rw [freeTop_zero hl, hl]
    exact settle_stopDnode layout env s _
  · rw [freeTop_one hl, hl]
    exact settle_stopIndirect layout env s _ ofs nofs
  · rw [freeTop_two hl, hl]
    exact settle_stopDouble layout env s _ nofs ofs

variable {layout env} in
theorem stopTop_enoent (h : (stopTop layout env s k ofs nofs).1 = some .enoent) :
    (stopTop layout env s k ofs nofs).2.1 = s := by
  unfold stopTop at h ⊢
  rcases topLevel_cases k with hl | hl | hl
  · rw [hl] at h ⊢
    simp only at h ⊢
    unfold stopDnode at h ⊢
    split at h
    · rfl
    · cases h
  · rw [hl] at h ⊢
    exact stopIndirect_enoent h
  · rw [hl] at h ⊢
    exact stopDouble_enoent h

theorem settle_stopTolerate (s : Index) (k ofs : Nat) (nofs : Int) :
    settle (stopTolerate (stopTop layout env s k ofs nofs)) =
      tolerateEnoent s (freeTop layout env s k ofs nofs) := by
  rw [← settle_stopTop layout env]
  rcases htop : stopTop layout env s k ofs nofs with ⟨_ | e, s₁, err⟩
  · rfl
  · cases e with
    | enoent =>
      have hstay := stopTop_enoent (by rw [htop])
      rw [htop] at hstay
      simp only at hstay
      rw [hstay]
      rfl
    | e2big => rfl
    | read r => rfl
    | bug => rfl

theorem settle_stopRest {n : Nat} : ∀ {s : Index} {k : Nat} {nofs : Int},
    k < defNidsPerInode → k + (n + 1) = defNidsPerInode →
    settle (stopRest layout env (n + 1) s k nofs) =
      truncateRest layout env (n + 1) s (nodeDir1Block + k) 0 nofs := by
  induction n with
  | zero =>
    intro s k nofs hk hn
    rw [truncateRest_eq hk, stopRest, ← settle_stopTolerate layout env]
    rcases stopTolerate (stopTop layout env s k 0 nofs) with ⟨_ | e, s₁, err⟩
    · simp only [settle]
      rw [if_pos (by unfold defNidsPerInode at hn; omega)]
      rfl
    · rfl
  | succ n ih =>
    intro s k nofs hk hn
    rw [truncateRest_eq hk, stopRest, ← settle_stopTolerate layout env]
    rcases stopTolerate (stopTop layout env s k 0 nofs) with ⟨_ | e, s₁, err⟩
    · simp only [settle]
      rw [if_neg (by unfold defNidsPerInode at hn; omega)]
      exact ih (by omega) (by omega)
    · rfl

theorem getNodePath_firstDnode (api : Nat) : getNodePath api api =
    some ⟨1, [nodeDir1Block, int32 0], [0, 1]⟩ := by
  rw [getNodePath, if_neg (Int.lt_irrefl _), Int.sub_self]
  exact if_pos (by decide)

/-- A run that does not fail is `truncate_blocks` at 0. -/
theorem truncateAll_settle (hlayout : 0 < layout.addrsPerInode) (hinode : env.inodePage = none)
    (hagain : env.inodePageAgain = none) (s : Index) :
    settle (truncateAll layout env s) = truncateBlocks layout env s 0 := by
  have hfree : freeFrom 0 = 0 := rfl
  have hlong : toLong layout.addrsPerInode = layout.addrsPerInode :=
    toLong_block (Nat.lt_add_of_pos_right (by decide))
  rw [truncateBlocks, truncateTree, hfree, if_neg (by decide), hinode]
  simp only
  rw [getDnodeOfData_inode hlayout, truncateFound]
  simp only [addrsPerPage, or_true, if_true, Nat.sub_zero, Nat.zero_add]
  rw [truncateInodeBlocks, hlong, getNodePath_firstDnode, truncatePath, hagain]
  simp only
  rw [if_pos (Nat.le_refl 1)]
  have hrest : settle (truncateAll layout env s) = truncateRest layout env 5
      (truncateDataBlocksRange layout s .inode 0 layout.addrsPerInode) nodeDir1Block 0 1 :=
    settle_stopRest layout env (by decide) (by decide)
  have htop : offsetOf ⟨1, [nodeDir1Block, int32 0], [0, 1]⟩ 0 = nodeDir1Block := rfl
  have hslot : offsetOf ⟨1, [nodeDir1Block, int32 0], [0, 1]⟩ 1 = 0 := rfl
  rw [htop, hslot, hrest]
  simp only [List.getD_cons_succ, List.getD_cons_zero, Nat.cast_one]
  generalize truncateRest layout env 5 _ nodeDir1Block 0 1 = r
  cases r with
  | error e => rfl
  | ok s₁ => rfl

end

/-! ## With a failure -/

/-- Words and nids are what they were or 0, and a node that cannot be read keeps its NAT
    entry. -/
structure PartFreed (env : TruncEnv) (s s' : Index) : Prop where
  word : ∀ m i, s'.word m i = s.word m i ∨ s'.word m i = 0
  iNid : ∀ k, s'.iNid k = s.iNid k ∨ s'.iNid k = 0
  nat : ∀ m, env.node m ≠ none → s'.nat m = s.nat m

/-- A node that cannot be read. -/
def UnreadIn (env : TruncEnv) (nodes : List Nat) : Prop := ∃ m ∈ nodes, env.node m ≠ none

theorem UnreadIn.mono {env : TruncEnv} {nodes nodes' : List Nat} (h : UnreadIn env nodes)
    (hsub : nodes ⊆ nodes') : UnreadIn env nodes' := by
  obtain ⟨m, hm, hunread⟩ := h
  exact ⟨m, hsub hm, hunread⟩

section

variable {layout : InodeLayout} {env : TruncEnv} {s s₁ s' : Index} {l k nid ofs : Nat} {nofs : Int}
  {e : Errno}

theorem PartFreed.refl (env : TruncEnv) (s : Index) : PartFreed env s s :=
  ⟨fun _ _ => Or.inl rfl, fun _ => Or.inl rfl, fun _ _ => rfl⟩

theorem PartFreed.trans (h : PartFreed env s s₁) (h' : PartFreed env s₁ s') :
    PartFreed env s s' := by
  refine ⟨fun m i => ?_, fun k => ?_, fun m hm => (h'.nat m hm).trans (h.nat m hm)⟩
  · rcases h'.word m i with hw | hw
    · rw [hw]
      exact h.word m i
    · exact Or.inr hw
  · rcases h'.iNid k with hn | hn
    · rw [hn]
      exact h.iNid k
    · exact Or.inr hn

/-- Trees only lose nodes. -/
theorem nodesOf_subset {w w' : Words} (hw : ∀ m i, w' m i = w m i ∨ w' m i = 0) {l : Nat} :
    ∀ {nid nid' : Nat}, nid' = nid ∨ nid' = 0 → nodesOf w' l nid' ⊆ nodesOf w l nid := by
  induction l with
  | zero =>
    intro nid nid' hnid m hm
    rcases hnid with rfl | rfl
    · exact hm
    · rw [nodesOf_missing] at hm
      cases hm
  | succ l ih =>
    intro nid nid' hnid m hm
    by_cases h0 : nid' = 0
    · rw [h0, nodesOf_missing] at hm
      cases hm
    obtain rfl : nid' = nid := hnid.resolve_right h0
    rw [nodesOf_succ h0] at hm ⊢
    rcases List.mem_append.mp hm with hm | hm
    · obtain ⟨i, hi, hm⟩ := List.mem_flatMap.mp hm
      exact List.mem_append_left _ (List.mem_flatMap.mpr ⟨i, hi, ih (hw nid' i) hm⟩)
    · exact List.mem_append_right _ hm

theorem PartFreed.nodesOf (h : PartFreed env s s') {nid nid' : Nat} (hnid : nid' = nid ∨ nid' = 0) :
    nodesOf s'.word l nid' ⊆ nodesOf s.word l nid := nodesOf_subset h.word hnid

/-! ### Single steps -/

theorem partFreed_range (layout : InodeLayout) (env : TruncEnv) (s : Index) (page : DataPage)
    (ofs count : Nat) : PartFreed env s (truncateDataBlocksRange layout s page ofs count) := by
  obtain ⟨hfreed, hiNid, haddr⟩ := truncateDataBlocksRange_spec layout s page ofs count
  refine ⟨fun m i => ?_, fun k => Or.inl (by rw [hiNid]), fun m _ => ?_⟩
  · have hword := haddr (.node m) i
    simp only [dataAddr] at hword
    rw [hword]
    split
    · exact Or.inr rfl
    · exact Or.inl rfl
  · rw [hfreed.nat, if_neg List.not_mem_nil]

theorem partFreed_truncateNode (s : Index) (hread : env.node nid = none) :
    PartFreed env s (truncateNode s nid) := by
  refine ⟨fun _ _ => Or.inl rfl, fun _ => Or.inl rfl, fun m hm => ?_⟩
  rw [(freed_truncateNode s nid).nat, if_neg]
  rw [List.mem_singleton]
  rintro rfl
  exact hm hread

theorem partFreed_setNid (env : TruncEnv) (s : Index) (p i : Nat) :
    PartFreed env s (setNid s p i 0) := by
  refine ⟨fun m j => ?_, fun _ => Or.inl rfl, fun _ _ => rfl⟩
  unfold setNid
  simp only
  split
  · exact Or.inr rfl
  · exact Or.inl rfl

theorem partFreed_clearTop (env : TruncEnv) (s : Index) (k ofs : Nat) :
    PartFreed env s (clearTop s k ofs) := by
  rcases clearTop_cases s k ofs with h | h
  · rw [h]
    refine ⟨fun _ _ => Or.inl rfl, fun j => ?_, fun _ _ => rfl⟩
    unfold clearINid
    simp only
    split
    · exact Or.inr rfl
    · exact Or.inl rfl
  · rw [h]
    exact .refl env s

/-- A node that is read is readable; one that is not is missing or cannot be read. -/
theorem getNodePage_node (h : getNodePage env s nid = .ok ()) : env.node nid = none := by
  unfold getNodePage at h
  split at h
  · cases h
  split at h
  · cases h
  · assumption

theorem getNodePage_unread (h0 : nid ≠ 0) (h : getNodePage env s nid = .error e) :
    e = .enoent ∨ env.node nid ≠ none := by
  unfold getNodePage at h
  rw [if_neg h0] at h
  split at h
  · rename_i r hr
    exact Or.inr (by rw [hr]; exact Option.some_ne_none r)
  · split at h
    · cases h
      exact Or.inl rfl
    · cases h

/-! ### The functions -/

variable (layout env) in
theorem stopDnode_part (s : Index) (nid : Nat) :
    PartFreed env s (stopDnode layout env s nid).2.1 ∧
      ∀ e, (stopDnode layout env s nid).1 = some e → UnreadIn env (nodesOf s.word 0 nid) := by
  unfold stopDnode truncateDnode
  by_cases h0 : nid = 0
  · rw [if_pos h0]
    exact ⟨.refl env s, nofun⟩
  rw [if_neg h0]
  cases hp : getNodePage env s nid with
  | error e =>
    rcases getNodePage_unread h0 hp with rfl | hunread
    · exact ⟨.refl env s, nofun⟩
    · have hmem := mem_nodesOf_self (w := s.word) h0 0
      cases e <;> exact ⟨.refl env s, fun _ _ => ⟨nid, hmem, hunread⟩⟩
  | ok u =>
    have hrange : PartFreed env s (truncateDataBlocks layout s nid) :=
      partFreed_range layout env s (.node nid) 0 addrsPerBlock
    generalize truncateDataBlocks layout s nid = s₁ at hrange
    exact ⟨hrange.trans (partFreed_truncateNode s₁ (getNodePage_node hp)), nofun⟩

variable (layout env) in
theorem stopChild_part (p : Nat) (s : Index) (i : Nat) :
    PartFreed env s (stopChild layout env p s i).2 ∧
      ∀ e, (stopChild layout env p s i).1 = some e →
        UnreadIn env (nodesOf s.word 0 (s.word p i)) := by
  obtain ⟨hpart, hunread⟩ := stopDnode_part layout env s (s.word p i)
  unfold stopChild truncateChild
  simp only
  by_cases h0 : s.word p i = 0
  · rw [if_pos h0]
    exact ⟨.refl env s, nofun⟩
  rw [if_neg h0]
  unfold stopDnode at hpart hunread
  cases hd : truncateDnode layout env s (s.word p i) with
  | error e =>
    rw [hd] at hunread
    exact ⟨.refl env s, fun _ _ => hunread e rfl⟩
  | ok r =>
    rw [hd] at hpart
    exact ⟨hpart.trans (partFreed_setNid env r.1 p i), nofun⟩

/-- A loop over slots of `p`, each round of which goes through the tree below its slot. -/
theorem sweep_part {α : Type} (index : α → Index) (step : α → Nat → Option Errno × α) (l p : Nat)
    (hstep : ∀ a i, PartFreed env (index a) (index (step a i).2) ∧
      ∀ e, (step a i).1 = some e → UnreadIn env (nodesOf (index a).word l ((index a).word p i))) :
    ∀ {L : List Nat} {a : α}, PartFreed env (index a) (index (sweep step a L).2) ∧
      ∀ e, (sweep step a L).1 = some e →
        ∃ i ∈ L, UnreadIn env (nodesOf (index a).word l ((index a).word p i)) := by
  intro L
  induction L with
  | nil => exact fun {a} => ⟨.refl env _, nofun⟩
  | cons i L ih =>
    intro a
    obtain ⟨hpart, hunread⟩ := hstep a i
    rw [sweep]
    rcases hs : step a i with ⟨_ | e, a₁⟩
    · rw [hs] at hpart
      obtain ⟨hrest, hfail⟩ := ih (a := a₁)
      refine ⟨hpart.trans hrest, fun e he => ?_⟩
      obtain ⟨j, hj, hu⟩ := hfail e he
      exact ⟨j, List.mem_cons_of_mem i hj, hu.mono (hpart.nodesOf (hpart.word p j))⟩
    · rw [hs] at hpart hunread
      exact ⟨hpart, fun _ _ => ⟨i, List.mem_cons_self, hunread e rfl⟩⟩

/-- What a loop over slots of a node meets is below the node. -/
theorem UnreadIn.below {p : Nat} {L : List Nat} (h0 : p ≠ 0) (hL : L ⊆ slots)
    (h : ∃ i ∈ L, UnreadIn env (nodesOf s.word l (s.word p i))) :
    UnreadIn env (nodesOf s.word (l + 1) p) := by
  obtain ⟨i, hi, hunread⟩ := h
  exact hunread.mono fun m hm => mem_nodesOf_child h0 (hL hi) hm

theorem stopFinish_part {r : Option Errno × (Index × Int)} (hread : env.node nid = none)
    (h : PartFreed env s r.2.1) : PartFreed env s (stopFinish nid ofs r).2.1 := by
  rcases r with ⟨_ | e, s₁, n⟩
  · unfold stopFinish finishNodes
    simp only
    split
    · exact h.trans (partFreed_truncateNode s₁ hread)
    · exact h
  · exact h

theorem stopFinish_error {r : Option Errno × (Index × Int)} : (stopFinish nid ofs r).1 = r.1 := by
  rcases r with ⟨_ | e, r⟩ <;> rfl

variable (layout env) in
theorem stopIndirect_part (s : Index) (nid ofs : Nat) :
    PartFreed env s (stopIndirect layout env s nid ofs).2.1 ∧
      ∀ e, (stopIndirect layout env s nid ofs).1 = some e →
        e = .enoent ∨ UnreadIn env (nodesOf s.word 1 nid) := by
  unfold stopIndirect
  by_cases h0 : nid = 0
  · rw [if_pos h0]
    exact ⟨.refl env s, nofun⟩
  rw [if_neg h0]
  cases hp : getNodePage env s nid with
  | error e =>
    refine ⟨.refl env s, fun e' he => ?_⟩
    obtain rfl : e = e' := Option.some.inj he
    exact (getNodePage_unread h0 hp).imp_right fun hunread =>
      ⟨nid, mem_nodesOf_self h0 1, hunread⟩
  | ok u =>
    obtain ⟨hpart, hfail⟩ := sweep_part (fun s => s) (stopChild layout env nid) 0 nid
      (stopChild_part layout env nid) (L := slotsFrom ofs) (a := s)
    refine ⟨stopFinish_part (getNodePage_node hp) hpart, fun e he => ?_⟩
    rw [stopFinish_error] at he
    exact Or.inr (UnreadIn.below h0 (slotsFrom_sublist ofs).subset (hfail e he))

variable (layout env) in
theorem stopIndirectChild_part (p : Nat) (acc : Index × Int) (i : Nat) :
    PartFreed env acc.1
        (stopIndirectChild (fun s c _ => stopIndirect layout env s c 0) p acc i).2.1 ∧
      ∀ e, (stopIndirectChild (fun s c _ => stopIndirect layout env s c 0) p acc i).1 = some e →
        UnreadIn env (nodesOf acc.1.word 1 (acc.1.word p i)) := by
  obtain ⟨hpart, hunread⟩ := stopIndirect_part layout env acc.1 (acc.1.word p i) 0
  unfold stopIndirectChild
  simp only
  by_cases h0 : acc.1.word p i = 0
  · rw [if_pos h0]
    exact ⟨.refl env _, nofun⟩
  rw [if_neg h0]
  rcases hfree : stopIndirect layout env acc.1 (acc.1.word p i) 0 with ⟨_ | e, s₁, ret⟩
  · rw [hfree] at hpart
    simp only
    split
    · exact ⟨hpart.trans (partFreed_setNid env s₁ p i), nofun⟩
    · exact ⟨hpart, nofun⟩
  · rw [hfree] at hpart hunread
    have hfail := hunread e rfl
    cases e with
    | enoent => exact ⟨hpart, nofun⟩
    | e2big => exact ⟨hpart, fun _ _ => hfail.resolve_left (by decide)⟩
    | read r => exact ⟨hpart, fun _ _ => hfail.resolve_left (by simp)⟩
    | bug => exact ⟨hpart, fun _ _ => hfail.resolve_left (by decide)⟩

variable (layout env) in
theorem stopDouble_part (s : Index) (nid : Nat) (nofs : Int) (ofs : Nat) :
    PartFreed env s (stopDouble layout env s nid nofs ofs).2.1 ∧
      ∀ e, (stopDouble layout env s nid nofs ofs).1 = some e →
        e = .enoent ∨ UnreadIn env (nodesOf s.word 2 nid) := by
  unfold stopDouble
  by_cases h0 : nid = 0
  · rw [if_pos h0]
    exact ⟨.refl env s, nofun⟩
  rw [if_neg h0]
  cases hp : getNodePage env s nid with
  | error e =>
    refine ⟨.refl env s, fun e' he => ?_⟩
    obtain rfl : e = e' := Option.some.inj he
    exact (getNodePage_unread h0 hp).imp_right fun hunread =>
      ⟨nid, mem_nodesOf_self h0 2, hunread⟩
  | ok u =>
    obtain ⟨hpart, hfail⟩ := sweep_part Prod.fst
      (stopIndirectChild (fun s c _ => stopIndirect layout env s c 0) nid) 1 nid
      (stopIndirectChild_part layout env nid) (L := slotsFrom ofs)
      (a := (s, nofs + ofs * (nidsPerBlock + 1) + 1))
    refine ⟨stopFinish_part (getNodePage_node hp) hpart, fun e he => ?_⟩
    rw [stopFinish_error] at he
    exact Or.inr (UnreadIn.below h0 (slotsFrom_sublist ofs).subset (hfail e he))

variable (layout env) in
theorem stopTop_part (s : Index) (k ofs : Nat) (nofs : Int) :
    PartFreed env s (stopTop layout env s k ofs nofs).2.1 ∧
      ∀ e, (stopTop layout env s k ofs nofs).1 = some e →
        e = .enoent ∨ UnreadIn env (nodesOf s.word (topLevel k) (s.iNid k)) := by
  unfold stopTop
  rcases topLevel_cases k with hl | hl | hl
  · rw [hl]
    obtain ⟨hpart, hfail⟩ := stopDnode_part layout env s (s.iNid k)
    exact ⟨hpart, fun e he => Or.inr (hfail e he)⟩
  · rw [hl]
    exact stopIndirect_part layout env s (s.iNid k) ofs
  · rw [hl]
    exact stopDouble_part layout env s (s.iNid k) nofs ofs

variable (layout env) in
/-- The loop over the trees. -/
theorem stopRest_part {n : Nat} : ∀ (s : Index) (k : Nat) (nofs : Int),
    PartFreed env s (stopRest layout env n s k nofs).2 ∧
      ∀ e, (stopRest layout env n s k nofs).1 = some e →
        UnreadIn env (topNodes s (List.range' k n)) := by
  induction n with
  | zero => exact fun s k nofs => ⟨.refl env s, nofun⟩
  | succ n ih =>
    intro s k nofs
    obtain ⟨hpart, hunread⟩ := stopTop_part layout env s k 0 nofs
    have hhere : nodesOf s.word (topLevel k) (s.iNid k) ⊆ topNodes s (List.range' k (n + 1)) :=
      fun m hm => List.mem_flatMap.mpr ⟨k, by simp, hm⟩
    have hnext : ∀ s₁ err, PartFreed env s s₁ →
        PartFreed env s (stopRest layout env n (clearTop s₁ k 0) (k + 1) err).2 ∧
        ∀ e, (stopRest layout env n (clearTop s₁ k 0) (k + 1) err).1 = some e →
          UnreadIn env (topNodes s (List.range' k (n + 1))) := by
      intro s₁ err h₁
      have hround := h₁.trans (partFreed_clearTop env s₁ k 0)
      obtain ⟨hrest, hfail⟩ := ih (clearTop s₁ k 0) (k + 1) err
      refine ⟨hround.trans hrest, fun e he => (hfail e he).mono fun m hm => ?_⟩
      obtain ⟨j, hj, hm⟩ := List.mem_flatMap.mp hm
      refine List.mem_flatMap.mpr ⟨j, ?_, hround.nodesOf (hround.iNid j) hm⟩
      rw [List.range'_succ]
      exact List.mem_cons_of_mem k hj
    rw [stopRest]
    rcases htop : stopTop layout env s k 0 nofs with ⟨_ | e, s₁, err⟩
    · rw [htop] at hpart
      exact hnext s₁ _ hpart
    · rw [htop] at hpart hunread
      have hfail := hunread e rfl
      cases e with
      | enoent => exact hnext s₁ _ hpart
      | e2big => exact ⟨hpart, fun _ _ => (hfail.resolve_left (by decide)).mono hhere⟩
      | read r => exact ⟨hpart, fun _ _ => (hfail.resolve_left (by simp)).mono hhere⟩
      | bug => exact ⟨hpart, fun _ _ => (hfail.resolve_left (by decide)).mono hhere⟩

variable (layout env) in
theorem truncateAll_part (s : Index) : PartFreed env s (truncateAll layout env s).2 := by
  unfold truncateAll
  exact (partFreed_range layout env s _ _ _).trans (stopRest_part layout env _ 0 1).1

variable (layout env) in
/-- A truncation that fails has met a node that it cannot read. -/
theorem truncateAll_error (s : Index) (h : (truncateAll layout env s).1 = some e) :
    UnreadIn env (topNodes s tops) := by
  have hrange := partFreed_range layout env s .inode 0 layout.addrsPerInode
  refine ((stopRest_part layout env _ 0 1).2 e h).mono fun m hm => ?_
  obtain ⟨k, hk, hm⟩ := List.mem_flatMap.mp hm
  refine List.mem_flatMap.mpr ⟨k, ?_, hrange.nodesOf (hrange.iNid k) hm⟩
  rw [tops, List.range_eq_range']
  exact hk

/-! ## All of the tree -/

theorem topNodesFrom_zero (s : Index) (K : List Nat) : topNodesFrom s K 0 = topNodes s K :=
  List.flatMap_congr fun _ _ => nodesFrom_of_le (Nat.zero_le _)

variable (layout env) in
/-- A truncation that can read all of the tree frees all blocks and nodes. -/
theorem truncateAll_truncates (ht : IndexTree s) (hlayout : 0 < layout.addrsPerInode)
    (hinode : env.inodePage = none) (hagain : env.inodePageAgain = none)
    (hread : ∀ m ∈ topNodes s tops, env.node m = none) :
    Truncated layout s (truncateAll layout env s).2 0 0 := by
  have hok : (truncateAll layout env s).1 = none := by
    cases herr : (truncateAll layout env s).1 with
    | none => rfl
    | some e =>
      obtain ⟨m, hm, hunread⟩ := truncateAll_error layout env s herr
      exact absurd (hread m hm) hunread
  have hrun : truncateBlocks layout env s 0 = .ok (truncateAll layout env s).2 := by
    rw [← truncateAll_settle layout env hlayout hinode hagain]
    generalize truncateAll layout env s = r at hok ⊢
    obtain ⟨err, s₁⟩ := r
    obtain rfl : err = none := hok
    rfl
  have hcut : cutAt layout s 0 = 0 := if_pos (Nat.zero_le _)
  have htrunc := (truncateBlocks_truncates layout env s 0 ht (by decide)).2 _ hrun
  rw [if_pos (by decide)] at htrunc
  rw [← hcut]
  exact htrunc

variable (layout env) in
/-- The nodes of the tree are freed exactly if all of them can be read. -/
theorem truncateAll_freed_iff (ht : IndexTree s) (hlayout : 0 < layout.addrsPerInode)
    (hinode : env.inodePage = none) (hagain : env.inodePageAgain = none) :
    (∀ m ∈ topNodes s tops, (truncateAll layout env s).2.nat m = nullAddr) ↔
      ∀ m ∈ topNodes s tops, env.node m = none := by
  constructor
  · intro hfreed m hm
    by_contra hunread
    have hkept := (truncateAll_part layout env s).nat m hunread
    rw [hfreed m hm] at hkept
    exact ht.addr m hm hkept.symm
  · intro hread m hm
    have htrunc := truncateAll_truncates layout env ht hlayout hinode hagain hread
    rw [htrunc.freed.nat, topNodesFrom_zero, if_pos hm]

end

end F2fs.Truncate

/-
  `get_dnode_of_data` with `ALLOC_NODE`, and `new_node_page`.

  On the way to the direct node of a block each node that is missing is made: `alloc_nid`
  finds a free nid, the node is counted, and its empty page is linked into the slot of its
  parent.  What fails on the way leaves the nodes that were made before.
  No block gets an address by it (`getDnodeOfDataAlloc_spec`).

  The file has no inline data.  The counts are those of `Space`, between two calls of
  which other tasks may change them.
-/
import F2fs.Truncate.NewNode
import F2fs.Space.ValidCounts

namespace F2fs.File

open F2fs.Node F2fs.Truncate

/-! ## State -/

/-- A file with its index tree, and the counts of the volume. -/
structure FileState where
  ino : Nat
  index : Index
  space : Space.SpaceState

inductive AllocError where
  | eperm | enospc | enomem | eio
  /-- what `dquot_reserve_block` refuses with -/
  | quota
  | lookup (e : Truncate.Errno)
  deriving DecidableEq, Repr

def AllocError.ofSpace : Space.Errno → AllocError
  | .quota => .quota
  | .enospc => .enospc

/-- What making one node meets. -/
structure NodeEnv where
  /-- the nid that `alloc_nid` finds -/
  nid : Option Nat := none
  /-- `f2fs_grab_cache_page` has a page -/
  page : Bool := true
  quotaGrants : Bool := true
  /-- what other tasks do to the counts before -/
  others : Space.SpaceState → Space.SpaceState := id

/-- What one lookup and the reservation behind it meet. -/
structure DnodeEnv where
  reads : TruncEnv := {}
  /-- by depth -/
  node : Nat → NodeEnv := fun _ => {}
  caller : Space.Caller
  /-- `FI_NO_ALLOC` -/
  noAlloc : Bool := false
  /-- `f2fs_cp_error` at a slot -/
  cpError : Nat → Bool := fun _ => false
  quotaGrants : Bool := true
  /-- what other tasks do to the counts before blocks are reserved -/
  others : Space.SpaceState → Space.SpaceState := id

/-! ## The functions -/

section

variable (env : DnodeEnv)

/-- `new_node_page` of a node that is not the inode. -/
def newNodePage (node : NodeEnv) (s : FileState) (nid : Nat) :
    Except AllocError Unit × FileState :=
  if env.noAlloc then (.error .eperm, s)
  else if !node.page then (.error .enomem, s)
  else
    match Space.incValidNodeCount (node.others s.space) (some s.ino) env.caller
        node.quotaGrants false with
    | (.error e, space) => (.error (.ofSpace e), { s with space := space })
    | (.ok _, space) => (.ok (), { s with index := newNode s.index nid, space := space })

/-- `alloc_nid`.  Which nids are free is up to the whole volume; none is that of a node of
    the file. -/
def allocNid (node : NodeEnv) (s : Index) : Option Nat :=
  node.nid.filter fun nid => nid ≠ 0 ∧ nid ∉ topNodes s tops

/-- `set_nid` in the parent of the node at depth `i + 1`. -/
def setPathNid (s : Index) (offset : Nat → Nat) (nid : Nat) : Nat → Index
  | 0 => setINid s (offset 0 - nodeDir1Block) nid
  | i + 1 => setNid s (pathNid s offset i) (offset (i + 1)) nid

/-- A new node at depth `i + 1`. -/
def allocNode (offset : Nat → Nat) (i : Nat) (s : FileState) :
    Except AllocError Unit × FileState :=
  match allocNid (env.node i) s.index with
  | none => (.error .enospc, s)
  | some nid =>
    match newNodePage env (env.node i) s nid with
    | (.error e, s) => (.error e, s)
    | (.ok _, s) => (.ok (), { s with index := setPathNid s.index offset nid i })

/-- The node at depth `i + 1`, read or made. -/
def pathNode (offset : Nat → Nat) (i : Nat) (s : FileState) :
    Except AllocError Unit × FileState :=
  if pathNid s.index offset i = 0 then allocNode env offset i s
  else
    match getNodePage env.reads s.index (pathNid s.index offset i) with
    | .error e => (.error (.lookup e), s)
    | .ok _ => (.ok (), s)

/-- The nodes at depths 1 to `n`. -/
def allocPath (offset : Nat → Nat) : Nat → FileState → Except AllocError Unit × FileState
  | 0, s => (.ok (), s)
  | n + 1, s =>
    match allocPath offset n s with
    | (.error e, s) => (.error e, s)
    | (.ok _, s) => pathNode env offset n s

/-- `get_dnode_of_data` with `ALLOC_NODE` along a path. -/
def allocDnode (s : FileState) (p : NodePath) :
    Except AllocError (DataPage × Nat) × FileState :=
  match env.reads.inodePage with
  | some e => (.error (.lookup (.read e)), s)
  | none =>
    match allocPath env (offsetOf p) p.level s with
    | (.error e, s) => (.error e, s)
    | (.ok _, s) =>
      if p.level = 0 then (.ok (.inode, offsetOf p 0), s)
      else (.ok (.node (pathNid s.index (offsetOf p) (p.level - 1)), offsetOf p p.level), s)

/-- `get_dnode_of_data` with `ALLOC_NODE` from the path of the block on. -/
def allocDnodeOfPath (s : FileState) :
    Option NodePath → Except AllocError (DataPage × Nat) × FileState
  | none => (.error (.lookup .e2big), s)
  | some p => allocDnode env s p

variable (layout : InodeLayout)

/-- `get_dnode_of_data` with `ALLOC_NODE`. -/
def getDnodeOfDataAlloc (s : FileState) (index : Nat) :
    Except AllocError (DataPage × Nat) × FileState :=
  allocDnodeOfPath env s (getNodePath layout.addrsPerInode (toLong index))

end

/-! ## The nodes of a path -/

section

variable {p : NodePath} {k r o j n : Nat} {s s' : Index} {offset : Nat → Nat}

/-- Offsets within indirect nodes. -/
theorem offsetOf_mem_slots (hp : PathTo p k r o) (hj : j < topLevel k) :
    offsetOf p (j + 1) ∈ slots := by
  have hr := hp.r_lt
  rw [mem_slots]
  rcases topLevel_cases k with hl | hl | hl
  · omega
  · have hone : span 1 = nidsPerBlock := Nat.pow_one _
    obtain rfl : j = 0 := by omega
    rw [hl, hone] at hr
    rw [hp.one hl]
    exact hr
  · have htwo : span 2 = nidsPerBlock * nidsPerBlock := Nat.pow_two _
    rw [hl, htwo] at hr
    obtain ⟨h₁, h₂⟩ := hp.two hl
    rcases (by omega : j = 0 ∨ j = 1) with rfl | rfl
    · rw [h₁]
      exact Nat.div_lt_of_lt_mul hr
    · rw [h₂]
      exact Nat.mod_lt _ (by decide)

theorem pathNid_onPath (hp : PathTo p k r o) (hj : j ≤ topLevel k)
    (h0 : ∀ i, i ≤ j → pathNid s (offsetOf p) i ≠ 0) :
    OnPath s.word (topLevel k) (s.iNid k) (pathNid s (offsetOf p) j) (topLevel k - j) := by
  induction j with
  | zero =>
    have hz := h0 0 (Nat.le_refl 0)
    rw [pathNid_zero hp] at hz ⊢
    exact .here hz
  | succ j ih =>
    have hparent := ih (Nat.le_of_succ_le hj) fun i hi => h0 i (Nat.le_succ_of_le hi)
    rw [show topLevel k - j = topLevel k - (j + 1) + 1 by omega] at hparent
    exact hparent.child (offsetOf_mem_slots hp hj) (h0 (j + 1) (Nat.le_refl _))

/-- The last node of a path is the direct node. -/
theorem pathNid_dnodeOf (hp : PathTo p k r o)
    (h0 : ∀ i, i < topLevel k → pathNid s (offsetOf p) i ≠ 0) :
    pathNid s (offsetOf p) (topLevel k) = dnodeOf s k r := by
  unfold dnodeOf
  rcases topLevel_cases k with hl | hl | hl
  · rw [hl, pathNid_zero hp, dnodeAt]
  · have hz := h0 0 (by omega)
    rw [pathNid_zero hp] at hz
    rw [hl, pathNid_one hp hl, dnodeAt_one hz]
  · have hz := h0 0 (by omega)
    have hz' := h0 1 (by omega)
    obtain ⟨h₁, h₂⟩ := pathNid_two (s := s) hp hl
    rw [pathNid_zero hp] at hz
    rw [h₁] at hz'
    rw [hl, h₂, dnodeAt_two hz, dnodeAt_one hz']

/-- A path whose slots are as they were. -/
theorem pathNid_unchanged (hi : s'.iNid = s.iNid)
    (hw : ∀ i, i < n → s'.word (pathNid s offset i) (offset (i + 1)) =
      s.word (pathNid s offset i) (offset (i + 1))) :
    ∀ i, i ≤ n → pathNid s' offset i = pathNid s offset i := by
  intro i hin
  induction i with
  | zero => rw [pathNid, pathNid, hi]
  | succ i ih =>
    rw [pathNid, pathNid, ih (Nat.le_of_succ_le hin)]
    exact hw i hin

/-- All nodes down to depth `n` are there. -/
def PathThere (s : Index) (offset : Nat → Nat) (n : Nat) : Prop :=
  ∀ i, i < n → pathNid s offset i ≠ 0

end

/-! ## What an allocation keeps -/

/-- The blocks are the same, and each new node has a nid that was given out for one of the
    depths 1 to `n`. -/
structure AllocKept (layout : InodeLayout) (env : DnodeEnv) (n : Nat) (s s' : FileState) :
    Prop where
  blocks : SameBlocks layout s.index s'.index
  ino : s'.ino = s.ino
  nodes : ∀ m ∈ topNodes s'.index tops, m ∈ topNodes s.index tops ∨
    ∃ i, i < n ∧ (env.node i).nid = some m

/-- The tree has kept its nodes, and a nid that has got an address is one of them. -/
structure NodesGrown (s s' : Index) : Prop where
  nodes : topNodes s tops ⊆ topNodes s' tops
  nat : ∀ m, s'.nat m ≠ nullAddr → s.nat m ≠ nullAddr ∨ m ∈ topNodes s' tops

section

variable {layout : InodeLayout} {env : DnodeEnv} {s s₁ s' : FileState} {p : NodePath}
  {k r o n n' nid b : Nat}

theorem AllocKept.refl (ht : IndexTree s.index) (n : Nat) : AllocKept layout env n s s :=
  ⟨.refl ht, rfl, fun _ hm => Or.inl hm⟩

theorem AllocKept.trans (h : AllocKept layout env n s s₁) (h' : AllocKept layout env n' s₁ s')
    (hle : n ≤ n') : AllocKept layout env n' s s' := by
  refine ⟨h.blocks.trans h'.blocks, h'.ino.trans h.ino, fun m hm => ?_⟩
  rcases h'.nodes m hm with hm₁ | hnew
  · exact (h.nodes m hm₁).imp_right fun ⟨i, hi, hnid⟩ => ⟨i, Nat.lt_of_lt_of_le hi hle, hnid⟩
  · exact Or.inr hnew

theorem newNodePage_cases (env : DnodeEnv) (node : NodeEnv) (s : FileState) (nid : Nat) :
    (∃ e space, newNodePage env node s nid = (.error e, { s with space := space }) ∧
      e ≠ .lookup .enoent) ∨
    ∃ space, newNodePage env node s nid =
      (.ok (), { s with index := newNode s.index nid, space := space }) := by
  rw [newNodePage]
  split
  · exact Or.inl ⟨.eperm, s.space, rfl, by decide⟩
  split
  · exact Or.inl ⟨.enomem, s.space, rfl, by decide⟩
  split
  · rename_i e space _
    exact Or.inl ⟨_, space, rfl, by cases e <;> decide⟩
  · rename_i space _
    exact Or.inr ⟨space, rfl⟩

variable (layout) in
/-- A new node in the empty slot at depth `n + 1`. -/
theorem setPathNid_spec (ht : IndexTree s.index) (hp : PathTo p k r o) (hn : n ≤ topLevel k)
    (hthere : PathThere s.index (offsetOf p) n) (hslot : pathNid s.index (offsetOf p) n = 0)
    (h0 : nid ≠ 0) (hnot : nid ∉ topNodes s.index tops) :
    Linked layout s.index (setPathNid (newNode s.index nid) (offsetOf p) nid n) nid ∧
      PathThere (setPathNid (newNode s.index nid) (offsetOf p) nid n) (offsetOf p) (n + 1) := by
  obtain ⟨hnew, hnodes, hspare⟩ := newNode_spare layout ht h0 hnot
  have htop : offsetOf p 0 - nodeDir1Block = k := by rw [hp.top, Nat.add_sub_cancel_left]
  cases n with
  | zero =>
    rw [pathNid_zero hp] at hslot
    obtain ⟨hblocks, hperm⟩ := setINid_linked layout hnew.tree hspare hp.k_lt hslot
    rw [hnodes] at hperm
    rw [setPathNid, htop]
    refine ⟨⟨hnew.trans hblocks, hperm⟩, fun i hi => ?_⟩
    obtain rfl : i = 0 := by omega
    rw [pathNid_zero hp]
    show (if k = k then nid else _) ≠ 0
    rw [if_pos rfl]
    exact h0
  | succ n =>
    -- the nodes above are in the tree, so that they are not the new one
    have hpath : ∀ i, i ≤ n → OnPath s.index.word (topLevel k) (s.index.iNid k)
        (pathNid s.index (offsetOf p) i) (topLevel k - i) := fun i hi =>
      pathNid_onPath hp (by omega) fun i' hi' => hthere i' (by omega)
    have hsame : ∀ i, i ≤ n + 1 →
        pathNid (newNode s.index nid) (offsetOf p) i = pathNid s.index (offsetOf p) i :=
      pathNid_unchanged rfl fun i hi => if_neg fun hc : _ = nid =>
        hnot (hc ▸ mem_topNodes hp.k_lt (hpath i (by omega)).mem)
    have hpath' : ∀ i, i ≤ n → OnPath (newNode s.index nid).word (topLevel k)
        ((newNode s.index nid).iNid k) (pathNid (newNode s.index nid) (offsetOf p) i)
        (topLevel k - i) := fun i hi =>
      pathNid_onPath hp (by omega) fun i' hi' => by
        rw [hsame i' (by omega)]
        exact hthere i' (by omega)
    have hparent := hpath' n (Nat.le_refl n)
    rw [show topLevel k - n = topLevel k - (n + 1) + 1 by omega] at hparent
    have hempty : (newNode s.index nid).word (pathNid (newNode s.index nid) (offsetOf p) n)
        (offsetOf p (n + 1)) = 0 := by
      have hz := hsame (n + 1) (Nat.le_refl _)
      rw [hslot, pathNid] at hz
      exact hz
    obtain ⟨hblocks, hperm⟩ := setNid_linked layout hnew.tree hspare hp.k_lt hparent
      (offsetOf_mem_slots hp (by omega)) hempty
    rw [hnodes] at hperm
    rw [setPathNid]
    refine ⟨⟨hnew.trans hblocks, hperm⟩, fun i hi => ?_⟩
    have hkept : ∀ i, i ≤ n → pathNid (setNid (newNode s.index nid)
        (pathNid (newNode s.index nid) (offsetOf p) n) (offsetOf p (n + 1)) nid) (offsetOf p) i =
        pathNid (newNode s.index nid) (offsetOf p) i :=
      pathNid_unchanged rfl fun i hi => if_neg fun hc => by
        have hup := hpath' i (by omega)
        rw [hc.1] at hup
        have hlevel := (hnew.tree.treeAt hp.k_lt).level_inj hup hparent
        omega
    rcases Nat.lt_or_ge i (n + 1) with hlt | hge
    · rw [hkept i (by omega), hsame i (by omega)]
      exact hthere i hlt
    · obtain rfl : i = n + 1 := by omega
      rw [pathNid, hkept n (Nat.le_refl n)]
      show (if _ ∧ _ then nid else _) ≠ 0
      rw [if_pos ⟨rfl, rfl⟩]
      exact h0

variable (layout) in
/-- How a step down the path ends: with the tree as it was, or with one node more. -/
theorem pathNode_cases (ht : IndexTree s.index) (hp : PathTo p k r o) (hn : n ≤ topLevel k)
    (hthere : PathThere s.index (offsetOf p) n) {res : Except AllocError Unit}
    (h : pathNode env (offsetOf p) n s = (res, s')) :
    (s'.index = s.index ∧ s'.ino = s.ino ∧ res ≠ .error (.lookup .enoent) ∧
      (res = .ok () → PathThere s.index (offsetOf p) (n + 1))) ∨
    ∃ nid, (env.node n).nid = some nid ∧ res = .ok () ∧ s'.ino = s.ino ∧
      s'.index = setPathNid (newNode s.index nid) (offsetOf p) nid n ∧
      Linked layout s.index s'.index nid ∧ PathThere s'.index (offsetOf p) (n + 1) := by
  rw [pathNode] at h
  by_cases hslot : pathNid s.index (offsetOf p) n = 0
  · rw [if_pos hslot, allocNode] at h
    cases hnid : allocNid (env.node n) s.index with
    | none =>
      rw [hnid] at h
      cases h
      exact Or.inl ⟨rfl, rfl, by decide, nofun⟩
    | some nid =>
      rw [allocNid, Option.filter_eq_some_iff, decide_eq_true_eq] at hnid
      obtain ⟨hgiven, h0, hnot⟩ := hnid
      rw [allocNid, Option.filter_eq_some_iff.mpr ⟨hgiven, decide_eq_true ⟨h0, hnot⟩⟩] at h
      simp only at h
      obtain ⟨e, space, hrun, he⟩ | ⟨space, hrun⟩ := newNodePage_cases env (env.node n) s nid
      · rw [hrun] at h
        cases h
        exact Or.inl ⟨rfl, rfl, fun hc => he (Except.error.inj hc), nofun⟩
      · rw [hrun] at h
        cases h
        obtain ⟨hlinked, hnext⟩ := setPathNid_spec layout ht hp hn hthere hslot h0 hnot
        exact Or.inr ⟨nid, hgiven, rfl, rfl, rfl, hlinked, hnext⟩
  · rw [if_neg hslot] at h
    have hall : PathThere s.index (offsetOf p) (n + 1) := fun i hi => by
      rcases Nat.lt_or_ge i n with hlt | hge
      · exact hthere i hlt
      · obtain rfl : i = n := by omega
        exact hslot
    cases hread : getNodePage env.reads s.index (pathNid s.index (offsetOf p) n) with
    | error e =>
      rw [hread] at h
      cases h
      refine Or.inl ⟨rfl, rfl, fun hc => ?_, nofun⟩
      obtain rfl : e = .enoent := AllocError.lookup.inj (Except.error.inj hc)
      have hpath := pathNid_onPath hp hn fun i hi => hall i (Nat.lt_succ_of_le hi)
      exact hslot ((getNodePage_tree env.reads fun _ =>
        (ht.treeAt hp.k_lt).addr _ hpath.mem).2.1 hread)
    | ok u =>
      rw [hread] at h
      cases h
      exact Or.inl ⟨rfl, rfl, by decide, fun _ => hall⟩

variable (layout) in
/-- One step down the path. -/
theorem pathNode_spec (ht : IndexTree s.index) (hp : PathTo p k r o) (hn : n ≤ topLevel k)
    (hthere : PathThere s.index (offsetOf p) n) {res : Except AllocError Unit}
    (h : pathNode env (offsetOf p) n s = (res, s')) :
    AllocKept layout env (n + 1) s s' ∧
      (res = .ok () → PathThere s'.index (offsetOf p) (n + 1)) ∧
      res ≠ .error (.lookup .enoent) := by
  rcases pathNode_cases layout ht hp hn hthere h with
    ⟨hsame, hino, hno, hnext⟩ | ⟨nid, hgiven, rfl, hino, -, hlinked, hnext⟩
  · rw [← hsame] at hnext
    refine ⟨⟨?_, hino, fun m hm => ?_⟩, hnext, hno⟩
    · rw [hsame]
      exact .refl ht
    · rw [hsame] at hm
      exact Or.inl hm
  · refine ⟨⟨hlinked.blocks, hino, fun m hm => ?_⟩, fun _ => hnext, by decide⟩
    rcases List.mem_cons.mp (hlinked.nodes.subset hm) with rfl | hm
    · exact Or.inr ⟨n, Nat.lt_succ_self n, hgiven⟩
    · exact Or.inl hm

variable (layout) in
theorem allocPath_spec (ht : IndexTree s.index) (hp : PathTo p k r o) :
    ∀ {n : Nat} {s' : FileState} {res : Except AllocError Unit}, n ≤ topLevel k + 1 →
      allocPath env (offsetOf p) n s = (res, s') →
      AllocKept layout env n s s' ∧ (res = .ok () → PathThere s'.index (offsetOf p) n) ∧
        res ≠ .error (.lookup .enoent) := by
  intro n
  induction n with
  | zero =>
    intro s' res _ h
    cases h
    exact ⟨.refl ht 0, fun _ i hi => absurd hi (Nat.not_lt_zero i), by decide⟩
  | succ n ih =>
    intro s' res hn h
    rw [allocPath] at h
    cases hrun : allocPath env (offsetOf p) n s with
    | mk res₁ s₁ =>
      obtain ⟨hkept, hthere, hno⟩ := ih (Nat.le_of_succ_le hn) hrun
      rw [hrun] at h
      cases res₁ with
      | error e =>
        cases h
        exact ⟨hkept.trans (.refl hkept.blocks.tree _) (Nat.le_succ n), nofun, hno⟩
      | ok u =>
        obtain ⟨hkept', hthere', hno'⟩ := pathNode_spec layout hkept.blocks.tree hp
          (by omega) (hthere rfl) h
        exact ⟨hkept.trans hkept' (Nat.le_succ n), hthere', hno'⟩

/-! ## The slot of a block -/

/-- Slot `ofs` of the page holds the address of block `b`. -/
def HoldsBlock (layout : InodeLayout) (s : Index) (page : DataPage) (ofs b : Nat) : Prop :=
  match page with
  | .inode => ofs < layout.addrsPerInode ∧ b = ofs
  | .node nid => ∃ k r, k < defNidsPerInode ∧ r < span (topLevel k) ∧ ofs < addrsPerBlock ∧
      b = blockOf layout k r ofs ∧ nid = dnodeOf s k r ∧ nid ≠ 0

/-- A lookup along a path. -/
theorem allocDnode_spec (ht : IndexTree s.index)
    (hpath : getNodePath layout.addrsPerInode b = some p) {res : Except AllocError (DataPage × Nat)}
    (h : allocDnode env s p = (res, s')) :
    AllocKept layout env 3 s s' ∧
      (∀ page ofs, res = .ok (page, ofs) → HoldsBlock layout s'.index page ofs b) ∧
      res ≠ .error (.lookup .enoent) := by
  rw [allocDnode] at h
  cases hinode : env.reads.inodePage with
  | some e =>
    rw [hinode] at h
    cases h
    exact ⟨.refl ht _, nofun, nofun⟩
  | none =>
    rw [hinode] at h
    simp only at h
    by_cases hin : b < layout.addrsPerInode
    · obtain ⟨q, hq, hlevel, hofs⟩ := getNodePath_inode hin
      obtain rfl : q = p := Option.some.inj (hq.symm.trans hpath)
      rw [hlevel, allocPath] at h
      simp only [if_true, hofs] at h
      cases h
      refine ⟨.refl ht _, fun page ofs hc => ?_, nofun⟩
      cases hc
      exact ⟨hin, rfl⟩
    have hmax := (getNodePath_some layout.api_le hpath).2.2
    obtain ⟨q, k, r, o, hq, hp, hblock⟩ := getNodePath_node (Nat.not_lt.mp hin) hmax
    obtain rfl : q = p := Option.some.inj (hq.symm.trans hpath)
    cases hrun : allocPath env (offsetOf q) q.level s with
    | mk res₁ s₁ =>
      have hlevel : q.level ≤ 3 := by
        have htop := topLevel_cases k
        rw [hp.level]
        omega
      obtain ⟨hkept, hthere, hno⟩ := allocPath_spec layout ht hp
        (Nat.le_of_eq hp.level) hrun
      have hkept := hkept.trans (.refl hkept.blocks.tree 3) hlevel
      rw [hrun] at h
      cases res₁ with
      | error e =>
        cases h
        refine ⟨hkept, nofun, fun hc => hno ?_⟩
        rw [Except.error.inj hc]
      | ok u =>
        simp only [hp.level, Nat.succ_ne_zero, if_false, Nat.add_sub_cancel, hp.last] at h
        cases h
        refine ⟨hkept, fun page ofs hc => ?_, nofun⟩
        cases hc
        have hall := hthere rfl
        rw [hp.level] at hall
        refine ⟨k, r, hp.k_lt, hp.r_lt, hp.o_lt, hblock,
          pathNid_dnodeOf hp fun i hi => hall i (by omega), ?_⟩
        exact hall (topLevel k) (Nat.lt_succ_self _)

/-- What `get_dnode_of_data` with `ALLOC_NODE` finds, and leaves. -/
theorem getDnodeOfDataAlloc_spec (ht : IndexTree s.index) (hb : b < 2 ^ 63)
    {res : Except AllocError (DataPage × Nat)}
    (h : getDnodeOfDataAlloc env layout s b = (res, s')) :
    AllocKept layout env 3 s s' ∧
      (∀ page ofs, res = .ok (page, ofs) → HoldsBlock layout s'.index page ofs b) ∧
      res ≠ .error (.lookup .enoent) := by
  rw [getDnodeOfDataAlloc, toLong_of_lt hb] at h
  cases hpath : getNodePath layout.addrsPerInode b with
  | none =>
    rw [hpath] at h
    cases h
    exact ⟨.refl ht _, nofun, by decide⟩
  | some p =>
    rw [hpath] at h
    exact allocDnode_spec ht hpath h

/-! ## The nodes of an allocation -/

theorem NodesGrown.refl (s : Index) : NodesGrown s s := ⟨List.Subset.refl _, fun _ => Or.inl⟩

theorem NodesGrown.trans {s s₁ s' : Index} (h : NodesGrown s s₁) (h' : NodesGrown s₁ s') :
    NodesGrown s s' := by
  refine ⟨List.Subset.trans h.nodes h'.nodes, fun m hm => ?_⟩
  rcases h'.nat m hm with hm₁ | hmem
  · exact (h.nat m hm₁).imp_right fun hmem => h'.nodes hmem
  · exact Or.inr hmem

theorem nat_setPathNid (s : Index) (offset : Nat → Nat) (nid i : Nat) :
    (setPathNid s offset nid i).nat = s.nat := by
  cases i <;> rfl

theorem pathNode_grown (layout : InodeLayout) (ht : IndexTree s.index) (hp : PathTo p k r o)
    (hn : n ≤ topLevel k)
    (hthere : PathThere s.index (offsetOf p) n) {res : Except AllocError Unit}
    (h : pathNode env (offsetOf p) n s = (res, s')) : NodesGrown s.index s'.index := by
  rcases pathNode_cases layout ht hp hn hthere h with
    ⟨hsame, -⟩ | ⟨nid, -, -, -, hindex, hlinked, -⟩
  · rw [hsame]
    exact .refl s.index
  · refine ⟨fun m hm => hlinked.nodes.symm.subset (List.mem_cons_of_mem nid hm), fun m hm => ?_⟩
    by_cases hnew : m = nid
    · exact Or.inr (hlinked.nodes.symm.subset (hnew ▸ List.mem_cons_self))
    · have hother : (newNode s.index nid).nat m = s.index.nat m := if_neg hnew
      rw [hindex, nat_setPathNid, hother] at hm
      exact Or.inl hm

theorem allocPath_grown (layout : InodeLayout) (ht : IndexTree s.index) (hp : PathTo p k r o) :
    ∀ {n : Nat} {s' : FileState} {res : Except AllocError Unit}, n ≤ topLevel k + 1 →
      allocPath env (offsetOf p) n s = (res, s') → NodesGrown s.index s'.index := by
  intro n
  induction n with
  | zero =>
    intro s' res _ h
    cases h
    exact .refl s.index
  | succ n ih =>
    intro s' res hn h
    rw [allocPath] at h
    cases hrun : allocPath env (offsetOf p) n s with
    | mk res₁ s₁ =>
      have hgrown := ih (Nat.le_of_succ_le hn) hrun
      obtain ⟨hkept, hthere, -⟩ := allocPath_spec layout ht hp (Nat.le_of_succ_le hn) hrun
      rw [hrun] at h
      cases res₁ with
      | error e =>
        cases h
        exact hgrown
      | ok u =>
        exact hgrown.trans (pathNode_grown layout hkept.blocks.tree hp (by omega) (hthere rfl) h)

theorem allocDnode_grown (ht : IndexTree s.index)
    (hpath : getNodePath layout.addrsPerInode b = some p) {res : Except AllocError (DataPage × Nat)}
    (h : allocDnode env s p = (res, s')) : NodesGrown s.index s'.index := by
  rw [allocDnode] at h
  cases hinode : env.reads.inodePage with
  | some e =>
    rw [hinode] at h
    cases h
    exact .refl s.index
  | none =>
    rw [hinode] at h
    simp only at h
    cases hrun : allocPath env (offsetOf p) p.level s with
    | mk res₁ s₁ =>
      have hgrown : NodesGrown s.index s₁.index := by
        by_cases hin : b < layout.addrsPerInode
        · obtain ⟨q, hq, hlevel, -⟩ := getNodePath_inode hin
          obtain rfl : q = p := Option.some.inj (hq.symm.trans hpath)
          rw [hlevel] at hrun
          cases hrun
          exact .refl s.index
        · have hmax := (getNodePath_some layout.api_le hpath).2.2
          obtain ⟨q, k, r, o, hq, hp, -⟩ := getNodePath_node (Nat.not_lt.mp hin) hmax
          obtain rfl : q = p := Option.some.inj (hq.symm.trans hpath)
          exact allocPath_grown layout ht hp (Nat.le_of_eq hp.level) hrun
      rw [hrun] at h
      cases res₁ with
      | error e =>
        cases h
        exact hgrown
      | ok u =>
        simp only at h
        split at h
        · cases h
          exact hgrown
        · cases h
          exact hgrown

/-- A lookup with `ALLOC_NODE` only adds nodes. -/
theorem getDnodeOfDataAlloc_grown (ht : IndexTree s.index) (hb : b < 2 ^ 63)
    {res : Except AllocError (DataPage × Nat)}
    (h : getDnodeOfDataAlloc env layout s b = (res, s')) : NodesGrown s.index s'.index := by
  rw [getDnodeOfDataAlloc, toLong_of_lt hb] at h
  cases hpath : getNodePath layout.addrsPerInode b with
  | none =>
    rw [hpath] at h
    cases h
    exact .refl s.index
  | some p =>
    rw [hpath] at h
    exact allocDnode_grown ht hpath h

end

/-! ## Writing to the slot of a block -/

section

variable {layout : InodeLayout} {s s' : Index} {page page' : DataPage} {ofs ofs' b b' j v : Nat}

theorem HoldsBlock.ofs_lt (h : HoldsBlock layout s page ofs b) :
    ofs < addrsPerPage layout page := by
  cases page with
  | inode => exact h.1
  | node nid =>
    obtain ⟨k, r, -, -, ho, -⟩ := h
    exact ho

theorem HoldsBlock.lt (h : HoldsBlock layout s page ofs b) :
    b < layout.addrsPerInode + maxFileBlocks := by
  cases page with
  | inode =>
    obtain ⟨hlt, rfl⟩ := h
    exact Nat.lt_add_right _ hlt
  | node nid =>
    obtain ⟨k, r, hk, hr, ho, rfl, -⟩ := h
    exact blockOf_lt layout hk hr ho

/-- Another slot of the page. -/
theorem HoldsBlock.add (h : HoldsBlock layout s page ofs b)
    (hj : ofs + j < addrsPerPage layout page) : HoldsBlock layout s page (ofs + j) (b + j) := by
  cases page with
  | inode => exact ⟨hj, congrArg (· + j) h.2⟩
  | node nid =>
    obtain ⟨k, r, hk, hr, -, rfl, hd⟩ := h
    exact ⟨k, r, hk, hr, hj, Nat.add_assoc _ _ _, hd⟩

theorem HoldsBlock.addr (h : HoldsBlock layout s page ofs b) (ht : IndexTree s) :
    blockAddr layout s b = dataAddr layout s page ofs := by
  cases page with
  | inode =>
    obtain ⟨hlt, rfl⟩ := h
    exact blockAddr_inode hlt
  | node nid =>
    obtain ⟨k, r, hk, hr, ho, rfl, rfl, h0⟩ := h
    rw [blockAddr_blockOf ht hk hr ho, if_neg h0, dataAddr]

/-- Block `b` has got the address `v`; nothing else changed. -/
structure AddrSet (layout : InodeLayout) (s s' : Index) (b v : Nat) : Prop where
  tree : IndexTree s'
  addr : ∀ c, c < 2 ^ 63 → blockAddr layout s' c = if c = b then v else blockAddr layout s c
  holds : ∀ page ofs c, HoldsBlock layout s page ofs c → HoldsBlock layout s' page ofs c

/-- Direct nodes stay where they are. -/
theorem HoldsBlock.of_dnodes (h : HoldsBlock layout s page ofs b)
    (hd : ∀ k r, k < defNidsPerInode → r < span (topLevel k) → dnodeOf s' k r = dnodeOf s k r) :
    HoldsBlock layout s' page ofs b := by
  cases page with
  | inode => exact h
  | node nid =>
    obtain ⟨k, r, hk, hr, ho, hb, hnid, h0⟩ := h
    exact ⟨k, r, hk, hr, ho, hb, hnid.trans (hd k r hk hr).symm, h0⟩

theorem setDataBlkaddr_inode (ht : IndexTree s) (hb : b < layout.addrsPerInode) (v : Nat) :
    AddrSet layout s (setDataBlkaddr layout s .inode b v) b v := by
  have ht' : IndexTree (setDataBlkaddr layout s .inode b v) :=
    ht.of_links (fun k _ => Links.refl _ _ _) rfl rfl
  refine ⟨ht', fun c hc => ?_, fun page ofs c h => h.of_dnodes fun k r _ _ => rfl⟩
  rcases block_cases layout c with hin | ⟨k, r, o, hk, hr, ho, rfl⟩ | hlarge
  · rw [blockAddr_inode hin, blockAddr_inode hin, dataAddr_setDataBlkaddr]
    simp only [true_and]
  · have hne : blockOf layout k r o ≠ b := by
      unfold blockOf
      omega
    rw [blockAddr_blockOf ht' hk hr ho, blockAddr_blockOf ht hk hr ho, if_neg hne]
    rfl
  · rw [blockAddr_large hlarge hc, blockAddr_large hlarge hc, if_neg (by omega)]

theorem setDataBlkaddr_node {k r o : Nat} (ht : IndexTree s) (hk : k < defNidsPerInode)
    (hr : r < span (topLevel k)) (ho : o < addrsPerBlock) (h0 : dnodeOf s k r ≠ 0) (v : Nat) :
    AddrSet layout s (setDataBlkaddr layout s (.node (dnodeOf s k r)) o v)
      (blockOf layout k r o) v := by
  have hword : ∀ m i, (setDataBlkaddr layout s (.node (dnodeOf s k r)) o v).word m i =
      if m = dnodeOf s k r ∧ i = o then v else s.word m i := fun m i => rfl
  have hiNid : (setDataBlkaddr layout s (.node (dnodeOf s k r)) o v).iNid = s.iNid := rfl
  have hiAddr : (setDataBlkaddr layout s (.node (dnodeOf s k r)) o v).iAddr = s.iAddr := rfl
  have hnat : (setDataBlkaddr layout s (.node (dnodeOf s k r)) o v).nat = s.nat := rfl
  generalize setDataBlkaddr layout s (.node (dnodeOf s k r)) o v = s₁ at *
  have hlinks := ht.dnode_links hk hr h0 fun m hm i =>
    (hword m i).trans (if_neg fun hc => hm hc.1)
  have ht₁ := ht.of_links hlinks hiNid hnat
  have hdnode : ∀ k r, k < defNidsPerInode → r < span (topLevel k) →
      dnodeOf s₁ k r = dnodeOf s k r := by
    intro k' r' hk' hr'
    unfold dnodeOf
    rw [hiNid]
    exact (hlinks k' hk').dnodeAt_eq hr'
  refine ⟨ht₁, fun c hc => ?_, fun page ofs c h => h.of_dnodes hdnode⟩
  rcases block_cases layout c with hin | ⟨k', r', o', hk', hr', ho', rfl⟩ | hlarge
  · have hne : c ≠ blockOf layout k r o := by
      unfold blockOf
      omega
    rw [blockAddr_inode hin, blockAddr_inode hin, if_neg hne, dataAddr, dataAddr, hiAddr]
  · rw [blockAddr_blockOf ht₁ hk' hr' ho', blockAddr_blockOf ht hk' hr' ho', hdnode k' r' hk' hr',
      hword]
    by_cases heq : blockOf layout k' r' o' = blockOf layout k r o
    · obtain ⟨rfl, rfl, rfl⟩ := blockOf_inj hk' hk hr' hr ho' ho heq
      rw [if_neg h0, if_pos ⟨rfl, rfl⟩, if_pos rfl]
    · rw [if_neg heq]
      by_cases h0' : dnodeOf s k' r' = 0
      · rw [if_pos h0', if_pos h0']
      · rw [if_neg h0', if_neg h0', if_neg]
        rintro ⟨hd, rfl⟩
        obtain ⟨rfl, rfl⟩ := ht.dnodeOf_inj hk hk' hr hr' h0 hd
        exact heq rfl
  · have hlt := blockOf_lt layout hk hr ho
    rw [blockAddr_large hlarge hc, blockAddr_large hlarge hc, if_neg (by omega)]

/-- `set_data_blkaddr` in the slot of a block. -/
theorem HoldsBlock.set (h : HoldsBlock layout s page ofs b) (ht : IndexTree s) (v : Nat) :
    AddrSet layout s (setDataBlkaddr layout s page ofs v) b v := by
  cases page with
  | inode =>
    obtain ⟨hlt, rfl⟩ := h
    exact setDataBlkaddr_inode ht hlt v
  | node nid =>
    obtain ⟨k, r, hk, hr, ho, rfl, rfl, h0⟩ := h
    exact setDataBlkaddr_node ht hk hr ho h0 v

/-! ### Nodes -/

/-- Words of the inode and of direct nodes have changed; the links are the same. -/
structure SameNodes (s s' : Index) : Prop where
  iNid : s'.iNid = s.iNid
  links : ∀ k, k < defNidsPerInode → Links s.word s'.word (topLevel k) (s.iNid k)
  nat : s'.nat = s.nat

theorem SameNodes.refl (s : Index) : SameNodes s s := ⟨rfl, fun _ _ => Links.refl _ _ _, rfl⟩

theorem SameNodes.trans {s₁ : Index} (h : SameNodes s s₁) (h' : SameNodes s₁ s') :
    SameNodes s s' := by
  refine ⟨h'.iNid.trans h.iNid, fun k hk => (h.links k hk).trans ?_, h'.nat.trans h.nat⟩
  have hlinks := h'.links k hk
  rw [h.iNid] at hlinks
  exact hlinks

theorem SameNodes.topNodes (h : SameNodes s s') : topNodes s' tops = topNodes s tops :=
  topNodes_of_links h.links h.iNid

theorem SameNodes.grown (h : SameNodes s s') : NodesGrown s s' := by
  refine ⟨fun m hm => ?_, fun m hm => Or.inl ?_⟩
  · rw [h.topNodes]
    exact hm
  · rw [← h.nat]
    exact hm

theorem SameNodes.tree (h : SameNodes s s') (ht : IndexTree s) : IndexTree s' :=
  ht.of_links h.links h.iNid h.nat

/-- A page that holds block addresses. -/
def IsDataPage (s : Index) : DataPage → Prop
  | .inode => True
  | .node nid => nid ≠ 0 ∧
    ∃ k r, k < defNidsPerInode ∧ r < span (topLevel k) ∧ nid = dnodeOf s k r

theorem HoldsBlock.isDataPage (h : HoldsBlock layout s page ofs b) : IsDataPage s page := by
  cases page with
  | inode => trivial
  | node nid =>
    obtain ⟨k, r, hk, hr, -, -, hnid, h0⟩ := h
    exact ⟨h0, k, r, hk, hr, hnid⟩

theorem SameNodes.isDataPage (h : SameNodes s s') (hpage : IsDataPage s page) :
    IsDataPage s' page := by
  cases page with
  | inode => trivial
  | node nid =>
    obtain ⟨h0, k, r, hk, hr, hnid⟩ := hpage
    refine ⟨h0, k, r, hk, hr, hnid.trans ?_⟩
    unfold dnodeOf
    rw [h.iNid, (h.links k hk).dnodeAt_eq hr]

variable (layout) in
/-- `set_data_blkaddr` changes no link. -/
theorem setDataBlkaddr_sameNodes (ht : IndexTree s) (hpage : IsDataPage s page) (ofs v : Nat) :
    SameNodes s (setDataBlkaddr layout s page ofs v) := by
  cases page with
  | inode => exact ⟨rfl, fun _ _ => Links.refl _ _ _, rfl⟩
  | node nid =>
    obtain ⟨h0, k, r, hk, hr, rfl⟩ := hpage
    refine ⟨rfl, ht.dnode_links hk hr h0 fun m hm i => ?_, rfl⟩
    exact if_neg fun hc => hm hc.1

end

end F2fs.File

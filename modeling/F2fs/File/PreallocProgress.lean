/-
  How far preallocation got.

  A run of `f2fs_map_blocks` for preallocation fills the first holes of the request, as many
  as `inc_valid_block_count` granted (`preDnodes_granted`).  `m_len` counts the slots of each
  batch up to the last one filled: blocks that have an address behind the last hole of a
  direct node, and all blocks of a batch that fails, are left out.  So it is the number of
  leading blocks that have an address, wherever a run may fail, exactly if the request is
  holes but for a tail in its last direct node (`prealloc_reports_iff`).
-/
import F2fs.File.Preallocate

namespace F2fs.File

open F2fs.Node F2fs.Truncate

/-! ## What a run fills -/

/-- The first `g` holes of a range have become `NEW_ADDR`, and nothing else changed. -/
structure Granted (layout : InodeLayout) (s s' : Index) (b n g : Nat) : Prop where
  tree : IndexTree s'
  le : g ≤ (holes layout s b n).length
  addr : ∀ c, c < 2 ^ 63 → blockAddr layout s' c =
    if c ∈ (holes layout s b n).take g then newAddr else blockAddr layout s c

section

variable {layout : InodeLayout} {s s' s₁ : Index} {b c g i j m n p : Nat}

theorem Granted.of_same (h : SameBlocks layout s s') (b n : Nat) :
    Granted layout s s' b n 0 := by
  refine ⟨h.tree, Nat.zero_le _, fun c hc => ?_⟩
  rw [List.take_zero, if_neg List.not_mem_nil]
  exact h.addr c hc

/-- The holes that are reached are the first ones. -/
theorem Reach.take_holes (h : Reach layout s b j g) (hj : j ≤ n) :
    (holes layout s b n).take g = holes layout s b j := by
  rw [show n = j + (n - j) by omega, holes_add, ← h.count, List.take_left]

theorem Reach.le_holes (h : Reach layout s b j g) (hj : j ≤ n) :
    g ≤ (holes layout s b n).length := by
  rw [show n = j + (n - j) by omega, holes_add, List.length_append, h.count]
  omega

theorem Granted.of_filled (h : Filled layout s s' b j) (hr : Reach layout s b j g) (hj : j ≤ n) :
    Granted layout s s' b n g :=
  ⟨h.tree, hr.le_holes hj, fun c hc => by rw [h.addr c hc, hr.take_holes hj]⟩

/-- Blocks behind those that were filled. -/
theorem Filled.addr_behind (h : Filled layout s s₁ b j) (hlt : c < 2 ^ 63) (hc : b + j ≤ c) :
    blockAddr layout s₁ c = blockAddr layout s c := by
  rw [h.addr c hlt, if_neg]
  rw [mem_holes]
  omega

/-- All holes of a batch, and then some of the rest. -/
theorem Granted.after (h : Granted layout s₁ s' (b + m) (n - m) g) (hf : Filled layout s s₁ b j)
    (hr : Reach layout s b j (holes layout s b m).length) (hj : j ≤ m) (hm : m ≤ n)
    (hlt : b + n ≤ 2 ^ 63) :
    Granted layout s s' b n ((holes layout s b m).length + g) := by
  have hrest : holes layout s₁ (b + m) (n - m) = holes layout s (b + m) (n - m) :=
    holes_congr fun c hc hcn => hf.addr_behind (by omega) (by omega)
  have hall : holes layout s b n = holes layout s b m ++ holes layout s (b + m) (n - m) := by
    rw [← holes_add, Nat.add_sub_cancel' hm]
  have hle := h.le
  rw [hrest] at hle
  refine ⟨h.tree, ?_, fun c hc => ?_⟩
  · rw [hall, List.length_append]
    exact Nat.add_le_add_left hle _
  · rw [h.addr c hc, hf.addr c hc, hrest, hall, List.take_length_add_append, ← hr.holes_eq hj]
    simp only [List.mem_append]
    by_cases hfirst : c ∈ holes layout s b m
    · rw [if_pos hfirst, if_pos (Or.inl hfirst), ite_self]
    · rw [if_neg hfirst]
      simp only [hfirst, false_or]

theorem Granted.addr_ne_null (h : Granted layout s s' b n g) (hc : c < 2 ^ 63)
    (hne : blockAddr layout s c ≠ nullAddr) : blockAddr layout s' c ≠ nullAddr := by
  rw [h.addr c hc]
  split
  · decide
  · exact hne

/-- A run of the walk. -/
theorem preDnodes_granted (layout : InodeLayout) : ∀ (fuel : Nat) (env : Nat → DnodeEnv)
    {n : Nat} {w : PreWalk}, IndexTree w.state.index → 0 < n → n ≤ fuel →
    w.pgofs + n ≤ 2 ^ 62 →
    ∃ g, (preDnodes layout fuel env n w).granted = w.granted + g ∧
      Granted layout w.state.index (preDnodes layout fuel env n w).state.index w.pgofs n g ∧
      ((preDnodes layout fuel env n w).err = none →
        g = (holes layout w.state.index w.pgofs n).length) := by
  intro fuel
  induction fuel with
  | zero => exact fun env n w _ h0 hn _ => absurd hn (by omega)
  | succ fuel ih =>
    intro env n w ht h0 hn hlt
    have hpos := dnodeRest_pos layout w.pgofs
    obtain ⟨m, hm⟩ : ∃ m, m = min n (dnodeRest layout w.pgofs) := ⟨_, rfl⟩
    obtain hfail | ⟨j, g, w', hfilled, hle, hrun⟩ := preDnodes_cases layout fuel env ht hlt hm
    · exact ⟨0, hfail.granted, .of_same hfail.blocks _ _, fun hc => absurd hc hfail.err⟩
    have hj := hfilled.le
    have hstop : ∀ err, Granted layout w.state.index (w'.stop err).state.index w.pgofs n g :=
      fun _ => .of_filled hfilled.filled hfilled.reach (by omega)
    rw [hrun, batchRest]
    by_cases hpart : g < (holes layout w.state.index w.pgofs m).length
    · rw [if_pos hpart]
      exact ⟨g, hfilled.granted, hstop _, nofun⟩
    obtain rfl : g = (holes layout w.state.index w.pgofs m).length := by omega
    rw [if_neg hpart]
    by_cases hend : n ≤ m
    · rw [if_pos hend]
      obtain rfl : m = n := by omega
      exact ⟨_, hfilled.granted, hstop _, fun _ => rfl⟩
    rw [if_neg hend]
    have hpgofs := hfilled.pgofs
    obtain ⟨g, hgranted, hafter, hdone⟩ := ih (fun i => env (i + 1)) (n := n - m)
      hfilled.filled.tree (by omega) (by omega) (by omega)
    rw [hpgofs] at hafter hdone
    refine ⟨(holes layout w.state.index w.pgofs m).length + g, ?_,
      hafter.after hfilled.filled hfilled.reach hj (by omega) (by omega), fun hc => ?_⟩
    · rw [hgranted, hfilled.granted, Nat.add_assoc]
    · rw [hdone hc, holes_congr fun c hcm hcn => hfilled.filled.addr_behind (by omega) (by omega),
        ← List.length_append, ← holes_add, show m + (n - m) = n by omega]

end

/-! ## Progress -/

/-- The number of leading blocks of a range that have an address. -/
def leading (layout : InodeLayout) (s : Index) (b n : Nat) : Nat :=
  ((List.range' b n).takeWhile fun c => blockAddr layout s c ≠ nullAddr).length

/-- Holes, and behind them a tail of blocks with addresses in which no direct node begins;
    the first block is a hole. -/
def HolesThenTail (layout : InodeLayout) (s : Index) (b n : Nat) : Prop :=
  ∃ k, (∀ i, i < n → (blockAddr layout s (b + i) = nullAddr ↔ i < k)) ∧
    ∀ i, i < n → i = 0 ∨ FirstInDnode layout (b + i) → i < k

section

variable {layout : InodeLayout} {s s' s₁ : Index} {b c g i j k m n : Nat}

theorem leading_add (h : ∀ i, i < m → blockAddr layout s (b + i) ≠ nullAddr) (hm : m ≤ n) :
    leading layout s b n = m + leading layout s (b + m) (n - m) := by
  unfold leading
  rw [show n = m + (n - m) by omega, ← List.range'_append_1, List.takeWhile_append_of_pos,
    List.length_append, List.length_range', Nat.add_sub_cancel_left]
  intro c hc
  rw [List.mem_range'_1] at hc
  obtain ⟨i, rfl⟩ := Nat.exists_eq_add_of_le hc.1
  exact decide_eq_true (h i (by omega))

theorem leading_hole (h : 0 < n → blockAddr layout s b = nullAddr) : leading layout s b n = 0 := by
  cases n with
  | zero => rfl
  | succ n =>
    unfold leading
    rw [List.range'_succ, List.takeWhile_cons_of_neg]
    · rfl
    · simp [h (Nat.succ_pos n)]

/-- Blocks with addresses up to a hole. -/
theorem leading_eq (h : ∀ i, i < j → blockAddr layout s (b + i) ≠ nullAddr) (hj : j ≤ n)
    (hhole : j < n → blockAddr layout s (b + j) = nullAddr) : leading layout s b n = j := by
  rw [leading_add h hj, leading_hole fun hpos => hhole (by omega)]
  rfl

theorem leading_pos (h : leading layout s b n = 0) (hn : 0 < n) :
    blockAddr layout s b = nullAddr := by
  by_contra hne
  have hlead := leading_add (m := 1) (fun i hi => by
    rw [Nat.lt_one_iff.mp hi]
    exact hne) hn
  omega

/-- Holes only reach as far as there are holes. -/
theorem Reach.eq_of_holes (h : Reach layout s b j g)
    (hk : ∀ i, i < j → blockAddr layout s (b + i) = nullAddr) : j = g := by
  have hall : holes layout s b j = List.range' b j := by
    unfold holes
    refine List.filter_eq_self.mpr fun c hc => ?_
    rw [List.mem_range'_1] at hc
    obtain ⟨i, rfl⟩ := Nat.exists_eq_add_of_le hc.1
    exact decide_eq_true (hk i (by omega))
  rw [← h.count, hall, List.length_range']

/-- In front of the tail every hole that is reached has only holes before it. -/
theorem Reach.prefix_holes (h : Reach layout s b j g) (hj : j ≤ n)
    (hk : ∀ i, i < n → (blockAddr layout s (b + i) = nullAddr ↔ i < k)) :
    j ≤ k ∧ j = g := by
  have hle : j ≤ k := by
    cases j with
    | zero => exact Nat.zero_le k
    | succ i => exact (hk i (by omega)).mp (h.last i rfl)
  exact ⟨hle, h.eq_of_holes fun i hi => (hk i (by omega)).mpr (by omega)⟩

/-- A reached block has got an address if it had none. -/
theorem Filled.ne_null (h : Filled layout s s' b j) (hj : b + j ≤ 2 ^ 63) (hi : i < j) :
    blockAddr layout s' (b + i) ≠ nullAddr := by
  rw [h.addr _ (by omega)]
  split
  · decide
  · rename_i hc
    rw [mem_holes] at hc
    exact fun hnull => hc ⟨by omega, hnull⟩

theorem HolesThenTail.behind (hk : ∀ i, i < n → (blockAddr layout s (b + i) = nullAddr ↔ i < k))
    (hfirst : ∀ i, i < n → i = 0 ∨ FirstInDnode layout (b + i) → i < k)
    (hf : Filled layout s s₁ b m) (hm : m < n) (hnode : FirstInDnode layout (b + m))
    (hlt : b + n ≤ 2 ^ 63) : HolesThenTail layout s₁ (b + m) (n - m) := by
  have hmk := hfirst m hm (Or.inr hnode)
  refine ⟨k - m, fun i hi => ?_, fun i hi h => ?_⟩
  · rw [hf.addr_behind (by omega) (by omega), Nat.add_assoc, hk (m + i) (by omega)]
    omega
  · rcases h with rfl | h
    · omega
    · rw [Nat.add_assoc] at h
      have := hfirst (m + i) (by omega) (Or.inr h)
      omega

/-- Where holes are followed by a tail only, a run that fails has counted the leading blocks
    that have an address. -/
theorem preDnodes_progress (layout : InodeLayout) : ∀ (fuel : Nat) (env : Nat → DnodeEnv)
    {n : Nat} {w : PreWalk}, IndexTree w.state.index → 0 < n → n ≤ fuel →
    w.pgofs + n ≤ 2 ^ 62 → HolesThenTail layout w.state.index w.pgofs n →
    (preDnodes layout fuel env n w).err ≠ none →
    (preDnodes layout fuel env n w).mLen =
      w.mLen + leading layout (preDnodes layout fuel env n w).state.index w.pgofs n ∧
    leading layout (preDnodes layout fuel env n w).state.index w.pgofs n < n := by
  intro fuel
  induction fuel with
  | zero => exact fun env n w _ h0 hn _ _ => absurd hn (by omega)
  | succ fuel ih =>
    intro env n w ht h0 hn hlt hcond herr
    obtain ⟨k, hk, hfirst⟩ := hcond
    have hpos := dnodeRest_pos layout w.pgofs
    obtain ⟨m, hm⟩ : ∃ m, m = min n (dnodeRest layout w.pgofs) := ⟨_, rfl⟩
    obtain hfail | ⟨j, g, w', hfilled, hle, hrun⟩ := preDnodes_cases layout fuel env ht hlt hm
    · have hhole : blockAddr layout w.state.index w.pgofs = nullAddr :=
        (hk 0 h0).mpr (hfirst 0 h0 (Or.inl rfl))
      rw [hfail.mLen, leading_hole fun _ => (hfail.blocks.addr _ (by omega)).trans hhole]
      exact ⟨rfl, h0⟩
    have hj := hfilled.le
    have hpgofs := hfilled.pgofs
    have hfill := hfilled.filled
    obtain ⟨hjk, rfl⟩ := hfilled.reach.prefix_holes (by omega : j ≤ n) hk
    rw [hrun, batchRest] at herr ⊢
    by_cases hpart : j < (holes layout w.state.index w.pgofs m).length
    · rw [if_pos hpart]
      -- the next hole is right behind the last one that was filled
      have hnext : j < k := by
        by_contra hge
        have hreach : Reach layout w.state.index w.pgofs j
            (holes layout w.state.index w.pgofs m).length := by
          refine ⟨?_, hfilled.reach.last⟩
          rw [show m = j + (m - j) by omega, holes_add, List.length_append]
          have hnone : holes layout w.state.index (w.pgofs + j) (m - j) = [] := by
            unfold holes
            refine List.filter_eq_nil_iff.mpr fun c hc => ?_
            rw [List.mem_range'_1] at hc
            obtain ⟨i, rfl⟩ := Nat.exists_eq_add_of_le hc.1
            rw [decide_eq_true_eq, Nat.add_assoc, hk (j + i) (by omega)]
            omega
          rw [hnone, List.length_nil, Nat.add_zero]
        have hcount := hreach.count
        rw [hfilled.reach.count] at hcount
        omega
      have hjm := holes_length_le layout w.state.index w.pgofs m
      rw [leading_eq (j := j) (fun i hi => ?_) (by omega) fun hjn => ?_]
      · exact ⟨hfilled.mLen, by omega⟩
      · exact hfill.ne_null (by omega) hi
      · show blockAddr layout w'.state.index (w.pgofs + j) = nullAddr
        rw [hfill.addr_behind (by omega) (Nat.le_refl _), hk j hjn]
        exact hnext
    rw [if_neg hpart] at herr ⊢
    by_cases hend : n ≤ m
    · rw [if_pos hend] at herr
      exact absurd rfl herr
    rw [if_neg hend] at herr ⊢
    -- the batch ends where a direct node does, so that all of it was holes
    have hnode : FirstInDnode layout (w.pgofs + m) := by
      rw [show m = dnodeRest layout w.pgofs by omega]
      exact firstInDnode_add_rest layout w.pgofs
    have hmk := hfirst m (by omega) (Or.inr hnode)
    obtain rfl : j = m := by
      have hall := Reach.eq_of_holes (g := (holes layout w.state.index w.pgofs m).length)
        ⟨rfl, fun i hi => (hk i (by omega)).mpr (by omega)⟩ fun i hi =>
          (hk i (by omega)).mpr (by omega)
      omega
    have hcond' := HolesThenTail.behind hk hfirst hfill (by omega) hnode (by omega)
    rw [← hpgofs] at hcond'
    obtain ⟨hlen, hlead⟩ := ih (fun i => env (i + 1)) (n := n - j) hfill.tree (by omega) (by omega)
      (by omega) hcond' herr
    obtain ⟨g, -, hgranted, -⟩ := preDnodes_granted layout fuel (fun i => env (i + 1))
      (n := n - j) hfill.tree (by omega) (by omega) (by omega)
    rw [hpgofs] at hlen hlead
    rw [hlen, hfilled.mLen, leading_add (n := n) (m := j) (fun i hi => ?_) (by omega)]
    · exact ⟨Nat.add_assoc _ _ _, by omega⟩
    · exact hgranted.addr_ne_null (by omega) (hfill.ne_null (by omega) hi)

end

/-! ## Environments -/

/-- Room for `c` blocks, or for a node. -/
def roomFor (c : Nat) : Space.SpaceState where
  sbi := {
    userBlockCount := UInt32.ofNat c
    totalValidBlockCount := 0
    allocValidBlockCount := 0
    reservedBlocks := 0
    currentReservedBlocks := 0
    rootReservedBlocks := 0
    reserveRoot := false
    totalNodeCount := 1
    totalValidNodeCount := 0 }
  inodes := fun _ => ⟨0, 0, 0⟩

/-- A lookup that reads and makes every node, with nids from `base` on, and a reservation for
    which other tasks have left `c` blocks. -/
def grantingEnv (base c : Nat) : DnodeEnv where
  node i := { nid := some (base + i), others := fun _ => roomFor 1 }
  caller := Space.plainCaller
  others := fun _ => roomFor c

/-- The inode page cannot be read. -/
def failingEnv : DnodeEnv where
  reads := { inodePage := some .eio }
  caller := Space.plainCaller

section

variable {layout : InodeLayout} {s s' : FileState} {p : NodePath} {page : DataPage}
  {base b c count k r o ofs n fuel m : Nat} {w : PreWalk}

/-- Other tasks have left room for the node. -/
theorem newNodePage_granting (base c : Nat) (s : FileState) (nid i : Nat) :
    ∃ space, newNodePage (grantingEnv base c) ((grantingEnv base c).node i) s nid =
      (.ok (), { s with index := newNode s.index nid, space := space }) := by
  obtain ⟨space, hrun⟩ : ∃ t, Space.incValidNodeCount (roomFor 1) (some s.ino) Space.plainCaller
      true false = (.ok (), t) := by
    have hblocks : ¬Space.wantedBlockCount (roomFor 1).sbi (some s.ino) Space.plainCaller >
        (roomFor 1).sbi.userBlockCount := by
      show ¬(0 : UInt32) + 0 + 1 + 0 > UInt32.ofNat 1
      decide
    have hquota : ¬(Space.nodeQuota (some s.ino) false && !true) = true := Bool.false_ne_true
    obtain ⟨t, hrun, -⟩ := Space.incValidNodeCount_ok hquota hblocks (by decide)
    exact ⟨t, hrun⟩
  refine ⟨space, ?_⟩
  simp only [newNodePage, grantingEnv, Bool.false_eq_true, if_false, Bool.not_true, hrun]

/-- All nodes of a path are read or made. -/
theorem allocPath_granting (layout : InodeLayout) (ht : IndexTree s.index)
    (hp : PathTo p k r o) (hbase : 0 < base) (hfresh : ∀ m ∈ topNodes s.index tops, m < base) :
    ∀ {n : Nat}, n ≤ topLevel k + 1 →
      ∃ s', allocPath (grantingEnv base c) (offsetOf p) n s = (.ok (), s') := by
  intro n
  induction n with
  | zero => exact fun _ => ⟨s, rfl⟩
  | succ n ih =>
    intro hn
    obtain ⟨s₁, hrun⟩ := ih (Nat.le_of_succ_le hn)
    obtain ⟨hkept, hthere, -⟩ := allocPath_spec layout ht hp (Nat.le_of_succ_le hn) hrun
    rw [allocPath, hrun]
    simp only
    unfold pathNode
    by_cases hslot : pathNid s₁.index (offsetOf p) n = 0
    · have hnid : allocNid ((grantingEnv base c).node n) s₁.index = some (base + n) := by
        refine Option.filter_eq_some_iff.mpr ⟨rfl, decide_eq_true ⟨by omega, fun hm => ?_⟩⟩
        rcases hkept.nodes _ hm with hm | ⟨i, hi, hnid⟩
        · have := hfresh _ hm
          omega
        · have : base + i = base + n := Option.some.inj hnid
          omega
      obtain ⟨space, hpage⟩ := newNodePage_granting base c s₁ (base + n) n
      rw [if_pos hslot, allocNode, hnid]
      simp only [hpage]
      exact ⟨_, rfl⟩
    · have hpath := pathNid_onPath hp (by omega : n ≤ topLevel k) fun i hi => by
        rcases Nat.lt_or_ge i n with hlt | hge
        · exact hthere rfl i hlt
        · obtain rfl : i = n := Nat.le_antisymm hi hge
          exact hslot
      have hread := (getNodePage_tree (grantingEnv base c).reads fun _ =>
        (hkept.blocks.tree.treeAt hp.k_lt).addr _ hpath.mem).2.2 rfl hslot
      rw [if_neg hslot, hread]
      exact ⟨_, rfl⟩

/-- A lookup that finds the page of a block. -/
theorem getDnodeOfDataAlloc_granting (hb : b < layout.addrsPerInode + maxFileBlocks)
    (ht : IndexTree s.index) (hbase : 0 < base) (hfresh : ∀ m ∈ topNodes s.index tops, m < base) :
    ∃ page ofs s', getDnodeOfDataAlloc (grantingEnv base c) layout s b = (.ok (page, ofs), s') := by
  rw [getDnodeOfDataAlloc, toLong_block hb]
  by_cases hin : b < layout.addrsPerInode
  · obtain ⟨p, hpath, hlevel, -⟩ := getNodePath_inode hin
    refine ⟨.inode, offsetOf p 0, s, ?_⟩
    rw [hpath, allocDnodeOfPath, allocDnode, hlevel]
    rfl
  · obtain ⟨p, k, r, o, hpath, hp, -⟩ := getNodePath_node (Nat.not_lt.mp hin) hb
    obtain ⟨s', hrun⟩ := allocPath_granting layout ht hp hbase hfresh (c := c)
      (Nat.le_of_eq hp.level)
    refine ⟨.node (pathNid s'.index (offsetOf p) (p.level - 1)), offsetOf p p.level, s', ?_⟩
    have hlevel : p.level ≠ 0 := by
      rw [hp.level]
      exact Nat.succ_ne_zero _
    have hread : (grantingEnv base c).reads.inodePage = none := rfl
    rw [hpath, allocDnodeOfPath, allocDnode, hread, hrun]
    simp only [if_neg hlevel]

theorem getDnodeOfDataAlloc_failing (layout : InodeLayout) (s : FileState) (b : Nat) :
    ∃ e, getDnodeOfDataAlloc failingEnv layout s b = (.error e, s) ∧ lookupErr e = some e := by
  rw [getDnodeOfDataAlloc]
  cases getNodePath layout.addrsPerInode (toLong b) with
  | none => exact ⟨_, rfl, rfl⟩
  | some p => exact ⟨_, rfl, rfl⟩

/-- Of `count` blocks as many are granted as there is room for. -/
theorem incValidBlockCount_room (ino : Nat) (h0 : 0 < count) (hc : 0 < c) (hcount : count < 2 ^ 16)
    (hlt : c < 2 ^ 16) : ∃ g t, Space.incValidBlockCount (roomFor c) ino Space.plainCaller true
      (UInt64.ofNat count) = (.ok g, t) ∧ g.toNat = min c count := by
  have hword : (UInt64.ofNat count).toNat = count := UInt64.toNat_ofNat_of_lt' (by
    have hmax : UInt64.size = 2 ^ 64 := rfl
    omega)
  have hroom : (Space.availUserBlockCount (roomFor c).sbi (some ino) Space.plainCaller).toNat =
      c := by
    show (UInt32.ofNat c - 0 - 0).toNat = c
    rw [UInt32.sub_zero, UInt32.sub_zero]
    exact UInt32.toNat_ofNat_of_lt' (by
      have hmax : UInt32.size = 2 ^ 32 := rfl
      omega)
  have hraised : (Space.raisedTotal (roomFor c) (UInt64.ofNat count)).toNat = count := by
    rw [Space.raisedTotal_toNat, hword]
    show (0 + count) % 2 ^ 32 = count
    omega
  by_cases hfit : Space.raisedTotal (roomFor c) (UInt64.ofNat count) >
      Space.availUserBlockCount (roomFor c).sbi (some ino) Space.plainCaller
  · have hexcess := Space.excess_toNat hfit
    have hgt := UInt32.lt_iff_toNat_lt.mp hfit
    rw [hroom, hraised] at hexcess hgt
    have hdiff : Space.excess (roomFor c) ino Space.plainCaller (UInt64.ofNat count) <
        UInt64.ofNat count := by
      rw [UInt64.lt_iff_toNat_lt, hexcess, hword]
      omega
    obtain ⟨t, hrun, -⟩ := Space.incValidBlockCount_part hfit hdiff
    refine ⟨_, t, hrun, ?_⟩
    rw [UInt64.toNat_sub_of_le _ _ (UInt64.le_of_lt hdiff), hexcess, hword]
    omega
  · obtain ⟨t, hrun, -⟩ := Space.incValidBlockCount_full hfit
    rw [gt_iff_lt, UInt32.lt_iff_toNat_lt, hroom, hraised] at hfit
    exact ⟨_, t, hrun, by omega⟩

theorem reserveNewBlocks_granting (layout : InodeLayout) (base : Nat) (s : FileState)
    (page : DataPage) (ofs : Nat) (hc : 0 < c) (hcount : count < 2 ^ 16) (hlt : c < 2 ^ 16) :
    ∃ last s', reserveNewBlocks layout (grantingEnv base c) s page ofs count =
      (.ok (last, min c count), s') := by
  unfold reserveNewBlocks
  by_cases h0 : count = 0
  · subst h0
    rw [if_pos rfl, Nat.min_zero]
    exact ⟨_, _, rfl⟩
  · obtain ⟨g, t, hrun, hg⟩ := incValidBlockCount_room s.ino (Nat.pos_of_ne_zero h0) hc hcount hlt
    simp only [if_neg h0, grantingEnv, Bool.false_eq_true, if_false, hrun, hg]
    exact ⟨_, _, rfl⟩

theorem nextBlocks_granting {s : Index} : ∀ {n : Nat} {b b' : Batch} {e : Option AllocError},
    nextBlocks layout (grantingEnv base c) s page n b = (e, b') → e = none := by
  intro n
  induction n with
  | zero =>
    intro b b' e h
    cases h
    rfl
  | succ n ih =>
    intro b b' e h
    rw [nextBlocks] at h
    split at h
    · cases h
      rfl
    · rw [if_neg fun hc => Bool.false_ne_true hc.2] at h
      exact ih h

/-- A batch with room for `c` blocks. -/
theorem preDnodes_granting (ht : IndexTree w.state.index)
    (hb : w.pgofs < layout.addrsPerInode + maxFileBlocks)
    (hlt : w.pgofs + n ≤ 2 ^ 62) (hbase : 0 < base)
    (hfresh : ∀ m ∈ topNodes w.state.index tops, m < base)
    (hm : m = min n (dnodeRest layout w.pgofs)) (hc : 0 < c) (hcm : c ≤ m) :
    ∃ j w', BatchFilled layout w w' m j
        (min c (holes layout w.state.index w.pgofs m).length) ∧
      ∀ fuel env, env 0 = grantingEnv base c → preDnodes layout (fuel + 1) env n w =
        batchRest layout fuel env n m (holes layout w.state.index w.pgofs m).length
          (min c (holes layout w.state.index w.pgofs m).length) w' := by
  obtain ⟨page, ofs, s, hfind⟩ := getDnodeOfDataAlloc_granting (c := c) hb ht hbase hfresh
  obtain ⟨hkept, hfound, -⟩ := getDnodeOfDataAlloc_spec ht (by omega) hfind
  have hpage := hfound page ofs rfl
  have hholes : holes layout s.index w.pgofs m = holes layout w.state.index w.pgofs m :=
    holes_congr (hkept.blocks_eq (by omega))
  have hsize : m ≤ 1018 := by
    have hapi := layout.api_le
    unfold defAddrsPerInode at hapi
    have hrest : dnodeRest layout w.pgofs ≤ 1018 := by
      unfold dnodeRest addrsPerBlock
      split <;> omega
    omega
  cases hscan : nextBlocks layout (grantingEnv base c) s.index page n ⟨ofs, 0, ofs, w.isNew⟩ with
  | mk e b =>
    obtain rfl := nextBlocks_granting hscan
    obtain ⟨m', hm', -, hprealloc, -⟩ := nextBlocks_spec hkept.blocks.tree (b := w.pgofs)
      (fun i hi => hpage.add hi) (Nat.le_of_lt hpage.ofs_lt) hscan
    have hrest := hpage.dnodeRest_eq
    have hlen := holes_length_le layout s.index w.pgofs m'
    simp only at hm' hprealloc
    obtain ⟨last, s', hrun⟩ := reserveNewBlocks_granting layout base s page ofs hc
      (by omega : b.prealloc < 2 ^ 16) (by omega)
    obtain ⟨hp, -, j, w', hfilled, heq⟩ := preBatch_reserved (w := { w with state := s })
      hkept.blocks.tree hpage hm hscan hrun
    rw [hp, hholes] at hfilled heq
    refine ⟨j, w', hfilled.of_found hkept.blocks (by omega), fun fuel env henv => ?_⟩
    rw [preDnodes, henv, hfind]
    exact heq _

/-- Nids that the tree does not have. -/
theorem exists_fresh (s : Index) : ∃ base, 0 < base ∧ ∀ m ∈ topNodes s tops, m < base := by
  refine ⟨(topNodes s tops).sum + 1, Nat.succ_pos _, fun m hm => ?_⟩
  exact Nat.lt_succ_of_le (List.single_le_sum (fun _ _ => Nat.zero_le _) m hm)

/-- How many of the first blocks of a range are holes. -/
theorem exists_holes (layout : InodeLayout) (s : Index) (b m : Nat) :
    ∃ q, q ≤ m ∧ (∀ i, i < q → blockAddr layout s (b + i) = nullAddr) ∧
      (q < m → blockAddr layout s (b + q) ≠ nullAddr) := by
  induction m with
  | zero => exact ⟨0, Nat.le_refl 0, fun i hi => absurd hi (Nat.not_lt_zero i), by omega⟩
  | succ m ih =>
    obtain ⟨q, hq, hholes, hstop⟩ := ih
    by_cases hlt : q < m
    · exact ⟨q, Nat.le_succ_of_le hq, hholes, fun _ => hstop hlt⟩
    obtain rfl : q = m := by omega
    by_cases hnull : blockAddr layout s (b + q) = nullAddr
    · refine ⟨q + 1, Nat.le_refl _, fun i hi => ?_, by omega⟩
      rcases Nat.lt_succ_iff_lt_or_eq.mp hi with hlt | rfl
      · exact hholes i hlt
      · exact hnull
    · exact ⟨q, Nat.le_succ q, hholes, fun _ => hnull⟩

/-- A lookup that fails ends the walk with what it has. -/
theorem preDnodes_failing (layout : InodeLayout) (fuel n : Nat) (w : PreWalk)
    (env : Nat → DnodeEnv) (henv : env 0 = failingEnv) :
    ∃ e, preDnodes layout (fuel + 1) env n w = w.stop (some e) := by
  obtain ⟨e, hrun, herr⟩ := getDnodeOfDataAlloc_failing layout w.state w.pgofs
  refine ⟨e, ?_⟩
  rw [preDnodes, henv, hrun, preFound, herr]

/-- A run that fails counts the leading blocks that have an address, whatever it meets. -/
def CountsLeading (layout : InodeLayout) (fuel n : Nat) (w : PreWalk) : Prop :=
  ∀ env, (preDnodes layout fuel env n w).err ≠ none →
    (preDnodes layout fuel env n w).mLen =
      w.mLen + leading layout (preDnodes layout fuel env n w).state.index w.pgofs n

/-- The first block is a hole: a run can fail at once. -/
theorem CountsLeading.first (h : CountsLeading layout (fuel + 1) n w) :
    leading layout w.state.index w.pgofs n = 0 := by
  obtain ⟨e, hrun⟩ := preDnodes_failing layout fuel n w (fun _ => failingEnv) rfl
  have hlen := h (fun _ => failingEnv) (by rw [hrun]; nofun)
  rw [hrun] at hlen
  have hlen : w.mLen = w.mLen + leading layout w.state.index w.pgofs n := hlen
  omega

/-- The holes of the first batch are its first blocks: a run can get just the holes in front
    of the first block that has an address. -/
theorem CountsLeading.batch (h : CountsLeading layout (fuel + 1) n w)
    (ht : IndexTree w.state.index) (hb : w.pgofs < layout.addrsPerInode + maxFileBlocks)
    (hlt : w.pgofs + n ≤ 2 ^ 62) (hm : m = min n (dnodeRest layout w.pgofs)) (h0 : 0 < n) :
    ∃ q, 0 < q ∧ q ≤ m ∧ (holes layout w.state.index w.pgofs m).length = q ∧
      ∀ i, i < m → (blockAddr layout w.state.index (w.pgofs + i) = nullAddr ↔ i < q) := by
  have hpos := dnodeRest_pos layout w.pgofs
  have hfirst := leading_pos h.first h0
  obtain ⟨base, hbase, hfresh⟩ := exists_fresh w.state.index
  obtain ⟨q, hq, hholes, hstop⟩ := exists_holes layout w.state.index w.pgofs m
  have hq0 : 0 < q := by
    by_contra hz
    obtain rfl : q = 0 := by omega
    exact hstop (by omega) hfirst
  have hreach : Reach layout w.state.index w.pgofs q q := by
    refine ⟨?_, fun i hi => hholes i (by omega)⟩
    exact (Reach.eq_of_holes ⟨rfl, fun i hi => hholes i (by omega)⟩ hholes).symm
  have hle := hreach.le_holes hq
  have hcount : (holes layout w.state.index w.pgofs m).length = q := by
    by_contra hne
    obtain ⟨j, w', hfilled, hall⟩ := preDnodes_granting ht hb hlt hbase hfresh hm hq0 hq
    have hrun := hall fuel (fun _ => grantingEnv base q) rfl
    rw [Nat.min_eq_left hle] at hfilled hrun
    obtain rfl := hfilled.reach.inj hreach
    rw [batchRest, if_pos (by omega)] at hrun
    have hlen := h (fun _ => grantingEnv base j) (by rw [hrun]; nofun)
    rw [hrun] at hlen
    have hlen : w'.mLen = w.mLen + leading layout w'.state.index w.pgofs n := hlen
    have hmlt : j < m := by
      have := holes_length_le layout w.state.index w.pgofs m
      omega
    -- block `j` had an address and keeps it
    rw [hfilled.mLen, leading_add (m := j + 1) (fun i hi => ?_) (by omega)] at hlen
    · omega
    · rcases Nat.lt_succ_iff_lt_or_eq.mp hi with hlt' | rfl
      · exact hfilled.filled.ne_null (by omega) hlt'
      · rw [hfilled.filled.addr_behind (by omega) (Nat.le_refl _)]
        exact hstop hmlt
  refine ⟨q, hq0, hq, hcount, fun i hi => ⟨fun hnull => ?_, hholes i⟩⟩
  rw [← hcount] at hreach
  have hmem : w.pgofs + i ∈ holes layout w.state.index w.pgofs m :=
    mem_holes.mpr ⟨by omega, hnull⟩
  rw [hreach.holes_eq (by omega), hcount, mem_holes] at hmem
  omega

/-- A first batch that is not the last one is all holes: a run can get all of it and fail in
    the next lookup.  The rest counts right, too. -/
theorem CountsLeading.next (h : CountsLeading layout (fuel + 1) n w)
    (ht : IndexTree w.state.index) (hb : w.pgofs < layout.addrsPerInode + maxFileBlocks)
    (hn : n ≤ fuel + 1) (hlt : w.pgofs + n ≤ 2 ^ 62) (hm : m = min n (dnodeRest layout w.pgofs))
    (hmn : m < n) :
    (∀ i, i < m → blockAddr layout w.state.index (w.pgofs + i) = nullAddr) ∧
      ∃ w', Filled layout w.state.index w'.state.index w.pgofs m ∧ w'.pgofs = w.pgofs + m ∧
        CountsLeading layout fuel (n - m) w' := by
  have hpos := dnodeRest_pos layout w.pgofs
  obtain ⟨q, hq0, hq, hcount, hholes⟩ := h.batch ht hb hlt hm (by omega)
  obtain ⟨base, hbase, hfresh⟩ := exists_fresh w.state.index
  obtain ⟨j, w', hfilled, hall⟩ := preDnodes_granting ht hb hlt hbase hfresh hm hq0 hq
  rw [hcount, Nat.min_self] at hfilled hall
  have hpgofs := hfilled.pgofs
  have hmLen := hfilled.mLen
  obtain rfl : j = q := (hfilled.reach.prefix_holes hfilled.le hholes).2
  -- the batch has no hole left
  have hfill : ∀ i, i < m → blockAddr layout w'.state.index (w.pgofs + i) ≠ nullAddr := by
    intro i hi
    by_cases hij : i < j
    · exact hfilled.filled.ne_null (by omega) hij
    · rw [hfilled.filled.addr_behind (by omega) (by omega)]
      exact fun hnull => hij ((hholes i hi).mp hnull)
  have hrest : ∀ env, (preDnodes layout fuel env (n - m) w').err ≠ none →
      (preDnodes layout fuel env (n - m) w').mLen = w.mLen + (m + leading layout
        (preDnodes layout fuel env (n - m) w').state.index w'.pgofs (n - m)) := by
    intro env herr
    have hrun := hall fuel (fun i => if i = 0 then grantingEnv base j else env (i - 1)) rfl
    rw [batchRest, if_neg (Nat.lt_irrefl j), if_neg (by omega)] at hrun
    have hlen := h (fun i => if i = 0 then grantingEnv base j else env (i - 1)) (by
      rw [hrun]
      exact herr)
    rw [hrun] at hlen
    obtain ⟨g, -, hgranted, -⟩ := preDnodes_granted layout fuel env (n := n - m)
      hfilled.filled.tree (by omega) (by omega) (by omega)
    rw [hpgofs, ← leading_add (fun i hi =>
      hgranted.addr_ne_null (by omega) (hfill i hi)) (Nat.le_of_lt hmn)]
    exact hlen
  obtain ⟨fuel, rfl⟩ : ∃ f, fuel = f + 1 := ⟨fuel - 1, by omega⟩
  obtain ⟨e, hstop⟩ := preDnodes_failing layout fuel (n - m) w' (fun _ => failingEnv) rfl
  have hlen := hrest (fun _ => failingEnv) (by rw [hstop]; nofun)
  rw [hstop] at hlen
  have hlen : w'.mLen = w.mLen + (m + _) := hlen
  obtain rfl : j = m := by omega
  refine ⟨fun i hi => (hholes i hi).mpr hi, w', hfilled.filled, hpgofs, fun env herr => ?_⟩
  rw [hrest env herr, hmLen, Nat.add_assoc]

/-- Only where holes are followed by a tail does every run that fails count right. -/
theorem CountsLeading.holesThenTail : ∀ {fuel n : Nat} {w : PreWalk},
    CountsLeading layout fuel n w → IndexTree w.state.index → n ≤ fuel →
    w.pgofs + n ≤ 2 ^ 62 → HolesThenTail layout w.state.index w.pgofs n := by
  intro fuel
  induction fuel with
  | zero =>
    intro n w _ _ hn _
    exact ⟨0, fun i hi => by omega, fun i hi => by omega⟩
  | succ fuel ih =>
    intro n w h ht hn hlt
    rcases Nat.eq_zero_or_pos n with rfl | h0
    · exact ⟨0, fun i hi => by omega, fun i hi => by omega⟩
    by_cases hb : w.pgofs < layout.addrsPerInode + maxFileBlocks
    swap
    · refine ⟨n, fun i hi => ?_, fun i hi _ => hi⟩
      exact iff_of_true (blockAddr_large (by omega) (by omega)) hi
    have hpos := dnodeRest_pos layout w.pgofs
    obtain ⟨m, hm⟩ : ∃ m, m = min n (dnodeRest layout w.pgofs) := ⟨_, rfl⟩
    by_cases hend : n ≤ m
    · obtain ⟨q, hq0, -, -, hholes⟩ := h.batch ht hb hlt hm h0
      obtain rfl : n = m := by omega
      refine ⟨q, hholes, fun i hi hfirst => ?_⟩
      rcases hfirst with rfl | hfirst
      · exact hq0
      · by_contra hge
        exact not_firstInDnode (by omega) (by omega) hfirst
    obtain ⟨hholes, w', hfilled, hpgofs, hnext⟩ := h.next ht hb hn hlt hm (by omega)
    obtain ⟨k, hk, hfirst⟩ := ih hnext hfilled.tree (by omega) (by omega)
    rw [hpgofs] at hk hfirst
    refine ⟨m + k, fun i hi => ?_, fun i hi hnode => ?_⟩
    · by_cases him : i < m
      · exact iff_of_true (hholes i him) (by omega)
      · have hbehind := hk (i - m) (by omega)
        rw [Nat.add_assoc, Nat.add_sub_cancel' (Nat.not_lt.mp him),
          hfilled.addr_behind (by omega) (by omega)] at hbehind
        rw [hbehind]
        omega
    · by_cases him : i < m
      · omega
      · have hbehind := hfirst (i - m) (by omega)
        rw [Nat.add_assoc, Nat.add_sub_cancel' (Nat.not_lt.mp him)] at hbehind
        rcases hnode with rfl | hnode
        · omega
        · have := hbehind (Or.inr hnode)
          omega

end

/-! ## What the calls report -/

/-- What `f2fs_map_blocks` should report of a request of `n` blocks from block `b` on: a
    success leaves no hole, exactly the granted blocks changed, and `m_len` says after a
    failure how many leading blocks have an address. -/
structure PreallocReports (layout : InodeLayout) (s : FileState) (b n : Nat) (r : PreResult) :
    Prop where
  complete : r.err = none → ∀ i, i < n → blockAddr layout r.state.index (b + i) ≠ nullAddr
  granted : Granted layout s.index r.state.index b n r.granted
  progress : r.err ≠ none → r.mLen = leading layout r.state.index b n

/-- What `expand_inode_data` should make of a failure behind the mapping of blocks: the file
    reaches up to the failed position, if there is a block before it. -/
structure ExpandReports (layout : InodeLayout) (iSize : Nat) (call : FallocCall) (env : ExpandEnv)
    (r : ExpandResult) : Prop where
  size : env.newsize = none → env.convert = none → r.err ≠ none → r.iSize =
    if call.keepSize = true ∨
        leading layout r.state.index call.mLblk.toNat call.mLen.toNat = 0 then iSize
    else max iSize ((call.mLblk.toNat +
      leading layout r.state.index call.mLblk.toNat call.mLen.toNat) * 4096)
  /-- no block without an address comes to lie within the file -/
  within : r.err ≠ none → ∀ i, i < call.mLen.toNat →
    blockAddr layout r.state.index (call.mLblk.toNat + i) = nullAddr →
    r.iSize ≤ max iSize ((call.mLblk.toNat + i) * 4096)

section

variable {layout : InodeLayout} {s s' : FileState} {lblk len : UInt32} {b c g i n : Nat}

theorem Granted.complete {s s' : Index} (h : Granted layout s s' b n (holes layout s b n).length)
    (hlt : b + n ≤ 2 ^ 63) (hi : i < n) : blockAddr layout s' (b + i) ≠ nullAddr := by
  rw [h.addr _ (by omega), List.take_length]
  split
  · decide
  · rename_i hc
    rw [mem_holes] at hc
    exact fun hnull => hc ⟨by omega, hnull⟩

/-- The leading blocks end in front of every hole. -/
theorem leading_le_of_hole {s : Index} (h : blockAddr layout s (b + i) = nullAddr) :
    leading layout s b n ≤ i := by
  by_contra hgt
  have hlt : i < ((List.range' b n).takeWhile fun c => blockAddr layout s c ≠ nullAddr).length :=
    Nat.not_le.mp hgt
  have hmem := List.mem_takeWhile_imp (List.getElem_mem hlt)
  rw [(List.takeWhile_prefix _).getElem hlt, List.getElem_range', Nat.one_mul,
    decide_eq_true_eq] at hmem
  exact hmem h

theorem preallocBlocks_eq (env : Nat → DnodeEnv) (s : FileState) (lblk : UInt32)
    (h0 : 0 < len.toNat) : preallocBlocks layout env s lblk len =
      preDnodes layout len.toNat env len.toNat ⟨s, lblk.toNat, 0, false, 0⟩ := by
  refine if_neg fun hz => ?_
  rw [hz, UInt32.toNat_zero] at h0
  exact Nat.lt_irrefl 0 h0

theorem preallocBlocks_zero (env : Nat → DnodeEnv) (s : FileState) (lblk : UInt32)
    (h0 : len.toNat = 0) : preallocBlocks layout env s lblk len = ⟨none, s, 0, false, 0⟩ :=
  if_pos (UInt32.toNat_inj.mp h0)

/-- What holds of every request. -/
theorem preallocBlocks_granted (layout : InodeLayout) (env : Nat → DnodeEnv) (lblk len : UInt32)
    (ht : IndexTree s.index) :
    ((preallocBlocks layout env s lblk len).err = none → ∀ i, i < len.toNat →
      blockAddr layout (preallocBlocks layout env s lblk len).state.index (lblk.toNat + i) ≠
        nullAddr) ∧
    Granted layout s.index (preallocBlocks layout env s lblk len).state.index lblk.toNat len.toNat
      (preallocBlocks layout env s lblk len).granted := by
  have hlblk := lblk.toNat_lt
  have hlen := len.toNat_lt
  rcases Nat.eq_zero_or_pos len.toNat with h0 | h0
  · rw [preallocBlocks_zero env s lblk h0, h0]
    exact ⟨fun _ i hi => absurd hi (Nat.not_lt_zero i), .of_same (.refl ht) _ _⟩
  · rw [preallocBlocks_eq env s lblk h0]
    obtain ⟨g, hg, hgranted, hdone⟩ := preDnodes_granted layout len.toNat env (n := len.toNat)
      (w := ⟨s, lblk.toNat, 0, false, 0⟩) ht h0 (Nat.le_refl _) (by
        show lblk.toNat + len.toNat ≤ 2 ^ 62
        omega)
    have hg : _ = 0 + g := hg
    rw [hg, Nat.zero_add]
    refine ⟨fun herr i hi => ?_, hgranted⟩
    have hall := hgranted
    rw [hdone herr] at hall
    exact hall.complete (by
      show lblk.toNat + len.toNat ≤ 2 ^ 63
      omega) hi

/-- Requests that are holes but for a tail. -/
theorem HolesThenTail.progress (h : HolesThenTail layout s.index lblk.toNat len.toNat)
    (ht : IndexTree s.index) (env : Nat → DnodeEnv)
    (herr : (preallocBlocks layout env s lblk len).err ≠ none) :
    (preallocBlocks layout env s lblk len).mLen =
      leading layout (preallocBlocks layout env s lblk len).state.index lblk.toNat len.toNat ∧
    leading layout (preallocBlocks layout env s lblk len).state.index lblk.toNat len.toNat <
      len.toNat := by
  have hlblk := lblk.toNat_lt
  have hlen := len.toNat_lt
  rcases Nat.eq_zero_or_pos len.toNat with h0 | h0
  · rw [preallocBlocks_zero env s lblk h0] at herr
    exact absurd rfl herr
  · rw [preallocBlocks_eq env s lblk h0] at herr ⊢
    obtain ⟨hmLen, hlt⟩ := preDnodes_progress layout len.toNat env (n := len.toNat)
      (w := ⟨s, lblk.toNat, 0, false, 0⟩) ht h0 (Nat.le_refl _) (by
        show lblk.toNat + len.toNat ≤ 2 ^ 62
        omega) h herr
    have hmLen : _ = 0 + leading layout _ lblk.toNat len.toNat := hmLen
    rw [Nat.zero_add] at hmLen
    exact ⟨hmLen, hlt⟩

/-! ### Requests of `expand_inode_data` -/

section

variable (call : FallocCall)

theorem FallocCall.pgEnd_le : call.pgEnd ≤ maxFileBlocks := by
  have hfits := call.fits
  unfold FallocCall.pgEnd
  omega

theorem FallocCall.mLblk_toNat : call.mLblk.toNat = call.offset / 4096 := by
  have hfits := call.fits
  have hmax : maxFileBlocks = 1057052516 := rfl
  exact UInt32.toNat_ofNat_of_lt' (by
    have hsize : UInt32.size = 2 ^ 32 := rfl
    omega)

theorem FallocCall.mLen_toNat : call.mLen.toNat =
    call.pgEnd - call.offset / 4096 + if call.offEnd ≠ 0 then 1 else 0 := by
  have hend := call.pgEnd_le
  have hmax : maxFileBlocks = 1057052516 := rfl
  have hlen : (UInt32.ofNat (call.pgEnd - call.mLblk.toNat)).toNat =
      call.pgEnd - call.offset / 4096 := by
    rw [call.mLblk_toNat]
    exact UInt32.toNat_ofNat_of_lt' (by
      have hsize : UInt32.size = 2 ^ 32 := rfl
      omega)
  unfold FallocCall.mLen
  simp only
  split
  · rw [UInt32.toNat_add, hlen, UInt32.toNat_one]
    omega
  · rw [hlen, Nat.add_zero]

end

/-- The size that a failed mapping of `m` blocks leads to; the whole request was not mapped. -/
theorem newSize_failed (call : FallocCall) {r : PreResult} (herr : r.err ≠ none)
    (hlt : r.mLen < call.mLen.toNat) : newSize call r =
      if r.mLen = 0 then none else some ((call.mLblk.toNat + r.mLen) * 4096) := by
  have hend := call.pgEnd_le
  have hmax : maxFileBlocks = 1057052516 := rfl
  have hlen := call.mLen_toNat
  have hlblk := call.mLblk_toNat
  have hle : call.offset / 4096 ≤ call.pgEnd := Nat.div_le_div_right (Nat.le_add_right _ _)
  unfold newSize
  rw [if_neg herr]
  by_cases h0 : r.mLen = 0
  · rw [if_pos h0, if_pos h0]
  have hbound : call.mLblk.toNat + r.mLen ≤ call.pgEnd := by
    rw [hlen] at hlt
    split at hlt <;> omega
  have hword : (UInt32.ofNat r.mLen).toNat = r.mLen := UInt32.toNat_ofNat_of_lt' (by
    have hsize : UInt32.size = 2 ^ 32 := rfl
    omega)
  have hsum : (call.mLblk + UInt32.ofNat r.mLen).toNat = call.mLblk.toNat + r.mLen := by
    rw [UInt32.toNat_add, hword]
    omega
  have hlast : (call.mLblk + UInt32.ofNat r.mLen - 1).toNat = call.mLblk.toNat + r.mLen - 1 := by
    rw [UInt32.toNat_sub_of_le _ _ (UInt32.le_iff_toNat_le.mpr (by
      rw [hsum, UInt32.toNat_one]
      omega)), hsum, UInt32.toNat_one]
  rw [if_neg h0, if_neg h0]
  simp only [hlast]
  rw [if_neg (by omega), Nat.sub_add_cancel (by omega)]

/-- A failure that counts right. -/
theorem expandMapped_reports (call : FallocCall) (env : ExpandEnv) (iSize : Nat) {r : PreResult}
    (h : r.err ≠ none →
      r.mLen = leading layout r.state.index call.mLblk.toNat call.mLen.toNat ∧
        leading layout r.state.index call.mLblk.toNat call.mLen.toNat < call.mLen.toNat) :
    ExpandReports layout iSize call env (expandMapped iSize call r) := by
  have herr : (expandMapped iSize call r).err = r.err := by
    unfold expandMapped
    split
    · rfl
    · split
      · split <;> rfl
      · rfl
  have hstate : (expandMapped iSize call r).state = r.state := by
    unfold expandMapped
    split
    · rfl
    · split
      · split <;> rfl
      · rfl
  have hsize : r.err ≠ none → (expandMapped iSize call r).iSize =
      if call.keepSize = true ∨ leading layout r.state.index call.mLblk.toNat call.mLen.toNat = 0
        then iSize
      else max iSize ((call.mLblk.toNat +
        leading layout r.state.index call.mLblk.toNat call.mLen.toNat) * 4096) := by
    intro hfailed
    obtain ⟨hmLen, hlt⟩ := h hfailed
    rw [← hmLen] at hlt ⊢
    rw [expandMapped, newSize_failed call hfailed hlt]
    by_cases h0 : r.mLen = 0
    · rw [if_pos h0, if_pos (Or.inr h0)]
    rw [if_neg h0]
    simp only [h0, or_false]
    split
    · split
      · rfl
      · rw [Nat.max_eq_right (by omega)]
    · rw [Nat.max_eq_left (by omega), ite_self]
  refine ⟨fun _ _ hfailed => ?_, fun hfailed i _ hhole => ?_⟩
  · rw [herr] at hfailed
    rw [hstate]
    exact hsize hfailed
  · rw [herr] at hfailed
    rw [hstate] at hhole
    rw [hsize hfailed]
    have hle := leading_le_of_hole (n := call.mLen.toNat) hhole
    split
    · exact Nat.le_max_left _ _
    · exact max_le_max_left iSize (Nat.mul_le_mul_right 4096 (Nat.add_le_add_left hle _))

/-- A call whose request counts right. -/
theorem expandInodeData_reports (call : FallocCall) (env : ExpandEnv) (iSize : Nat)
    (h : HolesThenTail layout s.index call.mLblk.toNat call.mLen.toNat)
    (ht : IndexTree s.index) :
    ExpandReports layout iSize call env (expandInodeData layout env s iSize call) := by
  unfold expandInodeData
  split
  · rename_i e _ hnew
    refine ⟨fun hc => ?_, fun _ i _ _ => Nat.le_max_left _ _⟩
    rw [hnew] at hc
    cases hc
  · rename_i e _ hconvert
    refine ⟨fun _ hc => ?_, fun _ i _ _ => Nat.le_max_left _ _⟩
    rw [hconvert] at hc
    cases hc
  · exact expandMapped_reports call env iSize (h.progress ht env.dnodes)

/-- Every call reports how far preallocation got, whatever it meets, exactly if the request is
    holes but for a tail behind the last hole of its last direct node. -/
theorem prealloc_reports_iff (layout : InodeLayout) (s : FileState) (lblk len : UInt32)
    (ht : IndexTree s.index) :
    ((∀ env, PreallocReports layout s lblk.toNat len.toNat (preallocBlocks layout env s lblk len)) ∧
      ∀ (call : FallocCall) (env : ExpandEnv) (iSize : Nat), call.mLblk = lblk →
        call.mLen = len →
        ExpandReports layout iSize call env (expandInodeData layout env s iSize call)) ↔
      HolesThenTail layout s.index lblk.toNat len.toNat := by
  constructor
  · rintro ⟨h, -⟩
    have hlblk := lblk.toNat_lt
    have hlen := len.toNat_lt
    rcases Nat.eq_zero_or_pos len.toNat with h0 | h0
    · rw [h0]
      exact ⟨0, fun i hi => by omega, fun i hi => by omega⟩
    have hcounts : CountsLeading layout len.toNat len.toNat ⟨s, lblk.toNat, 0, false, 0⟩ := by
      intro env herr
      have hreport := (h env).progress
      rw [preallocBlocks_eq env s lblk h0] at hreport
      exact (hreport herr).trans (Nat.zero_add _).symm
    exact hcounts.holesThenTail ht (Nat.le_refl _) (by
      show lblk.toNat + len.toNat ≤ 2 ^ 62
      omega)
  · intro h
    refine ⟨fun env => ?_, fun call env iSize hlblk hlen => ?_⟩
    · obtain ⟨hcomplete, hgranted⟩ := preallocBlocks_granted layout env lblk len ht
      exact ⟨hcomplete, hgranted, fun herr => (h.progress ht env herr).1⟩
    · subst hlblk hlen
      exact expandInodeData_reports call env iSize h ht

end

/-- A file without nodes. -/
theorem indexTree_of_inode {s : Index} (h : s.iNid = fun _ => 0) : IndexTree s := by
  have hnone : topNodes s tops = [] := by
    refine List.flatMap_eq_nil_iff.mpr fun k _ => ?_
    rw [h, nodesOf_missing]
  refine ⟨?_, fun m hm => ?_⟩
  · rw [hnone]
    exact List.nodup_nil
  · rw [hnone] at hm
    cases hm

def plainLayout : InodeLayout := ⟨0, 923, InodeLayout.plain_fits⟩

/-- A file with block 0 only, on a volume without room. -/
def oneBlock : FileState where
  ino := 4
  index := ⟨fun i => if i = 0 then 500 else 0, fun _ => 0, fun _ _ => 0, fun _ => 0, [], 0, 0, 0⟩
  space := roomFor 0

/-- Nothing fails but for lack of room. -/
def plainEnv : DnodeEnv where
  caller := Space.plainCaller

/-- Block 0 has an address; the first hole of the request is block 1. -/
theorem oneBlock_miscounted : ¬PreallocReports plainLayout oneBlock 0 2
    (preallocBlocks plainLayout (fun _ => plainEnv) oneBlock 0 2) := by
  intro h
  have hlen := h.progress (by decide +kernel)
  exact absurd hlen (by decide +kernel)

/-- A request behind the only block of the file. -/
theorem oneBlock_reports : HolesThenTail plainLayout oneBlock.index 1 2 ∧
    ∀ env, PreallocReports plainLayout oneBlock 1 2
      (preallocBlocks plainLayout env oneBlock 1 2) := by
  have hcond : HolesThenTail plainLayout oneBlock.index 1 2 :=
    ⟨2, by decide +kernel, fun i hi _ => hi⟩
  exact ⟨hcond, ((prealloc_reports_iff plainLayout oneBlock 1 2 (indexTree_of_inode rfl)).mpr
    hcond).1⟩

end F2fs.File

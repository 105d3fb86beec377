/-
  `truncate_inode_blocks` cuts the index tree of an inode.

  The five trees of the inode follow each other in the numbering of direct nodes.
  `TopsCut s s' K cut` is a cut through the trees `K`.  A call for a block in direct node
  `q` cuts at `cutOf s q`: at `q`, or at the first direct node below the first missing
  node on the way to `q`.
-/
import F2fs.Truncate.Cut

namespace F2fs.Truncate

open F2fs.Node

/-! ## The trees of an inode -/

/-- The level of the node at `i_nid[k]`. -/
def topLevel : Nat → Nat
  | 0 | 1 => 0
  | 2 | 3 => 1
  | _ => 2

/-- The number of the first direct node below `i_nid[k]`. -/
def topBase : Nat → Nat
  | 0 => 0
  | 1 => 1
  | 2 => 2
  | 3 => 2 + nidsPerBlock
  | _ => 2 + 2 * nidsPerBlock

theorem topBase_eq (k : Nat) :
    topBase k = if k ≤ 2 then k else if k = 3 then 1020 else 2038 := by
  rcases k with _ | _ | _ | _ | k
  · rfl
  · rfl
  · rfl
  · rfl
  · rw [if_neg (by omega), if_neg (by omega)]
    rfl

def tops : List Nat := List.range defNidsPerInode

/-- The nodes of the trees `K`. -/
def topNodes (s : Index) (K : List Nat) : List Nat :=
  K.flatMap fun k => nodesOf s.word (topLevel k) (s.iNid k)

/-- The nodes of the trees `K` that start at `cut` or behind it. -/
def topNodesFrom (s : Index) (K : List Nat) (cut : Nat) : List Nat :=
  K.flatMap fun k => nodesFrom s.word cut (topLevel k) (s.iNid k) (topBase k)

def topDataFrom (s : Index) (K : List Nat) (cut : Nat) : List Nat :=
  K.flatMap fun k => dataFrom s.word cut (topLevel k) (s.iNid k) (topBase k)

/-- Every node of the trees `K` has an address, and no nid is used twice. -/
structure TreesAt (s : Index) (K : List Nat) : Prop where
  nodup : (topNodes s K).Nodup
  addr : ∀ m ∈ topNodes s K, s.nat m ≠ nullAddr

/-- The index tree of a file. -/
def IndexTree (s : Index) : Prop := TreesAt s tops

structure TopsCut (s s' : Index) (K : List Nat) (cut : Nat) : Prop where
  freed : Freed s s' (topNodesFrom s K cut) (topDataFrom s K cut)
  top : ∀ k, s'.iNid k = if k ∈ K ∧ cut ≤ topBase k then 0 else s.iNid k
  kept : ∀ k ∈ K, Kept s.word s'.word cut (topLevel k) (s.iNid k) (topBase k)
  word : ∀ m, m ∉ topNodes s K → ∀ i, s'.word m i = s.word m i
  iAddr : s'.iAddr = s.iAddr

section

variable {s s₁ s' : Index} {K K' : List Nat} {cut k : Nat}

theorem topNodesFrom_sublist : (topNodesFrom s K cut).Sublist (topNodes s K) :=
  List.Sublist.flatMap_right K fun _ _ => nodesFrom_sublist

theorem topNodes_append : topNodes s (K ++ K') = topNodes s K ++ topNodes s K' :=
  List.flatMap_append

/-- What the other trees are does not change. -/
theorem TopsCut.others (h : TopsCut s s₁ K cut) (hK : K.Disjoint K')
    (hd : (topNodes s K).Disjoint (topNodes s K')) :
    (∀ k ∈ K', s₁.iNid k = s.iNid k) ∧
      ∀ k ∈ K', ∀ m ∈ nodesOf s.word (topLevel k) (s.iNid k), ∀ i, s₁.word m i = s.word m i := by
  constructor
  · intro k hk
    rw [h.top, if_neg fun hc => hK hc.1 hk]
  · intro k hk m hm i
    exact h.word m (fun hm' => hd hm' (List.mem_flatMap.mpr ⟨k, hk, hm⟩)) i

theorem TopsCut.trans (h₁ : TopsCut s s₁ K cut) (h₂ : TopsCut s₁ s' K' cut)
    (hK : K.Disjoint K') (hd : (topNodes s K).Disjoint (topNodes s K')) :
    TopsCut s s' (K ++ K') cut := by
  obtain ⟨hiNid, hword⟩ := h₁.others hK hd
  have hnodes : topNodes s₁ K' = topNodes s K' := by
    refine List.flatMap_congr fun k hk => ?_
    rw [hiNid k hk, nodesOf_congr (hword k hk)]
  have hfrom : topNodesFrom s₁ K' cut = topNodesFrom s K' cut := by
    refine List.flatMap_congr fun k hk => ?_
    rw [hiNid k hk, nodesFrom_congr (hword k hk)]
  have hdata : topDataFrom s₁ K' cut = topDataFrom s K' cut := by
    refine List.flatMap_congr fun k hk => ?_
    rw [hiNid k hk, dataFrom_congr (hword k hk)]
  refine ⟨?_, ?_, ?_, ?_, h₂.iAddr.trans h₁.iAddr⟩
  · have hfreed := h₂.freed
    rw [hfrom, hdata] at hfreed
    rw [topNodesFrom, topDataFrom, List.flatMap_append, List.flatMap_append]
    refine h₁.freed.trans hfreed fun m hm hm' => ?_
    exact hd (topNodesFrom_sublist.subset hm) (topNodesFrom_sublist.subset hm')
  · intro k
    rw [h₂.top, h₁.top]
    by_cases hk : k ∈ K <;> by_cases hk' : k ∈ K' <;> by_cases hc : cut ≤ topBase k <;>
      simp [hk, hk', hc]
  · intro k hk
    rcases List.mem_append.mp hk with hk | hk
    · refine (h₁.kept k hk).trans_words fun m hm i => h₂.word m ?_ i
      rw [hnodes]
      exact fun hm' => hd (List.mem_flatMap.mpr ⟨k, hk, hm⟩) hm'
    · have hkept := h₂.kept k hk
      rw [hiNid k hk] at hkept
      exact hkept.of_start (hword k hk)
  · intro m hm i
    rw [topNodes_append, List.mem_append, not_or] at hm
    rw [h₂.word m (by rw [hnodes]; exact hm.2), h₁.word m hm.1]

/-- One tree: the cut below it, and its slot cleared if all of it is behind the cut. -/
theorem SubtreeCut.top (h : SubtreeCut s s₁ (topLevel k) (s.iNid k) (topBase k) cut)
    (hs' : s' = clearINid s₁ k ∨ s' = s₁)
    (htop : ∀ j, s'.iNid j = if j = k ∧ cut ≤ topBase k then 0 else s₁.iNid j) :
    TopsCut s s' [k] cut := by
  have hword : s'.word = s₁.word := by rcases hs' with rfl | rfl <;> rfl
  have hiAddr : s'.iAddr = s₁.iAddr := by rcases hs' with rfl | rfl <;> rfl
  refine ⟨?_, ?_, ?_, ?_, hiAddr.trans h.iAddr⟩
  · rw [topNodesFrom, topDataFrom, List.flatMap_cons, List.flatMap_cons, List.flatMap_nil,
      List.flatMap_nil, List.append_nil, List.append_nil]
    rcases hs' with rfl | rfl
    · exact h.freed.of_words rfl rfl rfl rfl rfl
    · exact h.freed
  · intro j
    rw [htop, h.iNid]
    by_cases hj : j = k
    · simp [hj]
    · simp [hj]
  · intro j hj
    rw [List.mem_singleton] at hj
    rw [hj, hword]
    exact h.kept
  · intro m hm i
    rw [topNodes, List.flatMap_cons, List.flatMap_nil, List.append_nil] at hm
    rw [hword]
    exact h.word m hm i

/-- Trees before the cut. -/
theorem TopsCut.untouched (s : Index) (h : ∀ k ∈ K, topBase k + span (topLevel k) ≤ cut) :
    TopsCut s s K cut := by
  refine ⟨?_, ?_, fun k hk => Kept.of_words (fun _ _ _ => rfl) (h k hk), fun _ _ _ => rfl, rfl⟩
  · rw [topNodesFrom, topDataFrom,
      List.flatMap_eq_nil_iff.mpr fun k hk => nodesFrom_of_ge (h k hk),
      List.flatMap_eq_nil_iff.mpr fun k hk => dataFrom_of_ge (h k hk)]
    exact Freed.refl s
  · intro k
    have hpos := span_pos (topLevel k)
    by_cases hk : k ∈ K
    · rw [if_neg]
      rintro ⟨-, hc⟩
      have := h k hk
      omega
    · rw [if_neg fun hc => hk hc.1]

theorem TreesAt.treeAt (h : TreesAt s K) (hk : k ∈ K) : TreeAt s (topLevel k) (s.iNid k) := by
  refine ⟨(List.nodup_flatMap.mp h.nodup).1 k hk, fun m hm => ?_⟩
  exact h.addr m (List.mem_flatMap.mpr ⟨k, hk, hm⟩)

theorem TreesAt.sublist (h : TreesAt s K) (hK : K'.Sublist K) : TreesAt s K' :=
  ⟨h.nodup.sublist (hK.flatMap _), fun m hm => h.addr m ((hK.flatMap _).subset hm)⟩

theorem TreesAt.disjoint (h : TreesAt s (K ++ K')) :
    (topNodes s K).Disjoint (topNodes s K') := by
  have hnodup := h.nodup
  rw [topNodes_append] at hnodup
  exact (List.nodup_append'.mp hnodup).2.2

/-- A cut through some trees leaves the others. -/
theorem TopsCut.treesAt (h : TopsCut s s₁ K cut) (ht : TreesAt s (K ++ K')) (hK : K.Disjoint K') :
    TreesAt s₁ K' := by
  have hd := ht.disjoint
  obtain ⟨hiNid, hword⟩ := h.others hK hd
  have hnodes : topNodes s₁ K' = topNodes s K' := by
    refine List.flatMap_congr fun k hk => ?_
    rw [hiNid k hk, nodesOf_congr (hword k hk)]
  have ht' := ht.sublist (List.sublist_append_right K K')
  refine ⟨by rw [hnodes]; exact ht'.nodup, fun m hm => ?_⟩
  rw [hnodes] at hm
  rw [h.freed.nat, if_neg fun hm' => hd (topNodesFrom_sublist.subset hm') hm]
  exact ht'.addr m hm

/-! ## The loop over the trees -/

variable {layout : InodeLayout} {env : TruncEnv}

/-- The call for the tree of `i_nid[k]`. -/
def freeTop (layout : InodeLayout) (env : TruncEnv) (s : Index) (k ofs : Nat) (nofs : Int) :
    Except Errno (Index × Int) :=
  match topLevel k with
  | 0 => truncateDnode layout env s (s.iNid k)
  | l + 1 => truncateNodes layout env l s (s.iNid k) nofs ofs

theorem topLevel_cases (k : Nat) : topLevel k = 0 ∨ topLevel k = 1 ∨ topLevel k = 2 := by
  unfold topLevel
  split <;> simp

theorem freeTop_zero (hl : topLevel k = 0) (ofs : Nat) (nofs : Int) :
    freeTop layout env s k ofs nofs = truncateDnode layout env s (s.iNid k) := by
  unfold freeTop
  rw [hl]

theorem freeTop_one (hl : topLevel k = 1) (ofs : Nat) (nofs : Int) :
    freeTop layout env s k ofs nofs = truncateNodes layout env 0 s (s.iNid k) nofs ofs := by
  unfold freeTop
  rw [hl]

theorem freeTop_two (hl : topLevel k = 2) (ofs : Nat) (nofs : Int) :
    freeTop layout env s k ofs nofs = truncateNodes layout env 1 s (s.iNid k) nofs ofs := by
  unfold freeTop
  rw [hl]

/-- `i_nid[k]` after its round. -/
def clearTop (s : Index) (k ofs : Nat) : Index :=
  if ofs = 0 ∧ s.iNid k ≠ 0 then clearINid s k else s

theorem clearTop_cases (s : Index) (k ofs : Nat) :
    clearTop s k ofs = clearINid s k ∨ clearTop s k ofs = s := by
  unfold clearTop
  split
  · exact Or.inl rfl
  · exact Or.inr rfl

theorem clearTop_zero (s : Index) (k j : Nat) :
    (clearTop s k 0).iNid j = if j = k then 0 else s.iNid j := by
  unfold clearTop
  by_cases hj : j = k <;> by_cases hz : s.iNid k = 0 <;> simp [clearINid, hj, hz]

theorem clearTop_of_ne (s : Index) (k : Nat) {ofs : Nat} (h : ofs ≠ 0) : clearTop s k ofs = s :=
  if_neg fun hc => h hc.1

theorem truncateRest_eq {fuel ofs : Nat} {nofs : Int} (hk : k < defNidsPerInode) :
    truncateRest layout env (fuel + 1) s (nodeDir1Block + k) ofs nofs =
      match tolerateEnoent s (freeTop layout env s k ofs nofs) with
      | .error e => .error e
      | .ok (s₁, err) =>
        if k = 4 then .ok (clearTop s₁ k ofs)
        else truncateRest layout env fuel (clearTop s₁ k ofs) (nodeDir1Block + (k + 1)) 0
          (nofs + err) := by
  have hfreed : (if nodeDir1Block + k = nodeDir1Block ∨ nodeDir1Block + k = nodeDir2Block then
        truncateDnode layout env s (s.iNid k)
      else if nodeDir1Block + k = nodeInd1Block ∨ nodeDir1Block + k = nodeInd2Block then
        truncateNodes layout env 0 s (s.iNid k) nofs ofs
      else if nodeDir1Block + k = nodeDindBlock then
        truncateNodes layout env 1 s (s.iNid k) nofs ofs
      else .error .bug) = freeTop layout env s k ofs nofs := by
    unfold defNidsPerInode at hk
    interval_cases k <;> rfl
  have hdind : (nodeDir1Block + k = nodeDindBlock) ↔ k = 4 := by
    unfold nodeDir1Block nodeDindBlock
    omega
  rw [truncateRest]
  rw [Nat.add_sub_cancel_left]
  simp only [hfreed]
  simp only [hdind]
  rfl

theorem truncateRest_succ {fuel ofs : Nat} {nofs : Int} (hk : k < defNidsPerInode)
    (h : truncateRest layout env (fuel + 1) s (nodeDir1Block + k) ofs nofs = .ok s') :
    ∃ s₁ err, tolerateEnoent s (freeTop layout env s k ofs nofs) = .ok (s₁, err) ∧
      if k = 4 then s' = clearTop s₁ k ofs
      else truncateRest layout env fuel (clearTop s₁ k ofs) (nodeDir1Block + (k + 1)) 0
        (nofs + err) = .ok s' := by
  rw [truncateRest_eq hk] at h
  split at h
  · cases h
  rename_i s₁ err htol
  refine ⟨s₁, err, htol, ?_⟩
  split
  · rename_i hk4
    rw [if_pos hk4] at h
    exact (Except.ok.inj h).symm
  · rename_i hk4
    rw [if_neg hk4] at h
    exact h

theorem freeTop_missing (layout : InodeLayout) (env : TruncEnv) (h0 : s.iNid k = 0) (ofs : Nat)
    (nofs : Int) :
    ∃ err, tolerateEnoent s (freeTop layout env s k ofs nofs) = .ok (s, err) := by
  unfold freeTop
  rw [h0]
  split
  · exact ⟨1, rfl⟩
  · unfold truncateNodes
    exact ⟨nidsPerBlock + 1, rfl⟩

/-- The result of a call that did not fail, for a tree that has a root. -/
theorem freeTop_ok {ofs : Nat} {nofs err : Int}
    (h : tolerateEnoent s (freeTop layout env s k ofs nofs) = .ok (s₁, err))
    (haddr : s.nat (s.iNid k) ≠ nullAddr) : freeTop layout env s k ofs nofs = .ok (s₁, err) := by
  cases hf : freeTop layout env s k ofs nofs with
  | ok r =>
      rw [hf] at h
      exact h
  | error e =>
      rw [hf] at h
      have hnone : e = .enoent → s.nat (s.iNid k) = nullAddr := by
        rintro rfl
        rcases topLevel_cases k with hl | hl | hl
        · rw [freeTop_zero hl] at hf
          obtain ⟨r, hr, -⟩ := truncateDnode_error hf
          cases hr
        · rw [freeTop_one hl] at hf
          rcases truncateNodes_indirect_error hf with ⟨-, hnone⟩ | ⟨r, hr, -⟩
          · exact hnone
          · cases hr
        · rw [freeTop_two hl] at hf
          rcases truncateNodes_double_error hf with ⟨-, hnone⟩ | ⟨r, hr, -⟩
          · exact hnone
          · cases hr
      cases e with
      | enoent => exact absurd (hnone rfl) haddr
      | e2big => cases h
      | read r => cases h
      | bug => cases h

theorem freeTop_whole {nofs err : Int}
    (h : tolerateEnoent s (freeTop layout env s k 0 nofs) = .ok (s₁, err))
    (ht : TreeAt s (topLevel k) (s.iNid k)) : SubtreeFreed s s₁ (topLevel k) (s.iNid k) := by
  by_cases h0 : s.iNid k = 0
  · obtain ⟨err', hmiss⟩ := freeTop_missing layout env h0 0 nofs
    rw [hmiss] at h
    cases h
    rw [h0]
    exact SubtreeFreed.missing s _
  have hf := freeTop_ok h (ht.addr _ (mem_nodesOf_self h0 _))
  rcases topLevel_cases k with hl | hl | hl
  · rw [freeTop_zero hl] at hf
    rw [hl] at ht ⊢
    exact (truncateDnode_freed hf ht).1
  · rw [freeTop_one hl] at hf
    rw [hl] at ht ⊢
    exact (truncateNodes_indirect_whole hf h0 ht).1
  · rw [freeTop_two hl] at hf
    rw [hl] at ht ⊢
    exact truncateNodes_double_whole hf h0 ht

theorem topBase_le {j : Nat} (h : k ≤ j) : topBase k ≤ topBase j := by
  rw [topBase_eq, topBase_eq]
  split <;> split <;> try split
  all_goals first | omega | (split <;> omega)

/-- The trees from `k` on, all of which are behind the cut, are freed. -/
theorem truncateRest_whole {fuel : Nat} : ∀ {k : Nat} {nofs : Int} {s : Index},
    k < defNidsPerInode → cut ≤ topBase k →
    truncateRest layout env fuel s (nodeDir1Block + k) 0 nofs = .ok s' →
    TreesAt s (List.range' k (defNidsPerInode - k)) →
    TopsCut s s' (List.range' k (defNidsPerInode - k)) cut := by
  induction fuel with
  | zero =>
      intro k nofs s _ _ h
      cases h
  | succ fuel ih =>
      intro k nofs s hk hcut h ht
      have hlist : List.range' k (defNidsPerInode - k) =
          [k] ++ List.range' (k + 1) (defNidsPerInode - (k + 1)) := by
        rw [show defNidsPerInode - k = defNidsPerInode - (k + 1) + 1 by omega, List.range'_succ]
        rfl
      rw [hlist] at ht ⊢
      obtain ⟨s₁, err, htol, hrest⟩ := truncateRest_succ hk h
      have htop := ht.treeAt (List.mem_append_left _ (List.mem_singleton.mpr rfl))
      have hsub := (freeTop_whole htol htop).subtreeCut hcut
      have hround : TopsCut s (clearTop s₁ k 0) [k] cut := by
        refine hsub.top (clearTop_cases s₁ k 0) fun j => ?_
        rw [clearTop_zero]
        simp [hcut]
      by_cases hk4 : k = 4
      · rw [if_pos hk4] at hrest
        subst hk4 hrest
        exact hround
      · rw [if_neg hk4] at hrest
        have hdisj : [k].Disjoint (List.range' (k + 1) (defNidsPerInode - (k + 1))) := by
          intro j hj hj'
          rw [List.mem_singleton] at hj
          rw [List.mem_range'_1] at hj'
          omega
        have hnext := ih (by unfold defNidsPerInode at hk ⊢; omega)
          (Nat.le_trans hcut (topBase_le (Nat.le_succ k))) hrest (hround.treesAt ht hdisj)
        exact hround.trans hnext hdisj ht.disjoint

end

end F2fs.Truncate

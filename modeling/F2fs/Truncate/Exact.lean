/-
  What `truncate_blocks` does to a file.

  Let `free` be the first block to go.  The nodes that start at `cutAt s free` or behind it
  are freed.  That is the first direct node that starts at `free` or behind it, if the
  direct node of `free` is there.  If it is not, it is the first direct node below the first
  missing node on the way to it, so that a node with nothing but missing nodes between its
  start and `free` goes as well.  A node that starts before the cut stays, even with
  nothing left below it.
-/
import F2fs.Truncate.Truncated
import F2fs.Truncate.SizeLimit

namespace F2fs.Truncate

open F2fs.Node

/-! ## The cut -/

/-- The tree that direct node `q` is in. -/
def treeOf (q : Nat) : Nat :=
  if q = 0 then 0
  else if q = 1 then 1
  else if q < topBase 3 then 2
  else if q < topBase 4 then 3
  else 4

/-- Where a truncation at block `free` cuts. -/
def cutAt (layout : InodeLayout) (s : Index) (free : Nat) : Nat :=
  if free ≤ layout.addrsPerInode then 0
  else
    let q := (free - layout.addrsPerInode) / addrsPerBlock
    let k := treeOf q
    let r := q - topBase k
    if (free - layout.addrsPerInode) % addrsPerBlock ≠ 0 ∧ dnodeOf s k r ≠ 0 then q + 1
    else cutOf s k r

section

variable {layout : InodeLayout} {env : TruncEnv} {s s₁ s' : Index} {k k' r r' o free : Nat}

theorem treeOf_dnode (hk : k < defNidsPerInode) (hr : r < span (topLevel k)) :
    treeOf (topBase k + r) = k := by
  have h0 : span 0 = 1 := rfl
  have h1 : span 1 = 1018 := Nat.pow_one _
  have h3 : topBase 3 = 1020 := rfl
  have h4 : topBase 4 = 2038 := rfl
  unfold treeOf
  rw [h3, h4]
  unfold defNidsPerInode at hk
  interval_cases k
  · rw [show topLevel 0 = 0 from rfl, h0] at hr
    rw [show topBase 0 = 0 from rfl, if_pos (by omega)]
  · rw [show topLevel 1 = 0 from rfl, h0] at hr
    rw [show topBase 1 = 1 from rfl, if_neg (by omega), if_pos (by omega)]
  · rw [show topLevel 2 = 1 from rfl, h1] at hr
    rw [show topBase 2 = 2 from rfl, if_neg (by omega), if_neg (by omega), if_pos (by omega)]
  · rw [show topLevel 3 = 1 from rfl, h1] at hr
    rw [h3, if_neg (by omega), if_neg (by omega), if_neg (by omega), if_pos (by omega)]
  · rw [h4, if_neg (by omega), if_neg (by omega), if_neg (by omega), if_neg (by omega)]

theorem cutAt_blockOf (hk : k < defNidsPerInode) (hr : r < span (topLevel k))
    (ho : o < addrsPerBlock) : cutAt layout s (blockOf layout k r o) =
      if o ≠ 0 ∧ dnodeOf s k r ≠ 0 then topBase k + r + 1 else cutOf s k r := by
  have hsub : blockOf layout k r o - layout.addrsPerInode =
      addrsPerBlock * (topBase k + r) + o := by
    unfold blockOf
    omega
  have hdiv : (addrsPerBlock * (topBase k + r) + o) / addrsPerBlock = topBase k + r := by
    rw [Nat.mul_add_div (by decide), Nat.div_eq_of_lt ho, Nat.add_zero]
  have hmod : (addrsPerBlock * (topBase k + r) + o) % addrsPerBlock = o := by
    rw [Nat.mul_add_mod, Nat.mod_eq_of_lt ho]
  unfold cutAt
  simp only [hsub, hdiv, hmod, treeOf_dnode hk hr, Nat.add_sub_cancel_left]
  by_cases hfirst : blockOf layout k r o ≤ layout.addrsPerInode
  · -- the first block behind the inode
    have hzero : addrsPerBlock * (topBase k + r) + o = 0 := by
      unfold blockOf at hfirst
      omega
    have ho0 : o = 0 := by omega
    have hq : topBase k + r = 0 := by
      unfold addrsPerBlock at hzero
      omega
    have hcut : cutOf s k r ≤ topBase k + r := cutBelow_le
    rw [if_pos hfirst, if_neg (fun hc => hc.1 ho0)]
    omega
  · rw [if_neg hfirst]

/-- The direct nodes between the cut and the block it was made for are missing. -/
theorem blockAddr_behind_cut (ht : IndexTree s) (hk : k < defNidsPerInode)
    (hr : r < span (topLevel k)) (hmiss : o = 0 ∨ dnodeOf s k r = 0) {c : Nat}
    (hc : cutBlock layout (cutOf s k r) ≤ c) (hlt : c < blockOf layout k r o)
    (ho : o < addrsPerBlock) : blockAddr layout s c = nullAddr := by
  have hmax := blockOf_lt layout hk hr ho
  rcases block_cases layout c with hin | ⟨k', r', o', hk', hr', ho', rfl⟩ | hlarge
  · unfold cutBlock at hc
    omega
  · rw [cutBlock_le_blockOf ho'] at hc
    have hle : topBase k' + r' < topBase k + r ∨ (topBase k' + r' = topBase k + r ∧ o' < o) := by
      unfold blockOf addrsPerBlock at hlt
      unfold addrsPerBlock at ho ho'
      omega
    rw [blockAddr_blockOf ht hk' hr' ho', if_pos]
    rcases hle with hle | ⟨heq, hoo⟩
    · rcases Nat.lt_trichotomy k' k with hkk | rfl | hkk
      · -- a tree before the cut
        have hbase := topBase_add_span hkk hk
        have hcut : topBase k ≤ cutOf s k r := le_cutBelow
        omega
      · exact dnodeAt_behind_cut hr hc (by omega)
      · have hbase := topBase_add_span hkk hk'
        omega
    · obtain ⟨rfl, rfl⟩ := topBase_inj hk' hk hr' hr heq
      exact hmiss.resolve_left (by omega)
  · omega

/-- A cut for a direct node that is missing, or at its first block. -/
theorem truncated_cut (ht : IndexTree s) (hk : k < defNidsPerInode)
    (hr : r < span (topLevel k)) (ho : o < addrsPerBlock) (hmiss : o = 0 ∨ dnodeOf s k r = 0)
    (hcut : TopsCut s s' tops (cutOf s k r)) :
    Truncated layout s s' (blockOf layout k r o) (cutAt layout s (blockOf layout k r o)) := by
  rw [cutAt_blockOf hk hr ho, if_neg (by tauto)]
  have hle : cutOf s k r ≤ topBase k + r := cutBelow_le
  refine (RangeFreed.none ht (blockOf layout k r o)).truncated hcut ?_ ?_ ?_ ?_
  · exact Nat.le_of_lt (blockOf_lt layout hk hr ho)
  · have hlt := topBase_lt hk hr
    omega
  · rw [Nat.add_zero, cutBlock_le_blockOf ho]
    exact hle
  · exact fun c hc hlt => blockAddr_behind_cut ht hk hr hmiss hc hlt ho

/-- Behind a direct node that is there the cut is at the next one. -/
theorem cutOf_next (hr : r < span (topLevel k)) (hr' : r' < span (topLevel k'))
    (hk : k < defNidsPerInode) (hk' : k' < defNidsPerInode) (h0 : dnodeOf s k r ≠ 0)
    (hnext : topBase k' + r' = topBase k + r + 1) : cutOf s k' r' = topBase k + r + 1 := by
  have hle : cutOf s k' r' ≤ topBase k' + r' := cutBelow_le
  have hge : topBase k' ≤ cutOf s k' r' := le_cutBelow
  rcases Nat.lt_trichotomy k' k with hkk | rfl | hkk
  · have hbase := topBase_add_span hkk hk
    omega
  · by_contra hne
    have hcut : cutBelow s.word (topLevel k') (s.iNid k') (topBase k') r' ≤ topBase k' + r := by
      unfold cutOf at hne hle
      omega
    exact h0 (dnodeAt_behind_cut hr' hcut (by omega))
  · have hbase := topBase_add_span hkk hk'
    omega

/-- The rest of a direct node, then a cut at the next one. -/
theorem truncated_node (ht : IndexTree s) (hk : k < defNidsPerInode)
    (hr : r < span (topLevel k)) (ho : o < addrsPerBlock) (ho0 : o ≠ 0) (h0 : dnodeOf s k r ≠ 0)
    (h : truncateInodeBlocks layout env
      (truncateDataBlocksRange layout s (.node (dnodeOf s k r)) o (addrsPerBlock - o))
      (blockOf layout k r o + (addrsPerBlock - o)) = .ok s') :
    Truncated layout s s' (blockOf layout k r o) (cutAt layout s (blockOf layout k r o)) := by
  have hrange := rangeFreed_node layout ht hk hr
      (Nat.le_of_eq (Nat.add_sub_cancel' (Nat.le_of_lt ho))) h0
  generalize truncateDataBlocksRange layout s (.node (dnodeOf s k r)) o (addrsPerBlock - o) =
    s₁ at h hrange
  have hend : blockOf layout k r o + (addrsPerBlock - o) = cutBlock layout (topBase k + r + 1) := by
    unfold blockOf cutBlock addrsPerBlock
    unfold addrsPerBlock at ho
    omega
  rw [cutAt_blockOf hk hr ho, if_pos ⟨ho0, h0⟩]
  rw [hend] at h
  have hlast := lastBlock_lt layout
  have hblock := blockOf_lt layout hk hr ho
  by_cases hmax : cutBlock layout (topBase k + r + 1) < layout.addrsPerInode + maxFileBlocks
  · obtain ⟨p, k', r', o', hpath, hp, hb⟩ := getNodePath_node (by unfold cutBlock; omega) hmax
    have hnext : topBase k' + r' = topBase k + r + 1 ∧ o' = 0 := by
      have ho' := hp.o_lt
      unfold cutBlock blockOf addrsPerBlock at hb
      unfold addrsPerBlock at ho'
      omega
    obtain ⟨hnext, rfl⟩ := hnext
    have hcut := truncateInodeBlocks_cut hrange.tree hpath hp hmax (Or.inl rfl) h
    have h0' : dnodeOf s₁ k r ≠ 0 := by
      unfold dnodeOf at h0 ⊢
      rw [hrange.iNid, (hrange.links k hk).dnodeAt_eq hr]
      exact h0
    rw [cutOf_next hr hp.r_lt hk hp.k_lt h0' hnext] at hcut
    refine hrange.truncated hcut ?_ ?_ ?_ ?_
    · rw [hend]
      exact Nat.le_of_lt hmax
    · have hlt := topBase_lt hp.k_lt hp.r_lt
      omega
    · rw [hend]
    · intro c hc hlt
      omega
  · -- the last direct node: there is no path behind it
    rw [truncateInodeBlocks, toLong_of_lt (by omega),
      (getNodePath_eq_none_iff layout.api_le).mpr (Nat.not_lt.mp hmax), truncatePath] at h
    cases h

/-- The rest of the inode, then a cut at the first direct node. -/
theorem truncated_inode (ht : IndexTree s) (hfree : free < layout.addrsPerInode)
    (h : truncateInodeBlocks layout env
      (truncateDataBlocksRange layout s .inode free (layout.addrsPerInode - free))
      (free + (layout.addrsPerInode - free)) = .ok s') :
    Truncated layout s s' free (cutAt layout s free) := by
  have hend : free + (layout.addrsPerInode - free) = layout.addrsPerInode := by omega
  have hrange := rangeFreed_inode layout ht (Nat.le_of_eq hend)
  generalize truncateDataBlocksRange layout s .inode free (layout.addrsPerInode - free) =
    s₁ at h hrange
  rw [hend] at h
  have hzero : cutBlock layout 0 = layout.addrsPerInode := rfl
  have hcutAt : cutAt layout s free = 0 := if_pos (Nat.le_of_lt hfree)
  have hfirst : layout.addrsPerInode = blockOf layout 0 0 0 := by simp [blockOf, topBase]
  rw [hcutAt]
  have hlt : layout.addrsPerInode < layout.addrsPerInode + maxFileBlocks :=
    Nat.lt_add_of_pos_right (by decide)
  obtain ⟨p, hpath, hp⟩ := getNodePath_blockOf layout (k := 0) (r := 0) (o := 0)
    (by decide) (by decide) (by decide)
  rw [← hfirst] at hpath
  have hcut := truncateInodeBlocks_cut hrange.tree hpath hp hlt (Or.inl rfl) h
  have hcut0 : cutOf s₁ 0 0 = 0 := rfl
  rw [hcut0] at hcut
  refine hrange.truncated hcut ?_ (Nat.zero_le _) ?_ ?_
  · omega
  · omega
  · intro c hc hlt
    omega

end

/-! ## The call -/

section

variable {layout : InodeLayout} {env : TruncEnv} {s s' : Index}

theorem truncateFound_truncated {free : Nat} (ht : IndexTree s) (hfree : free < maxFileBlocks)
    (h : truncateFound layout env s free (getDnodeOfData layout env s free) = .ok s') :
    Truncated layout s s' free (cutAt layout s free) := by
  by_cases hin : free < layout.addrsPerInode
  · rw [getDnodeOfData_inode hin, truncateFound] at h
    simp only [addrsPerPage, or_true, if_true] at h
    exact truncated_inode ht hin h
  have hlt : free < layout.addrsPerInode + maxFileBlocks := Nat.lt_add_left _ hfree
  obtain ⟨p, k, r, o, hpath, hp, rfl⟩ := getNodePath_node (Nat.not_lt.mp hin) hlt
  have hspec := getPathPages_spec env (ht.treeAt hp.k_lt) hp
  cases hpages : getPathPages env s (offsetOf p) (topLevel k) with
  | error e =>
      rw [getDnodeOfData_error hpath hp hlt hpages, truncateFound.eq_def] at h
      split at h
      · rename_i heq
        cases heq
        have hmiss : o = 0 ∨ dnodeOf s k r = 0 := Or.inr (hspec.enoent hpages)
        exact truncated_cut ht hp.k_lt hp.r_lt hp.o_lt hmiss
          (truncateInodeBlocks_cut ht hpath hp hlt hmiss h)
      · cases h
      · rename_i heq
        cases heq
  | ok u =>
      obtain ⟨h0, hnid⟩ := hspec.ok hpages
      rw [getDnodeOfData_ok hpath hp hlt hpages, hnid, truncateFound] at h
      simp only [addrsPerPage] at h
      by_cases ho0 : o = 0
      · rw [if_neg (by simp [ho0])] at h
        exact truncated_cut ht hp.k_lt hp.r_lt hp.o_lt (Or.inl ho0)
          (truncateInodeBlocks_cut ht hpath hp hlt (Or.inl ho0) h)
      · rw [if_pos (Or.inl ho0)] at h
        exact truncated_node ht hp.k_lt hp.r_lt hp.o_lt ho0 h0 h

/-- `truncate_blocks` on an index tree, for an offset that fits an inode size. -/
theorem truncateBlocks_truncates (layout : InodeLayout) (env : TruncEnv) (s : Index) (start : Nat)
    (ht : IndexTree s) (hstart : start < 2 ^ 63) :
    truncateBlocks layout env s start ≠ .error .bug ∧
      ∀ s', truncateBlocks layout env s start = .ok s' →
        if (start + 4095) / 4096 < maxFileBlocks then
          Truncated layout s s' ((start + 4095) / 4096)
            (cutAt layout s ((start + 4095) / 4096))
        else s' = s := by
  refine ⟨truncateBlocks_error start, fun s' h => ?_⟩
  have hfree : freeFrom start = (start + 4095) / 4096 := by
    unfold freeFrom
    rw [Nat.mod_eq_of_lt (by omega)]
  rw [← hfree]
  unfold truncateBlocks at h
  split at h
  · cases h
  rename_i s₁ htree
  have hs₁ : s' = s₁ := by
    exact (truncatePartialDataPage_ok h).symm
  subst hs₁
  unfold truncateTree at htree
  by_cases hmax : freeFrom start < maxFileBlocks
  · rw [if_pos hmax]
    rw [if_neg (Nat.not_le.mpr hmax)] at htree
    split at htree
    · cases htree
    · exact truncateFound_truncated ht hmax htree
  · rw [if_neg hmax]
    rw [if_pos (Nat.not_lt.mp hmax)] at htree
    exact (Except.ok.inj htree).symm

end

/-! ## A file with one direct node -/

/-- Direct node 12 in slot 5 of indirect node 11 in slot 1 of double indirect node 10. -/
def loneDnode : Index where
  iAddr _ := nullAddr
  iNid k := if k = 4 then 10 else 0
  word n i :=
    if n = 10 ∧ i = 1 then 11
    else if n = 11 ∧ i = 5 then 12
    else if n = 12 ∧ i = 0 then 500
    else 0
  nat n := if n = 10 then 100 else if n = 11 then 101 else if n = 12 then 102 else nullAddr
  invalidated := []
  totalValidNodeCount := 4
  totalValidBlockCount := 5
  iBlocks := 5

/-- A block of the missing direct node in slot 0 of node 11. -/
def loneOffset : Nat := 4096 * blockOf wholeInode 4 1018 7

theorem loneDnode_nodes : topNodes loneDnode tops = [12, 11, 10] := by decide +kernel

theorem loneDnode_tree : IndexTree loneDnode := by
  unfold IndexTree
  refine ⟨?_, ?_⟩
  · rw [loneDnode_nodes]
    decide
  · rw [loneDnode_nodes]
    decide

/-- What a state says about the three nodes. -/
def loneState (r : Except Errno Index) : Option (List Nat × List Nat) :=
  match r with
  | .ok s => some ([s.nat 10, s.nat 11, s.nat 12], s.invalidated)
  | .error _ => none

set_option maxRecDepth 100000 in
theorem loneDnode_run : loneState (truncateBlocks wholeInode {} loneDnode loneOffset) =
    some ([100, nullAddr, nullAddr], [500, 102, 101]) := by decide +kernel

theorem loneDnode_ok : ∃ s', truncateBlocks wholeInode {} loneDnode loneOffset = .ok s' ∧
    s'.nat 10 = 100 ∧ s'.nat 11 = nullAddr := by
  have hrun := loneDnode_run
  cases h : truncateBlocks wholeInode {} loneDnode loneOffset with
  | error e =>
      rw [h] at hrun
      cases hrun
  | ok s' =>
      rw [h, loneState, Option.some.injEq, Prod.mk.injEq] at hrun
      obtain ⟨hnat, -⟩ := hrun
      simp only [List.cons.injEq] at hnat
      exact ⟨s', rfl, hnat.1, hnat.2.1⟩

/-- The index nodes freed are those that can hold no block before `free`. -/
def FreesByRange (layout : InodeLayout) (s s' : Index) (free : Nat) : Prop :=
  ∀ n ∈ topNodes s tops, s'.nat n = nullAddr ↔
    n ∈ topNodesFrom s tops ((free - layout.addrsPerInode + addrsPerBlock - 1) / addrsPerBlock)

/-- The roots freed are those below which there is no direct node before `free`. -/
def FreesByContents (layout : InodeLayout) (s s' : Index) (free : Nat) : Prop :=
  ∀ k ∈ tops, s.iNid k ≠ 0 → (s'.nat (s.iNid k) = nullAddr ↔
    ∀ r, r < span (topLevel k) → dnodeOf s k r ≠ 0 → free ≤ blockOf layout k r 0)

theorem loneDnode_not_exact : ∃ s', truncateBlocks wholeInode {} loneDnode loneOffset = .ok s' ∧
    ¬FreesByRange wholeInode loneDnode s' (blockOf wholeInode 4 1018 7) ∧
    ¬FreesByContents wholeInode loneDnode s' (blockOf wholeInode 4 1018 7) := by
  obtain ⟨s', hok, h10, h11⟩ := loneDnode_ok
  refine ⟨s', hok, fun h => ?_, fun h => ?_⟩
  · -- node 11 starts in the same block range as the missing node
    have hnot : 11 ∉ topNodesFrom loneDnode tops
        ((blockOf wholeInode 4 1018 7 - wholeInode.addrsPerInode + addrsPerBlock - 1) /
          addrsPerBlock) := by decide +kernel
    have hmem : 11 ∈ topNodes loneDnode tops := by
      rw [loneDnode_nodes]
      decide
    exact hnot ((h 11 hmem).mp h11)
  · -- node 10 has node 12 below it only
    have hroot := h 4 (by decide) (by decide)
    have hkept : s'.nat (loneDnode.iNid 4) = 100 := h10
    rw [hkept] at hroot
    refine absurd (hroot.mpr fun r hr hr0 => ?_) (by decide)
    have hslot : r / nidsPerBlock = 1 := by
      by_contra hne
      refine hr0 ?_
      have h4 : loneDnode.iNid 4 = 10 := rfl
      unfold dnodeOf
      rw [h4, show topLevel 4 = 2 from rfl, dnodeAt_two (by decide)]
      have hword : loneDnode.word 10 (r / nidsPerBlock) = 0 := by
        simp [loneDnode, hne]
      rw [hword, dnodeAt_missing]
    have hchild : r % nidsPerBlock = 5 := by
      by_contra hne
      refine hr0 ?_
      have h4 : loneDnode.iNid 4 = 10 := rfl
      unfold dnodeOf
      rw [h4, show topLevel 4 = 2 from rfl, dnodeAt_two (by decide), hslot,
        show loneDnode.word 10 1 = 11 from rfl, dnodeAt_one (by decide)]
      simp [loneDnode, hne]
    unfold blockOf
    unfold nidsPerBlock at hslot hchild
    unfold addrsPerBlock
    omega

/-- The theorem on that file. -/
theorem loneDnode_truncated : ∃ s', truncateBlocks wholeInode {} loneDnode loneOffset = .ok s' ∧
    if (loneOffset + 4095) / 4096 < maxFileBlocks then
      Truncated wholeInode loneDnode s' ((loneOffset + 4095) / 4096)
        (cutAt wholeInode loneDnode ((loneOffset + 4095) / 4096))
    else s' = loneDnode := by
  obtain ⟨s', hok, -⟩ := loneDnode_ok
  exact ⟨s', hok, (truncateBlocks_truncates wholeInode {} loneDnode loneOffset loneDnode_tree
    (by decide)).2 s' hok⟩

end F2fs.Truncate

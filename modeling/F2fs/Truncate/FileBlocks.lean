/-
  The blocks of a file, and what a cut does to them.

  `blockAddr` reads the address of a block through the index tree.  A cut at `cut` makes
  it `NULL_ADDR` from block `ADDRS_PER_INODE + 1018 * cut` on and leaves the others, and
  the addresses it invalidates are those that were not `NULL_ADDR`, in file order.
-/
import F2fs.Truncate.CutTree

namespace F2fs.Truncate

open F2fs.Node

section

variable {layout : InodeLayout} {s s' : Index} {k k' r r' o o' cut : Nat}

/-! ## Direct nodes of a file -/

theorem IndexTree.treeAt (h : IndexTree s) (hk : k < defNidsPerInode) :
    TreeAt s (topLevel k) (s.iNid k) := TreesAt.treeAt h (List.mem_range.mpr hk)

/-- Direct nodes of two trees have different numbers. -/
theorem topBase_inj (hk : k < defNidsPerInode) (hk' : k' < defNidsPerInode)
    (hr : r < span (topLevel k)) (hr' : r' < span (topLevel k'))
    (h : topBase k + r = topBase k' + r') : k = k' ∧ r = r' := by
  rcases Nat.lt_trichotomy k k' with hlt | rfl | hlt
  · have := topBase_add_span hlt hk'
    omega
  · exact ⟨rfl, Nat.add_left_cancel h⟩
  · have := topBase_add_span hlt hk
    omega

/-- Two trees share no node. -/
theorem IndexTree.disjoint_tops (ht : IndexTree s) (hk : k < defNidsPerInode)
    (hk' : k' < defNidsPerInode) (hne : k ≠ k') {m : Nat}
    (hm : m ∈ nodesOf s.word (topLevel k) (s.iNid k))
    (hm' : m ∈ nodesOf s.word (topLevel k') (s.iNid k')) : False := by
  have hpair := (List.nodup_flatMap.mp ht.nodup).2
  have hsymm : Std.Symm (Function.onFun List.Disjoint
      fun k => nodesOf s.word (topLevel k) (s.iNid k)) := ⟨fun _ _ hd => List.Disjoint.symm hd⟩
  exact hpair.forall (List.mem_range.mpr hk) (List.mem_range.mpr hk') hne hm hm'

theorem IndexTree.dnodeOf_inj (ht : IndexTree s) (hk : k < defNidsPerInode)
    (hk' : k' < defNidsPerInode) (hr : r < span (topLevel k)) (hr' : r' < span (topLevel k'))
    (h0 : dnodeOf s k r ≠ 0) (h : dnodeOf s k' r' = dnodeOf s k r) : k' = k ∧ r' = r := by
  have hm : dnodeOf s k r ∈ nodesOf s.word (topLevel k) (s.iNid k) := dnodeAt_mem hr h0
  have hm' : dnodeOf s k' r' ∈ nodesOf s.word (topLevel k') (s.iNid k') := by
    refine dnodeAt_mem hr' ?_
    rw [← h] at h0
    exact h0
  by_cases hkk : k' = k
  · subst hkk
    exact ⟨rfl, (ht.treeAt hk).dnodeAt_inj hr hr' h0 h⟩
  · rw [h] at hm'
    exact (ht.disjoint_tops hk' hk hkk hm' hm).elim

/-! ## After a cut -/

theorem TopsCut.iNid_eq (h : TopsCut s s' tops cut) (hk : k < defNidsPerInode) :
    s'.iNid k = left cut (topBase k) (s.iNid k) := by
  have hmem : k ∈ tops := List.mem_range.mpr hk
  rw [h.top, left]
  simp only [hmem, true_and]

theorem TopsCut.dnodeOf_eq (h : TopsCut s s' tops cut) (hk : k < defNidsPerInode)
    (hr : r < span (topLevel k)) :
    dnodeOf s' k r = left cut (topBase k + r) (dnodeOf s k r) := by
  unfold dnodeOf
  rw [h.iNid_eq hk]
  exact (h.kept k (List.mem_range.mpr hk)).dnodeAt_eq hr

/-- What is left is an index tree. -/
theorem TopsCut.indexTree (h : TopsCut s s' tops cut) (ht : IndexTree s) : IndexTree s' := by
  have hnodes : topNodes s' tops =
      tops.flatMap fun k => nodesBefore s.word cut (topLevel k) (s.iNid k) (topBase k) := by
    refine List.flatMap_congr fun k hk => ?_
    rw [h.iNid_eq (List.mem_range.mp hk)]
    exact (h.kept k hk).nodesOf_eq
  have hperm : (topNodesFrom s tops cut ++ topNodes s' tops).Perm (topNodes s tops) := by
    rw [hnodes]
    refine (List.flatMap_append_perm _ _ _).trans ?_
    exact List.Perm.flatMap_left _ fun k _ => nodesFrom_append_nodesBefore
  obtain ⟨-, hnodup, hdisj⟩ := List.nodup_append'.mp (hperm.nodup_iff.mpr ht.nodup)
  refine ⟨hnodup, fun m hm => ?_⟩
  rw [h.freed.nat, if_neg fun hm' => hdisj hm' hm]
  exact ht.addr m (hperm.subset (List.mem_append_right _ hm))

/-! ## Blocks -/

theorem blockOf_inj (hk : k < defNidsPerInode) (hk' : k' < defNidsPerInode)
    (hr : r < span (topLevel k)) (hr' : r' < span (topLevel k')) (ho : o < addrsPerBlock)
    (ho' : o' < addrsPerBlock) (h : blockOf layout k r o = blockOf layout k' r' o') :
    k = k' ∧ r = r' ∧ o = o' := by
  unfold blockOf at h
  unfold addrsPerBlock at h ho ho'
  obtain ⟨hkk, hrr⟩ := topBase_inj hk hk' hr hr' (by omega)
  subst hkk hrr
  exact ⟨rfl, rfl, Nat.add_left_cancel h⟩

theorem topBase_lt (hk : k < defNidsPerInode) (hr : r < span (topLevel k)) :
    topBase k + r < 2 + 2 * nidsPerBlock + nidsPerBlock * nidsPerBlock := by
  have hend : topBase k + span (topLevel k) ≤
      2 + 2 * nidsPerBlock + nidsPerBlock * nidsPerBlock := by
    unfold defNidsPerInode at hk
    interval_cases k <;> decide
  omega

theorem maxFileBlocks_eq : maxFileBlocks =
    addrsPerBlock * (2 + 2 * nidsPerBlock + nidsPerBlock * nidsPerBlock) := by decide

theorem blockOf_lt (layout : InodeLayout) (hk : k < defNidsPerInode) (hr : r < span (topLevel k))
    (ho : o < addrsPerBlock) : blockOf layout k r o < layout.addrsPerInode + maxFileBlocks := by
  have hlt := topBase_lt hk hr
  rw [maxFileBlocks_eq]
  unfold blockOf addrsPerBlock
  unfold addrsPerBlock at ho
  omega

/-- The path to a block of a direct node. -/
theorem getNodePath_blockOf (layout : InodeLayout) (hk : k < defNidsPerInode)
    (hr : r < span (topLevel k))
    (ho : o < addrsPerBlock) :
    ∃ p, getNodePath layout.addrsPerInode (blockOf layout k r o) = some p ∧ PathTo p k r o := by
  have hle : layout.addrsPerInode ≤ blockOf layout k r o := by
    unfold blockOf
    omega
  obtain ⟨p, k', r', o', hpath, hp, hb⟩ := getNodePath_node hle (blockOf_lt layout hk hr ho)
  obtain ⟨rfl, rfl, rfl⟩ := blockOf_inj hk hp.k_lt hr hp.r_lt ho hp.o_lt hb
  exact ⟨p, hpath, hp⟩

/-- A block is in the inode, in a direct node, or beyond the last one. -/
theorem block_cases (layout : InodeLayout) (b : Nat) :
    b < layout.addrsPerInode ∨
    (∃ k r o, k < defNidsPerInode ∧ r < span (topLevel k) ∧ o < addrsPerBlock ∧
      b = blockOf layout k r o) ∨ layout.addrsPerInode + maxFileBlocks ≤ b := by
  by_cases hb : b < layout.addrsPerInode
  · exact Or.inl hb
  by_cases hmax : b < layout.addrsPerInode + maxFileBlocks
  · obtain ⟨p, k, r, o, -, hp, hb'⟩ := getNodePath_node (Nat.not_lt.mp hb) hmax
    exact Or.inr (Or.inl ⟨k, r, o, hp.k_lt, hp.r_lt, hp.o_lt, hb'⟩)
  · exact Or.inr (Or.inr (Nat.not_lt.mp hmax))

theorem blockAddr_blockOf (ht : IndexTree s) (hk : k < defNidsPerInode)
    (hr : r < span (topLevel k)) (ho : o < addrsPerBlock) :
    blockAddr layout s (blockOf layout k r o) =
      if dnodeOf s k r = 0 then nullAddr else s.word (dnodeOf s k r) o := by
  obtain ⟨p, hpath, hp⟩ := getNodePath_blockOf layout hk hr ho
  exact blockAddr_node (ht.treeAt hk) hpath hp (blockOf_lt layout hk hr ho)

/-- The first block of direct node `cut`. -/
def cutBlock (layout : InodeLayout) (cut : Nat) : Nat :=
  layout.addrsPerInode + addrsPerBlock * cut

theorem cutBlock_le_blockOf (ho : o < addrsPerBlock) :
    cutBlock layout cut ≤ blockOf layout k r o ↔ cut ≤ topBase k + r := by
  unfold cutBlock blockOf addrsPerBlock
  unfold addrsPerBlock at ho
  omega

/-- Blocks after a cut. -/
theorem TopsCut.blockAddr_eq (h : TopsCut s s' tops cut) (ht : IndexTree s) {b : Nat}
    (hb : b < 2 ^ 63) : blockAddr layout s' b =
      if cutBlock layout cut ≤ b then nullAddr else blockAddr layout s b := by
  have ht' := h.indexTree ht
  rcases block_cases layout b with hin | ⟨k, r, o, hk, hr, ho, rfl⟩ | hlarge
  · have hcut : ¬cutBlock layout cut ≤ b := by
      unfold cutBlock
      omega
    rw [if_neg hcut, blockAddr_inode hin, blockAddr_inode hin, dataAddr, dataAddr, h.iAddr]
  · rw [blockAddr_blockOf ht' hk hr ho, blockAddr_blockOf ht hk hr ho, h.dnodeOf_eq hk hr, left]
    simp only [cutBlock_le_blockOf ho]
    by_cases hcut : cut ≤ topBase k + r
    · rw [if_pos hcut, if_pos rfl, if_pos hcut]
    · rw [if_neg hcut, if_neg hcut]
      by_cases h0 : dnodeOf s k r = 0
      · rw [if_pos h0, if_pos h0]
      · rw [if_neg h0, if_neg h0]
        exact (h.kept k (List.mem_range.mpr hk)).word_eq hr (by omega) h0 o
  · rw [blockAddr_large hlarge hb, blockAddr_large hlarge hb, ite_self]

end

/-! ## Addresses in file order -/

section

variable {α : Type}

theorem flatMap_range_add (f : Nat → List α) (m n : Nat) :
    (List.range (m + n)).flatMap f =
      (List.range m).flatMap f ++ (List.range n).flatMap fun j => f (m + j) := by
  rw [List.range_add, List.flatMap_append, List.flatMap_map]

/-- A range in `n` pieces of length `m`. -/
theorem flatMap_range_mul (f : Nat → List α) (n m : Nat) :
    (List.range (n * m)).flatMap f =
      (List.range n).flatMap fun i => (List.range m).flatMap fun j => f (i * m + j) := by
  induction n with
  | zero => simp
  | succ n ih =>
      rw [Nat.succ_mul, flatMap_range_add, ih, List.range_succ, List.flatMap_append,
        List.flatMap_singleton]

end

theorem range_slots : List.range nidsPerBlock = slots := by
  unfold slots
  rfl

/-- The block addresses of a direct node that may be missing. -/
def addrsAt (w : Words) (nid : Nat) : List Nat := if nid = 0 then [] else addrsOf w nid

theorem dataFrom_flat {w : Words} {cut l : Nat} : ∀ {nid base : Nat},
    dataFrom w cut l nid base = (List.range (span l)).flatMap fun r =>
      if base + r < cut then [] else addrsAt w (dnodeAt w l nid r) := by
  induction l with
  | zero =>
      intro nid base
      have hone : List.range (span 0) = [0] := rfl
      rw [hone, List.flatMap_singleton, Nat.add_zero, dnodeAt, addrsAt]
      unfold dataFrom dnodesFrom
      by_cases h0 : nid = 0 <;> by_cases hb : base < cut <;> simp [h0, hb]
  | succ l ih =>
      intro nid base
      by_cases h0 : nid = 0
      · rw [h0, dataFrom_missing]
        refine (List.flatMap_eq_nil_iff.mpr fun r _ => ?_).symm
        rw [dnodeAt_missing, addrsAt, if_pos rfl, ite_self]
      rw [dataFrom_succ h0, span_succ, flatMap_range_mul, range_slots]
      refine List.flatMap_congr fun i _ => ?_
      rw [ih]
      refine List.flatMap_congr fun j hj => ?_
      have hj : j < span l := List.mem_range.mp hj
      have hdiv : (i * span l + j) / span l = i := by
        rw [Nat.mul_comm, Nat.mul_add_div (span_pos l), Nat.div_eq_of_lt hj, Nat.add_zero]
      have hmod : (i * span l + j) % span l = j := by
        rw [Nat.mul_comm, Nat.mul_add_mod, Nat.mod_eq_of_lt hj]
      rw [dnodeAt, if_neg h0, hdiv, hmod, Nat.add_assoc]

section

variable {layout : InodeLayout} {s s' : Index} {k r o cut : Nat}

/-- The addresses of `n` blocks from block `b` on, without `NULL_ADDR`. -/
def addrsBetween (layout : InodeLayout) (s : Index) (b n : Nat) : List Nat :=
  ((List.range' b n).map (blockAddr layout s)).filter (· ≠ nullAddr)

/-- The addresses from block `b` on, without `NULL_ADDR`. -/
def addrsFromBlock (layout : InodeLayout) (s : Index) (b : Nat) : List Nat :=
  addrsBetween layout s b (layout.addrsPerInode + maxFileBlocks - b)

theorem addrsBetween_add (b m n : Nat) : addrsBetween layout s b (m + n) =
    addrsBetween layout s b m ++ addrsBetween layout s (b + m) n := by
  unfold addrsBetween
  rw [← List.range'_append_1, List.map_append, List.filter_append]

theorem addrsBetween_congr {b n : Nat}
    (h : ∀ c, b ≤ c → c < b + n → blockAddr layout s' c = blockAddr layout s c) :
    addrsBetween layout s' b n = addrsBetween layout s b n := by
  unfold addrsBetween
  rw [List.map_congr_left fun c hc => ?_]
  rw [List.mem_range'_1] at hc
  exact h c hc.1 hc.2

theorem addrsBetween_null {b n : Nat}
    (h : ∀ c, b ≤ c → c < b + n → blockAddr layout s c = nullAddr) :
    addrsBetween layout s b n = [] := by
  unfold addrsBetween
  refine List.filter_eq_nil_iff.mpr fun a ha => ?_
  obtain ⟨c, hc, rfl⟩ := List.mem_map.mp ha
  rw [List.mem_range'_1] at hc
  simp [h c hc.1 hc.2]

theorem addrsFromBlock_split {b c : Nat} (h : b ≤ c)
    (hc : c ≤ layout.addrsPerInode + maxFileBlocks) :
    addrsFromBlock layout s b =
      addrsBetween layout s b (c - b) ++ addrsFromBlock layout s c := by
  unfold addrsFromBlock
  rw [show layout.addrsPerInode + maxFileBlocks - b =
      c - b + (layout.addrsPerInode + maxFileBlocks - c) by omega,
    addrsBetween_add, Nat.add_sub_cancel' h]

/-- The addresses of a direct node are those of its blocks. -/
theorem addrsAt_dnodeOf (ht : IndexTree s) (hk : k < defNidsPerInode)
    (hr : r < span (topLevel k)) : addrsAt s.word (dnodeOf s k r) =
      addrsBetween layout s (cutBlock layout (topBase k + r)) addrsPerBlock := by
  have haddr : ∀ o, o < addrsPerBlock →
      blockAddr layout s (cutBlock layout (topBase k + r) + o) =
        if dnodeOf s k r = 0 then nullAddr else s.word (dnodeOf s k r) o := fun o ho =>
    blockAddr_blockOf ht hk hr ho
  unfold addrsAt
  by_cases h0 : dnodeOf s k r = 0
  · rw [if_pos h0]
    refine (addrsBetween_null fun c hc hlt => ?_).symm
    obtain ⟨o, rfl⟩ := Nat.exists_eq_add_of_le hc
    rw [haddr o (by omega), if_pos h0]
  · have hrange : List.range' (cutBlock layout (topBase k + r)) addrsPerBlock =
        slots.map (cutBlock layout (topBase k + r) + ·) := by
      rw [List.range'_eq_map_range, range_slots]
    have hmap : slots.map (s.word (dnodeOf s k r)) =
        (slots.map (cutBlock layout (topBase k + r) + ·)).map (blockAddr layout s) := by
      rw [List.map_map]
      refine List.map_congr_left fun o ho => ?_
      rw [Function.comp_apply, haddr o (mem_slots.mp ho), if_neg h0]
    rw [if_neg h0, addrsOf, addrsBetween, hrange, hmap]

theorem addrsBetween_dnodes (cut n : Nat) :
    (List.range n).flatMap (fun j =>
      addrsBetween layout s (cutBlock layout (cut + j)) addrsPerBlock) =
      addrsBetween layout s (cutBlock layout cut) (addrsPerBlock * n) := by
  induction n with
  | zero => rfl
  | succ n ih =>
      rw [List.range_succ, List.flatMap_append, ih, List.flatMap_singleton, Nat.mul_succ,
        addrsBetween_add]
      congr 2
      unfold cutBlock
      rw [Nat.mul_add, Nat.add_assoc]

/-- The addresses behind a cut. -/
theorem topDataFrom_eq (ht : IndexTree s)
    (hcut : cut ≤ 2 + 2 * nidsPerBlock + nidsPerBlock * nidsPerBlock) :
    topDataFrom s tops cut = addrsFromBlock layout s (cutBlock layout cut) := by
  obtain ⟨G, hG⟩ : ∃ G : Nat → List Nat, G = fun q =>
      if q < cut then [] else addrsBetween layout s (cutBlock layout q) addrsPerBlock := ⟨_, rfl⟩
  have htree : topDataFrom s tops cut = tops.flatMap fun k =>
      (List.range (span (topLevel k))).flatMap fun r => G (topBase k + r) := by
    refine List.flatMap_congr fun k hk => ?_
    rw [dataFrom_flat]
    refine List.flatMap_congr fun r hr => ?_
    rw [hG]
    simp only
    split
    · rfl
    · exact addrsAt_dnodeOf ht (List.mem_range.mp hk) (List.mem_range.mp hr)
  have hall : (tops.flatMap fun k =>
      (List.range (span (topLevel k))).flatMap fun r => G (topBase k + r)) =
      (List.range (2 + 2 * nidsPerBlock + nidsPerBlock * nidsPerBlock)).flatMap G := by
    have hsum : 2 + 2 * nidsPerBlock + nidsPerBlock * nidsPerBlock =
        span 0 + (span 0 + (span 1 + (span 1 + span 2))) := by decide
    have hbase : topBase 0 = 0 ∧ topBase 1 = span 0 ∧ topBase 2 = span 0 + span 0 ∧
        topBase 3 = span 0 + span 0 + span 1 ∧
        topBase 4 = span 0 + span 0 + span 1 + span 1 := by decide
    obtain ⟨h0, h1, h2, h3, h4⟩ := hbase
    have htops : tops = [0, 1, 2, 3, 4] := rfl
    have hlevel : topLevel 0 = 0 ∧ topLevel 1 = 0 ∧ topLevel 2 = 1 ∧ topLevel 3 = 1 ∧
        topLevel 4 = 2 := ⟨rfl, rfl, rfl, rfl, rfl⟩
    obtain ⟨l0, l1, l2, l3, l4⟩ := hlevel
    rw [hsum, htops]
    simp only [List.flatMap_cons, List.flatMap_nil, List.append_nil, h0, h1, h2, h3, h4, l0, l1,
      l2, l3, l4]
    generalize span 0 = a, span 1 = b, span 2 = c
    simp only [flatMap_range_add, Nat.zero_add, Nat.add_assoc]
  have hrest : (List.range (2 + 2 * nidsPerBlock + nidsPerBlock * nidsPerBlock)).flatMap G =
      addrsBetween layout s (cutBlock layout cut)
        (addrsPerBlock * (2 + 2 * nidsPerBlock + nidsPerBlock * nidsPerBlock - cut)) := by
    rw [show 2 + 2 * nidsPerBlock + nidsPerBlock * nidsPerBlock =
        cut + (2 + 2 * nidsPerBlock + nidsPerBlock * nidsPerBlock - cut) by omega,
      flatMap_range_add, Nat.add_sub_cancel_left, ← addrsBetween_dnodes,
      List.flatMap_eq_nil_iff.mpr fun q hq => ?_, List.nil_append]
    · refine List.flatMap_congr fun j _ => ?_
      rw [hG]
      exact if_neg (by omega)
    · rw [hG]
      exact if_pos (List.mem_range.mp hq)
  have hcount : layout.addrsPerInode + maxFileBlocks - cutBlock layout cut =
      addrsPerBlock * (2 + 2 * nidsPerBlock + nidsPerBlock * nidsPerBlock - cut) := by
    rw [maxFileBlocks_eq, cutBlock, Nat.add_sub_add_left, Nat.mul_sub]
  rw [htree, hall, hrest, addrsFromBlock, hcount]

end

end F2fs.Truncate

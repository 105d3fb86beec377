/-
  A truncation of the blocks of a file and its index nodes.

  `Truncated layout s s' free cut`: from block `free` on all addresses became `NULL_ADDR`,
  each that was not is invalidated once, the blocks before it stay, and the nodes that
  start at `cut` or behind it are freed.  It is put together from a range of addresses
  that `truncate_data_blocks_range` clears and a cut behind it.
-/
import F2fs.Truncate.FileBlocks

namespace F2fs.Truncate

open F2fs.Node

/-! ## Links -/

/-- The slots of index nodes are the same. -/
def Links (w w' : Words) : Nat → Nat → Prop
  | 0, _ => True
  | l + 1, nid => nid ≠ 0 → ∀ i ∈ slots, w' nid i = w nid i ∧ Links w w' l (w nid i)

/-- Slots that lead behind the cut are cleared, the others are the same. -/
def LinksCut (w w' : Words) (cut : Nat) : Nat → Nat → Nat → Prop
  | 0, _, _ => True
  | l + 1, nid, base => nid ≠ 0 → base < cut → ∀ i ∈ slots,
    w' nid i = left cut (base + i * span l) (w nid i) ∧
      LinksCut w w' cut l (w nid i) (base + i * span l)

section

variable {w w' w₁ : Words} {cut l nid base : Nat}

theorem Links.refl (w : Words) : ∀ (l nid : Nat), Links w w l nid := by
  intro l
  induction l with
  | zero => exact fun _ => trivial
  | succ l ih => exact fun nid _ i _ => ⟨rfl, ih _⟩

theorem Links.nodesFrom_eq {l : Nat} : ∀ {nid base : Nat}, Links w w' l nid →
    nodesFrom w' cut l nid base = nodesFrom w cut l nid base := by
  induction l with
  | zero =>
      intro nid base _
      rfl
  | succ l ih =>
      intro nid base h
      by_cases h0 : nid = 0
      · rw [h0, nodesFrom_missing, nodesFrom_missing]
      rw [nodesFrom_succ h0, nodesFrom_succ h0]
      congr 1
      refine List.flatMap_congr fun i hi => ?_
      obtain ⟨hword, hchild⟩ := h h0 i hi
      rw [hword, ih hchild]

theorem Links.dnodeAt_eq {l : Nat} : ∀ {nid r : Nat}, Links w w' l nid → r < span l →
    dnodeAt w' l nid r = dnodeAt w l nid r := by
  induction l with
  | zero =>
      intro nid r _ _
      rfl
  | succ l ih =>
      intro nid r h hr
      by_cases h0 : nid = 0
      · rw [h0, dnodeAt_missing, dnodeAt_missing]
      rw [span_succ, Nat.mul_comm] at hr
      obtain ⟨hword, hchild⟩ := h h0 (r / span l) (mem_slots.mpr (Nat.div_lt_of_lt_mul hr))
      rw [dnodeAt, if_neg h0, dnodeAt, if_neg h0, hword]
      exact ih hchild (Nat.mod_lt _ (span_pos l))

theorem Links.trans {l : Nat} : ∀ {nid : Nat}, Links w w₁ l nid → Links w₁ w' l nid →
    Links w w' l nid := by
  induction l with
  | zero => exact fun _ _ => trivial
  | succ l ih =>
      intro nid h h' h0 i hi
      obtain ⟨hword, hchild⟩ := h h0 i hi
      obtain ⟨hword', hchild'⟩ := h' h0 i hi
      rw [hword] at hword' hchild'
      exact ⟨hword', ih hchild hchild'⟩

/-- A cut after a change of direct nodes only. -/
theorem Links.linksCut {l : Nat} : ∀ {nid base : Nat}, Links w w₁ l nid →
    Kept w₁ w' cut l nid base → LinksCut w w' cut l nid base := by
  induction l with
  | zero => exact fun _ _ => trivial
  | succ l ih =>
      intro nid base h hkept h0 hb i hi
      obtain ⟨hword, hchild⟩ := h h0 i hi
      obtain ⟨hword', hchild'⟩ := hkept h0 hb i hi
      rw [hword] at hword' hchild'
      exact ⟨hword', ih hchild hchild'⟩

/-- Words of one node changed, which is a direct node or not in the tree. -/
theorem TreeAt.links {s : Index} {d : Nat} {l : Nat} : ∀ {nid : Nat}, TreeAt s l nid →
    (d ∈ nodesOf s.word l nid → ∃ r, r < span l ∧ dnodeAt s.word l nid r = d) → d ≠ 0 →
    (∀ m, m ≠ d → ∀ i, w' m i = s.word m i) → Links s.word w' l nid := by
  induction l with
  | zero => exact fun _ _ _ _ => trivial
  | succ l ih =>
      intro nid ht hd hd0 hw h0 i hi
      have hbelow := ht.below h0 (List.Sublist.refl slots)
      have hne : nid ≠ d := by
        rintro rfl
        obtain ⟨r, hr, hdr⟩ := hd (mem_nodesOf_self h0 _)
        rw [span_succ, Nat.mul_comm] at hr
        rw [dnodeAt, if_neg h0] at hdr
        have hm := dnodeAt_mem (Nat.mod_lt r (span_pos l)) (hdr ▸ h0)
        rw [hdr] at hm
        exact hbelow.notMem
          (List.mem_flatMap.mpr ⟨_, mem_slots.mpr (Nat.div_lt_of_lt_mul hr), hm⟩)
      refine ⟨hw nid hne i, ih (ht.child h0 hi) (fun hm => ?_) hd0 hw⟩
      obtain ⟨r, hr, hdr⟩ := hd (mem_nodesOf_child h0 hi hm)
      rw [span_succ, Nat.mul_comm] at hr
      rw [dnodeAt, if_neg h0] at hdr
      have hmod := Nat.mod_lt r (span_pos l)
      refine ⟨r % span l, hmod, ?_⟩
      by_cases hri : r / span l = i
      · rw [← hri]
        exact hdr
      · have hm' := dnodeAt_mem hmod (hdr ▸ hd0)
        rw [hdr] at hm'
        exact (ht.disjoint_slots h0 (mem_slots.mpr (Nat.div_lt_of_lt_mul hr)) hi hri hm' hm).elim

end

/-! ## A truncation -/

/-- Blocks from `free` on are truncated, and the nodes from `cut` on freed. -/
structure Truncated (layout : InodeLayout) (s s' : Index) (free cut : Nat) : Prop where
  behind : ∀ b, free ≤ b → b < 2 ^ 63 → blockAddr layout s' b = nullAddr
  before : ∀ b, b < free → blockAddr layout s' b = blockAddr layout s b
  /-- the addresses invalidated, and the three counters -/
  freed : Freed s s' (topNodesFrom s tops cut) (addrsFromBlock layout s free)
  /-- the slots that lead to the nodes -/
  top : ∀ k, k < defNidsPerInode → s'.iNid k = left cut (topBase k) (s.iNid k)
  links : ∀ k, k < defNidsPerInode →
    LinksCut s.word s'.word cut (topLevel k) (s.iNid k) (topBase k)
  tree : IndexTree s'

/-- What `truncate_data_blocks_range` does to the blocks `b` to `b + n`. -/
structure RangeFreed (layout : InodeLayout) (s s' : Index) (b n : Nat) : Prop where
  freed : Freed s s' [] (addrsBetween layout s b n)
  addr : ∀ c, c < 2 ^ 63 → blockAddr layout s' c =
    if b ≤ c ∧ c < b + n then nullAddr else blockAddr layout s c
  links : ∀ k, k < defNidsPerInode → Links s.word s'.word (topLevel k) (s.iNid k)
  iNid : s'.iNid = s.iNid
  tree : IndexTree s'

section

variable {layout : InodeLayout} {env : TruncEnv} {s s₁ s' : Index} {k k' r r' o cut b n free : Nat}

/-- A range of holes. -/
theorem RangeFreed.holes (ht : IndexTree s)
    (h : ∀ c, b ≤ c → c < b + n → blockAddr layout s c = nullAddr) : RangeFreed layout s s b n := by
  refine ⟨?_, fun c _ => ?_, fun k _ => Links.refl _ _ _, rfl, ht⟩
  · rw [addrsBetween_null h]
    exact Freed.refl s
  · split
    · rename_i hc
      exact h c hc.1 hc.2
    · rfl

theorem RangeFreed.none (ht : IndexTree s) (b : Nat) : RangeFreed layout s s b 0 :=
  RangeFreed.holes ht fun c hb hlt => by omega

/-- A change of direct nodes leaves the nodes where they are. -/
theorem topNodes_of_links
    (h : ∀ k, k < defNidsPerInode → Links s.word s'.word (topLevel k) (s.iNid k))
    (hiNid : s'.iNid = s.iNid) : topNodes s' tops = topNodes s tops := by
  refine List.flatMap_congr fun k hk => ?_
  rw [hiNid]
  exact (h k (List.mem_range.mp hk)).nodesFrom_eq

/-- The tree after a change of direct nodes. -/
theorem IndexTree.of_links (ht : IndexTree s)
    (h : ∀ k, k < defNidsPerInode → Links s.word s'.word (topLevel k) (s.iNid k))
    (hiNid : s'.iNid = s.iNid) (hnat : s'.nat = s.nat) : IndexTree s' := by
  have hnodes := topNodes_of_links h hiNid
  refine ⟨by rw [hnodes]; exact ht.nodup, fun m hm => ?_⟩
  rw [hnodes] at hm
  rw [hnat]
  exact ht.addr m hm

/-- Words of a direct node are no links. -/
theorem IndexTree.dnode_links (ht : IndexTree s) (hk : k < defNidsPerInode)
    (hr : r < span (topLevel k)) (h0 : dnodeOf s k r ≠ 0)
    (hw : ∀ m, m ≠ dnodeOf s k r → ∀ i, s'.word m i = s.word m i) :
    ∀ k', k' < defNidsPerInode → Links s.word s'.word (topLevel k') (s.iNid k') := by
  intro k' hk'
  refine (ht.treeAt hk').links (fun hm => ?_) h0 hw
  by_cases hkk : k' = k
  · subst hkk
    exact ⟨r, hr, rfl⟩
  · have hm' : dnodeOf s k r ∈ nodesOf s.word (topLevel k) (s.iNid k) := dnodeAt_mem hr h0
    exact (ht.disjoint_tops hk' hk hkk hm hm').elim

/-- Two ranges, one behind the other. -/
theorem RangeFreed.trans {m : Nat} (h₁ : RangeFreed layout s s₁ b n)
    (h₂ : RangeFreed layout s₁ s' (b + n) m) (hlt : b + n + m ≤ 2 ^ 63) :
    RangeFreed layout s s' b (n + m) := by
  refine ⟨?_, fun c hc => ?_, fun k hk => ?_, h₂.iNid.trans h₁.iNid, h₂.tree⟩
  · have hbetween : addrsBetween layout s₁ (b + n) m = addrsBetween layout s (b + n) m := by
      refine addrsBetween_congr fun c hc hcm => ?_
      rw [h₁.addr c (by omega), if_neg (by omega)]
    have hfreed := h₁.freed.trans h₂.freed (List.disjoint_nil_left [])
    rw [hbetween, List.nil_append] at hfreed
    rw [addrsBetween_add]
    exact hfreed
  · rw [h₂.addr c hc, h₁.addr c hc]
    by_cases hin : b + n ≤ c ∧ c < b + n + m
    · rw [if_pos hin, if_pos (by omega)]
    · rw [if_neg hin]
      by_cases hin' : b ≤ c ∧ c < b + n
      · rw [if_pos hin', if_pos (by omega)]
      · rw [if_neg hin', if_neg (by omega)]
  · have h := h₂.links k hk
    rw [h₁.iNid] at h
    exact (h₁.links k hk).trans h

/-- A range of blocks, and a cut behind it. -/
theorem RangeFreed.truncated (h₁ : RangeFreed layout s s₁ free n) (h₂ : TopsCut s₁ s' tops cut)
    (hfree : free + n ≤ layout.addrsPerInode + maxFileBlocks)
    (hcut : cut ≤ 2 + 2 * nidsPerBlock + nidsPerBlock * nidsPerBlock)
    (hle : cutBlock layout cut ≤ free + n)
    (hbefore : ∀ c, cutBlock layout cut ≤ c → c < free → blockAddr layout s c = nullAddr) :
    Truncated layout s s' free cut := by
  have hmax : layout.addrsPerInode + maxFileBlocks < 2 ^ 63 := by
    have hapi := layout.api_le
    have hmax : maxFileBlocks = 1057052516 := rfl
    unfold defAddrsPerInode at hapi
    omega
  have hnodes : topNodesFrom s₁ tops cut = topNodesFrom s tops cut := by
    refine List.flatMap_congr fun k hk => ?_
    rw [h₁.iNid]
    exact (h₁.links k (List.mem_range.mp hk)).nodesFrom_eq
  -- the addresses behind the range are those behind the cut
  have hdata : topDataFrom s₁ tops cut = addrsFromBlock layout s (free + n) := by
    rw [topDataFrom_eq h₁.tree hcut, addrsFromBlock_split hle hfree, addrsBetween_null,
      List.nil_append]
    · refine addrsBetween_congr fun c hc hlt => ?_
      rw [h₁.addr c (by omega), if_neg (by omega)]
    · intro c hc hlt
      rw [h₁.addr c (by omega)]
      by_cases hcf : free ≤ c
      · rw [if_pos (by omega)]
      · rw [if_neg (by omega)]
        exact hbefore c hc (by omega)
  refine ⟨?_, ?_, ?_, ?_, ?_, h₂.indexTree h₁.tree⟩
  · intro c hc hlt
    rw [h₂.blockAddr_eq h₁.tree hlt, h₁.addr c hlt]
    by_cases hcc : cutBlock layout cut ≤ c
    · rw [if_pos hcc]
    · rw [if_neg hcc, if_pos (by omega)]
  · intro c hc
    have hlt : c < 2 ^ 63 := by omega
    rw [h₂.blockAddr_eq h₁.tree hlt, h₁.addr c hlt,
      if_neg (by omega : ¬(free ≤ c ∧ c < free + n))]
    by_cases hcc : cutBlock layout cut ≤ c
    · rw [if_pos hcc, hbefore c hcc hc]
    · rw [if_neg hcc]
  · have hfreed := h₁.freed.trans h₂.freed (by simp)
    rw [hnodes, hdata, List.nil_append] at hfreed
    rw [addrsFromBlock_split (Nat.le_add_right free n) hfree, Nat.add_sub_cancel_left]
    exact hfreed
  · intro k hk
    rw [h₂.iNid_eq hk, h₁.iNid]
  · intro k hk
    have hkept := h₂.kept k (List.mem_range.mpr hk)
    rw [h₁.iNid] at hkept
    exact (h₁.links k hk).linksCut hkept

/-- A range of blocks in the inode. -/
theorem rangeFreed_inode (layout : InodeLayout) (ht : IndexTree s)
    (hb : b + n ≤ layout.addrsPerInode) :
    RangeFreed layout s (truncateDataBlocksRange layout s .inode b n) b n := by
  obtain ⟨hfreed, hiNid, haddr⟩ := truncateDataBlocksRange_spec layout s .inode b n
  generalize truncateDataBlocksRange layout s .inode b n = s₁ at *
  have hword : ∀ m i, s₁.word m i = s.word m i := fun m i => by
    have h := haddr (.node m) i
    rwa [if_neg fun hc => DataPage.noConfusion hc.1] at h
  have hwords : s₁.word = s.word := funext fun m => funext (hword m)
  have hnat : s₁.nat = s.nat := funext fun m => by simpa using hfreed.nat m
  have hlinks : ∀ k, k < defNidsPerInode → Links s.word s₁.word (topLevel k) (s.iNid k) := by
    intro k _
    rw [hwords]
    exact Links.refl _ _ _
  have ht₁ := ht.of_links hlinks hiNid hnat
  refine ⟨?_, fun c hc => ?_, hlinks, hiNid, ht₁⟩
  · have hin : addrsBetween layout s b n = addrsIn layout s .inode (List.range' b n) := by
      unfold addrsBetween addrsIn
      rw [List.map_congr_left fun c hc => ?_]
      rw [List.mem_range'_1] at hc
      exact blockAddr_inode (by omega)
    rw [hin]
    exact hfreed
  · rcases block_cases layout c with hin | ⟨k, r, o, hk, hr, ho, rfl⟩ | hlarge
    · rw [blockAddr_inode hin, blockAddr_inode hin, haddr]
      simp only [List.mem_range'_1, true_and]
    · have hdnode : dnodeOf s₁ k r = dnodeOf s k r := by
        unfold dnodeOf
        rw [hiNid, hwords]
      have hle : layout.addrsPerInode ≤ blockOf layout k r o := by
        unfold blockOf
        omega
      rw [blockAddr_blockOf ht₁ hk hr ho, blockAddr_blockOf ht hk hr ho, hdnode, hwords,
        if_neg (by omega : ¬(b ≤ blockOf layout k r o ∧ blockOf layout k r o < b + n))]
    · rw [blockAddr_large hlarge hc, blockAddr_large hlarge hc, ite_self]

/-- A range of blocks in a direct node. -/
theorem rangeFreed_node (layout : InodeLayout) (ht : IndexTree s) (hk : k < defNidsPerInode)
    (hr : r < span (topLevel k)) (ho : o + n ≤ addrsPerBlock) (h0 : dnodeOf s k r ≠ 0) :
    RangeFreed layout s (truncateDataBlocksRange layout s (.node (dnodeOf s k r)) o n)
      (blockOf layout k r o) n := by
  have haddrs : addrsBetween layout s (blockOf layout k r o) n =
      addrsIn layout s (.node (dnodeOf s k r)) (List.range' o n) := by
    have hblock : ∀ i, i < n → blockAddr layout s (blockOf layout k r o + i) =
        dataAddr layout s (.node (dnodeOf s k r)) (o + i) := by
      intro i hi
      have hshift : blockOf layout k r o + i = blockOf layout k r (o + i) := by
        unfold blockOf
        omega
      rw [hshift, blockAddr_blockOf ht hk hr (by omega), if_neg h0, dataAddr]
    unfold addrsBetween addrsIn
    rw [List.range'_eq_map_range, List.range'_eq_map_range, List.map_map, List.map_map]
    rw [List.map_congr_left fun i hi => ?_]
    rw [Function.comp_apply, Function.comp_apply]
    exact hblock i (List.mem_range.mp hi)
  obtain ⟨hfreed, hiNid, haddr⟩ := truncateDataBlocksRange_spec layout s
    (.node (dnodeOf s k r)) o n
  rw [← haddrs] at hfreed
  generalize truncateDataBlocksRange layout s (.node (dnodeOf s k r)) o n = s₁ at *
  have hword : ∀ m i, s₁.word m i =
      if m = dnodeOf s k r ∧ o ≤ i ∧ i < o + n then nullAddr else s.word m i := by
    intro m i
    have h := haddr (.node m) i
    simp only [DataPage.node.injEq, List.mem_range'_1] at h
    exact h
  have hnat : s₁.nat = s.nat := funext fun m => by simpa using hfreed.nat m
  have hlinks := ht.dnode_links hk hr h0 fun m hm i =>
    (hword m i).trans (if_neg fun hc => hm hc.1)
  have ht₁ := ht.of_links hlinks hiNid hnat
  refine ⟨hfreed, fun c hc => ?_, hlinks, hiNid, ht₁⟩
  rcases block_cases layout c with hin | ⟨k', r', o', hk', hr', ho', rfl⟩ | hlarge
  · have h := haddr .inode c
    rw [if_neg fun hc => DataPage.noConfusion hc.1] at h
    have hlt : c < blockOf layout k r o := by
      unfold blockOf
      omega
    rw [blockAddr_inode hin, blockAddr_inode hin, h, if_neg (by omega)]
  · have hdnode : dnodeOf s₁ k' r' = dnodeOf s k' r' := by
      unfold dnodeOf
      rw [hiNid]
      exact (hlinks k' hk').dnodeAt_eq hr'
    have hrange : (blockOf layout k r o ≤ blockOf layout k' r' o' ∧
        blockOf layout k' r' o' < blockOf layout k r o + n) ↔
        topBase k + r = topBase k' + r' ∧ o ≤ o' ∧ o' < o + n := by
      unfold blockOf addrsPerBlock
      unfold addrsPerBlock at ho ho'
      omega
    rw [blockAddr_blockOf ht₁ hk' hr' ho', blockAddr_blockOf ht hk' hr' ho', hdnode, hword]
    simp only [hrange]
    by_cases hd : dnodeOf s k' r' = 0
    · rw [if_pos hd, if_pos hd, ite_self]
    rw [if_neg hd, if_neg hd]
    by_cases hin : topBase k + r = topBase k' + r' ∧ o ≤ o' ∧ o' < o + n
    · obtain ⟨rfl, rfl⟩ := topBase_inj hk hk' hr hr' hin.1
      rw [if_pos hin, if_pos ⟨rfl, hin.2⟩]
    · rw [if_neg hin, if_neg]
      rintro ⟨hdd, hoo⟩
      obtain ⟨rfl, rfl⟩ := ht.dnodeOf_inj hk hk' hr hr' h0 hdd
      exact hin ⟨rfl, hoo⟩
  · rw [blockAddr_large hlarge hc, blockAddr_large hlarge hc, ite_self]

/-- The slot that a lookup finds. -/
theorem getDnodeOfData_found {page : DataPage} (ht : IndexTree s) (hb : b < 2 ^ 63)
    (h : getDnodeOfData layout env s b = .ok (page, o)) :
    (page = .inode ∧ o = b ∧ b < layout.addrsPerInode) ∨
    ∃ k r, k < defNidsPerInode ∧ r < span (topLevel k) ∧ o < addrsPerBlock ∧
      page = .node (dnodeOf s k r) ∧ dnodeOf s k r ≠ 0 ∧ b = blockOf layout k r o := by
  by_cases hin : b < layout.addrsPerInode
  · rw [getDnodeOfData_inode hin] at h
    cases h
    exact Or.inl ⟨rfl, rfl, hin⟩
  by_cases hmax : b < layout.addrsPerInode + maxFileBlocks
  · obtain ⟨p, k, r, o', hpath, hp, rfl⟩ := getNodePath_node (Nat.not_lt.mp hin) hmax
    have hspec := getPathPages_spec env (ht.treeAt hp.k_lt) hp
    cases hpages : getPathPages env s (offsetOf p) (topLevel k) with
    | error e =>
        rw [getDnodeOfData_error hpath hp hmax hpages] at h
        cases h
    | ok u =>
        obtain ⟨h0, hnid⟩ := hspec.ok hpages
        rw [getDnodeOfData_ok hpath hp hmax hpages, hnid] at h
        cases h
        exact Or.inr ⟨k, r, hp.k_lt, hp.r_lt, hp.o_lt, rfl, h0, rfl⟩
  · rw [getDnodeOfData, toLong_of_lt hb,
      (getNodePath_eq_none_iff layout.api_le).mpr (Nat.not_lt.mp hmax), dnodeOfPath] at h
    cases h

/-- A range of blocks in the page of a lookup. -/
theorem rangeFreed_found {page : DataPage} (ht : IndexTree s) (hb : b < 2 ^ 63)
    (h : getDnodeOfData layout env s b = .ok (page, o)) (hn : o + n ≤ addrsPerPage layout page) :
    RangeFreed layout s (truncateDataBlocksRange layout s page o n) b n := by
  rcases getDnodeOfData_found ht hb h with ⟨rfl, rfl, -⟩ | ⟨k, r, hk, hr, -, rfl, h0, rfl⟩
  · exact rangeFreed_inode layout ht hn
  · exact rangeFreed_node layout ht hk hr hn h0

end

end F2fs.Truncate

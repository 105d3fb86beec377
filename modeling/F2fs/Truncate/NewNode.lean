/-
  A new node in the index tree.

  `new_node_page` makes an empty node of a nid that no node of the tree has, and `set_nid`
  links it into a slot that was empty: the tree has one node more (`Linked`) and every block
  the address it had (`SameBlocks`).

  `OnPath w l nid p m` says that node `p` has level `m` in the tree of level `l` below
  `nid`; a slot of a node that is not a direct one leads to the next level.
-/
import F2fs.Truncate.Truncated

namespace F2fs.Truncate

open F2fs.Node

/-! ## The two steps -/

/-- The page and the NAT entry of `new_node_page`. -/
def newNode (s : Index) (nid : Nat) : Index :=
  { s with
    word := fun m j => if m = nid then 0 else s.word m j
    nat := fun m => if m = nid then newAddr else s.nat m }

/-- `set_nid` in the inode. -/
def setINid (s : Index) (i nid : Nat) : Index :=
  { s with iNid := fun j => if j = i then nid else s.iNid j }

/-! ## Nodes on a path -/

/-- Node `p` of level `m` in the tree of level `l` below `nid`. -/
inductive OnPath (w : Words) : Nat → Nat → Nat → Nat → Prop
  | here {l nid : Nat} (h0 : nid ≠ 0) : OnPath w l nid nid l
  | under {l nid i p m : Nat} (h0 : nid ≠ 0) (hi : i ∈ slots) (h : OnPath w l (w nid i) p m) :
    OnPath w (l + 1) nid p m

section

variable {w w' : Words} {s s' : Index} {l nid p m m' n i j r : Nat}

theorem OnPath.mem (h : OnPath w l nid p m) : p ∈ nodesOf w l nid := by
  induction h with
  | here h0 => exact mem_nodesOf_self h0 _
  | under h0 hi _ ih => exact mem_nodesOf_child h0 hi ih

/-- The slots of a node lead to the next level. -/
theorem OnPath.child (h : OnPath w l nid p (m + 1)) (hi : i ∈ slots) (h0 : w p i ≠ 0) :
    OnPath w l nid (w p i) m := by
  generalize hm : m + 1 = m₁ at h
  induction h with
  | here hn =>
    subst hm
    exact .under hn hi (.here h0)
  | under hn hj _ ih => exact .under hn hj (ih h0 hm)

theorem dnodeAt_onPath {l : Nat} : ∀ {nid r : Nat}, r < span l → dnodeAt w l nid r ≠ 0 →
    OnPath w l nid (dnodeAt w l nid r) 0 := by
  induction l with
  | zero =>
      intro nid r _ h0
      exact .here h0
  | succ l ih =>
      intro nid r hr hd
      by_cases h0 : nid = 0
      · rw [h0, dnodeAt_missing] at hd
        exact absurd rfl hd
      rw [span_succ, Nat.mul_comm] at hr
      rw [dnodeAt, if_neg h0] at hd ⊢
      exact .under h0 (mem_slots.mpr (Nat.div_lt_of_lt_mul hr))
        (ih (Nat.mod_lt _ (span_pos l)) hd)

/-- The node at the top is not below one of its slots. -/
theorem TreeAt.self_notMem (ht : TreeAt s (l + 1) nid) (h0 : nid ≠ 0) (hi : i ∈ slots) :
    nid ∉ nodesOf s.word l (s.word nid i) := fun hm =>
  (ht.below h0 (List.Sublist.refl slots)).notMem (List.mem_flatMap.mpr ⟨i, hi, hm⟩)

/-- A node has one level. -/
theorem TreeAt.level_inj (ht : TreeAt s l nid) (h : OnPath s.word l nid p m)
    (h' : OnPath s.word l nid p m') : m = m' := by
  induction h with
  | here h0 =>
    cases h' with
    | here _ => rfl
    | under _ hi h' => exact absurd h'.mem (ht.self_notMem h0 hi)
  | @under _ _ i _ _ h0 hi h ih =>
    cases h' with
    | here _ => exact absurd h.mem (ht.self_notMem h0 hi)
    | @under _ _ j _ _ _ hj h' =>
      by_cases hij : j = i
      · subst hij
        exact ih (ht.child h0 hi) h'
      · exact (ht.disjoint_slots h0 hj hi hij h'.mem h.mem).elim

/-! ## One slot more -/

/-- The slots of a node but one are as they were. -/
theorem dnodeAt_congr {l : Nat} : ∀ {nid r : Nat},
    (∀ m ∈ nodesOf w l nid, ∀ i, w' m i = w m i) → r < span l →
    dnodeAt w' l nid r = dnodeAt w l nid r := by
  induction l with
  | zero => exact fun _ _ => rfl
  | succ l ih =>
      intro nid r h hr
      by_cases h0 : nid = 0
      · rw [h0, dnodeAt_missing, dnodeAt_missing]
      rw [span_succ, Nat.mul_comm] at hr
      have hslot := mem_slots.mpr (Nat.div_lt_of_lt_mul hr)
      rw [dnodeAt, if_neg h0, dnodeAt, if_neg h0, h nid (mem_nodesOf_self h0 _)]
      exact ih (fun m hm => h m (mem_nodesOf_child h0 hslot hm)) (Nat.mod_lt _ (span_pos l))

/-- One list of a `flatMap` gets one element more. -/
theorem flatMap_grow {L : List Nat} {f f' : Nat → List Nat} (hL : L.Nodup) (hj : j ∈ L)
    (hf : ∀ i ∈ L, i ≠ j → f' i = f i) (hg : (f' j).Perm (n :: f j)) :
    (L.flatMap f').Perm (n :: L.flatMap f) := by
  obtain ⟨A, B, rfl⟩ := List.append_of_mem hj
  obtain ⟨-, hB, hdisj⟩ := List.nodup_append'.mp hL
  have hA : A.flatMap f' = A.flatMap f := List.flatMap_congr fun i hi =>
    hf i (List.mem_append_left _ hi) fun h => hdisj hi (h ▸ List.mem_cons_self)
  have hB' : B.flatMap f' = B.flatMap f := List.flatMap_congr fun i hi =>
    hf i (List.mem_append_right _ (List.mem_cons_of_mem _ hi))
      fun h => (List.nodup_cons.mp hB).1 (h ▸ hi)
  rw [List.flatMap_append, List.flatMap_append, List.flatMap_cons, List.flatMap_cons, hA, hB']
  refine ((hg.append_right _).append_left _).trans ?_
  exact List.perm_middle

/-- A node without children. -/
theorem nodesOf_empty (hn : ∀ i, w n i = 0) (h0 : n ≠ 0) (l : Nat) : nodesOf w l n = [n] := by
  cases l with
  | zero => exact nodesOf_zero h0
  | succ l =>
    rw [nodesOf_succ h0, List.flatMap_eq_nil_iff.mpr fun i _ => ?_, List.nil_append]
    rw [hn, nodesOf_missing]

theorem dnodeAt_empty (hn : ∀ i, w n i = 0) (h0 : n ≠ 0) (l r : Nat) :
    dnodeAt w l n r = 0 ∨ dnodeAt w l n r = n := by
  cases l with
  | zero => exact Or.inr rfl
  | succ l =>
    rw [dnodeAt, if_neg h0, hn, dnodeAt_missing]
    exact Or.inl rfl

theorem nodup_slots : slots.Nodup := by
  unfold slots
  exact List.nodup_range

/-- Slot `j` of node `p`, which was empty, leads to an empty node `n`. -/
structure SlotLinked (w w' : Words) (p j n : Nat) : Prop where
  slot : w p j = 0
  set : w' p j = n
  other : ∀ m i, ¬(m = p ∧ i = j) → w' m i = w m i
  empty : ∀ i, w' n i = 0
  ne_zero : n ≠ 0

theorem SlotLinked.off (h : SlotLinked w w' p j n) (hp : p ∉ nodesOf w l nid) :
    ∀ m ∈ nodesOf w l nid, ∀ i, w' m i = w m i := fun m hm i =>
  h.other m i fun hc => hp (hc.1 ▸ hm)

/-- The tree has one node more. -/
theorem SlotLinked.nodesOf_perm (h : SlotLinked s.word w' p j n) (ht : TreeAt s l nid)
    (hp : OnPath s.word l nid p (m + 1)) (hj : j ∈ slots) :
    (nodesOf w' l nid).Perm (n :: nodesOf s.word l nid) := by
  generalize hm : m + 1 = m₁ at hp
  induction hp with
  | @here l nid h0 =>
    subst hm
    rw [nodesOf_succ h0, nodesOf_succ h0]
    rw [← List.cons_append]
    refine List.Perm.append_right [nid] ?_
    refine flatMap_grow nodup_slots hj (fun i hi hij => ?_) ?_
    · rw [h.other nid i fun hc => hij hc.2]
      exact nodesOf_congr (h.off (ht.self_notMem h0 hi))
    · rw [h.set, h.slot, nodesOf_missing, nodesOf_empty h.empty h.ne_zero]
  | @under l nid i p m₁ h0 hi hp ih =>
    have hne : nid ≠ p := fun hc => ht.self_notMem h0 hi (hc ▸ hp.mem)
    rw [nodesOf_succ h0, nodesOf_succ h0]
    rw [← List.cons_append]
    refine List.Perm.append_right [nid] ?_
    refine flatMap_grow nodup_slots hi (fun i' hi' hii => ?_) ?_
    · rw [h.other nid i' fun hc => hne hc.1]
      refine nodesOf_congr (h.off fun hmem => ?_)
      exact ht.disjoint_slots h0 hi' hi hii hmem hp.mem
    · rw [h.other nid i fun hc => hne hc.1]
      exact ih h (ht.child h0 hi) hm

/-- A direct node stays where it is; one that was missing may be the new node. -/
theorem SlotLinked.dnodeAt_cases (h : SlotLinked s.word w' p j n) (ht : TreeAt s l nid)
    (hp : OnPath s.word l nid p (m + 1)) (hr : r < span l) :
    dnodeAt w' l nid r = dnodeAt s.word l nid r ∨
      dnodeAt s.word l nid r = 0 ∧ dnodeAt w' l nid r = n := by
  generalize hm : m + 1 = m₁ at hp
  induction hp generalizing r with
  | @here l nid h0 =>
    subst hm
    rw [span_succ, Nat.mul_comm] at hr
    have hslot := mem_slots.mpr (Nat.div_lt_of_lt_mul hr)
    rw [dnodeAt, if_neg h0, dnodeAt, if_neg h0]
    by_cases hrj : r / span m = j
    · rw [hrj, h.set, h.slot, dnodeAt_missing]
      exact (dnodeAt_empty h.empty h.ne_zero m _).imp_right fun hd => ⟨rfl, hd⟩
    · rw [h.other nid _ fun hc => hrj hc.2]
      exact Or.inl (dnodeAt_congr (h.off (ht.self_notMem h0 hslot)) (Nat.mod_lt _ (span_pos m)))
  | @under l nid i p m₁ h0 hi hp ih =>
    have hne : nid ≠ p := fun hc => ht.self_notMem h0 hi (hc ▸ hp.mem)
    rw [span_succ, Nat.mul_comm] at hr
    have hslot := mem_slots.mpr (Nat.div_lt_of_lt_mul hr)
    have hmod := Nat.mod_lt r (span_pos l)
    rw [dnodeAt, if_neg h0, dnodeAt, if_neg h0, h.other nid _ fun hc => hne hc.1]
    by_cases hri : r / span l = i
    · rw [hri]
      exact ih h (ht.child h0 hi) hmod hm
    · refine Or.inl (dnodeAt_congr (h.off fun hmem => ?_) hmod)
      exact ht.disjoint_slots h0 hslot hi hri hmem hp.mem

end

/-! ## The file -/

/-- An index tree in which every block has the address that it has in `s`. -/
structure SameBlocks (layout : InodeLayout) (s s' : Index) : Prop where
  tree : IndexTree s'
  addr : ∀ b, b < 2 ^ 63 → blockAddr layout s' b = blockAddr layout s b

section

variable {layout : InodeLayout} {s s' s₁ : Index} {k p j n m : Nat}

theorem SameBlocks.refl (ht : IndexTree s) : SameBlocks layout s s := ⟨ht, fun _ _ => rfl⟩

theorem SameBlocks.trans (h : SameBlocks layout s s₁) (h' : SameBlocks layout s₁ s') :
    SameBlocks layout s s' :=
  ⟨h'.tree, fun b hb => (h'.addr b hb).trans (h.addr b hb)⟩

/-- The address of block `o` of direct node `d`. -/
def slotAddr (s : Index) (d o : Nat) : Nat := if d = 0 then nullAddr else s.word d o

/-- Blocks are the same if those of the inode and of each direct node are. -/
theorem SameBlocks.of_dnodes (ht : IndexTree s) (ht' : IndexTree s') (hi : s'.iAddr = s.iAddr)
    (hd : ∀ k r o, k < defNidsPerInode → r < span (topLevel k) → o < addrsPerBlock →
      slotAddr s' (dnodeOf s' k r) o = slotAddr s (dnodeOf s k r) o) :
    SameBlocks layout s s' := by
  refine ⟨ht', fun b hb => ?_⟩
  rcases block_cases layout b with hin | ⟨k, r, o, hk, hr, ho, rfl⟩ | hlarge
  · rw [blockAddr_inode hin, blockAddr_inode hin, dataAddr, dataAddr, hi]
  · rw [blockAddr_blockOf ht' hk hr ho, blockAddr_blockOf ht hk hr ho]
    exact hd k r o hk hr ho
  · rw [blockAddr_large hlarge hb, blockAddr_large hlarge hb]

/-- A node that is in no tree yet. -/
structure Spare (s : Index) (n : Nat) : Prop where
  ne_zero : n ≠ 0
  addr : s.nat n ≠ nullAddr
  empty : ∀ i, s.word n i = 0
  notMem : n ∉ topNodes s tops

theorem mem_topNodes (hk : k < defNidsPerInode)
    (hm : m ∈ nodesOf s.word (topLevel k) (s.iNid k)) : m ∈ topNodes s tops :=
  List.mem_flatMap.mpr ⟨k, List.mem_range.mpr hk, hm⟩

variable (layout) in
/-- A new page that is not linked yet. -/
theorem newNode_spare (ht : IndexTree s) (h0 : n ≠ 0) (hnot : n ∉ topNodes s tops) :
    SameBlocks layout s (newNode s n) ∧ topNodes (newNode s n) tops = topNodes s tops ∧
      Spare (newNode s n) n := by
  have hword : ∀ m, m ≠ n → ∀ i, (newNode s n).word m i = s.word m i := fun m hm i => if_neg hm
  have hsame : ∀ k, k < defNidsPerInode → ∀ m ∈ nodesOf s.word (topLevel k) (s.iNid k),
      ∀ i, (newNode s n).word m i = s.word m i := fun k hk m hm =>
    hword m fun hc => hnot (hc ▸ mem_topNodes hk hm)
  have hnodes : topNodes (newNode s n) tops = topNodes s tops :=
    List.flatMap_congr fun k hk => nodesOf_congr (hsame k (List.mem_range.mp hk))
  have ht' : IndexTree (newNode s n) := by
    refine ⟨by rw [hnodes]; exact ht.nodup, fun m hm => ?_⟩
    rw [hnodes] at hm
    have hmn : m ≠ n := fun hc => hnot (hc ▸ hm)
    show (if m = n then newAddr else s.nat m) ≠ nullAddr
    rw [if_neg hmn]
    exact ht.addr m hm
  refine ⟨SameBlocks.of_dnodes ht ht' rfl fun k r o hk hr _ => ?_, hnodes, h0, ?_,
    fun i => if_pos rfl, ?_⟩
  · have hd : dnodeOf (newNode s n) k r = dnodeOf s k r := dnodeAt_congr (hsame k hk) hr
    rw [hd, slotAddr, slotAddr]
    split
    · rfl
    · rename_i hd0
      exact hsame k hk _ (dnodeAt_mem hr hd0) o
  · show (if n = n then newAddr else s.nat n) ≠ nullAddr
    rw [if_pos rfl]
    decide
  · rw [hnodes]
    exact hnot

/-- Trees that have got one node more between them. -/
theorem IndexTree.of_perm (ht : IndexTree s) (hn : Spare s n) (hnat : s'.nat = s.nat)
    (hperm : (topNodes s' tops).Perm (n :: topNodes s tops)) : IndexTree s' := by
  refine ⟨hperm.nodup_iff.mpr (List.nodup_cons.mpr ⟨hn.notMem, ht.nodup⟩), fun m hm => ?_⟩
  rw [hnat]
  rcases List.mem_cons.mp (hperm.subset hm) with rfl | hm'
  · exact hn.addr
  · exact ht.addr m hm'

/-- The tree has node `n` besides what it had, and every block is the same. -/
structure Linked (layout : InodeLayout) (s s' : Index) (n : Nat) : Prop where
  blocks : SameBlocks layout s s'
  nodes : (topNodes s' tops).Perm (n :: topNodes s tops)

variable (layout) in
/-- A spare node goes into an empty slot of the inode. -/
theorem setINid_linked (ht : IndexTree s) (hn : Spare s n) (hk : k < defNidsPerInode)
    (h0 : s.iNid k = 0) : Linked layout s (setINid s k n) n := by
  have hother : ∀ k', k' ≠ k → (setINid s k n).iNid k' = s.iNid k' := fun k' hne => if_neg hne
  have hself : (setINid s k n).iNid k = n := if_pos rfl
  have hperm : (topNodes (setINid s k n) tops).Perm (n :: topNodes s tops) := by
    refine flatMap_grow List.nodup_range (List.mem_range.mpr hk) (fun k' _ hne => ?_) ?_
    · rw [hother k' hne]
      rfl
    · rw [hself, h0, nodesOf_missing]
      show (nodesOf s.word (topLevel k) n).Perm [n]
      rw [nodesOf_empty hn.empty hn.ne_zero]
  have ht' : IndexTree (setINid s k n) := ht.of_perm hn rfl hperm
  refine ⟨SameBlocks.of_dnodes ht ht' rfl fun k' r o hk' hr _ => ?_, hperm⟩
  by_cases hkk : k' = k
  · subst hkk
    have hd : dnodeOf s k' r = 0 := by rw [dnodeOf, h0, dnodeAt_missing]
    have hd' : dnodeOf (setINid s k' n) k' r = dnodeAt s.word (topLevel k') n r := by
      rw [dnodeOf, hself]
      rfl
    rw [hd, hd', slotAddr, slotAddr, if_pos rfl]
    rcases dnodeAt_empty hn.empty hn.ne_zero (topLevel k') r with hz | hz
    · rw [hz, if_pos rfl]
    · rw [hz, if_neg hn.ne_zero]
      exact hn.empty o
  · have hd : dnodeOf (setINid s k n) k' r = dnodeOf s k' r := by
      rw [dnodeOf, dnodeOf, hother k' hkk]
      rfl
    rw [hd]
    rfl

variable (layout) in
/-- A spare node goes into an empty slot of an indirect node. -/
theorem setNid_linked (ht : IndexTree s) (hn : Spare s n) (hk : k < defNidsPerInode)
    (hp : OnPath s.word (topLevel k) (s.iNid k) p (m + 1)) (hj : j ∈ slots)
    (h0 : s.word p j = 0) : Linked layout s (setNid s p j n) n := by
  have hpn : n ≠ p := fun hc => hn.notMem (hc ▸ mem_topNodes hk hp.mem)
  have hlink : SlotLinked s.word (setNid s p j n).word p j n :=
    ⟨h0, if_pos ⟨rfl, rfl⟩, fun _ _ hc => if_neg hc,
      fun i => (if_neg fun hc => hpn hc.1).trans (hn.empty i), hn.ne_zero⟩
  -- the trees at the other nids of the inode have no word of `p`
  have hoff : ∀ k', k' < defNidsPerInode → k' ≠ k →
      ∀ q ∈ nodesOf s.word (topLevel k') (s.iNid k'), ∀ i,
        (setNid s p j n).word q i = s.word q i := fun k' hk' hne =>
    hlink.off fun hmem => ht.disjoint_tops hk' hk hne hmem hp.mem
  have hperm : (topNodes (setNid s p j n) tops).Perm (n :: topNodes s tops) := by
    refine flatMap_grow List.nodup_range (List.mem_range.mpr hk) (fun k' hk' hne => ?_) ?_
    · exact nodesOf_congr (hoff k' (List.mem_range.mp hk') hne)
    · exact hlink.nodesOf_perm (ht.treeAt hk) hp hj
  have ht' : IndexTree (setNid s p j n) := ht.of_perm hn rfl hperm
  refine ⟨SameBlocks.of_dnodes ht ht' rfl fun k' r o hk' hr _ => ?_, hperm⟩
  have hsame : dnodeOf (setNid s p j n) k' r = dnodeOf s k' r ∨
      dnodeOf s k' r = 0 ∧ dnodeOf (setNid s p j n) k' r = n := by
    by_cases hkk : k' = k
    · subst hkk
      exact hlink.dnodeAt_cases (ht.treeAt hk) hp hr
    · exact Or.inl (dnodeAt_congr (hoff k' hk' hkk) hr)
  rcases hsame with hd | ⟨hd, hd'⟩
  · rw [hd, slotAddr, slotAddr]
    split
    · rfl
    · rename_i hd0
      -- `p` is not a direct node
      refine hlink.other _ o fun hc => ?_
      have hpath : OnPath s.word (topLevel k') (s.iNid k') (dnodeOf s k' r) 0 :=
        dnodeAt_onPath hr hd0
      rw [hc.1] at hpath
      by_cases hkk : k' = k
      · subst hkk
        exact absurd ((ht.treeAt hk).level_inj hpath hp) (Nat.succ_ne_zero m).symm
      · exact ht.disjoint_tops hk' hk hkk hpath.mem hp.mem
  · rw [hd, hd', slotAddr, slotAddr, if_pos rfl, if_neg hn.ne_zero]
    exact hlink.empty o

end

end F2fs.Truncate

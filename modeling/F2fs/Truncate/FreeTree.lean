/-
  What the functions that free nodes do.

  `Freed s s' nodes data`: from `s` to `s'` exactly the nodes of the list lost their NAT
  address, and `invalidate_blocks` was called once for the address of each of them and once
  for each address in `data`.  It says nothing about the words of the node pages; each
  function says which of these it leaves alone.
-/
import F2fs.Truncate.IndexTree
import F2fs.Truncate.TruncateBlocks

namespace F2fs.Truncate

open F2fs.Node

/-! ## What has been freed -/

structure Freed (s s' : Index) (nodes data : List Nat) : Prop where
  nat : ∀ n, s'.nat n = if n ∈ nodes then nullAddr else s.nat n
  invalidated : s'.invalidated.Perm (s.invalidated ++ (data ++ nodes.map s.nat))
  nodeCount : s'.totalValidNodeCount = s.totalValidNodeCount - nodes.length
  blockCount : s'.totalValidBlockCount = s.totalValidBlockCount - (data.length + nodes.length)
  iBlocks : s'.iBlocks = s.iBlocks - (data.length + nodes.length)

theorem Freed.refl (s : Index) : Freed s s [] [] := by
  refine ⟨by simp, by simp, by simp, by simp, by simp⟩

theorem Freed.trans {s s₁ s₂ : Index} {n₁ n₂ d₁ d₂ : List Nat} (h₁ : Freed s s₁ n₁ d₁)
    (h₂ : Freed s₁ s₂ n₂ d₂) (hd : n₁.Disjoint n₂) : Freed s s₂ (n₁ ++ n₂) (d₁ ++ d₂) := by
  have hnat : n₂.map s₁.nat = n₂.map s.nat := by
    refine List.map_congr_left fun n hn => ?_
    rw [h₁.nat, if_neg fun hn₁ => hd hn₁ hn]
  refine ⟨?_, ?_, ?_, ?_, ?_⟩
  · intro n
    rw [h₂.nat, h₁.nat]
    by_cases hn₁ : n ∈ n₁ <;> by_cases hn₂ : n ∈ n₂ <;> simp [hn₁, hn₂]
  · refine h₂.invalidated.trans ?_
    rw [hnat]
    refine (h₁.invalidated.append_right _).trans ?_
    rw [List.map_append, List.append_assoc, List.append_assoc]
    refine List.Perm.append_left _ ?_
    rw [List.append_assoc]
    refine List.Perm.append_left _ ?_
    exact List.perm_append_comm_assoc _ _ _
  · rw [h₂.nodeCount, h₁.nodeCount, List.length_append]
    push_cast
    omega
  · rw [h₂.blockCount, h₁.blockCount, List.length_append, List.length_append]
    push_cast
    omega
  · rw [h₂.iBlocks, h₁.iBlocks, List.length_append, List.length_append]
    push_cast
    omega

/-- A step that changes words only. -/
theorem Freed.of_words {s s₁ s₂ : Index} {nodes data : List Nat} (h : Freed s s₁ nodes data)
    (hnat : s₂.nat = s₁.nat) (hinv : s₂.invalidated = s₁.invalidated)
    (hnc : s₂.totalValidNodeCount = s₁.totalValidNodeCount)
    (hbc : s₂.totalValidBlockCount = s₁.totalValidBlockCount) (hib : s₂.iBlocks = s₁.iBlocks) :
    Freed s s₂ nodes data := by
  refine ⟨?_, ?_, ?_, ?_, ?_⟩
  · rw [hnat]
    exact h.nat
  · rw [hinv]
    exact h.invalidated
  · rw [hnc, h.nodeCount]
  · rw [hbc, h.blockCount]
  · rw [hib, h.iBlocks]

theorem freed_setNid {s s₁ : Index} {nodes data : List Nat} (h : Freed s s₁ nodes data)
    (p i nid : Nat) : Freed s (setNid s₁ p i nid) nodes data :=
  h.of_words rfl rfl rfl rfl rfl

theorem freed_truncateNode (s : Index) (nid : Nat) : Freed s (truncateNode s nid) [nid] [] := by
  refine ⟨?_, by simp [truncateNode, clearNodeAddr, decValidNodeCount, invalidateBlocks], rfl, rfl,
    rfl⟩
  intro n
  simp [truncateNode, clearNodeAddr, decValidNodeCount, invalidateBlocks]

/-! ## Data blocks -/

section

variable (layout : InodeLayout)

/-- The block addresses in the slots of a list. -/
def addrsIn (s : Index) (page : DataPage) (L : List Nat) : List Nat :=
  (L.map (dataAddr layout s page)).filter (· ≠ nullAddr)

theorem dataAddr_setDataBlkaddr (s : Index) (page page' : DataPage) (ofs j v : Nat) :
    dataAddr layout (setDataBlkaddr layout s page ofs v) page' j =
      if page' = page ∧ j = ofs then v else dataAddr layout s page' j := by
  cases page <;> cases page' <;> simp [dataAddr, setDataBlkaddr, setNid]

/-- The loop of `truncate_data_blocks_range`. -/
theorem truncateDataBlock_foldl (page : DataPage) : ∀ {L : List Nat} {s : Index} {k : Nat},
    L.Nodup →
    let r := L.foldl (truncateDataBlock layout page) (s, k)
    r.2 = k + (addrsIn layout s page L).length ∧
    r.1.invalidated = s.invalidated ++ addrsIn layout s page L ∧
    (∀ page' j, dataAddr layout r.1 page' j =
      if page' = page ∧ j ∈ L then nullAddr else dataAddr layout s page' j) ∧
    r.1.iNid = s.iNid ∧ r.1.nat = s.nat ∧ r.1.totalValidNodeCount = s.totalValidNodeCount ∧
    r.1.totalValidBlockCount = s.totalValidBlockCount ∧ r.1.iBlocks = s.iBlocks := by
  intro L
  induction L with
  | nil =>
      intro s k _
      simp [addrsIn]
  | cons i L ih =>
      intro s k hnd
      obtain ⟨hi, hnd⟩ := List.nodup_cons.mp hnd
      simp only [List.foldl_cons]
      by_cases h0 : dataAddr layout s page i = nullAddr
      · -- nothing there
        have hstep : truncateDataBlock layout page (s, k) i = (s, k) := if_pos h0
        have haddrs : addrsIn layout s page (i :: L) = addrsIn layout s page L := by
          simp [addrsIn, h0]
        obtain ⟨h₁, h₂, h₃, hrest⟩ := ih (s := s) (k := k) hnd
        rw [hstep, haddrs]
        refine ⟨h₁, h₂, ?_, hrest⟩
        intro page' j
        rw [h₃]
        by_cases hj : page' = page ∧ j = i
        · obtain ⟨rfl, rfl⟩ := hj
          simp [h0]
        · have : (page' = page ∧ j ∈ i :: L) ↔ (page' = page ∧ j ∈ L) := by
            rw [List.mem_cons]
            tauto
          simp only [this]
      · -- one more
        obtain ⟨s₁, hs₁⟩ : ∃ s₁, s₁ = invalidateBlocks (setDataBlkaddr layout s page i nullAddr)
          (dataAddr layout s page i) := ⟨_, rfl⟩
        have hstep : truncateDataBlock layout page (s, k) i = (s₁, k + 1) := by
          rw [hs₁]
          exact if_neg h0
        have hword (page' : DataPage) (j : Nat) : dataAddr layout s₁ page' j =
            if page' = page ∧ j = i then nullAddr else dataAddr layout s page' j := by
          rw [hs₁]
          exact dataAddr_setDataBlkaddr layout s page page' i j nullAddr
        have hsame : addrsIn layout s₁ page L = addrsIn layout s page L := by
          unfold addrsIn
          congr 1
          refine List.map_congr_left fun j hj => ?_
          rw [hword, if_neg]
          rintro ⟨-, rfl⟩
          exact hi hj
        have haddrs : addrsIn layout s page (i :: L) =
            dataAddr layout s page i :: addrsIn layout s page L := by
          simp [addrsIn, h0]
        have hs₁inv : s₁.invalidated = s.invalidated ++ [dataAddr layout s page i] := by
          rw [hs₁]
          cases page <;> rfl
        have hkeep : s₁.iNid = s.iNid ∧ s₁.nat = s.nat ∧
            s₁.totalValidNodeCount = s.totalValidNodeCount ∧
            s₁.totalValidBlockCount = s.totalValidBlockCount ∧ s₁.iBlocks = s.iBlocks := by
          rw [hs₁]
          cases page <;> exact ⟨rfl, rfl, rfl, rfl, rfl⟩
        obtain ⟨k₁, k₂, k₃, k₄, k₅⟩ := hkeep
        obtain ⟨h₁, h₂, h₃, h₄, h₅, h₆, h₇, h₈⟩ := ih (s := s₁) (k := k + 1) hnd
        rw [hstep, haddrs]
        refine ⟨?_, ?_, ?_, h₄.trans k₁, h₅.trans k₂, h₆.trans k₃, h₇.trans k₄, h₈.trans k₅⟩
        · rw [h₁, hsame, List.length_cons]
          omega
        · rw [h₂, hs₁inv, hsame, List.append_assoc]
          rfl
        · intro page' j
          rw [h₃, hword]
          by_cases hp : page' = page <;> by_cases hj : j ∈ L <;> by_cases hji : j = i <;>
            simp [hp, hj, hji]

/-- `truncate_data_blocks_range` frees the addresses in its range. -/
theorem truncateDataBlocksRange_spec (s : Index) (page : DataPage) (ofs count : Nat) :
    let s' := truncateDataBlocksRange layout s page ofs count
    Freed s s' [] (addrsIn layout s page (List.range' ofs count)) ∧ s'.iNid = s.iNid ∧
      ∀ page' j, dataAddr layout s' page' j =
        if page' = page ∧ j ∈ List.range' ofs count then nullAddr
        else dataAddr layout s page' j := by
  obtain ⟨h₁, h₂, h₃, h₄, h₅, h₆, h₇, h₈⟩ :=
    truncateDataBlock_foldl layout page (s := s) (k := 0)
      (List.nodup_range' (s := ofs) (n := count))
  unfold truncateDataBlocksRange
  simp only
  generalize (List.range' ofs count).foldl (truncateDataBlock layout page) (s, 0) = r at *
  rw [Nat.zero_add] at h₁
  split
  · refine ⟨⟨?_, ?_, ?_, ?_, ?_⟩, h₄, h₃⟩
    · simp [decValidBlockCount, h₅]
    · simp [decValidBlockCount, h₂]
    · simp [decValidBlockCount, h₆]
    · simp [decValidBlockCount, h₇, h₁]
    · simp [decValidBlockCount, h₈, h₁]
  · rename_i h0
    have hlen : (addrsIn layout s page (List.range' ofs count)).length = 0 := by omega
    refine ⟨⟨by simp [h₅], by simp [h₂], by simp [h₆], ?_, ?_⟩, h₄, h₃⟩
    · rw [h₇, hlen]
      simp
    · rw [h₈, hlen]
      simp

/-- The addresses of the inode stay when the page is a direct node. -/
theorem truncateDataBlocksRange_node (s : Index) (nid ofs count : Nat) :
    (truncateDataBlocksRange layout s (.node nid) ofs count).iAddr = s.iAddr := by
  have hloop : ∀ (L : List Nat) (acc : Index × Nat),
      (L.foldl (truncateDataBlock layout (.node nid)) acc).1.iAddr = acc.1.iAddr := by
    intro L
    induction L with
    | nil => exact fun _ => rfl
    | cons i L ih =>
        intro acc
        rw [List.foldl_cons, ih]
        unfold truncateDataBlock
        simp only
        split <;> rfl
  unfold truncateDataBlocksRange
  simp only
  split <;> exact hloop _ _

end

/-! ## Trees -/

/-- Every node of the tree has an address, and no nid is used twice. -/
structure TreeAt (s : Index) (l nid : Nat) : Prop where
  nodup : (nodesOf s.word l nid).Nodup
  addr : ∀ m ∈ nodesOf s.word l nid, s.nat m ≠ nullAddr

/-- All of a tree is freed, and no word outside it changed. -/
structure SubtreeFreed (s s' : Index) (l nid : Nat) : Prop where
  freed : Freed s s' (nodesOf s.word l nid) (dataOf s.word l nid)
  word : ∀ m, m ∉ nodesOf s.word l nid → ∀ i, s'.word m i = s.word m i
  iAddr : s'.iAddr = s.iAddr
  iNid : s'.iNid = s.iNid

/-- The nodes below the slots `L` of a node `p`. -/
def nodesBelow (s : Index) (l p : Nat) (L : List Nat) : List Nat :=
  L.flatMap fun i => nodesOf s.word l (s.word p i)

def dataBelow (s : Index) (l p : Nat) (L : List Nat) : List Nat :=
  L.flatMap fun i => dataOf s.word l (s.word p i)

/-- The trees below the slots `L` of `p` are freed, and these slots are cleared. -/
structure ChildrenFreed (s s' : Index) (l p : Nat) (L : List Nat) : Prop where
  freed : Freed s s' (nodesBelow s l p L) (dataBelow s l p L)
  slot : ∀ i, s'.word p i = if i ∈ L then 0 else s.word p i
  word : ∀ m, m ∉ nodesBelow s l p L → m ≠ p → ∀ i, s'.word m i = s.word m i
  iAddr : s'.iAddr = s.iAddr
  iNid : s'.iNid = s.iNid

theorem SubtreeFreed.missing (s : Index) (l : Nat) : SubtreeFreed s s l 0 := by
  refine ⟨?_, fun _ _ _ => rfl, rfl, rfl⟩
  rw [nodesOf_missing, dataOf_missing]
  exact Freed.refl s

/-- What is below other slots is still there, unchanged. -/
theorem ChildrenFreed.below_eq {s s' : Index} {l p : Nat} {L L' : List Nat}
    (h : ChildrenFreed s s' l p L) (hL : L.Disjoint L') (hp : p ∉ nodesBelow s l p L')
    (hd : (nodesBelow s l p L).Disjoint (nodesBelow s l p L')) :
    nodesBelow s' l p L' = nodesBelow s l p L' ∧ dataBelow s' l p L' = dataBelow s l p L' := by
  have hslot : ∀ i ∈ L', s'.word p i = s.word p i := fun i hi => by
    rw [h.slot, if_neg fun hi' => hL hi' hi]
  have hword : ∀ i ∈ L', ∀ m ∈ nodesOf s.word l (s.word p i), ∀ j, s'.word m j = s.word m j := by
    intro i hi m hm j
    have hmem : m ∈ nodesBelow s l p L' := List.mem_flatMap.mpr ⟨i, hi, hm⟩
    exact h.word m (fun hm' => hd hm' hmem) (fun hmp => hp (hmp ▸ hmem)) j
  constructor
  · refine List.flatMap_congr fun i hi => ?_
    rw [hslot i hi, nodesOf_congr (hword i hi)]
  · refine List.flatMap_congr fun i hi => ?_
    rw [hslot i hi, dataOf_congr (hword i hi)]

theorem ChildrenFreed.trans {s s₁ s₂ : Index} {l p : Nat} {L L' : List Nat}
    (h₁ : ChildrenFreed s s₁ l p L) (h₂ : ChildrenFreed s₁ s₂ l p L') (hL : L.Disjoint L')
    (hp : p ∉ nodesBelow s l p L')
    (hd : (nodesBelow s l p L).Disjoint (nodesBelow s l p L')) :
    ChildrenFreed s s₂ l p (L ++ L') := by
  obtain ⟨hnodes, hdata⟩ := h₁.below_eq hL hp hd
  have happend : nodesBelow s l p (L ++ L') = nodesBelow s l p L ++ nodesBelow s l p L' :=
    List.flatMap_append
  refine ⟨?_, ?_, ?_, h₂.iAddr.trans h₁.iAddr, h₂.iNid.trans h₁.iNid⟩
  · have hfreed := h₂.freed
    rw [hnodes, hdata] at hfreed
    rw [happend, dataBelow, List.flatMap_append]
    exact h₁.freed.trans hfreed hd
  · intro i
    rw [h₂.slot, h₁.slot]
    by_cases hi : i ∈ L <;> by_cases hi' : i ∈ L' <;> simp [hi, hi']
  · intro m hm hmp i
    rw [happend, List.mem_append, not_or] at hm
    rw [h₂.word m (by rw [hnodes]; exact hm.2) hmp, h₁.word m hm.1 hmp]

/-- One slot: the tree below it is freed, then the slot is cleared. -/
theorem SubtreeFreed.child {s s₁ : Index} {l p i : Nat}
    (h : SubtreeFreed s s₁ l (s.word p i)) (hp : p ∉ nodesOf s.word l (s.word p i)) :
    ChildrenFreed s (setNid s₁ p i 0) l p [i] := by
  have hnodes : nodesBelow s l p [i] = nodesOf s.word l (s.word p i) := by
    simp [nodesBelow]
  have hdata : dataBelow s l p [i] = dataOf s.word l (s.word p i) := by
    simp [dataBelow]
  refine ⟨?_, ?_, ?_, h.iAddr, h.iNid⟩
  · rw [hnodes, hdata]
    exact freed_setNid h.freed p i 0
  · intro j
    by_cases hj : j = i
    · simp [setNid, hj]
    · simp [setNid, hj, h.word p hp j]
  · intro m hm hmp j
    rw [hnodes] at hm
    simp [setNid, hmp, h.word m hm j]

/-- An empty slot. -/
theorem ChildrenFreed.missing {s : Index} {p i : Nat} (h : s.word p i = 0) (l : Nat) :
    ChildrenFreed s s l p [i] := by
  have hnodes : nodesBelow s l p [i] = [] := by
    simp [nodesBelow, h, nodesOf_missing]
  have hdata : dataBelow s l p [i] = [] := by
    simp [dataBelow, h, dataOf_missing]
  refine ⟨?_, ?_, fun _ _ _ _ => rfl, rfl, rfl⟩
  · rw [hnodes, hdata]
    exact Freed.refl s
  · intro j
    by_cases hj : j = i
    · simp [hj, h]
    · simp [hj]

/-- The trees below the slots `L` of `p`: every node has an address, no nid is used twice,
    and none is `p`. -/
structure TreesBelow (s : Index) (l p : Nat) (L : List Nat) : Prop where
  nodup : (nodesBelow s l p L).Nodup
  notMem : p ∉ nodesBelow s l p L
  addr : ∀ m ∈ nodesBelow s l p L, s.nat m ≠ nullAddr

/-- A loop over slots, each round of which frees what is below its slot. -/
theorem children_freed {α : Type} (index : α → Index) (step : α → Nat → Except Errno α) (l p : Nat)
    (hstep : ∀ a i a', step a i = .ok a' → TreeAt (index a) l ((index a).word p i) →
      p ∉ nodesOf (index a).word l ((index a).word p i) →
      ChildrenFreed (index a) (index a') l p [i]) :
    ∀ {L : List Nat} {a a' : α}, L.foldlM step a = .ok a' → L.Nodup →
      TreesBelow (index a) l p L → ChildrenFreed (index a) (index a') l p L := by
  intro L
  induction L with
  | nil =>
      intro a a' h _ _
      cases h
      exact ⟨Freed.refl _, by simp, fun _ _ _ _ => rfl, rfl, rfl⟩
  | cons i L ih =>
      intro a a' h hnd ht
      obtain ⟨hi, hnd⟩ := List.nodup_cons.mp hnd
      obtain ⟨hnodes, hp, haddr⟩ := ht
      have hcons : nodesBelow (index a) l p (i :: L) =
          nodesOf (index a).word l ((index a).word p i) ++ nodesBelow (index a) l p L :=
        List.flatMap_cons
      rw [hcons] at hnodes hp haddr
      rw [List.mem_append, not_or] at hp
      obtain ⟨hn₁, hn₂, hdisj⟩ := List.nodup_append'.mp hnodes
      rw [List.foldlM_cons] at h
      cases hs : step a i with
      | error e =>
          rw [hs] at h
          cases h
      | ok a₁ =>
          rw [hs] at h
          have h₁ := hstep a i a₁ hs ⟨hn₁, fun m hm => haddr m (List.mem_append_left _ hm)⟩ hp.1
          have hbelow : nodesBelow (index a) l p [i] =
              nodesOf (index a).word l ((index a).word p i) := by
            simp [nodesBelow]
          have hL : [i].Disjoint L := by simpa using hi
          obtain ⟨hnodes', -⟩ := h₁.below_eq hL hp.2 (by rwa [hbelow])
          have ht' : TreesBelow (index a₁) l p L := by
            refine ⟨by rwa [hnodes'], by rw [hnodes']; exact hp.2, fun m hm => ?_⟩
            rw [hnodes'] at hm
            rw [h₁.freed.nat, hbelow, if_neg fun hm' => hdisj hm' hm]
            exact haddr m (List.mem_append_right _ hm)
          exact h₁.trans (ih h hnd ht') hL hp.2 (by rwa [hbelow])

/-! ## The functions -/

section Functions

variable {layout : InodeLayout} {env : TruncEnv} {s : Index}

theorem getNodePage_present {nid : Nat} (h : getNodePage env s nid = .ok ()) :
    nid ≠ 0 ∧ s.nat nid ≠ nullAddr := by
  unfold getNodePage at h
  split at h
  · cases h
  rename_i h0
  split at h
  · cases h
  · split at h
    · cases h
    · rename_i hnat
      exact ⟨h0, hnat⟩

/-- The read of a node that failed with `e`. -/
def ReadFailed (env : TruncEnv) (e : Errno) : Prop :=
  ∃ r, e = .read r ∧
    ((∃ nid, env.node nid = some r) ∨ env.inodePage = some r ∨ env.inodePageAgain = some r)

/-- A node that has an address is read, or reading fails. -/
theorem getNodePage_error {nid : Nat} {e : Errno} (h : getNodePage env s nid = .error e) :
    (e = .enoent ∧ (nid = 0 ∨ s.nat nid = nullAddr)) ∨ ReadFailed env e := by
  unfold getNodePage at h
  split at h
  · rename_i h0
    cases h
    exact Or.inl ⟨rfl, Or.inl h0⟩
  split at h
  · rename_i r hread
    cases h
    exact Or.inr ⟨r, rfl, Or.inl ⟨nid, hread⟩⟩
  · split at h
    · rename_i hnat
      cases h
      exact Or.inl ⟨rfl, Or.inr hnat⟩
    · cases h

/-- `truncate_data_blocks`. -/
theorem truncateDataBlocks_freed {nid : Nat} {s₁ : Index}
    (h : s₁ = truncateDataBlocks layout s nid) :
    Freed s s₁ [] (addrsOf s.word nid) ∧ s₁.iNid = s.iNid ∧ s₁.iAddr = s.iAddr ∧
      ∀ m, m ≠ nid → ∀ i, s₁.word m i = s.word m i := by
  have hslots : List.range' 0 addrsPerBlock = slots := by
    unfold slots
    exact List.range_eq_range'.symm
  unfold truncateDataBlocks at h
  generalize addrsPerBlock = count at h hslots
  obtain ⟨hfreed, hnid, hword⟩ := truncateDataBlocksRange_spec layout s (.node nid) 0 count
  have haddr := truncateDataBlocksRange_node layout s nid 0 count
  rw [← h] at hfreed hnid hword haddr
  rw [hslots] at hfreed
  refine ⟨hfreed, hnid, haddr, ?_⟩
  intro m hm i
  have := hword (.node m) i
  rwa [if_neg fun hp => hm (DataPage.node.inj hp.1)] at this

/-- `truncate_dnode`. -/
theorem truncateDnode_freed {nid : Nat} {r : Index × Int}
    (h : truncateDnode layout env s nid = .ok r)
    (ht : TreeAt s 0 nid) : SubtreeFreed s r.1 0 nid ∧ r.2 = 1 := by
  unfold truncateDnode at h
  by_cases h0 : nid = 0
  · rw [if_pos h0] at h
    cases h
    rw [h0]
    exact ⟨SubtreeFreed.missing s 0, rfl⟩
  rw [if_neg h0] at h
  cases hp : getNodePage env s nid with
  | error e =>
      rw [hp] at h
      rcases getNodePage_error hp with ⟨rfl, hnone | hnone⟩ | ⟨r, rfl, -⟩
      · exact absurd hnone h0
      · exact absurd hnone (ht.addr nid (mem_nodesOf_self h0 0))
      · cases h
  | ok u =>
      rw [hp] at h
      obtain ⟨s₁, hs₁⟩ : ∃ s₁, s₁ = truncateDataBlocks layout s nid := ⟨_, rfl⟩
      obtain ⟨hfreed, hnid, haddr, hword⟩ := truncateDataBlocks_freed hs₁
      rw [← hs₁] at h
      cases h
      refine ⟨⟨?_, ?_, haddr, hnid⟩, rfl⟩
      · rw [nodesOf_zero h0, dataOf_zero h0]
        have := hfreed.trans (freed_truncateNode _ nid) (by simp)
        rwa [List.nil_append, List.append_nil] at this
      · intro m hm i
        rw [nodesOf_zero h0, List.mem_singleton] at hm
        exact hword m hm i

theorem truncateChild_freed {p i : Nat} {s' : Index} (h : truncateChild layout env p s i = .ok s')
    (ht : TreeAt s 0 (s.word p i)) (hp : p ∉ nodesOf s.word 0 (s.word p i)) :
    ChildrenFreed s s' 0 p [i] := by
  unfold truncateChild at h
  by_cases h0 : s.word p i = 0
  · rw [if_pos h0] at h
    cases h
    exact ChildrenFreed.missing h0 0
  rw [if_neg h0] at h
  cases hd : truncateDnode layout env s (s.word p i) with
  | error e =>
      rw [hd] at h
      cases h
  | ok r =>
      rw [hd] at h
      cases h
      exact (truncateDnode_freed hd ht).1.child hp

theorem nodup_slotsFrom (ofs : Nat) : (slotsFrom ofs).Nodup := by
  unfold slotsFrom
  exact List.nodup_range'

theorem slotsFrom_zero : slotsFrom 0 = slots := by
  unfold slotsFrom slots
  rw [List.range_eq_range', Nat.sub_zero]

theorem mem_slotsFrom {ofs i : Nat} : i ∈ slotsFrom ofs ↔ ofs ≤ i ∧ i < nidsPerBlock := by
  unfold slotsFrom
  rw [List.mem_range'_1]
  omega

theorem slotsFrom_sublist (ofs : Nat) : (slotsFrom ofs).Sublist slots := by
  rw [← slotsFrom_zero]
  unfold slotsFrom
  rw [Nat.sub_zero]
  by_cases h : ofs ≤ nidsPerBlock
  · have hsplit := @List.range'_append_1 0 ofs (nidsPerBlock - ofs)
    rw [Nat.zero_add, Nat.add_sub_cancel' h] at hsplit
    rw [← hsplit]
    exact List.sublist_append_right _ _
  · rw [Nat.sub_eq_zero_of_le (by omega)]
    exact List.nil_sublist _

/-- The trees below a node, for a loop over some of its slots. -/
theorem TreeAt.below {l p : Nat} (h : TreeAt s (l + 1) p) (hp : p ≠ 0) {L : List Nat}
    (hL : L.Sublist slots) : TreesBelow s l p L := by
  have hsub : (nodesBelow s l p L).Sublist (nodesBelow s l p slots) := hL.flatMap _
  have hnodup := h.nodup
  have haddr := h.addr
  rw [nodesOf_succ hp] at hnodup haddr
  obtain ⟨hn, -, hd⟩ := List.nodup_append'.mp hnodup
  refine ⟨hn.sublist hsub, fun hmem => hd (hsub.subset hmem) (List.mem_singleton.mpr rfl),
    fun m hm => haddr m (List.mem_append_left _ (hsub.subset hm))⟩

/-- A loop over all slots and then the node itself free its tree. -/
theorem ChildrenFreed.subtree {s₁ : Index} {l p : Nat} (h : ChildrenFreed s s₁ l p slots)
    (ht : TreeAt s (l + 1) p) (hp : p ≠ 0) : SubtreeFreed s (truncateNode s₁ p) (l + 1) p := by
  have hbelow := (ht.below hp (List.Sublist.refl slots)).notMem
  have hfreed := h.freed.trans (freed_truncateNode s₁ p) (by simpa using hbelow)
  rw [List.append_nil] at hfreed
  refine ⟨?_, ?_, h.iAddr, h.iNid⟩
  · rw [nodesOf_succ hp, dataOf_succ hp]
    exact hfreed
  · intro m hm i
    rw [nodesOf_succ hp, List.mem_append, List.mem_singleton, not_or] at hm
    exact h.word m hm.1 hm.2 i

/-- `truncate_nodes` on an indirect node. -/
theorem truncateNodes_indirect {nid ofs : Nat} {nofs : Int} {r : Index × Int}
    (h : truncateNodes layout env 0 s nid nofs ofs = .ok r) (h0 : nid ≠ 0)
    (ht : TreesBelow s 0 nid (slotsFrom ofs)) :
    ∃ s₁, ChildrenFreed s s₁ 0 nid (slotsFrom ofs) ∧
      r = finishNodes nid ofs (s₁, (nidsPerBlock - ofs : Nat)) := by
  unfold truncateNodes at h
  rw [if_neg h0] at h
  split at h
  · cases h
  simp only at h
  split at h
  · cases h
  rename_i s₁ hloop
  exact ⟨s₁, children_freed (fun s => s) (truncateChild layout env nid) 0 nid
    (fun a i a' hs ht hp => truncateChild_freed hs ht hp) hloop (nodup_slotsFrom ofs) ht,
    (Except.ok.inj h).symm⟩

theorem truncateNodes_indirect_whole {nid : Nat} {nofs : Int} {r : Index × Int}
    (h : truncateNodes layout env 0 s nid nofs 0 = .ok r) (h0 : nid ≠ 0) (ht : TreeAt s 1 nid) :
    SubtreeFreed s r.1 1 nid ∧ r.2 = nidsPerBlock + 1 := by
  obtain ⟨s₁, hchildren, rfl⟩ := truncateNodes_indirect h h0 (ht.below h0 (slotsFrom_sublist 0))
  rw [slotsFrom_zero] at hchildren
  exact ⟨hchildren.subtree ht h0, rfl⟩

/-! ### Errors -/

/-- A loop fails as one of its rounds does. -/
theorem foldlM_error {α : Type} {step : α → Nat → Except Errno α} {e : Errno} :
    ∀ {L : List Nat} {a : α}, L.foldlM step a = .error e → ∃ a' i, step a' i = .error e := by
  intro L
  induction L with
  | nil =>
      intro a h
      cases h
  | cons i L ih =>
      intro a h
      rw [List.foldlM_cons] at h
      cases hs : step a i with
      | error e' =>
          rw [hs] at h
          cases h
          exact ⟨a, i, hs⟩
      | ok a' =>
          rw [hs] at h
          exact ih h

theorem truncateDnode_error {nid : Nat} {e : Errno}
    (h : truncateDnode layout env s nid = .error e) :
    ReadFailed env e := by
  unfold truncateDnode at h
  split at h
  · cases h
  split at h
  · cases h
  · rename_i e' hne hp
    cases h
    rcases getNodePage_error hp with ⟨rfl, -⟩ | hr
    · exact absurd rfl hne
    · exact hr
  · cases h

theorem truncateChild_error {p i : Nat} {e : Errno}
    (h : truncateChild layout env p s i = .error e) :
    ReadFailed env e := by
  unfold truncateChild at h
  simp only at h
  split at h
  · cases h
  split at h
  · rename_i hd
    cases h
    exact truncateDnode_error hd
  · cases h

/-- `truncate_nodes` returns `-ENOENT` only if its node is missing. -/
theorem truncateNodes_indirect_error {nid ofs : Nat} {nofs : Int} {e : Errno}
    (h : truncateNodes layout env 0 s nid nofs ofs = .error e) :
    (e = .enoent ∧ s.nat nid = nullAddr) ∨ ReadFailed env e := by
  unfold truncateNodes at h
  split at h
  · cases h
  rename_i h0
  split at h
  · rename_i hp
    cases h
    rcases getNodePage_error hp with ⟨rfl, hnone | hnone⟩ | hr
    · exact absurd hnone h0
    · exact Or.inl ⟨rfl, hnone⟩
    · exact Or.inr hr
  · simp only at h
    split at h
    · rename_i hloop
      cases h
      obtain ⟨a, i, hs⟩ := foldlM_error hloop
      exact Or.inr (truncateChild_error hs)
    · cases h

theorem truncateNodes_double_error {nid ofs : Nat} {nofs : Int} {e : Errno}
    (h : truncateNodes layout env 1 s nid nofs ofs = .error e) :
    (e = .enoent ∧ s.nat nid = nullAddr) ∨ ReadFailed env e := by
  unfold truncateNodes at h
  split at h
  · cases h
  rename_i h0
  split at h
  · rename_i hp
    cases h
    rcases getNodePage_error hp with ⟨rfl, hnone | hnone⟩ | hr
    · exact absurd hnone h0
    · exact Or.inl ⟨rfl, hnone⟩
    · exact Or.inr hr
  · simp only at h
    split at h
    · rename_i hloop
      cases h
      obtain ⟨a, i, hs⟩ := foldlM_error hloop
      unfold truncateIndirectChild at hs
      simp only at hs
      split at hs
      · cases hs
      split at hs
      · split at hs <;> cases hs
      · cases hs
      · rename_i hne hfree
        cases hs
        rcases truncateNodes_indirect_error hfree with ⟨rfl, -⟩ | hr
        · exact absurd rfl hne
        · exact Or.inr hr
    · cases h

/-! ### The double indirect node -/

theorem truncateIndirectChild_freed {p i : Nat} {a a' : Index × Int}
    (h : truncateIndirectChild (fun s c n => truncateNodes layout env 0 s c n 0) p a i = .ok a')
    (ht : TreeAt a.1 1 (a.1.word p i)) (hp : p ∉ nodesOf a.1.word 1 (a.1.word p i)) :
    ChildrenFreed a.1 a'.1 1 p [i] := by
  unfold truncateIndirectChild at h
  simp only at h
  by_cases h0 : a.1.word p i = 0
  · rw [if_pos h0] at h
    cases h
    exact ChildrenFreed.missing h0 1
  rw [if_neg h0] at h
  split at h
  · rename_i s₁ ret hfree
    obtain ⟨hfreed, hret⟩ := truncateNodes_indirect_whole hfree h0 ht
    rw [if_pos hret] at h
    cases h
    exact hfreed.child hp
  · rename_i hfree
    rcases truncateNodes_indirect_error hfree with ⟨-, hnone⟩ | ⟨r, hr, -⟩
    · exact absurd hnone (ht.addr _ (mem_nodesOf_self h0 1))
    · cases hr
  · cases h

/-- `truncate_nodes` on the double indirect node. -/
theorem truncateNodes_double {nid ofs : Nat} {nofs : Int} {r : Index × Int}
    (h : truncateNodes layout env 1 s nid nofs ofs = .ok r) (h0 : nid ≠ 0)
    (ht : TreesBelow s 1 nid (slotsFrom ofs)) :
    ∃ r₁, ChildrenFreed s r₁.1 1 nid (slotsFrom ofs) ∧ r = finishNodes nid ofs r₁ := by
  unfold truncateNodes at h
  rw [if_neg h0] at h
  split at h
  · cases h
  simp only at h
  split at h
  · cases h
  rename_i r₁ hloop
  exact ⟨r₁, children_freed Prod.fst _ 1 nid
    (fun a i a' hs ht hp => truncateIndirectChild_freed hs ht hp) hloop (nodup_slotsFrom ofs) ht,
    (Except.ok.inj h).symm⟩

theorem truncateNodes_double_whole {nid : Nat} {nofs : Int} {r : Index × Int}
    (h : truncateNodes layout env 1 s nid nofs 0 = .ok r) (h0 : nid ≠ 0) (ht : TreeAt s 2 nid) :
    SubtreeFreed s r.1 2 nid := by
  obtain ⟨r₁, hchildren, rfl⟩ := truncateNodes_double h h0 (ht.below h0 (slotsFrom_sublist 0))
  rw [slotsFrom_zero] at hchildren
  exact hchildren.subtree ht h0

end Functions

end F2fs.Truncate

/-
  What the functions on an extent tree do to its nodes in order, and the books they keep
  beside the tree: the counters, the list of all nodes and the cached node (`Books`).

  The nodes of the other trees are on the same list; `others` names them.  None of this needs
  the extents to be disjoint.
-/
import F2fs.Extent.ExtentTree

namespace F2fs.Extent

open IntervalTree

namespace LockedTree

/-- The pointers to the nodes. -/
def ids (w : LockedTree) : List Nat := w.nodes.map ExtentNode.id

@[simp] theorem nodes_setCached (w : LockedTree) (en : Nat) : (w.setCached en).nodes = w.nodes :=
  rfl

@[simp] theorem nodes_setLargest (w : LockedTree) (ei : ExtentInfo) :
    (w.setLargest ei).nodes = w.nodes := rfl

@[simp] theorem nodes_listAddTail (w : LockedTree) (en : Nat) :
    (w.listAddTail en).nodes = w.nodes := rfl

@[simp] theorem nodes_touch (w : LockedTree) (en : Nat) : (w.touch en).nodes = w.nodes := by
  unfold touch
  split <;> rfl

theorem ids_setInfo (w : LockedTree) (en : Nat) (f : ExtentInfo → ExtentInfo) :
    (w.setInfo en f).ids = w.ids := by
  unfold ids nodes setInfo SearchTree.modify
  rw [SearchTree.toList_map, List.map_map]
  refine List.map_congr_left fun n _ => ?_
  dsimp only [Function.comp_apply]
  split <;> rfl

end LockedTree

theorem tryUpdateLargestExtent_eq (w : LockedTree) (en : Nat) :
    ∃ ei, tryUpdateLargestExtent w en = w.setLargest ei := by
  unfold tryUpdateLargestExtent
  split
  · exact ⟨w.et.largest, rfl⟩
  · split
    · exact ⟨_, rfl⟩
    · exact ⟨w.et.largest, rfl⟩

theorem dropLargestExtent_eq (w : LockedTree) (fofs len : Nat) :
    ∃ ei, dropLargestExtent w fofs len = w.setLargest ei := by
  unfold dropLargestExtent
  dsimp only
  split
  · exact ⟨_, rfl⟩
  · exact ⟨w.et.largest, rfl⟩

@[simp] theorem nodes_tryUpdateLargestExtent (w : LockedTree) (en : Nat) :
    (tryUpdateLargestExtent w en).nodes = w.nodes := by
  obtain ⟨ei, heq⟩ := tryUpdateLargestExtent_eq w en
  rw [heq, LockedTree.nodes_setLargest]

@[simp] theorem nodes_dropLargestExtent (w : LockedTree) (fofs len : Nat) :
    (dropLargestExtent w fofs len).nodes = w.nodes := by
  obtain ⟨ei, heq⟩ := dropLargestExtent_eq w fofs len
  rw [heq, LockedTree.nodes_setLargest]

/-! ## The books -/

/-- The counters, the list and the cached node agree with the nodes of the tree `ino`. -/
structure Books (ino : Nat) (others : List (Nat × Nat)) (w : LockedTree) : Prop where
  ino_eq : w.et.ino = ino
  count : w.et.nodeCnt = w.ids.length
  total : w.totalExtNode = (others.length + w.ids.length : Nat)
  list : w.extentList.Perm (others ++ w.ids.map (Prod.mk ino))
  nodup : (others ++ w.ids.map (Prod.mk ino)).Nodup
  fresh : ∀ r ∈ others ++ w.ids.map (Prod.mk ino), r.2 < w.nextId
  cached : ∀ en, w.et.cachedEn = some en → en ∈ w.ids

namespace Books

variable {ino : Nat} {others : List (Nat × Nat)} {w w' : LockedTree} {A B : List ExtentNode}
  {n : ExtentNode}

theorem ids_nodup (h : Books ino others w) : w.ids.Nodup :=
  ((List.nodup_append.mp h.nodup).2.1).of_map _

theorem at_nodes (h : Books ino others w) (hn : w.nodes = A ++ n :: B) :
    At ExtentNode.id w.et.root A n B :=
  at_of_nodup h.ids_nodup hn

theorem fresh_id (h : Books ino others w) {en : Nat} (hen : en ∈ w.ids) : en < w.nextId :=
  h.fresh (ino, en) (List.mem_append_right _ (List.mem_map_of_mem hen))

/-- The same nodes, whatever their extents, on the same list. -/
theorem sameIds (h : Books ino others w) (hids : w'.ids = w.ids)
    (het : w'.et.ino = w.et.ino ∧ w'.et.nodeCnt = w.et.nodeCnt)
    (hcached : w'.et.cachedEn = w.et.cachedEn)
    (hsbi : w'.totalExtNode = w.totalExtNode ∧ w'.extentList = w.extentList ∧
      w'.nextId = w.nextId) : Books ino others w' := by
  refine ⟨het.1.trans h.ino_eq, ?_, ?_, ?_, hids ▸ h.nodup, ?_, ?_⟩
  · rw [het.2, hids, h.count]
  · rw [hsbi.1, hids, h.total]
  · rw [hsbi.2.1, hids]
    exact h.list
  · rw [hids, hsbi.2.2]
    exact h.fresh
  · rw [hids, hcached]
    exact h.cached

theorem setInfo (h : Books ino others w) (en : Nat) (f : ExtentInfo → ExtentInfo) :
    Books ino others (w.setInfo en f) :=
  h.sameIds (w.ids_setInfo en f) ⟨rfl, rfl⟩ rfl ⟨rfl, rfl, rfl⟩

theorem setLargest (h : Books ino others w) (ei : ExtentInfo) :
    Books ino others (w.setLargest ei) :=
  h.sameIds rfl ⟨rfl, rfl⟩ rfl ⟨rfl, rfl, rfl⟩

theorem setCached (h : Books ino others w) {en : Nat} (hen : en ∈ w.ids) :
    Books ino others (w.setCached en) where
  ino_eq := h.ino_eq
  count := h.count
  total := h.total
  list := h.list
  nodup := h.nodup
  fresh := h.fresh
  cached _ h' := Option.some.inj h' ▸ hen

theorem tryUpdateLargest (h : Books ino others w) (en : Nat) :
    Books ino others (tryUpdateLargestExtent w en) := by
  obtain ⟨ei, heq⟩ := tryUpdateLargestExtent_eq w en
  exact heq ▸ h.setLargest ei

theorem dropLargest (h : Books ino others w) (fofs len : Nat) :
    Books ino others (dropLargestExtent w fofs len) := by
  obtain ⟨ei, heq⟩ := dropLargestExtent_eq w fofs len
  exact heq ▸ h.setLargest ei

/-- Moving a node to the tail leaves every node on the list once. -/
theorem moveTail (h : Books ino others w) {en : Nat} (hen : en ∈ w.ids) :
    Books ino others ((w.listDel en).listAddTail en) := by
  have hnodup : w.extentList.Nodup := h.list.nodup_iff.mpr h.nodup
  have hin : (ino, en) ∈ w.extentList :=
    h.list.mem_iff.mpr (List.mem_append_right _ (List.mem_map_of_mem hen))
  have hlist : ((w.listDel en).listAddTail en).extentList.Perm w.extentList := by
    show (w.extentList.filter (fun r => decide (r ≠ (w.et.ino, en))) ++ [(w.et.ino, en)]).Perm _
    rw [h.ino_eq]
    have herase := hnodup.erase_eq_filter (ino, en)
    have hmove := (List.perm_cons_erase hin).symm
    refine (List.perm_append_singleton _ _).trans ?_
    refine List.Perm.trans (List.Perm.cons _ ?_) hmove
    rw [herase]
    refine List.Perm.of_eq (List.filter_congr fun r _ => ?_)
    by_cases hr : r = (ino, en) <;> simp [hr]
  exact ⟨h.ino_eq, h.count, h.total, hlist.trans h.list, h.nodup, h.fresh, h.cached⟩

theorem touch (h : Books ino others w) {en : Nat} (hen : en ∈ w.ids) :
    Books ino others (w.touch en) := by
  unfold LockedTree.touch
  split
  · exact (h.moveTail hen).setCached hen
  · exact h

/-- A new node, at the end of the list. -/
theorem insert (h : Books ino others w) (hn : w.nodes = A ++ B) {ei : ExtentInfo}
    (hn' : w'.nodes = A ++ ⟨w.nextId, ei⟩ :: B)
    (het : w'.et.ino = w.et.ino ∧ w'.et.nodeCnt = w.et.nodeCnt + 1)
    (hcached : w'.et.cachedEn = some w.nextId)
    (hsbi : w'.totalExtNode = w.totalExtNode + 1 ∧
      w'.extentList = w.extentList ++ [(w.et.ino, w.nextId)] ∧ w'.nextId = w.nextId + 1) :
    Books ino others w' := by
  have hids : w.ids = A.map ExtentNode.id ++ B.map ExtentNode.id := by
    rw [LockedTree.ids, hn, List.map_append]
  have hids' : w'.ids = A.map ExtentNode.id ++ w.nextId :: B.map ExtentNode.id := by
    rw [LockedTree.ids, hn', List.map_append, List.map_cons]
  have hperm : w'.ids.Perm (w.nextId :: w.ids) := by
    rw [hids, hids']
    exact List.perm_middle
  have hrefs : (others ++ w'.ids.map (Prod.mk ino)).Perm
      ((ino, w.nextId) :: (others ++ w.ids.map (Prod.mk ino))) :=
    ((hperm.map _).append_left _).trans List.perm_middle
  have hlen := hperm.length_eq
  rw [List.length_cons] at hlen
  refine ⟨het.1.trans h.ino_eq, ?_, ?_, ?_, ?_, ?_, ?_⟩
  · rw [het.2, h.count, hlen]
    rfl
  · rw [hsbi.1, h.total, hlen]
    rfl
  · rw [hsbi.2.1, h.ino_eq]
    exact (List.perm_append_singleton _ _).trans ((h.list.cons _).trans hrefs.symm)
  · rw [hrefs.nodup_iff, List.nodup_cons]
    exact ⟨fun hin => lt_irrefl _ (h.fresh _ hin), h.nodup⟩
  · intro r hr
    rw [hsbi.2.2]
    rcases List.mem_cons.mp (hrefs.mem_iff.mp hr) with rfl | hr
    · exact Nat.lt_succ_self _
    · exact (h.fresh r hr).trans (Nat.lt_succ_self _)
  · intro en hen
    rw [hcached] at hen
    rw [← Option.some.inj hen, hids']
    simp

/-- A node taken off the list and out of the tree. -/
theorem remove (h : Books ino others w) (hn : w.nodes = A ++ n :: B) (hn' : w'.nodes = A ++ B)
    (het : w'.et.ino = w.et.ino ∧ w'.et.nodeCnt = w.et.nodeCnt - 1)
    (hcached : w'.et.cachedEn = if w.et.cachedEn = some n.id then none else w.et.cachedEn)
    (hsbi : w'.totalExtNode = w.totalExtNode - 1 ∧
      w'.extentList = w.extentList.filter (fun r => r ≠ (w.et.ino, n.id)) ∧
      w'.nextId = w.nextId) : Books ino others w' := by
  have hids : w.ids = A.map ExtentNode.id ++ n.id :: B.map ExtentNode.id := by
    rw [LockedTree.ids, hn, List.map_append, List.map_cons]
  have hids' : w'.ids = A.map ExtentNode.id ++ B.map ExtentNode.id := by
    rw [LockedTree.ids, hn', List.map_append]
  have hperm : w.ids.Perm (n.id :: w'.ids) := by
    rw [hids, hids']
    exact List.perm_middle
  have hrefs : (others ++ w.ids.map (Prod.mk ino)).Perm
      ((ino, n.id) :: (others ++ w'.ids.map (Prod.mk ino))) :=
    ((hperm.map _).append_left _).trans List.perm_middle
  have hlen := hperm.length_eq
  rw [List.length_cons] at hlen
  have hnodup := h.nodup
  rw [hrefs.nodup_iff] at hnodup
  refine ⟨het.1.trans h.ino_eq, ?_, ?_, ?_, (List.nodup_cons.mp hnodup).2, ?_, ?_⟩
  · rw [het.2, h.count, hlen]
    omega
  · rw [hsbi.1, h.total, hlen]
    omega
  · rw [hsbi.2.1, h.ino_eq]
    have hfilter := (h.list.trans hrefs).filter fun r => decide (r ≠ (ino, n.id))
    rw [List.filter_cons_of_neg (by simp)] at hfilter
    refine hfilter.trans (List.Perm.of_eq (List.filter_eq_self.mpr fun r hr => ?_))
    exact decide_eq_true fun heq => (List.nodup_cons.mp hnodup).1 (heq ▸ hr)
  · intro r hr
    rw [hsbi.2.2]
    exact h.fresh r (hrefs.mem_iff.mpr (List.mem_cons_of_mem _ hr))
  · intro en hen
    rw [hcached] at hen
    split at hen
    · cases hen
    · rename_i hne
      have hin := hperm.mem_iff.mp (h.cached en hen)
      exact (List.mem_cons.mp hin).resolve_left fun heq => hne (heq ▸ hen)

end Books

/-! ## The functions -/

/-- The next node, linked at `s`, comes between `A` and `B`. -/
def LinksNew (w : LockedTree) (s : Slot) (A B : List ExtentNode) : Prop :=
  ∀ ei, (w.et.root.linkAt ExtentNode.id s ⟨w.nextId, ei⟩).toList = A ++ ⟨w.nextId, ei⟩ :: B

section Specs

variable {rb : Rebalance ExtentNode} {ino : Nat} {others : List (Nat × Nat)} {w : LockedTree}
  {A B : List ExtentNode} {n : ExtentNode} {ei : ExtentInfo}

/-- Changing an extent behind the place does not move the place. -/
theorem LinksNew.setInfo {s : Slot} (h : Books ino others w) (hn : w.nodes = A ++ n :: B)
    (hs : LinksNew w s A (n :: B)) (f : ExtentInfo → ExtentInfo) :
    LinksNew (w.setInfo n.id f) s A (⟨n.id, f n.ei⟩ :: B) := by
  intro ei
  have hid : n.id ∈ w.ids := by
    rw [LockedTree.ids, hn]
    simp
  exact (h.at_nodes hn).linkAt_modify (hs ei) (h.fresh_id hid).ne' fun _ => rfl

theorem setInfo_nodes (h : Books ino others w) (hn : w.nodes = A ++ n :: B)
    (f : ExtentInfo → ExtentInfo) : (w.setInfo n.id f).nodes = A ++ ⟨n.id, f n.ei⟩ :: B :=
  (h.at_nodes hn).modify_eq fun n => { n with ei := f n.ei }

variable (rb) in
theorem releaseExtentNode_spec (h : Books ino others w) (hn : w.nodes = A ++ n :: B) :
    (releaseExtentNode rb w n.id).nodes = A ++ B ∧
      Books ino others (releaseExtentNode rb w n.id) := by
  have hnodes : (releaseExtentNode rb w n.id).nodes = A ++ B := (h.at_nodes hn).erase_eq rb
  exact ⟨hnodes, h.remove hn hnodes ⟨rfl, rfl⟩ rfl ⟨rfl, rfl, rfl⟩⟩

variable (rb) in
/-- Freeing takes out one node after the other. -/
theorem freeExtentTree_spec (h : Books ino others w) :
    (freeExtentTree rb w).nodes = [] ∧ Books ino others (freeExtentTree rb w) := by
  unfold freeExtentTree
  generalize hl : w.nodes = l
  induction l generalizing w with
  | nil => exact ⟨hl, h⟩
  | cons n l ih =>
    obtain ⟨hnodes, hbooks⟩ := releaseExtentNode_spec rb h (A := []) hl
    exact ih hbooks hnodes

theorem largest_freeExtentTree (w : LockedTree) :
    (freeExtentTree rb w).et.largest = w.et.largest := by
  unfold freeExtentTree
  generalize w.nodes.map ExtentNode.id = l
  induction l generalizing w with
  | nil => rfl
  | cons en l ih => exact ih _

variable (rb) in
/-- Linking at a place between `A` and `B`, and what `__insert_extent_tree` does besides. -/
theorem attachExtentNode_spec (h : Books ino others w) (hn : w.nodes = A ++ B) {s : Slot}
    (hs : LinksNew w s A B) (ei : ExtentInfo) :
    ∃ w₁, attachExtentNode rb w ei s true = (w₁, some w.nextId) ∧
      w₁.nodes = A ++ ⟨w.nextId, ei⟩ :: B ∧ w₁.et.largest = w.et.largest ∧
      Books ino others ((w₁.listAddTail w.nextId).setCached w.nextId) := by
  refine ⟨_, rfl, ?_, rfl, ?_⟩
  · exact (rb.toList_insertColor _).trans (hs ei)
  · exact h.insert hn ((rb.toList_insertColor _).trans (hs ei)) ⟨rfl, rfl⟩ rfl
      ⟨rfl, rfl, rfl⟩

end Specs

end F2fs.Extent

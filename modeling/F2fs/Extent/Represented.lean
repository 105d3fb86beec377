/-
  Every state of the extent cache represents its extents: the books of every tree and those of
  the file system are right, whatever was called in whatever order.

  `TreesInv` is about the trees and the list of their nodes, `OwnerInv` about which inode a tree
  belongs to.  A function that works under the lock of one tree needs the first only.
-/
import F2fs.Extent.ExtentCache

namespace F2fs.Extent

open IntervalTree

/-! ## The invariant -/

/-- The nodes of a tree, as they are on `extent_list`. -/
def ExtentTree.refs (t : ExtentTree) : List (Nat × Nat) :=
  (t.root.toList.map ExtentNode.id).map (Prod.mk t.ino)

def refsOf (trees : List ExtentTree) : List (Nat × Nat) := trees.flatMap ExtentTree.refs

/-- One tree, without its lock. -/
structure TreeOk (t : ExtentTree) : Prop where
  tree : InTree t.root.toList
  largest : t.largest.stop < 2 ^ 32
  count : t.nodeCnt = t.root.toList.length
  cached : ∀ en, t.cachedEn = some en → en ∈ t.root.toList.map ExtentNode.id

/-- The trees, the list of all nodes and the count of nodes. -/
structure TreesInv (c : ExtentCache) : Prop where
  inos : (c.trees.map ExtentTree.ino).Nodup
  tree : ∀ t ∈ c.trees, TreeOk t
  list : c.extentList.Perm (refsOf c.trees)
  nodup : (refsOf c.trees).Nodup
  fresh : ∀ r ∈ refsOf c.trees, r.2 < c.nextId
  total : c.totalExtNode = (refsOf c.trees).length

/-- Every tree is that of a live inode, or a zombie. -/
structure OwnerInv (c : ExtentCache) : Prop where
  total : c.totalExtTree = c.trees.length
  zombies : c.totalZombieTree = c.zombieList.length
  nodup : c.zombieList.Nodup
  zombie_tree : ∀ ino ∈ c.zombieList, ino ∈ c.trees.map ExtentTree.ino
  live_tree : ∀ ino n, c.inodes ino = some n → n.hasTree = true →
    ino ∈ c.trees.map ExtentTree.ino ∧ ino ∉ c.zombieList
  owned : ∀ ino ∈ c.trees.map ExtentTree.ino,
    ino ∈ c.zombieList ∨ ∃ n, c.inodes ino = some n ∧ n.hasTree = true

/-- The invariant of the cache. -/
structure CacheInv (c : ExtentCache) : Prop where
  trees : TreesInv c
  owner : OwnerInv c

section

variable {rb : Rebalance ExtentNode} {c : ExtentCache} {L R : List ExtentTree} {t : ExtentTree}
  {ino : Nat} {w : LockedTree}

/-! ## One tree of all -/

theorem refsOf_middle (L R : List ExtentTree) (t : ExtentTree) :
    (refsOf (L ++ t :: R)).Perm (refsOf (L ++ R) ++ t.refs) := by
  unfold refsOf
  rw [List.flatMap_append, List.flatMap_cons, List.flatMap_append, List.append_assoc]
  exact (List.perm_append_comm).append_left _

theorem find_eq (h : c.find ino = some t) : ∃ L R, c.trees = L ++ t :: R ∧ t.ino = ino := by
  obtain ⟨L, R, hL⟩ := List.append_of_mem (List.mem_of_find?_eq_some h)
  have hino := List.find?_some h
  exact ⟨L, R, hL, of_decide_eq_true hino⟩

theorem find_isSome (h : ino ∈ c.trees.map ExtentTree.ino) : ∃ t, c.find ino = some t := by
  obtain ⟨t, ht, hino⟩ := List.mem_map.mp h
  exact Option.isSome_iff_exists.mp (List.find?_isSome.mpr ⟨t, ht, decide_eq_true hino⟩)

/-- The other trees have other inos. -/
theorem TreesInv.others (h : TreesInv c) (ht : c.trees = L ++ t :: R) :
    (∀ a ∈ L, a.ino ≠ t.ino) ∧ ∀ b ∈ R, b.ino ≠ t.ino := by
  have hinos := h.inos
  rw [ht, List.map_append, List.map_cons, List.nodup_append, List.nodup_cons] at hinos
  obtain ⟨-, ⟨hR, -⟩, hL⟩ := hinos
  refine ⟨fun a ha heq => ?_, fun b hb heq => ?_⟩
  · exact hL _ (List.mem_map_of_mem ha) _ List.mem_cons_self heq
  · exact hR (heq ▸ List.mem_map_of_mem hb)

/-- Under its lock a tree has the invariant of one tree. -/
theorem TreesInv.locked (h : TreesInv c) (ht : c.trees = L ++ t :: R) :
    TreeInv t.ino (refsOf (L ++ R)) (c.lock t) := by
  have hok := h.tree t (by simp [ht])
  have hperm := refsOf_middle L R t
  rw [← ht] at hperm
  refine ⟨hok.tree, hok.largest, rfl, ?_, ?_, h.list.trans hperm, hperm.nodup_iff.mp h.nodup,
    fun r hr => h.fresh r (hperm.mem_iff.mpr hr), hok.cached⟩
  · exact hok.count.trans (congrArg Nat.cast (List.length_map _).symm)
  · have hlen := hperm.length_eq
    rw [List.length_append, ExtentTree.refs, List.length_map] at hlen
    exact h.total.trans (congrArg Nat.cast hlen)

theorem trees_unlock (h : TreesInv c) (ht : c.trees = L ++ t :: R) (hino : w.et.ino = t.ino) :
    (c.unlock w).trees = L ++ w.et :: R := by
  obtain ⟨hL, hR⟩ := h.others ht
  unfold ExtentCache.unlock
  rw [ht, hino, List.map_append, List.map_cons, if_pos rfl]
  refine congrArg₂ (· ++ ·) ?_ (congrArg _ ?_)
  · exact (List.map_congr_left fun a ha => if_neg (hL a ha)).trans (List.map_id L)
  · exact (List.map_congr_left fun b hb => if_neg (hR b hb)).trans (List.map_id R)

theorem inos_unlock (h : TreesInv c) (ht : c.trees = L ++ t :: R) (hino : w.et.ino = t.ino) :
    (c.unlock w).trees.map ExtentTree.ino = c.trees.map ExtentTree.ino := by
  rw [trees_unlock h ht hino, ht, List.map_append, List.map_append, List.map_cons, List.map_cons,
    hino]

/-- A tree that comes back with its invariant. -/
theorem TreesInv.unlock (h : TreesInv c) (ht : c.trees = L ++ t :: R)
    (hw : TreeInv t.ino (refsOf (L ++ R)) w) : TreesInv (c.unlock w) := by
  have hino := hw.books.ino_eq
  have htrees := trees_unlock h ht hino
  have hrefs : w.et.refs = w.ids.map (Prod.mk t.ino) := by
    rw [ExtentTree.refs, hino]
    rfl
  have hperm := refsOf_middle L R w.et
  rw [← htrees, hrefs] at hperm
  refine ⟨inos_unlock h ht hino ▸ h.inos, fun u hu => ?_, hw.books.list.trans hperm.symm,
    hperm.nodup_iff.mpr hw.books.nodup, fun r hr => hw.books.fresh r (hperm.mem_iff.mp hr), ?_⟩
  · rw [htrees] at hu
    rcases List.mem_append.mp hu with hu | hu
    · exact h.tree u (by simp [ht, hu])
    · rcases List.mem_cons.mp hu with rfl | hu
      · refine ⟨hw.tree, hw.largest, ?_, hw.books.cached⟩
        rw [hw.books.count]
        exact congrArg Nat.cast (List.length_map _)
      · exact h.tree u (by simp [ht, hu])
  · have hlen := hperm.length_eq
    rw [List.length_append, List.length_map] at hlen
    exact hw.books.total.trans (congrArg Nat.cast hlen.symm)

theorem trees_delete (h : TreesInv c) (ht : c.trees = L ++ t :: R) :
    (c.delete t.ino).trees = L ++ R := by
  obtain ⟨hL, hR⟩ := h.others ht
  unfold ExtentCache.delete
  rw [ht, List.filter_append, List.filter_cons_of_neg (by simp)]
  refine congrArg₂ (· ++ ·) ?_ ?_
  · exact List.filter_eq_self.mpr fun a ha => decide_eq_true (hL a ha)
  · exact List.filter_eq_self.mpr fun b hb => decide_eq_true (hR b hb)

/-- A tree without nodes may go. -/
theorem TreesInv.delete (h : TreesInv c) (ht : c.trees = L ++ t :: R)
    (hnil : t.root.toList = []) : TreesInv (c.delete t.ino) := by
  have htrees := trees_delete h ht
  have hperm := refsOf_middle L R t
  rw [← ht, ExtentTree.refs, hnil, List.map_nil, List.map_nil, List.append_nil] at hperm
  have hsub : (L ++ R).Sublist c.trees := by
    rw [ht]
    exact List.Sublist.append_left (List.sublist_cons_self _ _) _
  refine ⟨?_, fun u hu => ?_, ?_, ?_, fun r hr => ?_, ?_⟩
  · rw [htrees]
    exact h.inos.sublist (hsub.map _)
  · rw [htrees] at hu
    exact h.tree u (hsub.subset hu)
  · rw [htrees]
    exact h.list.trans hperm
  · rw [htrees]
    exact hperm.nodup_iff.mp h.nodup
  · rw [htrees] at hr
    exact h.fresh r (hperm.mem_iff.mpr hr)
  · rw [htrees]
    exact h.total.trans (congrArg Nat.cast hperm.length_eq)

/-- A new tree has no nodes. -/
theorem TreesInv.newTree (h : TreesInv c) (hno : ino ∉ c.trees.map ExtentTree.ino) :
    TreesInv
      { c with trees := newExtentTree ino :: c.trees, totalExtTree := c.totalExtTree + 1 } where
  inos := List.nodup_cons.mpr ⟨hno, h.inos⟩
  tree u hu := by
    rcases List.mem_cons.mp hu with rfl | hu
    · exact ⟨InTree.nil, Nat.two_pow_pos 32, rfl, fun en hen => by cases hen⟩
    · exact h.tree u hu
  list := h.list
  nodup := h.nodup
  fresh := h.fresh
  total := h.total

/-- A tree that counts no nodes has none. -/
theorem TreesInv.empty (h : TreesInv c) (ht : c.trees = L ++ t :: R) (hcnt : t.nodeCnt = 0) :
    t.root.toList = [] := by
  have hcount := (h.tree t (by simp [ht])).count
  rw [hcnt] at hcount
  exact List.length_eq_zero_iff.mp (Int.natCast_eq_zero.mp hcount.symm)

/-- The invariant of the trees does not look at anything else. -/
theorem TreesInv.congr {c' : ExtentCache} (h : TreesInv c) (htrees : c'.trees = c.trees)
    (hlist : c'.extentList = c.extentList) (htotal : c'.totalExtNode = c.totalExtNode)
    (hnext : c'.nextId = c.nextId) : TreesInv c' := by
  refine ⟨htrees ▸ h.inos, htrees ▸ h.tree, ?_, htrees ▸ h.nodup, ?_, ?_⟩
  · rw [hlist, htrees]
    exact h.list
  · rw [htrees, hnext]
    exact h.fresh
  · rw [htotal, htrees]
    exact h.total

/-! ## Owners -/

theorem OwnerInv.congr {c' : ExtentCache} (h : OwnerInv c)
    (hinos : c'.trees.map ExtentTree.ino = c.trees.map ExtentTree.ino)
    (hzombies : c'.zombieList = c.zombieList)
    (htotals : c'.totalExtTree = c.totalExtTree ∧ c'.totalZombieTree = c.totalZombieTree)
    (hlive : ∀ ino, (∃ n, c'.inodes ino = some n ∧ n.hasTree = true) ↔
      ∃ n, c.inodes ino = some n ∧ n.hasTree = true) : OwnerInv c' := by
  have hlen : c'.trees.length = c.trees.length := by
    have := congrArg List.length hinos
    rwa [List.length_map, List.length_map] at this
  refine ⟨?_, ?_, hzombies ▸ h.nodup, ?_, ?_, ?_⟩
  · rw [htotals.1, hlen, h.total]
  · rw [htotals.2, hzombies, h.zombies]
  · rw [hzombies, hinos]
    exact h.zombie_tree
  · intro ino n hn htree
    obtain ⟨m, hm, hmtree⟩ := (hlive ino).mp ⟨n, hn, htree⟩
    rw [hinos, hzombies]
    exact h.live_tree ino m hm hmtree
  · intro ino hino
    rw [hinos] at hino
    rw [hzombies, hlive]
    exact h.owned ino hino

theorem CacheInv.unlock (h : CacheInv c) (ht : c.trees = L ++ t :: R)
    (hw : TreeInv t.ino (refsOf (L ++ R)) w) : CacheInv (c.unlock w) :=
  ⟨h.trees.unlock ht hw, h.owner.congr (inos_unlock h.trees ht hw.books.ino_eq) rfl ⟨rfl, rfl⟩
    fun _ => Iff.rfl⟩

/-- The tree of a live inode. -/
theorem CacheInv.live (h : CacheInv c) {n : ExtentInode} (hn : c.inodes ino = some n)
    (htree : n.hasTree = true) : ∃ t, c.find ino = some t :=
  find_isSome (h.owner.live_tree ino n hn htree).1

theorem inodes_setInode_self (m : Option ExtentInode) : (c.setInode ino m).inodes ino = m :=
  Function.update_self ..

theorem inodes_setInode_ne {i : Nat} (hi : i ≠ ino) (m : Option ExtentInode) :
    (c.setInode ino m).inodes i = c.inodes i :=
  Function.update_of_ne hi _ _

/-- `FI_NO_EXTENT` may change. -/
theorem CacheInv.setFlag (h : CacheInv c) {n : ExtentInode} (hn : c.inodes ino = some n)
    (b : Bool) : CacheInv (c.setInode ino (some { n with noExtent := b })) := by
  refine ⟨h.trees.congr rfl rfl rfl rfl, h.owner.congr rfl rfl ⟨rfl, rfl⟩ fun i => ?_⟩
  by_cases hi : i = ino
  · subst hi
    simp [inodes_setInode_self, hn]
  · rw [inodes_setInode_ne hi]

/-- An inode without a tree may come and go. -/
theorem CacheInv.setNoTree (h : CacheInv c) (hn : ∀ n, c.inodes ino = some n → n.hasTree = false)
    {m : Option ExtentInode} (hm : ∀ n, m = some n → n.hasTree = false) :
    CacheInv (c.setInode ino m) := by
  refine ⟨h.trees.congr rfl rfl rfl rfl, h.owner.congr rfl rfl ⟨rfl, rfl⟩ fun i => ?_⟩
  by_cases hi : i = ino
  · subst hi
    rw [inodes_setInode_self]
    refine iff_of_false ?_ ?_
    · rintro ⟨n, heq, htree⟩
      rw [hm n heq] at htree
      cases htree
    · rintro ⟨n, heq, htree⟩
      rw [hn n heq] at htree
      cases htree
  · rw [inodes_setInode_ne hi]

theorem zombieDel_eq (h : OwnerInv c) :
    (c.zombieDel ino).zombieList = c.zombieList.erase ino := by
  rw [h.nodup.erase_eq_filter]
  exact List.filter_congr fun i _ => by by_cases hi : i = ino <;> simp [hi]

theorem length_zombieDel (h : OwnerInv c) (hino : ino ∈ c.zombieList) :
    (c.zombieDel ino).totalZombieTree = (c.zombieDel ino).zombieList.length := by
  have hpos := List.length_pos_of_mem hino
  rw [zombieDel_eq h, List.length_erase_of_mem hino]
  show c.totalZombieTree - 1 = _
  rw [h.zombies]
  omega

/-- A tree that is there without a live inode is a zombie, so it can be taken over. -/
theorem CacheInv.grab (h : CacheInv c) (hno : c.inodes ino = none) :
    CacheInv (grabExtentTree c ino) := by
  unfold grabExtentTree
  cases hfind : c.find ino with
  | none =>
    have hnot : ino ∉ c.trees.map ExtentTree.ino := by
      intro hin
      obtain ⟨t, ht⟩ := find_isSome hin
      rw [hfind] at ht
      cases ht
    refine ⟨(h.trees.newTree hnot).congr rfl rfl rfl rfl, ?_⟩
    refine ⟨?_, h.owner.zombies, h.owner.nodup, fun i hi => ?_, fun i n hn htree => ?_,
      fun i hi => ?_⟩
    · show c.totalExtTree + 1 = ((c.trees.length + 1 : Nat) : Int)
      rw [h.owner.total]
      rfl
    · exact List.mem_cons_of_mem _ (h.owner.zombie_tree i hi)
    · by_cases hi : i = ino
      · subst hi
        exact ⟨List.mem_cons_self, fun hz => hnot (h.owner.zombie_tree i hz)⟩
      · have hn' : c.inodes i = some n := (inodes_setInode_ne hi _).symm.trans hn
        obtain ⟨h1, h2⟩ := h.owner.live_tree i n hn' htree
        exact ⟨List.mem_cons_of_mem _ h1, h2⟩
    · by_cases hi' : i = ino
      · exact .inr ⟨⟨false, true⟩, hi' ▸ inodes_setInode_self _, rfl⟩
      · have hi'' : i ∈ c.trees.map ExtentTree.ino := (List.mem_cons.mp hi).resolve_left hi'
        rcases h.owner.owned i hi'' with hz | ⟨n, hn, htree⟩
        · exact .inl hz
        · exact .inr ⟨n, (inodes_setInode_ne hi' _).trans hn, htree⟩
  | some t =>
    obtain ⟨L, R, ht, rfl⟩ := find_eq hfind
    have hin : t.ino ∈ c.trees.map ExtentTree.ino := by simp [ht]
    have hz : t.ino ∈ c.zombieList := by
      rcases h.owner.owned t.ino hin with hz | ⟨n, hn, -⟩
      · exact hz
      · rw [hno] at hn
        cases hn
    have hmem : ∀ i, i ∈ (c.zombieDel t.ino).zombieList ↔ i ≠ t.ino ∧ i ∈ c.zombieList := by
      intro i
      rw [zombieDel_eq h.owner, h.owner.nodup.mem_erase_iff]
    refine ⟨h.trees.congr rfl rfl rfl rfl, h.owner.total, length_zombieDel h.owner hz, ?_,
      fun i hi => h.owner.zombie_tree i ((hmem i).mp hi).2, fun i n hn htree => ?_, fun i hi => ?_⟩
    · show (c.zombieDel t.ino).zombieList.Nodup
      rw [zombieDel_eq h.owner]
      exact h.owner.nodup.erase _
    · by_cases hi : i = t.ino
      · subst hi
        exact ⟨hin, fun hz' => ((hmem _).mp hz').1 rfl⟩
      · have hn' : c.inodes i = some n := (inodes_setInode_ne hi _).symm.trans hn
        obtain ⟨h1, h2⟩ := h.owner.live_tree i n hn' htree
        exact ⟨h1, fun hz' => h2 ((hmem _).mp hz').2⟩
    · by_cases hi' : i = t.ino
      · exact .inr ⟨⟨false, true⟩, hi' ▸ inodes_setInode_self _, rfl⟩
      · rcases h.owner.owned i hi with hz' | ⟨n, hn, htree⟩
        · exact .inl ((hmem i).mpr ⟨hi', hz'⟩)
        · exact .inr ⟨n, (inodes_setInode_ne hi' _).trans hn, htree⟩

theorem inos_delete (c : ExtentCache) (ino i : Nat) :
    i ∈ (c.delete ino).trees.map ExtentTree.ino ↔ i ≠ ino ∧ i ∈ c.trees.map ExtentTree.ino := by
  simp only [ExtentCache.delete, List.mem_map, List.mem_filter, decide_eq_true_eq]
  constructor
  · rintro ⟨t, ⟨ht, hne⟩, rfl⟩
    exact ⟨hne, t, ht, rfl⟩
  · rintro ⟨hne, t, ht, rfl⟩
    exact ⟨t, ⟨ht, hne⟩, rfl⟩

theorem total_delete (h : CacheInv c) (ht : c.trees = L ++ t :: R) :
    (c.delete t.ino).totalExtTree = (c.delete t.ino).trees.length := by
  rw [trees_delete h.trees ht]
  show c.totalExtTree - 1 = _
  rw [h.owner.total, ht, List.length_append, List.length_append, List.length_cons]
  omega

/-- A tree whose nodes are gone leaves with its inode's pointer. -/
theorem CacheInv.deleteLive (h : CacheInv c) (ht : c.trees = L ++ t :: R)
    (hnil : t.root.toList = []) {n : ExtentInode} (hn : c.inodes t.ino = some n)
    (htree : n.hasTree = true) :
    CacheInv ((c.delete t.ino).setInode t.ino (some { n with hasTree := false })) := by
  obtain ⟨-, hnot⟩ := h.owner.live_tree t.ino n hn htree
  refine ⟨(h.trees.delete ht hnil).congr rfl rfl rfl rfl, total_delete h ht, h.owner.zombies,
    h.owner.nodup, fun i hi => ?_, fun i m hm hmtree => ?_, fun i hi => ?_⟩
  · exact (inos_delete c t.ino i).mpr ⟨fun heq => hnot (heq ▸ hi), h.owner.zombie_tree i hi⟩
  · have hi : i ≠ t.ino := fun heq => by
      rw [heq, inodes_setInode_self] at hm
      rw [← Option.some.inj hm] at hmtree
      cases hmtree
    obtain ⟨h1, h2⟩ := h.owner.live_tree i m ((inodes_setInode_ne hi _).symm.trans hm) hmtree
    exact ⟨(inos_delete c t.ino i).mpr ⟨hi, h1⟩, h2⟩
  · obtain ⟨hne, hin⟩ := (inos_delete c t.ino i).mp hi
    rcases h.owner.owned i hin with hz | ⟨m, hm, hmtree⟩
    · exact .inl hz
    · exact .inr ⟨m, (inodes_setInode_ne hne _).trans hm, hmtree⟩

/-- Or with its place on `zombie_list`. -/
theorem CacheInv.deleteZombie (h : CacheInv c) (ht : c.trees = L ++ t :: R)
    (hnil : t.root.toList = []) (hz : t.ino ∈ c.zombieList) :
    CacheInv ((c.zombieDel t.ino).delete t.ino) := by
  have hmem : ∀ i, i ∈ (c.zombieDel t.ino).zombieList ↔ i ≠ t.ino ∧ i ∈ c.zombieList := by
    intro i
    rw [zombieDel_eq h.owner, h.owner.nodup.mem_erase_iff]
  have htotal := total_delete h ht
  refine ⟨(h.trees.delete ht hnil).congr rfl rfl rfl rfl, htotal, length_zombieDel h.owner hz, ?_,
    fun i hi => ?_, fun i m hm hmtree => ?_, fun i hi => ?_⟩
  · show (c.zombieDel t.ino).zombieList.Nodup
    rw [zombieDel_eq h.owner]
    exact h.owner.nodup.erase _
  · obtain ⟨hne, hi⟩ := (hmem i).mp hi
    exact (inos_delete c t.ino i).mpr ⟨hne, h.owner.zombie_tree i hi⟩
  · obtain ⟨h1, h2⟩ := h.owner.live_tree i m hm hmtree
    exact ⟨(inos_delete c t.ino i).mpr ⟨fun heq => h2 (heq ▸ hz), h1⟩,
      fun hi => h2 ((hmem i).mp hi).2⟩
  · obtain ⟨hne, hin⟩ := (inos_delete c t.ino i).mp hi
    rcases h.owner.owned i hin with hi' | hlive
    · exact .inl ((hmem i).mpr ⟨hne, hi'⟩)
    · exact .inr hlive

theorem CacheInv.zombie (h : CacheInv c) {n : ExtentInode} (hn : c.inodes ino = some n)
    (htree : n.hasTree = true) : CacheInv ((c.zombieAdd ino).setInode ino none) := by
  obtain ⟨hin, hnot⟩ := h.owner.live_tree ino n hn htree
  refine ⟨h.trees.congr rfl rfl rfl rfl, h.owner.total, ?_, ?_, fun i hi => ?_,
    fun i m hm hmtree => ?_, fun i hi => ?_⟩
  · show c.totalZombieTree + 1 = ((c.zombieList ++ [ino]).length : Int)
    rw [h.owner.zombies, List.length_append]
    rfl
  · exact h.owner.nodup.append (List.nodup_singleton _) (List.disjoint_singleton.mpr hnot)
  · rcases List.mem_append.mp hi with hi | hi
    · exact h.owner.zombie_tree i hi
    · rw [List.mem_singleton.mp hi]
      exact hin
  · have hi : i ≠ ino := fun heq => by
      rw [heq, inodes_setInode_self] at hm
      cases hm
    obtain ⟨h1, h2⟩ := h.owner.live_tree i m ((inodes_setInode_ne hi _).symm.trans hm) hmtree
    refine ⟨h1, fun hz => ?_⟩
    rcases List.mem_append.mp hz with hz | hz
    · exact h2 hz
    · exact hi (List.mem_singleton.mp hz)
  · by_cases hi' : i = ino
    · exact .inl (List.mem_append_right _ (List.mem_singleton.mpr hi'))
    · rcases h.owner.owned i hi with hz | ⟨m, hm, hmtree⟩
      · exact .inl (List.mem_append_left _ hz)
      · exact .inr ⟨m, (inodes_setInode_ne hi' _).trans hm, hmtree⟩

/-! ## The calls -/

theorem f2fsInitExtentTree_inv (h : CacheInv c) {may : Bool} {iExt : Option ExtentInfo}
    {alloc : Bool} (hno : c.inodes ino = none) (hext : ∀ ei, iExt = some ei → ei.stop < 2 ^ 32)
    {c' : ExtentCache} (hstep : f2fsInitExtentTree rb c ino may iExt alloc = some c') :
    CacheInv c' := by
  unfold f2fsInitExtentTree at hstep
  split at hstep
  · have hgrab := h.grab hno
    dsimp only at hstep
    split at hstep
    · exact Option.some.inj hstep ▸ hgrab
    · rename_i ei hei
      obtain ⟨hei, hlen⟩ := Option.filter_eq_some_iff.mp hei
      obtain ⟨t, hfind, rfl⟩ := Option.map_eq_some_iff.mp hstep
      obtain ⟨L, R, ht, rfl⟩ := find_eq hfind
      split
      · exact hgrab
      · rename_i hcnt
        refine hgrab.unlock ht ?_
        have hv : ei.Valid := ⟨Nat.pos_of_ne_zero (of_decide_eq_true hlen), hext ei hei⟩
        exact initExtentTree_spec rb (hgrab.trees.locked ht)
          (hgrab.trees.empty ht (not_not.mp hcnt))
          hv alloc
  · refine Option.some.inj hstep ▸ h.setNoTree (fun n hn => ?_) fun n hn => ?_
    · rw [hno] at hn
      cases hn
    · rw [← Option.some.inj hn]

theorem f2fsUpdateExtentTreeRange_inv (h : CacheInv c) {fofs blkaddr len : Nat}
    {alloc : ExtentInfo → Bool} (hlen : 1 ≤ len) (hstop : fofs + len < 2 ^ 32) {c' : ExtentCache}
    (hstep : f2fsUpdateExtentTreeRange rb c ino fofs blkaddr len alloc = some c') :
    CacheInv c' := by
  obtain ⟨n, hn, hstep⟩ := Option.bind_eq_some_iff.mp hstep
  split at hstep
  · exact Option.some.inj hstep ▸ h
  · obtain ⟨t, hfind, hset⟩ := Option.bind_eq_some_iff.mp hstep
    obtain ⟨L, R, ht, rfl⟩ := find_eq hfind
    obtain ⟨w, noExtent, hw, hinv⟩ :=
      updateExtentTreeRange_spec rb alloc (h.trees.locked ht) hlen hstop blkaddr
    rw [hw] at hset
    rw [← Option.some.inj hset]
    exact (h.unlock ht hinv).setFlag hn noExtent

theorem lookupExtentTree_inv {others : List (Nat × Nat)} (h : TreeInv ino others w) (pgofs : Nat) :
    TreeInv ino others (lookupExtentTree w pgofs).1 := by
  unfold lookupExtentTree
  dsimp only
  split
  · exact h
  · split
    · exact h
    · rename_i n hn
      obtain ⟨hmem, -⟩ := lookupEntry_some (cached_mem w) hn
      exact h.touch (List.mem_map_of_mem hmem)

theorem f2fsLookupExtentTree_inv (h : CacheInv c) {pgofs : Nat}
    {r : ExtentCache × Option ExtentInfo}
    (hstep : f2fsLookupExtentTree c ino pgofs = some r) : CacheInv r.1 := by
  obtain ⟨n, hn, hstep⟩ := Option.bind_eq_some_iff.mp hstep
  split at hstep
  · cases hstep
  · obtain ⟨t, hfind, hset⟩ := Option.bind_eq_some_iff.mp hstep
    obtain ⟨L, R, ht, rfl⟩ := find_eq hfind
    rw [← Option.some.inj hset]
    exact h.unlock ht (lookupExtentTree_inv (h.trees.locked ht) pgofs)

theorem f2fsDropExtentTree_inv (h : CacheInv c) {c' : ExtentCache}
    (hstep : f2fsDropExtentTree rb c ino = some c') : CacheInv c' := by
  obtain ⟨n, hn, hstep⟩ := Option.bind_eq_some_iff.mp hstep
  split at hstep
  · cases hstep
  · obtain ⟨t, hfind, hset⟩ := Option.bind_eq_some_iff.mp hstep
    obtain ⟨L, R, ht, rfl⟩ := find_eq hfind
    rw [← Option.some.inj hset]
    exact (h.unlock ht ((h.trees.locked ht).free.dropLargest 0 uintMax)).setFlag hn true

/-- What `f2fs_destroy_extent_node` leaves of the tree of a live inode. -/
theorem f2fsDestroyExtentNode_spec (h : CacheInv c) {n : ExtentInode}
    (hn : c.inodes ino = some n) {c' : ExtentCache}
    (hstep : f2fsDestroyExtentNode rb c ino = some c') :
    CacheInv c' ∧ c'.inodes = c.inodes ∧ (n.hasTree = true →
      ∃ L t R, c'.trees = L ++ t :: R ∧ t.ino = ino ∧ t.root.toList = []) := by
  unfold f2fsDestroyExtentNode at hstep
  rw [hn, Option.bind_eq_bind, Option.bind_some] at hstep
  split at hstep
  · rename_i hfalse
    refine ⟨Option.some.inj hstep ▸ h, Option.some.inj hstep ▸ rfl, fun htree => ?_⟩
    rw [hfalse] at htree
    cases htree
  · obtain ⟨t, hfind, hset⟩ := Option.bind_eq_some_iff.mp hstep
    obtain ⟨L, R, ht, rfl⟩ := find_eq hfind
    split at hset
    · rename_i hcnt
      rw [← Option.some.inj hset]
      exact ⟨h, rfl, fun _ => ⟨L, t, R, ht, rfl, h.trees.empty ht hcnt⟩⟩
    · rw [← Option.some.inj hset]
      obtain ⟨hnil, hbooks⟩ := freeExtentTree_spec rb (h.trees.locked ht).books
      exact ⟨h.unlock ht (h.trees.locked ht).free, rfl, fun _ =>
        ⟨L, _, R, trees_unlock h.trees ht hbooks.ino_eq, hbooks.ino_eq, hnil⟩⟩

theorem f2fsDestroyExtentTree_inv (h : CacheInv c) {keep : Bool} {c' : ExtentCache}
    (hstep : f2fsDestroyExtentTree rb c ino keep = some c') : CacheInv c' := by
  obtain ⟨n, hn, hstep⟩ := Option.bind_eq_some_iff.mp hstep
  split at hstep
  · exact Option.some.inj hstep ▸ h
  · rename_i htree
    have htree' : n.hasTree = true := by simpa using htree
    obtain ⟨t, -, hset⟩ := Option.bind_eq_some_iff.mp hstep
    split at hset
    · exact Option.some.inj hset ▸ h.zombie hn htree'
    · obtain ⟨c₁, hnode, hdel⟩ := Option.bind_eq_some_iff.mp hset
      obtain ⟨hinv, hinodes, hempty⟩ := f2fsDestroyExtentNode_spec h hn hnode
      obtain ⟨L, u, R, hu, rfl, hnil⟩ := hempty htree'
      rw [← Option.some.inj hdel]
      exact hinv.deleteLive hu hnil ((congrFun hinodes _).trans hn) htree'

theorem clearInode_inv (h : CacheInv c) {c' : ExtentCache} (hstep : clearInode c ino = some c') :
    CacheInv c' := by
  obtain ⟨n, hn, hset⟩ := Option.bind_eq_some_iff.mp hstep
  split at hset
  · cases hset
  · rename_i htree
    refine Option.some.inj hset ▸ h.setNoTree (fun m hm => ?_) fun m hm => by cases hm
    rw [hn, Option.some.injEq] at hm
    rw [← hm]
    simpa using htree

/-! ## The shrinker -/

theorem freeZombie_inv (h : CacheInv c) (hz : ino ∈ c.zombieList) {r : ExtentCache × UInt32}
    (hstep : freeZombie rb c ino = some r) :
    CacheInv r.1 ∧ r.1.zombieList = c.zombieList.filter fun i => i ≠ ino := by
  obtain ⟨t, hfind, rfl⟩ := Option.map_eq_some_iff.mp hstep
  obtain ⟨L, R, ht, rfl⟩ := find_eq hfind
  dsimp only
  have hlocked := h.trees.locked ht
  have hfreed : ∃ w, (if t.nodeCnt ≠ 0 then freeExtentTree rb (c.lock t) else c.lock t) = w ∧
      TreeInv t.ino (refsOf (L ++ R)) w ∧ w.nodes = [] := by
    split
    · exact ⟨_, rfl, hlocked.free, (freeExtentTree_spec rb hlocked.books).1⟩
    · rename_i hcnt
      exact ⟨_, rfl, hlocked, h.trees.empty ht (not_not.mp hcnt)⟩
  obtain ⟨w, hw, hinv, hnil⟩ := hfreed
  rw [hw]
  have hdel := (h.unlock ht hinv).deleteZombie
    (trees_unlock h.trees ht hinv.books.ino_eq) hnil (hinv.books.ino_eq.symm ▸ hz)
  rw [hinv.books.ino_eq] at hdel
  exact ⟨hdel, rfl⟩

theorem freeZombies_inv {nrShrink : UInt32} (l : List Nat) :
    ∀ {c : ExtentCache} {cnt : UInt32}, CacheInv c → l.Nodup → (∀ i ∈ l, i ∈ c.zombieList) →
      ∀ r, freeZombies rb nrShrink l c cnt = some r → CacheInv r.1 := by
  induction l with
  | nil => exact fun h _ _ r hr => Option.some.inj hr ▸ h
  | cons ino l ih =>
    intro c cnt h hnodup hl r hr
    obtain ⟨⟨c₁, k⟩, hfree, hrest⟩ := Option.bind_eq_some_iff.mp hr
    obtain ⟨hinv, hzombies⟩ := freeZombie_inv h (hl ino List.mem_cons_self) hfree
    obtain ⟨hnot, hnodup⟩ := List.nodup_cons.mp hnodup
    dsimp only at hrest
    split at hrest
    · exact Option.some.inj hrest ▸ hinv
    · refine ih hinv hnodup (fun i hi => ?_) r hrest
      rw [hzombies, List.mem_filter]
      exact ⟨hl i (List.mem_cons_of_mem _ hi), decide_eq_true fun heq => hnot (heq ▸ hi)⟩

/-- A node on the list is one of the tree it names. -/
theorem TreesInv.mem_list (h : TreesInv c) {r : Nat × Nat} (hr : r ∈ c.extentList)
    (ht : c.trees = L ++ t :: R) (hino : t.ino = r.1) : r.2 ∈ (c.lock t).ids := by
  obtain ⟨u, hu, hru⟩ := List.mem_flatMap.mp (h.list.mem_iff.mp hr)
  obtain ⟨en, hen, rfl⟩ := List.mem_map.mp hru
  obtain ⟨hL, hR⟩ := h.others ht
  rw [ht] at hu
  rcases List.mem_append.mp hu with hu | hu
  · exact absurd hino.symm (hL u hu)
  · rcases List.mem_cons.mp hu with rfl | hu
    · exact hen
    · exact absurd hino.symm (hR u hu)

theorem shrinkNode_inv (h : CacheInv c) {r : Nat × Nat} (hr : r ∈ c.extentList) {trylock : Bool}
    {c' : ExtentCache} (hstep : shrinkNode rb c r trylock = some c') : CacheInv c' := by
  obtain ⟨t, hfind, rfl⟩ := Option.map_eq_some_iff.mp hstep
  obtain ⟨L, R, ht, hino⟩ := find_eq hfind
  have hlocked := h.trees.locked ht
  have hen := h.trees.mem_list hr ht hino
  refine h.unlock ht ?_
  split
  · obtain ⟨n, hn, hid⟩ := List.mem_map.mp hen
    obtain ⟨A, B, hnodes⟩ := List.append_of_mem hn
    rw [← hid]
    exact hlocked.release rb hnodes
  · exact ⟨hlocked.tree, hlocked.largest, hlocked.books.moveTail hen⟩

theorem shrinkNodes_inv {trylock : Nat → Bool} (remained : Nat) :
    ∀ {c : ExtentCache}, CacheInv c → ∀ c', shrinkNodes rb trylock remained c = some c' →
      CacheInv c' := by
  induction remained with
  | zero => exact fun h c' hc => Option.some.inj hc ▸ h
  | succ remained ih =>
    intro c h c' hc
    unfold shrinkNodes at hc
    split at hc
    · exact Option.some.inj hc ▸ h
    · rename_i r l hl
      obtain ⟨c₁, hstep, hrest⟩ := Option.bind_eq_some_iff.mp hc
      exact ih (shrinkNode_inv h (hl ▸ List.mem_cons_self) hstep) c' hrest

theorem f2fsShrinkExtentTree_inv (h : CacheInv c) {extentCache : Bool} {nrShrink : UInt32}
    {locks : ShrinkLocks} {c' : ExtentCache}
    (hstep : f2fsShrinkExtentTree rb c extentCache nrShrink locks = some c') : CacheInv c' := by
  have hlru : ∀ {c : ExtentCache} {n : Nat}, CacheInv c → ∀ c',
      (if locks.nodes then shrinkNodes rb locks.tree n c else some c) = some c' → CacheInv c' := by
    intro c n h c' hc
    split at hc
    · exact shrinkNodes_inv n h c' hc
    · exact Option.some.inj hc ▸ h
  unfold f2fsShrinkExtentTree at hstep
  split at hstep
  · dsimp only at hstep
    split at hstep
    · exact hlru h c' hstep
    · split at hstep
      · obtain ⟨⟨c₁, cnt, enough⟩, hfree, hrest⟩ := Option.bind_eq_some_iff.mp hstep
        have hinv := freeZombies_inv c.zombieList h h.owner.nodup (fun _ hi => hi) _ hfree
        dsimp only at hrest
        split at hrest
        · exact Option.some.inj hrest ▸ hinv
        · exact hlru hinv c' hrest
      · exact Option.some.inj hstep ▸ h
  · exact Option.some.inj hstep ▸ h

/-! ## Every run -/

theorem extentStep_inv (h : CacheInv c) {op : ExtentOp} (ha : op.Allowed c) {c' : ExtentCache}
    (hstep : extentStep rb c op = some c') : CacheInv c' := by
  cases op with
  | init ino may iExt alloc => exact f2fsInitExtentTree_inv h ha.1 ha.2 hstep
  | update ino fofs blkaddr len alloc => exact f2fsUpdateExtentTreeRange_inv h ha.1 ha.2 hstep
  | lookup ino pgofs =>
    obtain ⟨r, hr, rfl⟩ := Option.map_eq_some_iff.mp hstep
    exact f2fsLookupExtentTree_inv h hr
  | shrink extentCache nrShrink locks => exact f2fsShrinkExtentTree_inv h hstep
  | destroyNode ino =>
    obtain ⟨n, hn, -⟩ := Option.bind_eq_some_iff.mp hstep
    exact (f2fsDestroyExtentNode_spec h hn hstep).1
  | drop ino => exact f2fsDropExtentTree_inv h hstep
  | destroyTree ino keep => exact f2fsDestroyExtentTree_inv h hstep
  | clear ino => exact clearInode_inv h hstep

theorem initExtentCacheInfo_inv : CacheInv initExtentCacheInfo where
  trees :=
    { inos := List.nodup_nil
      tree := fun _ h => absurd h List.not_mem_nil
      list := List.Perm.nil
      nodup := List.nodup_nil
      fresh := fun _ h => absurd h List.not_mem_nil
      total := rfl }
  owner :=
    { total := rfl
      zombies := rfl
      nodup := List.nodup_nil
      zombie_tree := fun _ h => absurd h List.not_mem_nil
      live_tree := fun _ _ h => by cases h
      owned := fun _ h => absurd h List.not_mem_nil }

theorem ExtentReach.inv (h : ExtentReach rb c) : CacheInv c := by
  induction h with
  | mount => exact initExtentCacheInfo_inv
  | step _ ha hstep ih => exact extentStep_inv ih ha hstep

end

/-! ## No call gets stuck -/

section

variable {rb : Rebalance ExtentNode} {c : ExtentCache}

/-- The inode of the call is live, with a tree where the function does not ask. -/
def ExtentOp.Live (c : ExtentCache) : ExtentOp → Prop
  | .init _ _ _ _ => True
  | .update ino _ _ _ _ => ∃ n, c.inodes ino = some n
  | .lookup ino _ => ∃ n, c.inodes ino = some n ∧ n.hasTree = true
  | .shrink _ _ _ => True
  | .destroyNode ino => ∃ n, c.inodes ino = some n
  | .drop ino => ∃ n, c.inodes ino = some n ∧ n.hasTree = true
  | .destroyTree ino _ => ∃ n, c.inodes ino = some n
  | .clear ino => ∃ n, c.inodes ino = some n ∧ n.hasTree = false

theorem f2fsInitExtentTree_total (h : CacheInv c) {ino : Nat} (hno : c.inodes ino = none)
    (may : Bool) (iExt : Option ExtentInfo) (alloc : Bool) :
    ∃ c', f2fsInitExtentTree rb c ino may iExt alloc = some c' := by
  obtain ⟨t, ht⟩ := (h.grab hno).live (inodes_setInode_self _) rfl
  unfold f2fsInitExtentTree
  split
  · dsimp only
    split
    · exact ⟨_, rfl⟩
    · exact ⟨_, congrArg (Option.map _) ht⟩
  · exact ⟨_, rfl⟩

theorem f2fsUpdateExtentTreeRange_total (h : CacheInv c) {ino fofs len : Nat} {n : ExtentInode}
    (hn : c.inodes ino = some n) (hlen : 1 ≤ len) (hstop : fofs + len < 2 ^ 32) (blkaddr : Nat)
    (alloc : ExtentInfo → Bool) :
    ∃ c', f2fsUpdateExtentTreeRange rb c ino fofs blkaddr len alloc = some c' := by
  unfold f2fsUpdateExtentTreeRange
  rw [hn, Option.bind_eq_bind, Option.bind_some]
  split
  · exact ⟨c, rfl⟩
  · rename_i hgo
    have htree : n.hasTree = true := by
      by_contra hno
      exact hgo (.inl (Bool.not_eq_true _ ▸ hno))
    obtain ⟨t, hfind⟩ := h.live hn htree
    obtain ⟨L, R, ht, -⟩ := find_eq hfind
    obtain ⟨w, noExtent, hw, -⟩ :=
      updateExtentTreeRange_spec rb alloc (h.trees.locked ht) hlen hstop blkaddr
    rw [hfind, Option.bind_eq_bind, Option.bind_some, hw]
    exact ⟨_, rfl⟩

variable (rb) in
theorem f2fsDestroyExtentNode_total (h : CacheInv c) {ino : Nat} {n : ExtentInode}
    (hn : c.inodes ino = some n) : ∃ c', f2fsDestroyExtentNode rb c ino = some c' := by
  unfold f2fsDestroyExtentNode
  rw [hn, Option.bind_eq_bind, Option.bind_some]
  split
  · exact ⟨c, rfl⟩
  · rename_i hgo
    obtain ⟨t, hfind⟩ := h.live hn (by simpa using hgo)
    rw [hfind, Option.bind_eq_bind, Option.bind_some]
    split
    · exact ⟨c, rfl⟩
    · exact ⟨_, rfl⟩

variable (rb) in
theorem freeZombies_total {nrShrink : UInt32} (l : List Nat) :
    ∀ {c : ExtentCache} {cnt : UInt32}, CacheInv c → l.Nodup → (∀ i ∈ l, i ∈ c.zombieList) →
      ∃ r, freeZombies rb nrShrink l c cnt = some r := by
  induction l with
  | nil => exact fun _ _ _ => ⟨_, rfl⟩
  | cons ino l ih =>
    intro c cnt h hnodup hl
    obtain ⟨hnot, hnodup⟩ := List.nodup_cons.mp hnodup
    have hz := hl ino List.mem_cons_self
    obtain ⟨t, hfind⟩ := find_isSome (h.owner.zombie_tree ino hz)
    obtain ⟨r, hr⟩ : ∃ r, freeZombie rb c ino = some r := ⟨_, congrArg (Option.map _) hfind⟩
    obtain ⟨hinv, hzombies⟩ := freeZombie_inv h hz hr
    unfold freeZombies
    rw [hr, Option.bind_eq_bind, Option.bind_some]
    dsimp only
    split
    · exact ⟨_, rfl⟩
    · refine ih hinv hnodup fun i hi => ?_
      rw [hzombies, List.mem_filter]
      exact ⟨hl i (List.mem_cons_of_mem _ hi), decide_eq_true fun heq => hnot (heq ▸ hi)⟩

theorem shrinkNodes_total {trylock : Nat → Bool} (remained : Nat) :
    ∀ {c : ExtentCache}, CacheInv c → ∃ c', shrinkNodes rb trylock remained c = some c' := by
  induction remained with
  | zero => exact fun _ => ⟨_, rfl⟩
  | succ remained ih =>
    intro c h
    unfold shrinkNodes
    split
    · exact ⟨c, rfl⟩
    · rename_i r l hl
      have hr : r ∈ c.extentList := hl ▸ List.mem_cons_self
      obtain ⟨u, hu, hru⟩ := List.mem_flatMap.mp (h.trees.list.mem_iff.mp hr)
      obtain ⟨en, -, rfl⟩ := List.mem_map.mp hru
      obtain ⟨t, hfind⟩ := find_isSome (List.mem_map_of_mem hu)
      obtain ⟨c₁, hstep⟩ : ∃ c₁, shrinkNode rb c (u.ino, en) (trylock remained) = some c₁ :=
        ⟨_, congrArg (Option.map _) hfind⟩
      rw [hstep, Option.bind_some]
      exact ih (shrinkNode_inv h hr hstep)

theorem f2fsShrinkExtentTree_total (h : CacheInv c) (extentCache : Bool) (nrShrink : UInt32)
    (locks : ShrinkLocks) :
    ∃ c', f2fsShrinkExtentTree rb c extentCache nrShrink locks = some c' := by
  have hlru : ∀ {c : ExtentCache} (n : Nat), CacheInv c →
      ∃ c', (if locks.nodes then shrinkNodes rb locks.tree n c else some c) = some c' := by
    intro c n h
    split
    · exact shrinkNodes_total n h
    · exact ⟨c, rfl⟩
  unfold f2fsShrinkExtentTree
  split
  · dsimp only
    split
    · exact hlru _ h
    · split
      · obtain ⟨⟨c₁, cnt, enough⟩, hfree⟩ :=
          freeZombies_total rb c.zombieList h h.owner.nodup fun _ hi => hi
        have hinv := freeZombies_inv c.zombieList h h.owner.nodup (fun _ hi => hi) _ hfree
        rw [hfree, Option.bind_eq_bind, Option.bind_some]
        dsimp only
        split
        · exact ⟨c₁, rfl⟩
        · exact hlru _ hinv
      · exact ⟨c, rfl⟩
  · exact ⟨c, rfl⟩

/-- A call on a live inode comes back: no search for a place fails, and no pointer dangles. -/
theorem extentStep_total (h : CacheInv c) {op : ExtentOp} (ha : op.Allowed c) (hl : op.Live c) :
    ∃ c', extentStep rb c op = some c' := by
  cases op with
  | init ino may iExt alloc => exact f2fsInitExtentTree_total h ha.1 may iExt alloc
  | update ino fofs blkaddr len alloc =>
    obtain ⟨n, hn⟩ := hl
    exact f2fsUpdateExtentTreeRange_total h hn ha.1 ha.2 blkaddr alloc
  | lookup ino pgofs =>
    obtain ⟨n, hn, htree⟩ := hl
    obtain ⟨t, hfind⟩ := h.live hn htree
    simp [extentStep, f2fsLookupExtentTree, hn, htree, hfind]
  | shrink extentCache nrShrink locks =>
    exact f2fsShrinkExtentTree_total h extentCache nrShrink locks
  | destroyNode ino =>
    obtain ⟨n, hn⟩ := hl
    exact f2fsDestroyExtentNode_total rb h hn
  | drop ino =>
    obtain ⟨n, hn, htree⟩ := hl
    obtain ⟨t, hfind⟩ := h.live hn htree
    simp [extentStep, f2fsDropExtentTree, hn, htree, hfind]
  | destroyTree ino keep =>
    obtain ⟨n, hn⟩ := hl
    cases htree : n.hasTree with
    | false => simp [extentStep, f2fsDestroyExtentTree, hn, htree]
    | true =>
      obtain ⟨t, hfind⟩ := h.live hn htree
      obtain ⟨c₁, hnode⟩ := f2fsDestroyExtentNode_total rb h hn
      by_cases hkeep : keep = true ∧ t.nodeCnt ≠ 0
      · simp [extentStep, f2fsDestroyExtentTree, hn, htree, hfind, hkeep]
      · simp [extentStep, f2fsDestroyExtentTree, hn, htree, hfind, hkeep, hnode]
  | clear ino =>
    obtain ⟨n, hn, htree⟩ := hl
    simp [extentStep, clearInode, hn, htree]

end

/-! ## The representation -/

/-- What the cache is to be in every state. -/
structure Represented (c : ExtentCache) : Prop where
  /-- the extents of a tree are not empty, in order and disjoint -/
  nonempty : ∀ t ∈ c.trees, ∀ n ∈ t.root.toList, 0 < n.len
  ordered : ∀ t ∈ c.trees, t.root.toList.Pairwise fun a b => a.fofs + a.len ≤ b.fofs
  nodeCnt : ∀ t ∈ c.trees, t.nodeCnt = t.root.toList.length
  cached : ∀ t ∈ c.trees, ∀ en, t.cachedEn = some en → ∃ n ∈ t.root.toList, n.id = en
  totalExtNode : c.totalExtNode = (c.trees.map ExtentTree.nodeCnt).sum
  totalExtTree : c.totalExtTree = c.trees.length
  totalZombieTree : c.totalZombieTree = c.zombieList.length
  /-- the list holds the nodes of the trees, each of them once -/
  listed : ∀ r, r ∈ c.extentList ↔ ∃ t ∈ c.trees, ∃ n ∈ t.root.toList, r = (t.ino, n.id)
  once : c.extentList.Nodup
  distinct : ∀ t ∈ c.trees, (t.root.toList.map ExtentNode.id).Nodup

theorem sum_nodeCnt {l : List ExtentTree} (h : ∀ t ∈ l, TreeOk t) :
    (l.map ExtentTree.nodeCnt).sum = (refsOf l).length := by
  induction l with
  | nil => rfl
  | cons t l ih =>
    have ht := (h t List.mem_cons_self).count
    have hrest := ih fun u hu => h u (List.mem_cons_of_mem _ hu)
    have hlen : t.refs.length = t.root.toList.length := by
      rw [ExtentTree.refs, List.length_map, List.length_map]
    have hcons : refsOf (t :: l) = t.refs ++ refsOf l := List.flatMap_cons
    rw [List.map_cons, List.sum_cons, ht, hrest, hcons, List.length_append, hlen]
    rfl

/-- Whatever is called, in whatever order, the cache represents its extents. -/
theorem extents_represented {rb : Rebalance ExtentNode} {c : ExtentCache}
    (h : ExtentReach rb c) : Represented c := by
  obtain ⟨htrees, howner⟩ := h.inv
  refine ⟨fun t ht n hn => ((htrees.tree t ht).tree.valid n hn).len_pos,
    fun t ht => (htrees.tree t ht).tree.ordered, fun t ht => (htrees.tree t ht).count,
    fun t ht en hen => ?_, ?_, howner.total, howner.zombies, fun r => ?_,
    htrees.list.nodup_iff.mpr htrees.nodup, fun t ht => ?_⟩
  · exact List.mem_map.mp ((htrees.tree t ht).cached en hen)
  · rw [htrees.total, sum_nodeCnt htrees.tree]
  · rw [htrees.list.mem_iff, refsOf, List.mem_flatMap]
    constructor
    · rintro ⟨t, ht, hr⟩
      obtain ⟨en, hen, rfl⟩ := List.mem_map.mp hr
      obtain ⟨n, hn, rfl⟩ := List.mem_map.mp hen
      exact ⟨t, ht, n, hn, rfl⟩
    · rintro ⟨t, ht, n, hn, rfl⟩
      exact ⟨t, ht, List.mem_map_of_mem (List.mem_map_of_mem hn)⟩
  · obtain ⟨L, R, hL⟩ := List.append_of_mem ht
    exact (htrees.locked hL).books.ids_nodup

/-- A file of one extent of 1000 blocks, ten of which are written elsewhere. -/
def splitFile : Option ExtentCache :=
  (extentStep (Rebalance.unbalanced _) initExtentCacheInfo
    (.init 5 true (some ⟨0, 1000, 5000⟩) true)).bind fun c =>
      extentStep (Rebalance.unbalanced _) c (.update 5 400 9000 10 fun _ => true)

theorem splitFile_represented : ∃ c, splitFile = some c ∧ c.totalExtNode = 3 ∧ Represented c := by
  have hrun : splitFile.any (fun c => decide (c.totalExtNode = 3)) = true := by decide +kernel
  obtain ⟨c, hc, hcount⟩ := (Option.any_eq_true _ _).mp hrun
  obtain ⟨c₁, hinit, hupdate⟩ := Option.bind_eq_some_iff.mp hc
  have hext : ∀ ei, some (⟨0, 1000, 5000⟩ : ExtentInfo) = some ei → ei.stop < 2 ^ 32 :=
    fun ei hei => Option.some.inj hei ▸ by decide
  have hfirst : (ExtentOp.init 5 true (some ⟨0, 1000, 5000⟩) true).Allowed initExtentCacheInfo :=
    ⟨rfl, hext⟩
  have hsecond : (ExtentOp.update 5 400 9000 10 fun _ => true).Allowed c₁ :=
    ⟨by decide, by decide⟩
  exact ⟨c, hc, of_decide_eq_true hcount,
    extents_represented (.step (.step .mount hfirst hinit) hsecond hupdate)⟩

/-- In every run a call on a live inode comes back: no search for a place fails, no pointer
    dangles, and the loops end. -/
theorem extentCalls_return {rb : Rebalance ExtentNode} {c : ExtentCache} (h : ExtentReach rb c)
    {op : ExtentOp} (ha : op.Allowed c) (hl : op.Live c) : ∃ c', extentStep rb c op = some c' :=
  extentStep_total h.inv ha hl

theorem extentCalls_return_init : ∃ c', extentStep (Rebalance.unbalanced _) initExtentCacheInfo
    (.init 5 true (some ⟨0, 1000, 5000⟩) true) = some c' :=
  extentCalls_return .mount ⟨rfl, fun ei hei => Option.some.inj hei ▸ by decide⟩ trivial

end F2fs.Extent

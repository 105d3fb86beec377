/-
  The extent cache beside the maps of the files, over every run.

  Most calls only take nodes and trees away (`Fewer`); what is left tells what it told.  The
  others are `f2fs_init_extent_tree`, which reads `i_ext` back, and the update, which a write,
  a move of the garbage collector or a truncation makes together with its change of the map.
  An inode with `FI_NO_EXTENT` has an empty tree, which tells nothing whatever its map becomes.
-/
import F2fs.Extent.Mapping

namespace F2fs.Extent

open IntervalTree

/-- The maps of all files. -/
abbrev BlockMap := Nat → PageMap

/-! ## What is taken away -/

/-- The trees of `c'` are trees of `c`, or what is left of them. -/
def Fewer (c c' : ExtentCache) : Prop :=
  ∀ t' ∈ c'.trees, ∃ t ∈ c.trees, t'.ino = t.ino ∧ t'.root.toList ⊆ t.root.toList ∧
    t'.largest = t.largest

section

variable {rb : Rebalance ExtentNode} {c c₁ c' : ExtentCache} {m : BlockMap}
  {L R : List ExtentTree} {t : ExtentTree} {ino : Nat} {w : LockedTree}

theorem Fewer.of_eq (h : c'.trees = c.trees) : Fewer c c' :=
  fun t ht => ⟨t, h ▸ ht, rfl, List.Subset.refl _, rfl⟩

theorem Fewer.trans (h : Fewer c c₁) (h' : Fewer c₁ c') : Fewer c c' := by
  intro t' ht'
  obtain ⟨t₁, ht₁, hino₁, hsub₁, hl₁⟩ := h' t' ht'
  obtain ⟨t, ht, hino, hsub, hl⟩ := h t₁ ht₁
  exact ⟨t, ht, hino₁.trans hino, List.Subset.trans hsub₁ hsub, hl₁.trans hl⟩

theorem Fewer.unlock (h : TreesInv c) (ht : c.trees = L ++ t :: R) (hino : w.et.ino = t.ino)
    (hsub : w.nodes ⊆ t.root.toList) (hl : w.et.largest = t.largest) : Fewer c (c.unlock w) := by
  intro t' ht'
  rw [trees_unlock h ht hino] at ht'
  rcases List.mem_append.mp ht' with hL | hR
  · exact ⟨t', by simp [ht, hL], rfl, List.Subset.refl _, rfl⟩
  · rcases List.mem_cons.mp hR with rfl | hR
    · exact ⟨t, by simp [ht], hino, hsub, hl⟩
    · exact ⟨t', by simp [ht, hR], rfl, List.Subset.refl _, rfl⟩

theorem Fewer.delete (c : ExtentCache) (ino : Nat) : Fewer c (c.delete ino) :=
  fun t ht => ⟨t, (List.mem_filter.mp ht).1, rfl, List.Subset.refl _, rfl⟩

theorem Fewer.free (h : TreesInv c) (ht : c.trees = L ++ t :: R) :
    Fewer c (c.unlock (freeExtentTree rb (c.lock t))) := by
  obtain ⟨hnil, hbooks⟩ := freeExtentTree_spec rb (h.locked ht).books
  refine Fewer.unlock h ht hbooks.ino_eq ?_ (largest_freeExtentTree _)
  rw [hnil]
  exact List.nil_subset _

/-! ## The calls that take away -/

theorem nodes_lookupExtentTree (w : LockedTree) (pgofs : Nat) :
    (lookupExtentTree w pgofs).1.nodes = w.nodes := by
  unfold lookupExtentTree
  dsimp only
  split
  · rfl
  · split
    · rfl
    · exact w.nodes_touch _

theorem largest_lookupExtentTree (w : LockedTree) (pgofs : Nat) :
    (lookupExtentTree w pgofs).1.et.largest = w.et.largest := by
  unfold lookupExtentTree
  dsimp only
  split
  · rfl
  · split
    · rfl
    · exact largest_touch w _

theorem f2fsLookupExtentTree_fewer (h : CacheInv c) {pgofs : Nat}
    {r : ExtentCache × Option ExtentInfo} (hstep : f2fsLookupExtentTree c ino pgofs = some r) :
    Fewer c r.1 ∧ r.1.inodes = c.inodes := by
  obtain ⟨n, hn, hstep⟩ := Option.bind_eq_some_iff.mp hstep
  split at hstep
  · cases hstep
  · obtain ⟨t, hfind, hset⟩ := Option.bind_eq_some_iff.mp hstep
    obtain ⟨L, R, ht, rfl⟩ := find_eq hfind
    have hinv := lookupExtentTree_inv (h.trees.locked ht) pgofs
    rw [← Option.some.inj hset]
    have hnodes : (lookupExtentTree (c.lock t) pgofs).1.nodes = t.root.toList :=
      nodes_lookupExtentTree (c.lock t) pgofs
    have hlargest := largest_lookupExtentTree (c.lock t) pgofs
    exact ⟨Fewer.unlock h.trees ht hinv.books.ino_eq (fun a ha => hnodes ▸ ha) hlargest, rfl⟩

theorem f2fsDestroyExtentNode_fewer (h : CacheInv c)
    (hstep : f2fsDestroyExtentNode rb c ino = some c') : Fewer c c' ∧ c'.inodes = c.inodes := by
  obtain ⟨n, hn, hstep⟩ := Option.bind_eq_some_iff.mp hstep
  split at hstep
  · exact Option.some.inj hstep ▸ ⟨Fewer.of_eq rfl, rfl⟩
  · obtain ⟨t, hfind, hset⟩ := Option.bind_eq_some_iff.mp hstep
    obtain ⟨L, R, ht, rfl⟩ := find_eq hfind
    split at hset
    · exact Option.some.inj hset ▸ ⟨Fewer.of_eq rfl, rfl⟩
    · exact Option.some.inj hset ▸ ⟨Fewer.free h.trees ht, rfl⟩

theorem freeZombie_fewer (h : CacheInv c) {r : ExtentCache × UInt32}
    (hstep : freeZombie rb c ino = some r) : Fewer c r.1 ∧ r.1.inodes = c.inodes := by
  obtain ⟨t, hfind, rfl⟩ := Option.map_eq_some_iff.mp hstep
  obtain ⟨L, R, ht, rfl⟩ := find_eq hfind
  refine ⟨Fewer.trans ?_ (Fewer.delete _ t.ino), rfl⟩
  split
  · exact Fewer.free h.trees ht
  · exact Fewer.unlock h.trees ht rfl (List.Subset.refl _) rfl

theorem freeZombies_fewer {nrShrink : UInt32} (l : List Nat) :
    ∀ {c : ExtentCache} {cnt : UInt32}, CacheInv c → l.Nodup → (∀ i ∈ l, i ∈ c.zombieList) →
      ∀ r, freeZombies rb nrShrink l c cnt = some r → Fewer c r.1 ∧ r.1.inodes = c.inodes := by
  induction l with
  | nil => exact fun _ _ _ r hr => Option.some.inj hr ▸ ⟨Fewer.of_eq rfl, rfl⟩
  | cons ino l ih =>
    intro c cnt h hnodup hl r hr
    obtain ⟨⟨c₁, k⟩, hfree, hrest⟩ := Option.bind_eq_some_iff.mp hr
    obtain ⟨hinv, hzombies⟩ := freeZombie_inv h (hl ino List.mem_cons_self) hfree
    obtain ⟨hnot, hnodup⟩ := List.nodup_cons.mp hnodup
    have hfirst := freeZombie_fewer h hfree
    dsimp only at hrest
    split at hrest
    · exact Option.some.inj hrest ▸ hfirst
    · have hl' : ∀ i ∈ l, i ∈ c₁.zombieList := fun i hi => by
        rw [hzombies, List.mem_filter]
        exact ⟨hl i (List.mem_cons_of_mem _ hi), decide_eq_true fun heq => hnot (heq ▸ hi)⟩
      obtain ⟨hfewer, hinodes⟩ := ih hinv hnodup hl' r hrest
      exact ⟨hfirst.1.trans hfewer, hinodes.trans hfirst.2⟩

theorem shrinkNode_fewer (h : CacheInv c) {r : Nat × Nat} (hr : r ∈ c.extentList) {trylock : Bool}
    (hstep : shrinkNode rb c r trylock = some c') : Fewer c c' ∧ c'.inodes = c.inodes := by
  obtain ⟨t, hfind, rfl⟩ := Option.map_eq_some_iff.mp hstep
  obtain ⟨L, R, ht, hino⟩ := find_eq hfind
  have hlocked := h.trees.locked ht
  obtain ⟨n, hn, hid⟩ := List.mem_map.mp (h.trees.mem_list hr ht hino)
  refine ⟨?_, rfl⟩
  split
  · obtain ⟨A, B, hnodes⟩ := List.append_of_mem hn
    obtain ⟨hleft, -⟩ := releaseExtentNode_spec rb hlocked.books hnodes
    have hsub : A ++ B ⊆ A ++ n :: B :=
      (List.Sublist.append_left (List.sublist_cons_self n B) A).subset
    rw [← hnodes, ← hleft] at hsub
    rw [← hid]
    exact Fewer.unlock h.trees ht rfl hsub rfl
  · exact Fewer.unlock h.trees ht rfl (List.Subset.refl _) rfl

theorem shrinkNodes_fewer {trylock : Nat → Bool} (remained : Nat) :
    ∀ {c : ExtentCache}, CacheInv c → ∀ c', shrinkNodes rb trylock remained c = some c' →
      Fewer c c' ∧ c'.inodes = c.inodes := by
  induction remained with
  | zero => exact fun _ c' hc => Option.some.inj hc ▸ ⟨Fewer.of_eq rfl, rfl⟩
  | succ remained ih =>
    intro c h c' hc
    unfold shrinkNodes at hc
    split at hc
    · exact Option.some.inj hc ▸ ⟨Fewer.of_eq rfl, rfl⟩
    · rename_i r l hl
      have hr : r ∈ c.extentList := hl ▸ List.mem_cons_self
      obtain ⟨c₁, hstep, hrest⟩ := Option.bind_eq_some_iff.mp hc
      obtain ⟨hfirst, hinodes₁⟩ := shrinkNode_fewer h hr hstep
      obtain ⟨hfewer, hinodes⟩ := ih (shrinkNode_inv h hr hstep) c' hrest
      exact ⟨hfirst.trans hfewer, hinodes.trans hinodes₁⟩

theorem f2fsShrinkExtentTree_fewer (h : CacheInv c) {extentCache : Bool} {nrShrink : UInt32}
    {locks : ShrinkLocks} (hstep : f2fsShrinkExtentTree rb c extentCache nrShrink locks = some c') :
    Fewer c c' ∧ c'.inodes = c.inodes := by
  have hlru : ∀ {c : ExtentCache} {n : Nat}, CacheInv c → ∀ c',
      (if locks.nodes then shrinkNodes rb locks.tree n c else some c) = some c' →
        Fewer c c' ∧ c'.inodes = c.inodes := by
    intro c n h c' hc
    split at hc
    · exact shrinkNodes_fewer n h c' hc
    · exact Option.some.inj hc ▸ ⟨Fewer.of_eq rfl, rfl⟩
  unfold f2fsShrinkExtentTree at hstep
  split at hstep
  · dsimp only at hstep
    split at hstep
    · exact hlru h c' hstep
    · split at hstep
      · obtain ⟨⟨c₁, cnt, enough⟩, hfree, hrest⟩ := Option.bind_eq_some_iff.mp hstep
        have hfirst := freeZombies_fewer c.zombieList h h.owner.nodup (fun _ hi => hi) _ hfree
        have hinv := freeZombies_inv c.zombieList h h.owner.nodup (fun _ hi => hi) _ hfree
        dsimp only at hrest
        split at hrest
        · exact Option.some.inj hrest ▸ hfirst
        · obtain ⟨hfewer, hinodes⟩ := hlru hinv c' hrest
          exact ⟨hfirst.1.trans hfewer, hinodes.trans hfirst.2⟩
      · exact Option.some.inj hstep ▸ ⟨Fewer.of_eq rfl, rfl⟩
  · exact Option.some.inj hstep ▸ ⟨Fewer.of_eq rfl, rfl⟩

/-! ## The invariant -/

/-- The nodes and the largest extent tell the map. -/
structure ExtentTree.Tells (m : PageMap) (t : ExtentTree) : Prop where
  nodes : TellAll m t.root.toList
  largest : t.largest.Tells m

/-- Nothing is cached, not even a largest extent. -/
structure ExtentTree.Bare (t : ExtentTree) : Prop where
  nodes : t.root.toList = []
  largest : t.largest.len = 0

theorem ExtentTree.Bare.tells (h : t.Bare) (m : PageMap) : t.Tells m :=
  ⟨h.nodes ▸ TellAll.nil, .empty h.largest⟩

/-- The trees tell the maps; a tree that was given up is bare, and an inode without a tree has
    none on the list either. -/
structure Coherent (c : ExtentCache) (m : BlockMap) : Prop where
  inv : CacheInv c
  tells : ∀ t ∈ c.trees, t.Tells (m t.ino)
  gaveUp : ∀ ino n, c.inodes ino = some n → n.noExtent = true →
    ∀ t ∈ c.trees, t.ino = ino → t.Bare
  noTree : ∀ ino n, c.inodes ino = some n → n.hasTree = false → ∀ t ∈ c.trees, t.ino ≠ ino

/-- An inode of `c'` has what it had, or has lost its tree. -/
def SameInodes (c c' : ExtentCache) : Prop :=
  ∀ ino n', c'.inodes ino = some n' → ∃ n, c.inodes ino = some n ∧ n.noExtent = n'.noExtent ∧
    (n'.hasTree = n.hasTree ∨ ∀ t ∈ c'.trees, t.ino ≠ ino)

theorem SameInodes.of_eq (h : c'.inodes = c.inodes) : SameInodes c c' :=
  fun _ n hn => ⟨n, h ▸ hn, rfl, .inl rfl⟩

/-- Taking away is safe. -/
theorem Coherent.fewer (h : Coherent c m) (hinv : CacheInv c') (hf : Fewer c c')
    (hi : SameInodes c c') : Coherent c' m := by
  refine ⟨hinv, fun t' ht' => ?_, fun ino n' hn' hno t' ht' hino => ?_,
    fun ino n' hn' htree t' ht' => ?_⟩
  · obtain ⟨t, ht, hino, hsub, hl⟩ := hf t' ht'
    rw [hino]
    exact ⟨(h.tells t ht).nodes.sub hsub, hl ▸ (h.tells t ht).largest⟩
  · obtain ⟨t, ht, hino', hsub, hl⟩ := hf t' ht'
    obtain ⟨n, hn, hflag, -⟩ := hi ino n' hn'
    have hbare := h.gaveUp ino n hn (hflag.trans hno) t ht (hino'.symm.trans hino)
    exact ⟨List.subset_nil.mp (hbare.nodes ▸ hsub), hl ▸ hbare.largest⟩
  · obtain ⟨n, hn, -, hcase⟩ := hi ino n' hn'
    rcases hcase with heq | hnone
    · obtain ⟨t, ht, hino, -, -⟩ := hf t' ht'
      exact hino ▸ h.noTree ino n hn (heq.symm.trans htree) t ht
    · exact hnone t' ht'

/-- One tree and its inode change. -/
theorem Coherent.unlock (h : Coherent c m) (ht : c.trees = L ++ t :: R) {m' : PageMap}
    (hw : TreeInv t.ino (refsOf (L ++ R)) w) (htells : w.et.Tells m') {n' : ExtentInode}
    (htree' : n'.hasTree = true) (hbare : n'.noExtent = true → w.et.Bare)
    (hinv : CacheInv ((c.unlock w).setInode t.ino (some n'))) :
    Coherent ((c.unlock w).setInode t.ino (some n')) (Function.update m t.ino m') := by
  obtain ⟨hL, hR⟩ := h.inv.trees.others ht
  have htrees : ((c.unlock w).setInode t.ino (some n')).trees = L ++ w.et :: R :=
    trees_unlock h.inv.trees ht hw.books.ino_eq
  -- every tree is the one that came back, or another one as before
  have hcases : ∀ u ∈ ((c.unlock w).setInode t.ino (some n')).trees,
      u = w.et ∨ u ∈ c.trees ∧ u.ino ≠ t.ino := by
    intro u hu
    rw [htrees] at hu
    rcases List.mem_append.mp hu with hu | hu
    · exact .inr ⟨by simp [ht, hu], hL u hu⟩
    · rcases List.mem_cons.mp hu with rfl | hu
      · exact .inl rfl
      · exact .inr ⟨by simp [ht, hu], hR u hu⟩
  refine ⟨hinv, fun u hu => ?_, fun ino k hk hno u hu hino => ?_,
    fun ino k hk hnotree u hu hino => ?_⟩
  · rcases hcases u hu with rfl | ⟨hu, hne⟩
    · rw [hw.books.ino_eq, Function.update_self]
      exact htells
    · rw [Function.update_of_ne hne]
      exact h.tells u hu
  · by_cases hi : ino = t.ino
    · subst hi
      rw [inodes_setInode_self, Option.some.injEq] at hk
      rcases hcases u hu with rfl | ⟨-, hne⟩
      · exact hbare (hk ▸ hno)
      · exact absurd hino hne
    · rcases hcases u hu with rfl | ⟨hu, -⟩
      · exact absurd (hino.symm.trans hw.books.ino_eq) hi
      · rw [inodes_setInode_ne hi] at hk
        exact h.gaveUp ino k hk hno u hu hino
  · by_cases hi : ino = t.ino
    · subst hi
      rw [inodes_setInode_self, Option.some.injEq] at hk
      rw [← hk, htree'] at hnotree
      cases hnotree
    · rcases hcases u hu with rfl | ⟨hu, -⟩
      · exact hi (hino.symm.trans hw.books.ino_eq)
      · rw [inodes_setInode_ne hi] at hk
        exact h.noTree ino k hk hnotree u hu hino

/-! ## The other calls -/

theorem Coherent.grab (h : Coherent c m) (hno : c.inodes ino = none) :
    Coherent (grabExtentTree c ino) m := by
  have htrees : ∀ t ∈ (grabExtentTree c ino).trees, t = newExtentTree ino ∨ t ∈ c.trees := by
    intro t ht
    unfold grabExtentTree at ht
    cases hfind : c.find ino with
    | none =>
      rw [hfind] at ht
      exact List.mem_cons.mp ht
    | some u =>
      rw [hfind] at ht
      exact .inr ht
  have hinodes : (grabExtentTree c ino).inodes =
      Function.update c.inodes ino (some ⟨false, true⟩) := by
    unfold grabExtentTree
    split <;> rfl
  refine ⟨h.inv.grab hno, fun t ht => ?_, fun i n hn hflag t ht hi => ?_,
    fun i n hn hnotree t ht hi => ?_⟩
  · rcases htrees t ht with rfl | ht
    · exact ExtentTree.Bare.tells ⟨rfl, rfl⟩ _
    · exact h.tells t ht
  · rw [hinodes] at hn
    by_cases hino : i = ino
    · rw [hino, Function.update_self, Option.some.injEq] at hn
      rw [← hn] at hflag
      cases hflag
    · rw [Function.update_of_ne hino] at hn
      rcases htrees t ht with rfl | ht
      · exact ⟨rfl, rfl⟩
      · exact h.gaveUp i n hn hflag t ht hi
  · rw [hinodes] at hn
    by_cases hino : i = ino
    · rw [hino, Function.update_self, Option.some.injEq] at hn
      rw [← hn] at hnotree
      cases hnotree
    · rw [Function.update_of_ne hino] at hn
      rcases htrees t ht with rfl | ht
      · exact hino hi.symm
      · exact h.noTree i n hn hnotree t ht hi

/-- `i_ext` becomes the first node and the largest extent. -/
theorem initExtentTree_tells {others : List (Nat × Nat)} {f : PageMap} {ei : ExtentInfo}
    (h : TreeInv ino others w) (hnil : w.nodes = []) (hl : w.et.largest.Tells f) (hei : ei.Tells f)
    (alloc : Bool) : (initExtentTree rb w ei alloc).et.Tells f := by
  unfold initExtentTree
  cases alloc with
  | false =>
    have hall : TellAll f w.nodes := hnil.symm ▸ TellAll.nil
    exact ⟨hall, hl⟩
  | true =>
    have hlinks : LinksNew w .root [] [] := fun _ => rfl
    obtain ⟨w₁, hattach, hnodes, -, -⟩ := attachExtentNode_spec rb h.books hnil hlinks ei
    rw [hattach]
    refine ⟨?_, hei⟩
    show TellAll f w₁.nodes
    rw [hnodes]
    exact TellAll.replace (M := []) TellAll.nil hei

theorem setInode_self (c : ExtentCache) {n : ExtentInode} (hn : c.inodes ino = some n) :
    c.setInode ino (some n) = c := by
  unfold ExtentCache.setInode
  rw [← hn, Function.update_eq_self]

/-- An inode that is set up; its `i_ext` tells where the blocks of the file are. -/
theorem f2fsInitExtentTree_coherent (h : Coherent c m) {may : Bool} {iExt : Option ExtentInfo}
    {alloc : Bool} (hno : c.inodes ino = none) (hext : ∀ ei, iExt = some ei → ei.stop < 2 ^ 32)
    (hknows : ∀ ei, iExt = some ei → ei.Tells (m ino))
    (hmay : may = false → ∀ t ∈ c.trees, t.ino ≠ ino)
    (hstep : f2fsInitExtentTree rb c ino may iExt alloc = some c') : Coherent c' m := by
  have hinv := f2fsInitExtentTree_inv h.inv hno hext hstep
  unfold f2fsInitExtentTree at hstep
  split at hstep
  · have hgrab := h.grab hno
    have hinodes : (grabExtentTree c ino).inodes ino = some ⟨false, true⟩ :=
      inodes_setInode_self _
    dsimp only at hstep
    split at hstep
    · exact Option.some.inj hstep ▸ hgrab
    · rename_i ei hei
      obtain ⟨hei, hlen⟩ := Option.filter_eq_some_iff.mp hei
      obtain ⟨t, hfind, rfl⟩ := Option.map_eq_some_iff.mp hstep
      obtain ⟨L, R, ht, rfl⟩ := find_eq hfind
      split
      · exact hgrab
      · rename_i hcnt
        rw [if_neg hcnt] at hinv
        have hnil := hgrab.inv.trees.empty ht (not_not.mp hcnt)
        have hlocked := hgrab.inv.trees.locked ht
        have hv : ei.Valid := ⟨Nat.pos_of_ne_zero (of_decide_eq_true hlen), hext ei hei⟩
        have hl := (hgrab.tells t (by simp [ht])).largest
        have hw : (initExtentTree rb ((grabExtentTree c t.ino).lock t) ei alloc).et.Tells
            (m t.ino) := initExtentTree_tells hlocked hnil hl (hknows ei hei) alloc
        have hsame := setInode_self ((grabExtentTree c t.ino).unlock
          (initExtentTree rb ((grabExtentTree c t.ino).lock t) ei alloc)) hinodes
        have hback := hgrab.unlock ht (initExtentTree_spec rb hlocked hnil hv alloc) hw rfl
          (fun hflag => by cases hflag) (hsame.symm ▸ hinv)
        rwa [hsame, Function.update_eq_self] at hback
  · rename_i hfalse
    have hnone := hmay (Bool.not_eq_true _ ▸ hfalse)
    cases hstep
    refine ⟨hinv, h.tells, fun i n hn hflag t ht hi => ?_, fun i n hn hnotree t ht hi => ?_⟩
    · by_cases hino : i = ino
      · exact absurd (hi.trans hino) (hnone t ht)
      · exact h.gaveUp i n ((inodes_setInode_ne hino _).symm.trans hn) hflag t ht hi
    · by_cases hino : i = ino
      · exact hnone t ht (hi.trans hino)
      · exact h.noTree i n ((inodes_setInode_ne hino _).symm.trans hn) hnotree t ht hi

/-- The pages of a range move, in the map and in the cache. -/
theorem f2fsUpdateExtentTreeRange_coherent (h : Coherent c m) {fofs blkaddr len : Nat}
    {alloc : ExtentInfo → Bool} (hlen : 1 ≤ len) (hstop : fofs + len < 2 ^ 32)
    (hstep : f2fsUpdateExtentTreeRange rb c ino fofs blkaddr len alloc = some c') :
    Coherent c' (Function.update m ino (movePages (m ino) fofs blkaddr len)) := by
  have hinv := f2fsUpdateExtentTreeRange_inv h.inv hlen hstop hstep
  obtain ⟨n, hn, hrest⟩ := Option.bind_eq_some_iff.mp hstep
  split at hrest
  · -- the cache keeps nothing of this file
    rename_i hcase
    cases hrest
    refine ⟨hinv, fun t ht => ?_, h.gaveUp, h.noTree⟩
    by_cases hino : t.ino = ino
    · rcases hcase with htree | hno
      · exact absurd hino (h.noTree ino n hn htree t ht)
      · exact (h.gaveUp ino n hn hno t ht hino).tells _
    · rw [Function.update_of_ne hino]
      exact h.tells t ht
  · rename_i hgo
    have htree : n.hasTree = true := by
      by_contra hno
      exact hgo (.inl (Bool.not_eq_true _ ▸ hno))
    obtain ⟨t, hfind, hset⟩ := Option.bind_eq_some_iff.mp hrest
    obtain ⟨L, R, ht, rfl⟩ := find_eq hfind
    obtain ⟨⟨w, noExtent⟩, hw, hdone⟩ := Option.bind_eq_some_iff.mp hset
    have hlocked := h.inv.trees.locked ht
    obtain ⟨w₁, no₁, hw₁, hwinv⟩ := updateExtentTreeRange_spec rb alloc hlocked hlen hstop blkaddr
    obtain ⟨rfl, rfl⟩ : w₁ = w ∧ no₁ = noExtent :=
      Prod.mk.inj (Option.some.inj (hw₁.symm.trans hw))
    have hold := h.tells t (by simp [ht])
    obtain ⟨htells, hbare⟩ := updateExtentTreeRange_tells hlocked
      (TreeTells.mk hold.nodes hold.largest) hlen hstop hw
    cases hdone
    exact h.unlock ht hwinv ⟨htells.nodes, htells.largest⟩ htree
      (fun hflag => ⟨(hbare hflag).1, (hbare hflag).2⟩) hinv

theorem f2fsDropExtentTree_coherent (h : Coherent c m)
    (hstep : f2fsDropExtentTree rb c ino = some c') : Coherent c' m := by
  have hinv := f2fsDropExtentTree_inv h.inv hstep
  obtain ⟨n, hn, hrest⟩ := Option.bind_eq_some_iff.mp hstep
  split at hrest
  · cases hrest
  · rename_i htree
    obtain ⟨t, hfind, hset⟩ := Option.bind_eq_some_iff.mp hrest
    obtain ⟨L, R, ht, rfl⟩ := find_eq hfind
    cases hset
    have hfree : TreeInv t.ino (refsOf (L ++ R)) (freeExtentTree rb (c.lock t)) :=
      (h.inv.trees.locked ht).free
    obtain ⟨hnil, -⟩ := freeExtentTree_spec rb (h.inv.trees.locked ht).books
    have hbare : (dropLargestExtent (freeExtentTree rb (c.lock t)) 0 uintMax).et.Bare :=
      ⟨(nodes_dropLargestExtent _ 0 uintMax).trans hnil, largest_dropAll hfree.largest⟩
    have hback := h.unlock ht (hfree.dropLargest 0 uintMax) (hbare.tells (m t.ino))
      (by simpa using htree) (fun _ => hbare) hinv
    rwa [Function.update_eq_self] at hback

theorem f2fsDestroyExtentTree_coherent (h : Coherent c m) {keep : Bool}
    (hstep : f2fsDestroyExtentTree rb c ino keep = some c') : Coherent c' m := by
  have hinv := f2fsDestroyExtentTree_inv h.inv hstep
  obtain ⟨n, hn, hrest⟩ := Option.bind_eq_some_iff.mp hstep
  split at hrest
  · exact Option.some.inj hrest ▸ h
  · obtain ⟨t, hfind, hset⟩ := Option.bind_eq_some_iff.mp hrest
    split at hset
    · cases hset
      refine h.fewer hinv (Fewer.of_eq rfl) fun i n' hn' => ?_
      have hi : i ≠ ino := fun heq => by
        rw [heq, inodes_setInode_self] at hn'
        cases hn'
      exact ⟨n', (inodes_setInode_ne hi _).symm.trans hn', rfl, .inl rfl⟩
    · obtain ⟨c₁, hnode, hdel⟩ := Option.bind_eq_some_iff.mp hset
      obtain ⟨hfewer, hinodes⟩ := f2fsDestroyExtentNode_fewer h.inv hnode
      cases hdel
      refine h.fewer hinv (hfewer.trans (Fewer.delete c₁ ino)) fun i n' hn' => ?_
      by_cases hi : i = ino
      · subst hi
        rw [inodes_setInode_self, Option.some.injEq] at hn'
        refine ⟨n, hn, by rw [← hn'], .inr fun u hu => ?_⟩
        exact of_decide_eq_true (List.mem_filter.mp hu).2
      · have hn₁ : c₁.inodes i = some n' := (inodes_setInode_ne hi _).symm.trans hn'
        exact ⟨n', hinodes ▸ hn₁, rfl, .inl rfl⟩

theorem clearInode_coherent (h : Coherent c m) (hstep : clearInode c ino = some c') :
    Coherent c' m := by
  have hinv := clearInode_inv h.inv hstep
  obtain ⟨n, hn, hset⟩ := Option.bind_eq_some_iff.mp hstep
  split at hset
  · cases hset
  · cases hset
    refine h.fewer hinv (Fewer.of_eq rfl) fun i n' hn' => ?_
    have hi : i ≠ ino := fun heq => by
      rw [heq, inodes_setInode_self] at hn'
      cases hn'
    exact ⟨n', (inodes_setInode_ne hi _).symm.trans hn', rfl, .inl rfl⟩

/-! ## Every run -/

/-- What the maps are behind a call. -/
def ExtentOp.moves (m : BlockMap) : ExtentOp → BlockMap
  | .update ino fofs blkaddr len _ => Function.update m ino (movePages (m ino) fofs blkaddr len)
  | _ => m

/-- `i_ext` is what `f2fs_update_inode` stored of the largest extent (`stored_tells`), and a file
    has extents or never has any. -/
def ExtentOp.Knows (c : ExtentCache) (m : BlockMap) : ExtentOp → Prop
  | .init ino may iExt _ => (∀ ei, iExt = some ei → ei.Tells (m ino)) ∧
      (may = false → ∀ t ∈ c.trees, t.ino ≠ ino)
  | _ => True

variable (rb) in
/-- The cache of a mounted file system and the maps of its files. -/
inductive Mapped : ExtentCache → BlockMap → Prop
  | mount (m : BlockMap) : Mapped initExtentCacheInfo m
  | call {c c' : ExtentCache} {m : BlockMap} {op : ExtentOp} (hc : Mapped c m)
      (ha : op.Allowed c) (hk : op.Knows c m) (h : extentStep rb c op = some c') :
      Mapped c' (op.moves m)
  /-- a file that is not known here is made, removed or written -/
  | elsewhere {c : ExtentCache} {m : BlockMap} {ino : Nat} (hc : Mapped c m)
      (hno : c.inodes ino = none) (hnot : ∀ t ∈ c.trees, t.ino ≠ ino) (f : PageMap) :
      Mapped c (Function.update m ino f)

theorem extentStep_coherent (h : Coherent c m) {op : ExtentOp} (ha : op.Allowed c)
    (hk : op.Knows c m) (hstep : extentStep rb c op = some c') : Coherent c' (op.moves m) := by
  have hinv := extentStep_inv h.inv ha hstep
  cases op with
  | init ino may iExt alloc => exact f2fsInitExtentTree_coherent h ha.1 ha.2 hk.1 hk.2 hstep
  | update ino fofs blkaddr len alloc => exact f2fsUpdateExtentTreeRange_coherent h ha.1 ha.2 hstep
  | lookup ino pgofs =>
    obtain ⟨r, hr, rfl⟩ := Option.map_eq_some_iff.mp hstep
    obtain ⟨hfewer, hinodes⟩ := f2fsLookupExtentTree_fewer h.inv hr
    exact h.fewer hinv hfewer (.of_eq hinodes)
  | shrink extentCache nrShrink locks =>
    obtain ⟨hfewer, hinodes⟩ := f2fsShrinkExtentTree_fewer h.inv hstep
    exact h.fewer hinv hfewer (.of_eq hinodes)
  | destroyNode ino =>
    obtain ⟨hfewer, hinodes⟩ := f2fsDestroyExtentNode_fewer h.inv hstep
    exact h.fewer hinv hfewer (.of_eq hinodes)
  | drop ino => exact f2fsDropExtentTree_coherent h hstep
  | destroyTree ino keep => exact f2fsDestroyExtentTree_coherent h hstep
  | clear ino => exact clearInode_coherent h hstep

theorem Mapped.coherent (h : Mapped rb c m) : Coherent c m := by
  induction h with
  | mount m =>
    refine ⟨initExtentCacheInfo_inv, fun _ ht => absurd ht List.not_mem_nil, fun ino n hn => ?_,
      fun ino n hn => ?_⟩
    · cases hn
    · cases hn
  | call _ ha hk hstep ih => exact extentStep_coherent ih ha hk hstep
  | elsewhere _ hno hnot f ih =>
    refine ⟨ih.inv, fun t ht => ?_, ih.gaveUp, ih.noTree⟩
    rw [Function.update_of_ne (hnot t ht)]
    exact ih.tells t ht

/-- What `f2fs_update_inode` stores as `i_ext`. -/
def storedExtent (c : ExtentCache) (ino : Nat) : Option ExtentInfo :=
  (c.inodes ino).bind fun n =>
    if n.hasTree then (c.find ino).map ExtentTree.largest else some ⟨0, 0, 0⟩

/-- So an `i_ext` that is read back tells the map of a file that nobody wrote to since. -/
theorem stored_tells (h : Mapped rb c m) {ei : ExtentInfo} (hei : storedExtent c ino = some ei) :
    ei.Tells (m ino) := by
  obtain ⟨n, -, hei⟩ := Option.bind_eq_some_iff.mp hei
  split at hei
  · obtain ⟨t, hfind, rfl⟩ := Option.map_eq_some_iff.mp hei
    obtain ⟨L, R, ht, rfl⟩ := find_eq hfind
    exact (h.coherent.tells t (by simp [ht])).largest
  · cases hei
    exact .empty rfl

theorem lookupExtentTree_some {ei : ExtentInfo} {pgofs : Nat}
    (hl : (lookupExtentTree w pgofs).2 = some ei) :
    (ei = w.et.largest ∨ ∃ n ∈ w.nodes, n.ei = ei) ∧ ei.fofs ≤ pgofs ∧ pgofs < ei.stop := by
  unfold lookupExtentTree at hl
  dsimp only at hl
  split at hl
  · rename_i hin
    cases hl
    exact ⟨.inl rfl, hin⟩
  · split at hl
    · cases hl
    · rename_i n hn
      cases hl
      obtain ⟨hmem, hin⟩ := lookupEntry_some (cached_mem w) hn
      exact ⟨.inr ⟨n, hmem, rfl⟩, hin⟩

/-- An extent that a search returns has the page that was asked for, and tells of each of its
    pages the block where the file has it. -/
theorem lookup_tells (h : Mapped rb c m) {pgofs : Nat} {ei : ExtentInfo}
    (hl : f2fsLookupExtentTree c ino pgofs = some (c', some ei)) :
    ei.fofs ≤ pgofs ∧ pgofs < ei.stop ∧ ei.Tells (m ino) := by
  obtain ⟨n, hn, hrest⟩ := Option.bind_eq_some_iff.mp hl
  split at hrest
  · cases hrest
  · obtain ⟨t, hfind, hset⟩ := Option.bind_eq_some_iff.mp hrest
    obtain ⟨L, R, ht, rfl⟩ := find_eq hfind
    have hsome : (lookupExtentTree (c.lock t) pgofs).2 = some ei :=
      (Prod.mk.inj (Option.some.inj hset)).2
    obtain ⟨hei, hle, hlt⟩ := lookupExtentTree_some hsome
    have htells := h.coherent.tells t (by simp [ht])
    refine ⟨hle, hlt, ?_⟩
    rcases hei with rfl | ⟨n, hmem, rfl⟩
    · exact htells.largest
    · exact htells.nodes n hmem

/-- The map of a file of one extent of 1000 blocks. -/
def wholeFile : PageMap := movePages (fun _ => none) 0 5000 1000

theorem lookup_tells_split : ∃ c r ei, splitFile = some c ∧
    f2fsLookupExtentTree c 5 405 = some (r, some ei) ∧ ei = ⟨400, 10, 9000⟩ ∧ ei.fofs ≤ 405 ∧
      405 < ei.stop ∧ ei.Tells (movePages wholeFile 400 9000 10) := by
  have hrun : splitFile.any (fun c => (f2fsLookupExtentTree c 5 405).any fun r =>
      decide (r.2 = some ⟨400, 10, 9000⟩)) = true := by decide +kernel
  obtain ⟨c, hc, hlookup⟩ := (Option.any_eq_true _ _).mp hrun
  obtain ⟨⟨r, ei⟩, hr, hei⟩ := (Option.any_eq_true _ _).mp hlookup
  obtain rfl : ei = some ⟨400, 10, 9000⟩ := of_decide_eq_true hei
  obtain ⟨c₁, hinit, hupdate⟩ := Option.bind_eq_some_iff.mp hc
  have hfirst : (ExtentOp.init 5 true (some ⟨0, 1000, 5000⟩) true).Allowed initExtentCacheInfo :=
    ⟨rfl, fun ei hei => Option.some.inj hei ▸ by decide⟩
  have hknows : (ExtentOp.init 5 true (some ⟨0, 1000, 5000⟩) true).Knows initExtentCacheInfo
      fun _ => wholeFile :=
    ⟨fun ei hei => Option.some.inj hei ▸ ExtentInfo.Tells.new _ (by decide),
      fun hmay => by cases hmay⟩
  have hsecond : (ExtentOp.update 5 400 9000 10 fun _ => true).Allowed c₁ :=
    ⟨by decide, by decide⟩
  have hmapped :=
    ((Mapped.mount fun _ => wholeFile).call hfirst hknows hinit).call hsecond trivial hupdate
  obtain ⟨hle, hlt, htells⟩ := lookup_tells hmapped hr
  refine ⟨c, r, _, hc, hr, rfl, hle, hlt, ?_⟩
  simpa [ExtentOp.moves] using htells

end

end F2fs.Extent

/-
  The extent cache of a file system: the trees of all inodes, the list of their nodes, the
  list of trees without an inode, and the counters.

  A tree belongs to a live inode or is on `zombie_list`, never both (`OwnerInv`); that is what
  `__grab_extent_tree` relies on when it takes a tree off the list without a look.  The rest is
  about one tree at a time (`TreesInv.locked`, `TreesInv.unlock`).  `extents_represented` is
  about every state that the functions of `extent_cache.c` reach, in any order.

  There is one live inode for an ino.  `i_ext` is read back as `update_inode` stored it, that is
  the largest extent of some tree, or one without blocks.
-/
import F2fs.Extent.ExtentUpdate

namespace F2fs.Extent

open IntervalTree

/-- Flags and pointer of a live inode: `FI_NO_EXTENT`, and whether `extent_tree` is set. -/
structure ExtentInode where
  noExtent : Bool
  hasTree : Bool
  deriving DecidableEq, Repr

/-- What of `struct f2fs_sb_info` belongs to the extent cache, and the live inodes.  A tree is
    known by its ino. -/
structure ExtentCache where
  trees : List ExtentTree
  zombieList : List Nat
  extentList : List (Nat × Nat)
  totalExtTree : Int
  totalZombieTree : Int
  totalExtNode : Int
  nextId : Nat
  inodes : Nat → Option ExtentInode

/-- `init_extent_cache_info`. -/
def initExtentCacheInfo : ExtentCache where
  trees := []
  zombieList := []
  extentList := []
  totalExtTree := 0
  totalZombieTree := 0
  totalExtNode := 0
  nextId := 0
  inodes _ := none

/-- A tree as `__grab_extent_tree` makes it. -/
def newExtentTree (ino : Nat) : ExtentTree := ⟨ino, .leaf, none, ⟨0, 0, 0⟩, 0⟩

namespace ExtentCache

/-- `radix_tree_lookup` in `extent_tree_root`. -/
def find (c : ExtentCache) (ino : Nat) : Option ExtentTree :=
  c.trees.find? fun t => decide (t.ino = ino)

/-- `radix_tree_delete` and `kmem_cache_free`. -/
def delete (c : ExtentCache) (ino : Nat) : ExtentCache :=
  { c with
    trees := c.trees.filter fun t => t.ino ≠ ino
    totalExtTree := c.totalExtTree - 1 }

/-- `write_lock` on a tree. -/
def lock (c : ExtentCache) (t : ExtentTree) : LockedTree :=
  ⟨t, c.totalExtNode, c.extentList, c.nextId⟩

/-- `write_unlock`. -/
def unlock (c : ExtentCache) (w : LockedTree) : ExtentCache :=
  { c with
    trees := c.trees.map fun t => if t.ino = w.et.ino then w.et else t
    totalExtNode := w.totalExtNode
    extentList := w.extentList
    nextId := w.nextId }

def setInode (c : ExtentCache) (ino : Nat) (n : Option ExtentInode) : ExtentCache :=
  { c with inodes := Function.update c.inodes ino n }

/-- `list_del_init` on `et->list`. -/
def zombieDel (c : ExtentCache) (ino : Nat) : ExtentCache :=
  { c with
    zombieList := c.zombieList.filter fun i => i ≠ ino
    totalZombieTree := c.totalZombieTree - 1 }

/-- `list_add_tail` to `zombie_list`. -/
def zombieAdd (c : ExtentCache) (ino : Nat) : ExtentCache :=
  { c with
    zombieList := c.zombieList ++ [ino]
    totalZombieTree := c.totalZombieTree + 1 }

end ExtentCache

section Ops

variable (rb : Rebalance ExtentNode)

/-- `__grab_extent_tree`. -/
def grabExtentTree (c : ExtentCache) (ino : Nat) : ExtentCache :=
  let c := match c.find ino with
    | none => { c with trees := newExtentTree ino :: c.trees, totalExtTree := c.totalExtTree + 1 }
    | some _ => c.zombieDel ino
  c.setInode ino (some ⟨false, true⟩)

/-- `f2fs_init_extent_tree` for an inode that is being set up; `may` is
    `f2fs_may_extent_tree`. -/
def f2fsInitExtentTree (c : ExtentCache) (ino : Nat) (may : Bool) (iExt : Option ExtentInfo)
    (alloc : Bool) : Option ExtentCache :=
  if may then
    let c := grabExtentTree c ino
    match iExt.filter fun ei => ei.len ≠ 0 with
    | none => some c
    | some ei => (c.find ino).map fun t =>
      if t.nodeCnt ≠ 0 then c else c.unlock (initExtentTree rb (c.lock t) ei alloc)
  else some (c.setInode ino (some ⟨true, false⟩))

/-- `f2fs_update_extent_tree_range`. -/
def f2fsUpdateExtentTreeRange (c : ExtentCache) (ino fofs blkaddr len : Nat)
    (alloc : ExtentInfo → Bool) : Option ExtentCache := do
  let n ← c.inodes ino
  if n.hasTree = false ∨ n.noExtent = true then some c
  else
    let t ← c.find ino
    let (w, noExtent) ← updateExtentTreeRange rb (c.lock t) fofs blkaddr len alloc
    some ((c.unlock w).setInode ino (some { n with noExtent := noExtent }))

/-- `f2fs_lookup_extent_tree`, of an inode that has a tree. -/
def f2fsLookupExtentTree (c : ExtentCache) (ino pgofs : Nat) :
    Option (ExtentCache × Option ExtentInfo) := do
  let n ← c.inodes ino
  if n.hasTree = false then none
  else
    let t ← c.find ino
    let (w, ei) := lookupExtentTree (c.lock t) pgofs
    some (c.unlock w, ei)

/-- `f2fs_destroy_extent_node`. -/
def f2fsDestroyExtentNode (c : ExtentCache) (ino : Nat) : Option ExtentCache := do
  let n ← c.inodes ino
  if n.hasTree = false then some c
  else
    let t ← c.find ino
    if t.nodeCnt = 0 then some c else some (c.unlock (freeExtentTree rb (c.lock t)))

/-- `f2fs_drop_extent_tree`, of an inode that has a tree. -/
def f2fsDropExtentTree (c : ExtentCache) (ino : Nat) : Option ExtentCache := do
  let n ← c.inodes ino
  if n.hasTree = false then none
  else
    let t ← c.find ino
    let w := dropLargestExtent (freeExtentTree rb (c.lock t)) 0 uintMax
    some ((c.unlock w).setInode ino (some { n with noExtent := true }))

/-- `f2fs_destroy_extent_tree` in `f2fs_evict_inode`, which is over for the cache where the tree
    becomes a zombie; `keep` is `i_nlink && !is_bad_inode`. -/
def f2fsDestroyExtentTree (c : ExtentCache) (ino : Nat) (keep : Bool) : Option ExtentCache := do
  let n ← c.inodes ino
  if n.hasTree = false then some c
  else
    let t ← c.find ino
    if keep = true ∧ t.nodeCnt ≠ 0 then some ((c.zombieAdd ino).setInode ino none)
    else
      let c ← f2fsDestroyExtentNode rb c ino
      some ((c.delete ino).setInode ino (some { n with hasTree := false }))

/-- `clear_inode`. -/
def clearInode (c : ExtentCache) (ino : Nat) : Option ExtentCache := do
  let n ← c.inodes ino
  if n.hasTree then none else some (c.setInode ino none)

/-! ## The shrinker -/

/-- One tree of `zombie_list` goes; the count is that of its nodes. -/
def freeZombie (c : ExtentCache) (ino : Nat) : Option (ExtentCache × UInt32) :=
  (c.find ino).map fun t =>
    let w := if t.nodeCnt ≠ 0 then freeExtentTree rb (c.lock t) else c.lock t
    (((c.unlock w).zombieDel ino).delete ino, UInt32.ofNat (t.nodeCnt - w.et.nodeCnt).toNat)

/-- The loop over `zombie_list`; the flag says that enough was freed. -/
def freeZombies (nrShrink : UInt32) :
    List Nat → ExtentCache → UInt32 → Option (ExtentCache × UInt32 × Bool)
  | [], c, cnt => some (c, cnt, false)
  | ino :: l, c, cnt => do
    let (c, nodeCnt) ← freeZombie rb c ino
    let cnt := cnt + nodeCnt + 1
    if nrShrink ≤ cnt then some (c, cnt, true) else freeZombies nrShrink l c cnt

/-- The first node of the list goes, unless its tree is locked. -/
def shrinkNode (c : ExtentCache) (r : Nat × Nat) (trylock : Bool) : Option ExtentCache :=
  (c.find r.1).map fun t =>
    let w := c.lock t
    c.unlock (if trylock then detachExtentNode rb (w.listDel r.2) r.2
      else (w.listDel r.2).listAddTail r.2)

/-- The loop over `extent_list`; `trylock` says what `write_trylock` returns. -/
def shrinkNodes (trylock : Nat → Bool) : Nat → ExtentCache → Option ExtentCache
  | 0, c => some c
  | remained + 1, c =>
    match c.extentList with
    | [] => some c
    | r :: _ => (shrinkNode rb c r (trylock remained)).bind (shrinkNodes trylock remained)

/-- What the locks return while `f2fs_shrink_extent_tree` runs: the two `mutex_trylock`s and
    the `write_trylock`s. -/
structure ShrinkLocks where
  zombies : Bool
  nodes : Bool
  tree : Nat → Bool

/-- `f2fs_shrink_extent_tree`; `extentCache` is the mount option. -/
def f2fsShrinkExtentTree (c : ExtentCache) (extentCache : Bool) (nrShrink : UInt32)
    (locks : ShrinkLocks) : Option ExtentCache :=
  if extentCache then do
    let lru (c : ExtentCache) (cnt : UInt32) : Option ExtentCache :=
      if locks.nodes then shrinkNodes rb locks.tree (nrShrink - cnt).toInt32.toInt.toNat c
      else some c
    if c.totalZombieTree = 0 then lru c 0
    else if locks.zombies then
      let (c, cnt, enough) ← freeZombies rb nrShrink c.zombieList c 0
      if enough then some c else lru c cnt
    else some c
  else some c

/-! ## Runs -/

/-- The calls. -/
inductive ExtentOp where
  | init (ino : Nat) (may : Bool) (iExt : Option ExtentInfo) (alloc : Bool)
  | update (ino fofs blkaddr len : Nat) (alloc : ExtentInfo → Bool)
  | lookup (ino pgofs : Nat)
  | shrink (extentCache : Bool) (nrShrink : UInt32) (locks : ShrinkLocks)
  | destroyNode (ino : Nat)
  | drop (ino : Nat)
  | destroyTree (ino : Nat) (keep : Bool)
  | clear (ino : Nat)

/-- What the callers promise. -/
def ExtentOp.Allowed (c : ExtentCache) : ExtentOp → Prop
  | .init ino _ iExt _ => c.inodes ino = none ∧ ∀ ei, iExt = some ei → ei.stop < 2 ^ 32
  | .update _ fofs _ len _ => 1 ≤ len ∧ fofs + len < 2 ^ 32
  | _ => True

/-- `none`: the inode is not live, or the kernel has crashed. -/
def extentStep (c : ExtentCache) : ExtentOp → Option ExtentCache
  | .init ino may iExt alloc => f2fsInitExtentTree rb c ino may iExt alloc
  | .update ino fofs blkaddr len alloc => f2fsUpdateExtentTreeRange rb c ino fofs blkaddr len alloc
  | .lookup ino pgofs => (f2fsLookupExtentTree c ino pgofs).map Prod.fst
  | .shrink extentCache nrShrink locks => f2fsShrinkExtentTree rb c extentCache nrShrink locks
  | .destroyNode ino => f2fsDestroyExtentNode rb c ino
  | .drop ino => f2fsDropExtentTree rb c ino
  | .destroyTree ino keep => f2fsDestroyExtentTree rb c ino keep
  | .clear ino => clearInode c ino

/-- The states of a mounted file system. -/
inductive ExtentReach : ExtentCache → Prop
  | mount : ExtentReach initExtentCacheInfo
  | step {c c' : ExtentCache} {op : ExtentOp} (hc : ExtentReach c) (ha : op.Allowed c)
      (h : extentStep rb c op = some c') : ExtentReach c'

end Ops

end F2fs.Extent

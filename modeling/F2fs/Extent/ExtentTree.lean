/-
  The extent cache (`extent_cache.c`): extent trees and the functions on one of them.

  A node is referred to by its tree's ino and its `id`, which stands for the pointer;
  `kmem_cache_alloc` returns one that no node has (`nextId`), or `NULL` as `alloc` says.
  The tree's rebalancing is a parameter (`Rebalance`).

  `fofs` and `len` do not wrap: a range handed to the tree ends below `2^32`.  `blk` is
  written with its wrap.  Without `CONFIG_F2FS_CHECK_FS` a search for a place to insert that
  meets an extent over the same block does not advance any more; that is `none`.
-/
import F2fs.Basic
import F2fs.Lib.TreePointers

namespace F2fs.Extent

open IntervalTree

/-! ## Extents -/

/-- `struct extent_info`. -/
structure ExtentInfo where
  fofs : Nat
  len : Nat
  blk : Nat
  deriving DecidableEq, Repr

/-- `struct extent_node`. -/
structure ExtentNode where
  id : Nat
  ei : ExtentInfo
  deriving DecidableEq, Repr

abbrev ExtentNode.fofs (en : ExtentNode) : Nat := en.ei.fofs
abbrev ExtentNode.len (en : ExtentNode) : Nat := en.ei.len

/-- `struct extent_tree`. -/
structure ExtentTree where
  ino : Nat
  root : SearchTree ExtentNode
  cachedEn : Option Nat
  largest : ExtentInfo
  nodeCnt : Int

/-- `F2FS_MIN_EXTENT_LEN`. -/
def minExtentLen : Nat := 64

/-- `UINT_MAX`. -/
def uintMax : Nat := 2 ^ 32 - 1

/-- `__is_extent_mergeable`. -/
def isExtentMergeable (back front : ExtentInfo) : Bool :=
  decide (back.fofs + back.len = front.fofs) && decide (u32 (back.blk + back.len) = front.blk)

/-- `__is_back_mergeable`. -/
def isBackMergeable (cur back : ExtentInfo) : Bool := isExtentMergeable back cur

/-- `__is_front_mergeable`. -/
def isFrontMergeable (cur front : ExtentInfo) : Bool := isExtentMergeable cur front

/-! ## One tree under its lock -/

/-- A tree, and what of `f2fs_sb_info` the functions on it use. -/
structure LockedTree where
  et : ExtentTree
  totalExtNode : Int
  extentList : List (Nat × Nat)
  nextId : Nat

namespace LockedTree

/-- The nodes in the order of the tree. -/
def nodes (w : LockedTree) : List ExtentNode := w.et.root.toList

/-- The node behind a pointer. -/
def get (w : LockedTree) (en : Nat) : Option ExtentNode := w.et.root.get ExtentNode.id en

/-- The extent of a node written through the pointer. -/
def setInfo (w : LockedTree) (en : Nat) (f : ExtentInfo → ExtentInfo) : LockedTree :=
  { w with et := { w.et with
      root := w.et.root.modify ExtentNode.id en fun n => { n with ei := f n.ei } } }

/-- `rb_next`. -/
def rbNext (w : LockedTree) (en : Nat) : Option ExtentNode := w.et.root.rbNext ExtentNode.id en

def setCached (w : LockedTree) (en : Nat) : LockedTree :=
  { w with et := { w.et with cachedEn := some en } }

def setLargest (w : LockedTree) (ei : ExtentInfo) : LockedTree :=
  { w with et := { w.et with largest := ei } }

/-- `list_del_init` on `en->list`. -/
def listDel (w : LockedTree) (en : Nat) : LockedTree :=
  { w with extentList := w.extentList.filter fun r => r ≠ (w.et.ino, en) }

/-- `list_add_tail` to `sbi->extent_list`. -/
def listAddTail (w : LockedTree) (en : Nat) : LockedTree :=
  { w with extentList := w.extentList ++ [(w.et.ino, en)] }

/-- `list_move_tail` and the new `cached_en`, unless the node is on no list. -/
def touch (w : LockedTree) (en : Nat) : LockedTree :=
  if (w.et.ino, en) ∈ w.extentList then ((w.listDel en).listAddTail en).setCached en else w

end LockedTree

section Ops

variable (rb : Rebalance ExtentNode)

/-- `__attach_extent_node`. -/
def attachExtentNode (w : LockedTree) (ei : ExtentInfo) (s : Slot) (alloc : Bool) :
    LockedTree × Option Nat :=
  if alloc then
    ({ w with
        et := { w.et with
          root := rb.insertColor (w.et.root.linkAt ExtentNode.id s ⟨w.nextId, ei⟩)
          nodeCnt := w.et.nodeCnt + 1 }
        totalExtNode := w.totalExtNode + 1
        nextId := w.nextId + 1 }, some w.nextId)
  else (w, none)

/-- `__detach_extent_node`. -/
def detachExtentNode (w : LockedTree) (en : Nat) : LockedTree :=
  { w with
    et := { w.et with
      root := rb.erase w.et.root (w.et.root.indexOf ExtentNode.id en)
      nodeCnt := w.et.nodeCnt - 1
      cachedEn := if w.et.cachedEn = some en then none else w.et.cachedEn }
    totalExtNode := w.totalExtNode - 1 }

/-- `__release_extent_node`. -/
def releaseExtentNode (w : LockedTree) (en : Nat) : LockedTree :=
  detachExtentNode rb (w.listDel en) en

/-- `__init_extent_tree` and the `list_add_tail` behind it. -/
def initExtentTree (w : LockedTree) (ei : ExtentInfo) (alloc : Bool) : LockedTree :=
  match attachExtentNode rb w ei .root alloc with
  | (w, none) => w
  | (w, some en) => ((w.setLargest ei).setCached en).listAddTail en

/-- `__free_extent_tree`: the nodes from the first on. -/
def freeExtentTree (w : LockedTree) : LockedTree :=
  (w.nodes.map ExtentNode.id).foldl (releaseExtentNode rb) w

/-- `__drop_largest_extent`, besides marking the inode dirty. -/
def dropLargestExtent (w : LockedTree) (fofs len : Nat) : LockedTree :=
  let largest := w.et.largest
  if fofs < largest.fofs + largest.len ∧ largest.fofs < fofs + len then
    w.setLargest { largest with len := 0 }
  else w

/-- `__try_update_largest_extent`, besides marking the inode dirty. -/
def tryUpdateLargestExtent (w : LockedTree) (en : Nat) : LockedTree :=
  match w.get en with
  | none => w
  | some n => if w.et.largest.len < n.len then w.setLargest n.ei else w

/-- The neighbour that can take `ei` in. -/
def mergeTarget (mergeable : ExtentInfo → Bool) (en : Option ExtentNode) : Option ExtentNode :=
  en.filter fun n => mergeable n.ei

/-- `__try_merge_extent_node`; `none` is `NULL`. -/
def tryMergeExtentNode (w : LockedTree) (ei : ExtentInfo) (prevEx nextEx : Option ExtentNode) :
    Option LockedTree :=
  let back := mergeTarget (isBackMergeable ei) prevEx
  let (w, ei) := match back with
    | some prev => (w.setInfo prev.id fun i => { i with len := i.len + ei.len },
        { prev.ei with len := prev.len + ei.len })
    | none => (w, ei)
  match back, mergeTarget (isFrontMergeable ei) nextEx with
  | none, none => none
  | some prev, none => some ((tryUpdateLargestExtent w prev.id).touch prev.id)
  | none, some next =>
    let w := w.setInfo next.id fun i => ⟨ei.fofs, i.len + ei.len, ei.blk⟩
    some ((tryUpdateLargestExtent w next.id).touch next.id)
  | some prev, some next =>
    let w := w.setInfo next.id fun i => ⟨ei.fofs, i.len + ei.len, ei.blk⟩
    let w := releaseExtentNode rb w prev.id
    some ((tryUpdateLargestExtent w next.id).touch next.id)

/-- `__insert_extent_tree`; the search for a place may not come back. -/
def insertExtentTree (w : LockedTree) (ei : ExtentInfo) (s : Option Slot) (alloc : Bool) :
    Option (LockedTree × Option Nat) :=
  (s.or (w.et.root.slotFor ExtentNode.fofs ExtentNode.len ExtentNode.id ei.fofs)).map fun s =>
    match attachExtentNode rb w ei s alloc with
    | (w, none) => (w, none)
    | (w, some en) =>
      (((tryUpdateLargestExtent w en).listAddTail en).setCached en, some en)

/-! ## `f2fs_update_extent_tree_range` -/

/-- The local variables of the loop that invalidates a range. -/
structure RangeScan where
  w : LockedTree
  en : Option Nat
  prevEn : Option Nat
  nextEn : Option Nat
  slot : Option Slot
  dei : ExtentInfo

/-- The part of `dei` in front of the range is long enough to be kept. -/
def keepsFront (dei : ExtentInfo) (pos : Nat) : Bool :=
  decide (dei.fofs < pos) && decide (minExtentLen ≤ pos - dei.fofs)

/-- The part behind the range is. -/
def keepsBack (dei : ExtentInfo) (stop : Nat) : Bool :=
  decide (stop < dei.fofs + dei.len) && decide (minExtentLen ≤ dei.fofs + dei.len - stop)

/-- The front part stays in the node. -/
def cutFront (w : LockedTree) (en pos : Nat) : LockedTree :=
  w.setInfo en fun i => { i with len := pos - i.fofs }

/-- The back part becomes a node of its own next to the front part, or stays in the node. -/
def cutBack (w : LockedTree) (en : Nat) (dei : ExtentInfo) (stop : Nat) (front : Bool)
    (alloc : ExtentInfo → Bool) : Option (LockedTree × Option Nat) :=
  if front then
    let ei : ExtentInfo := ⟨stop, dei.fofs + dei.len - stop, u32 (stop - dei.fofs + dei.blk)⟩
    insertExtentTree rb w ei none (alloc ei)
  else
    some (w.setInfo en fun i =>
      ⟨stop, i.len - (stop - dei.fofs), u32 (i.blk + (stop - dei.fofs))⟩, some en)

/-- One iteration for the node `n`, which begins in front of `stop`. -/
def invalidateNode (s : RangeScan) (n : ExtentNode) (pos stop : Nat)
    (alloc : ExtentInfo → Bool) : Option RangeScan :=
  let dei := n.ei
  let front := keepsFront dei pos
  let back := keepsBack dei stop
  let w := if front then cutFront s.w n.id pos else s.w
  let prevEn := if front then some n.id else s.prevEn
  (if back then cutBack rb w n.id dei stop front alloc else some (w, none)).map fun (w, next) =>
    let next := next.or ((w.rbNext n.id).map ExtentNode.id)
    { w := if front || back then tryUpdateLargestExtent w n.id else releaseExtentNode rb w n.id
      en := next
      prevEn := prevEn
      nextEn := next
      slot := if front != back then s.slot else none
      dei := dei }

/-- The loop over the extents of the range. -/
def invalidateRange (pos stop : Nat) (alloc : ExtentInfo → Bool) :
    Nat → RangeScan → Option RangeScan
  | 0, _ => none
  | fuel + 1, s =>
    match s.en with
    | none => some s
    | some en => do
      let n ← s.w.get en
      if n.fofs < stop then
        let s ← invalidateNode rb s n pos stop alloc
        invalidateRange pos stop alloc fuel s
      else some s

/-- The search for the first extent of the range; `next_en` stands in for an extent that was
    not found. -/
def startScan (w : LockedTree) (fofs : Nat) : RangeScan :=
  let cached := w.et.cachedEn.bind w.get
  let r := w.et.root.lookupRet ExtentNode.fofs ExtentNode.len ExtentNode.id cached fofs false
  { w := w
    en := (r.entry.or r.next).map ExtentNode.id
    prevEn := r.prev.map ExtentNode.id
    nextEn := r.next.map ExtentNode.id
    slot := r.slot
    dei := ⟨0, 0, 0⟩ }

/-- The new extent is merged into a neighbour or inserted. -/
def placeExtent (s : RangeScan) (ei : ExtentInfo) (alloc : ExtentInfo → Bool) :
    Option LockedTree :=
  match tryMergeExtentNode rb s.w ei (s.prevEn.bind s.w.get) (s.nextEn.bind s.w.get) with
  | some w => some w
  | none => (insertExtentTree rb s.w ei s.slot (alloc ei)).map Prod.fst

/-- The cache is not worth it: small updates split extents and no large one is left. -/
def givesUp (dei prev largest : ExtentInfo) : Bool :=
  decide (1 ≤ dei.len) && decide (prev.len < minExtentLen) && decide (largest.len < minExtentLen)

/-- `f2fs_update_extent_tree_range` of a tree, for an inode without `FI_NO_EXTENT`; the flag is
    returned. -/
def updateExtentTreeRange (w : LockedTree) (fofs blkaddr len : Nat) (alloc : ExtentInfo → Bool) :
    Option (LockedTree × Bool) := do
  let prev := w.et.largest
  let w := dropLargestExtent w fofs len
  let s ← invalidateRange rb fofs (fofs + len) alloc (w.nodes.length + 2) (startScan w fofs)
  if blkaddr = 0 then some (s.w, false)
  else
    let w ← placeExtent rb s ⟨fofs, len, blkaddr⟩ alloc
    if givesUp s.dei prev w.et.largest then
      some (freeExtentTree rb (dropLargestExtent w 0 uintMax), true)
    else some (w, false)

/-! ## `f2fs_lookup_extent_tree` -/

/-- The extent that contains `pgofs`, if the cache has one. -/
def lookupExtentTree (w : LockedTree) (pgofs : Nat) : LockedTree × Option ExtentInfo :=
  let largest := w.et.largest
  if largest.fofs ≤ pgofs ∧ pgofs < largest.fofs + largest.len then (w, some largest)
  else
    let cached := w.et.cachedEn.bind w.get
    match w.et.root.lookupEntry ExtentNode.fofs ExtentNode.len cached pgofs with
    | none => (w, none)
    | some n => (w.touch n.id, some n.ei)

end Ops

end F2fs.Extent

/-
  The discard command tree (`segment.c`): `struct discard_cmd_control` and the functions
  that keep its commands.

  Commands live in a search tree by their logical start, and each is on one list.  They
  are referred to by `id`, which stands for the pointer; `kmem_cache_alloc` returns one
  that no command has (`nextId`).  The tree's rebalancing is a parameter (`Rebalance`).

  `lstart`, `start` and `len` do not wrap: a range handed to the tree ends below `2^32`.
  `undiscard_blks` is written with its wrap, because it overshoots while two commands
  are merged.  Without `CONFIG_F2FS_CHECK_FS` a search for a place to insert that meets a
  command over the same block does not advance any more; that is `none`.
-/
import F2fs.Basic
import F2fs.Lib.IntervalTree

namespace F2fs.Segment.Discard

open IntervalTree

/-! ## Commands -/

inductive DiscardState where
  | prep | submit | done
  deriving DecidableEq, Repr

/-- `struct discard_info`. -/
structure DiscardInfo where
  lstart : Nat
  len : Nat
  start : Nat
  deriving DecidableEq, Repr

/-- `struct discard_cmd`; `bdev` is the device's number. -/
structure DiscardCmd where
  id : Nat
  bdev : Nat
  di : DiscardInfo
  state : DiscardState
  error : Int
  deriving DecidableEq, Repr

abbrev DiscardCmd.lstart (dc : DiscardCmd) : Nat := dc.di.lstart
abbrev DiscardCmd.len (dc : DiscardCmd) : Nat := dc.di.len
abbrev DiscardCmd.start (dc : DiscardCmd) : Nat := dc.di.start

/-- The lists a command can be on. -/
inductive DiscardList where
  | pend (i : Nat)
  | wait
  | fstrim
  deriving DecidableEq, Repr

def maxPlistNum : Nat := 512

/-- `plist_idx`. -/
def plistIdx (blkNum : Nat) : Nat := if maxPlistNum ≤ blkNum then maxPlistNum - 1 else blkNum - 1

/-- `struct discard_cmd_control`. -/
structure DiscardCmdControl where
  root : SearchTree DiscardCmd
  lists : DiscardList → List Nat
  issuedDiscard : Int
  issingDiscard : Int
  discardCmdCnt : Int
  undiscardBlks : Nat
  nextId : Nat

/-- `create_discard_cmd_control`. -/
def DiscardCmdControl.init : DiscardCmdControl where
  root := .leaf
  lists _ := []
  issuedDiscard := 0
  issingDiscard := 0
  discardCmdCnt := 0
  undiscardBlks := 0
  nextId := 0

namespace DiscardCmdControl

/-- The commands in the order of the tree. -/
def cmds (dcc : DiscardCmdControl) : List DiscardCmd := dcc.root.toList

/-- The command behind a pointer. -/
def get (dcc : DiscardCmdControl) (id : Nat) : Option DiscardCmd :=
  dcc.cmds.find? fun dc => dc.id = id

/-- A command's fields written through the pointer. -/
def modify (dcc : DiscardCmdControl) (id : Nat) (f : DiscardCmd → DiscardCmd) :
    DiscardCmdControl :=
  { dcc with root := dcc.root.map fun dc => if dc.id = id then f dc else dc }

/-- The place of a command in the order of the tree. -/
def indexOf (dcc : DiscardCmdControl) (id : Nat) : Nat :=
  dcc.cmds.findIdx fun dc => dc.id = id

/-- `rb_next`. -/
def rbNext (dcc : DiscardCmdControl) (id : Nat) : Option DiscardCmd :=
  dcc.cmds[dcc.indexOf id + 1]?

/-- `list_del`. -/
def listDel (dcc : DiscardCmdControl) (id : Nat) : DiscardCmdControl :=
  { dcc with lists := fun l => (dcc.lists l).filter fun i => i ≠ id }

/-- `list_add_tail`. -/
def listAddTail (dcc : DiscardCmdControl) (id : Nat) (l : DiscardList) : DiscardCmdControl :=
  { dcc with lists := Function.update dcc.lists l (dcc.lists l ++ [id]) }

/-- `list_move_tail`. -/
def listMoveTail (dcc : DiscardCmdControl) (id : Nat) (l : DiscardList) : DiscardCmdControl :=
  (dcc.listDel id).listAddTail id l

end DiscardCmdControl

/-! ## Creating and removing -/

section Ops

variable (rb : Rebalance DiscardCmd)

/-- `__create_discard_cmd`. -/
def createDiscardCmd (dcc : DiscardCmdControl) (bdev : Nat) (di : DiscardInfo) :
    DiscardCmdControl × DiscardCmd :=
  let dc : DiscardCmd := { id := dcc.nextId, bdev := bdev, di := di, state := .prep, error := 0 }
  ({ dcc.listAddTail dc.id (.pend (plistIdx di.len)) with
      nextId := dcc.nextId + 1
      discardCmdCnt := dcc.discardCmdCnt + 1
      undiscardBlks := u32 (dcc.undiscardBlks + di.len) }, dc)

/-- `__insert_discard_tree` without a place found before (all its callers pass `NULL`):
    `__lookup_rb_tree_for_insert` and `__attach_discard_cmd`. -/
def insertDiscardTree (dcc : DiscardCmdControl) (bdev : Nat) (di : DiscardInfo) :
    Option DiscardCmdControl :=
  let (dcc, dc) := createDiscardCmd dcc bdev di
  (link DiscardCmd.lstart DiscardCmd.len di.lstart dc dcc.root).map fun root =>
    { dcc with root := rb.insertColor root }

/-- `__detach_discard_cmd`. -/
def detachDiscardCmd (dcc : DiscardCmdControl) (dc : DiscardCmd) : DiscardCmdControl :=
  { dcc.listDel dc.id with
    issingDiscard := if dc.state = .done then dcc.issingDiscard - 1 else dcc.issingDiscard
    root := rb.erase dcc.root (dcc.indexOf dc.id)
    undiscardBlks := u32Sub dcc.undiscardBlks dc.len
    discardCmdCnt := dcc.discardCmdCnt - 1 }

/-- `__remove_discard_cmd`: besides, it only reports `dc->error`. -/
def removeDiscardCmd (dcc : DiscardCmdControl) (dc : DiscardCmd) : DiscardCmdControl :=
  detachDiscardCmd rb dcc dc

/-- `__relocate_discard_cmd`; `len` is the command's. -/
def relocateDiscardCmd (dcc : DiscardCmdControl) (id len : Nat) : DiscardCmdControl :=
  dcc.listMoveTail id (.pend (plistIdx len))

/-! ## Submission -/

/-- What `__blkdev_issue_discard` returns: its result and whether it left a bio. -/
structure IssueResult where
  error : Int
  bio : Bool

/-- `__submit_discard_cmd`; `fstrim` is `dpolicy->type == DPOLICY_FSTRIM`. -/
def submitDiscardCmd (dcc : DiscardCmdControl) (dc : DiscardCmd) (fstrim : Bool)
    (res : IssueResult) : DiscardCmdControl :=
  if dc.state ≠ .prep then dcc
  else
    let dcc := dcc.modify dc.id fun c => { c with error := res.error }
    if res.error = 0 then
      let dcc := dcc.modify dc.id fun c => { c with state := .submit }
      let dcc := { dcc with issuedDiscard := dcc.issuedDiscard + 1
                            issingDiscard := dcc.issingDiscard + 1 }
      if res.bio then dcc.listMoveTail dc.id (if fstrim then .fstrim else .wait) else dcc
    else removeDiscardCmd rb dcc { dc with error := res.error }

/-- `f2fs_submit_discard_endio`. -/
def submitDiscardEndio (dcc : DiscardCmdControl) (dc : DiscardCmd) (error : Int) :
    DiscardCmdControl :=
  dcc.modify dc.id fun c => { c with error := error, state := .done }

/-! ## Punching -/

/-- `__punch_discard_cmd`. -/
def punchDiscardCmd (dcc : DiscardCmdControl) (dc : DiscardCmd) (blkaddr : Nat) :
    Option DiscardCmdControl :=
  let di := dc.di
  if dc.state = .done ∨ dc.len = 1 then some (removeDiscardCmd rb dcc dc)
  else
    let dcc := { dcc with undiscardBlks := u32Sub dcc.undiscardBlks di.len }
    if di.lstart < blkaddr then
      let len := blkaddr - dc.lstart
      let dcc := dcc.modify dc.id fun c => { c with di := { c.di with len := len } }
      let dcc := { dcc with undiscardBlks := u32 (dcc.undiscardBlks + len) }
      let dcc := relocateDiscardCmd dcc dc.id len
      if blkaddr < di.lstart + di.len - 1 then
        insertDiscardTree rb dcc dc.bdev
          { lstart := blkaddr + 1
            start := di.start + blkaddr + 1 - di.lstart
            len := di.lstart + di.len - 1 - blkaddr }
      else some dcc
    else if blkaddr < di.lstart + di.len - 1 then
      let dcc := dcc.modify dc.id fun c =>
        { c with di := ⟨c.di.lstart + 1, c.di.len - 1, c.di.start + 1⟩ }
      let dcc := { dcc with undiscardBlks := u32 (dcc.undiscardBlks + (di.len - 1)) }
      some (relocateDiscardCmd dcc dc.id (di.len - 1))
    else some dcc

/-! ## Adding a range -/

/-- The arguments of `__update_discard_tree_range`. -/
structure DiscardRange where
  bdev : Nat
  lstart : Nat
  start : Nat
  len : Nat

abbrev DiscardRange.«end» (r : DiscardRange) : Nat := r.lstart + r.len

/-- `di.len` before it is cut to `len`, when no command is at or before `lstart`. -/
def firstLen (r : DiscardRange) : Option DiscardCmd → Nat
  | some next => next.lstart - r.lstart
  | none => r.len

/-- The gap the first iteration fills then. -/
def firstGap (r : DiscardRange) (next : Option DiscardCmd) : DiscardInfo where
  lstart := r.lstart
  len := min (firstLen r next) r.len
  start := r.start

/-- `di.len` from the second iteration on. -/
def gapLen (r : DiscardRange) (lstart : Nat) : Option DiscardCmd → Nat
  | some next => if r.end < next.lstart then r.end - lstart else next.lstart - lstart
  | none => r.end - lstart

/-- The gap between `prev` and `next`; `none` when the range is used up. -/
def gapAfter (r : DiscardRange) (prev : DiscardCmd) (next : Option DiscardCmd) :
    Option DiscardInfo :=
  let lstart := max (prev.lstart + prev.len) r.lstart
  if r.end ≤ lstart then none
  else
    some { lstart := lstart
           len := gapLen r lstart next
           start := r.start + lstart - r.lstart }

/-- `__is_discard_mergeable`. -/
def isDiscardMergeable (back front : DiscardInfo) : Bool := back.lstart + back.len = front.lstart

/-- `__is_discard_back_mergeable`. -/
def isDiscardBackMergeable (cur back : DiscardInfo) : Bool := isDiscardMergeable back cur

/-- `__is_discard_front_mergeable`. -/
def isDiscardFrontMergeable (cur front : DiscardInfo) : Bool := isDiscardMergeable cur front

/-- A command that new blocks may be merged into. -/
def canMerge (bdev : Nat) (dc : DiscardCmd) : Bool := dc.state = .prep && dc.bdev = bdev

/-- `prev_dc` takes `di` in. -/
def mergeBack (dcc : DiscardCmdControl) (prev : DiscardCmd) (di : DiscardInfo) :
    DiscardCmdControl × DiscardInfo :=
  let di' := { prev.di with len := prev.len + di.len }
  let dcc := dcc.modify prev.id fun c => { c with di := di' }
  let dcc := { dcc with undiscardBlks := u32 (dcc.undiscardBlks + di.len) }
  (relocateDiscardCmd dcc prev.id di'.len, di')

/-- `next_dc` takes `di` in; `tdc` is the command `di` was taken from, if any. -/
def mergeFront (dcc : DiscardCmdControl) (next : DiscardCmd) (di : DiscardInfo)
    (tdc : Option DiscardCmd) : DiscardCmdControl :=
  let di' : DiscardInfo := ⟨di.lstart, next.len + di.len, di.start⟩
  let dcc := dcc.modify next.id fun c => { c with di := di' }
  let dcc := { dcc with undiscardBlks := u32 (dcc.undiscardBlks + di.len) }
  let dcc := relocateDiscardCmd dcc next.id di'.len
  match tdc with
  | some tdc => removeDiscardCmd rb dcc tdc
  | none => dcc

/-- `prev_dc` (or nothing) can take `di` in from behind. -/
def backTarget (bdev : Nat) (di : DiscardInfo) : Option DiscardCmd → Option DiscardCmd
  | some prev => if canMerge bdev prev ∧ isDiscardBackMergeable di prev.di then some prev else none
  | none => none

/-- `next_dc` (or nothing) can take `di` in from the front. -/
def frontTarget (bdev : Nat) (di : DiscardInfo) : Option DiscardCmd → Option DiscardCmd
  | some next => if canMerge bdev next ∧ isDiscardFrontMergeable di next.di then some next
                 else none
  | none => none

/-- The body of the loop, for the gap `di` between `prev_dc` and `next_dc`. -/
def fillGap (dcc : DiscardCmdControl) (bdev : Nat) (prev next : Option DiscardCmd)
    (di : DiscardInfo) : Option DiscardCmdControl :=
  if di.len = 0 then some dcc
  else
    match backTarget bdev di prev with
    | some prev =>
      let (dcc, di) := mergeBack dcc prev di
      match frontTarget bdev di next with
      | some next => some (mergeFront rb dcc next di (some { prev with di := di }))
      | none => some dcc
    | none =>
      match frontTarget bdev di next with
      | some next => some (mergeFront rb dcc next di none)
      | none => insertDiscardTree rb dcc bdev di

/-- The loop from the second iteration on, where `prev_dc` is never `NULL`; the pointers
    are followed anew each time. -/
def updateLoop (r : DiscardRange) : Nat → DiscardCmdControl → Nat → Option Nat →
    Option DiscardCmdControl
  | 0, _, _, _ => none
  | fuel + 1, dcc, prev, next => do
    let prevDc ← dcc.get prev
    let nextDc := next.bind dcc.get
    match gapAfter r prevDc nextDc with
    | none => some dcc
    | some di =>
      let dcc ← fillGap rb dcc r.bdev (some prevDc) nextDc di
      match next with
      | none => some dcc
      | some next => updateLoop r fuel dcc next ((dcc.rbNext next).map DiscardCmd.id)

/-- `__update_discard_tree_range`.  The loop takes up one command in each iteration. -/
def updateDiscardTreeRange (dcc : DiscardCmdControl) (r : DiscardRange) :
    Option DiscardCmdControl :=
  let fuel := dcc.cmds.length + 1
  let near := lookup DiscardCmd.lstart DiscardCmd.len dcc.root r.lstart true
  let next := near.next.map DiscardCmd.id
  match near.entry.or near.prev with
  | some prev => updateLoop rb r fuel dcc prev.id next
  | none => do
    let dcc ← fillGap rb dcc r.bdev none near.next (firstGap r near.next)
    match next with
    | none => some dcc
    | some next => updateLoop rb r fuel dcc next ((dcc.rbNext next).map DiscardCmd.id)

end Ops

end F2fs.Segment.Discard

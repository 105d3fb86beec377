/-
  How many block addresses an inode holds: `ADDRS_PER_INODE`, computed from
  `i_extra_isize` and `i_inline_xattr_size`, and the functions that set these two:
  `f2fs_new_inode`, `update_inode` and `do_read_inode`.

  The address area is the function `addr`; the extra attributes lie in its first slots,
  `i_extra_isize` and `i_inline_xattr_size` in the two halves of slot 0.  Inline data,
  inline dentries and inline xattrs share the area too, but never a slot that the
  functions here read, so their bytes are left out.
-/
import F2fs.Node.NodePath

namespace F2fs.Inode

open Node

/-! ## Constants and options -/

def f2fsTotalExtraAttrSize : Nat := 24
def defaultInlineXattrAddrs : Nat := 50

/-- The two feature bits of the super block. -/
structure Features where
  extraAttr : Bool
  flexibleInlineXattr : Bool
  deriving DecidableEq, Repr

/-- The mount options `f2fs_new_inode` reads; `parse_options` bounds the size. -/
structure MountOpts where
  inlineXattr : Bool
  inlineData : Bool
  inlineDentry : Bool
  inlineXattrSize : Nat
  inlineXattrSize_lt : inlineXattrSize < defAddrsPerInode

inductive FileKind where
  | regular | symlink | directory | special
  deriving DecidableEq, Repr

/-- `FI_INLINE_XATTR`, `FI_INLINE_DATA`, `FI_INLINE_DENTRY` and `FI_EXTRA_ATTR`, and the
    bits of `i_inline` they are stored in. -/
structure InlineFlags where
  inlineXattr : Bool := false
  inlineData : Bool := false
  inlineDentry : Bool := false
  extraAttr : Bool := false
  deriving DecidableEq, Repr

/-! ## The inode in memory and on disk -/

/-- `struct f2fs_inode_info`. -/
structure InodeInfo where
  mode : FileKind
  flags : InlineFlags
  extraIsize : Nat
  inlineXattrSize : Nat
  dirLevel : Nat
  deriving DecidableEq, Repr

/-- `struct f2fs_inode`. -/
structure RawInode where
  mode : FileKind
  inlineBits : InlineFlags
  dirLevel : Nat
  addr : Nat → Nat

/-- `i_extra_isize`, the lower half of the first slot. -/
def RawInode.extraIsize (ri : RawInode) : Nat := ri.addr 0 % 2 ^ 16

/-- `i_inline_xattr_size`, the upper half of the first slot. -/
def RawInode.inlineXattrSize (ri : RawInode) : Nat := ri.addr 0 / 2 ^ 16 % 2 ^ 16

namespace InodeInfo

variable (inode : InodeInfo)

/-- `get_extra_isize`. -/
def getExtraIsize : Nat := inode.extraIsize / 4

/-- `get_inline_xattr_addrs`. -/
def getInlineXattrAddrs : Nat := inode.inlineXattrSize

/-- `addrs_per_inode`. -/
def addrsPerInode : Nat :=
  uint32 ((defAddrsPerInode : Int) - inode.getExtraIsize - inode.getInlineXattrAddrs)

/-- Where the block addresses begin (`base` of `set_data_blkaddr`). -/
def base : Nat := if inode.flags.extraAttr then inode.getExtraIsize else 0

/-- `f2fs_may_inline_data` of an inode that is being created. -/
def mayInlineData (encrypted : Bool) : Bool :=
  (inode.mode = .regular || inode.mode = .symlink) && !encrypted

/-- `f2fs_may_inline_dentry`. -/
def mayInlineDentry (opts : MountOpts) : Bool := opts.inlineDentry && inode.mode = .directory

end InodeInfo

/-- `f2fs_new_inode`. -/
def f2fsNewInode (sb : Features) (opts : MountOpts) (mode : FileKind) (encrypted : Bool)
    (dirLevel : Nat) : InodeInfo :=
  let inode : InodeInfo :=
    { mode := mode
      flags := { extraAttr := sb.extraAttr, inlineXattr := opts.inlineXattr }
      extraIsize := if sb.extraAttr then f2fsTotalExtraAttrSize else 0
      inlineXattrSize := 0
      dirLevel := dirLevel }
  let flags :=
    { inode.flags with
      inlineData := opts.inlineData && inode.mayInlineData encrypted
      inlineDentry := inode.mayInlineDentry opts }
  let xattrSize :=
    if sb.flexibleInlineXattr then
      if flags.inlineXattr then opts.inlineXattrSize else 0
    else if flags.inlineXattr || flags.inlineDentry then defaultInlineXattrAddrs
    else 0
  { inode with flags := flags, inlineXattrSize := xattrSize }

/-- `do_read_inode`. -/
def doReadInode (sb : Features) (ri : RawInode) : InodeInfo where
  mode := ri.mode
  flags := ri.inlineBits
  extraIsize := if ri.inlineBits.extraAttr then ri.extraIsize else 0
  inlineXattrSize :=
    if sb.flexibleInlineXattr then ri.inlineXattrSize
    else if ri.inlineBits.inlineXattr || ri.inlineBits.inlineDentry then
      defaultInlineXattrAddrs
    -- the reserved space is given back only by inline data
    else 0
  dirLevel := ri.dirLevel

/-- `update_inode`. -/
def updateInode (sb : Features) (inode : InodeInfo) (ri : RawInode) : RawInode where
  mode := inode.mode
  inlineBits := inode.flags
  dirLevel := inode.dirLevel
  addr :=
    if inode.flags.extraAttr then
      let size :=
        if sb.flexibleInlineXattr then inode.inlineXattrSize % 2 ^ 16 else ri.inlineXattrSize
      Function.update ri.addr 0 (size * 2 ^ 16 + inode.extraIsize % 2 ^ 16)
    else ri.addr

/-- The page of a new inode, before `update_inode`. -/
def newInodePage : RawInode where
  mode := .special
  inlineBits := {}
  dirLevel := 0
  addr := fun _ => nullAddr

/-! ## Block addresses -/

/-- `datablock_addr` of a block index the inode holds. -/
def dataBlkaddr (inode : InodeInfo) (ri : RawInode) (idx : Nat) : Nat := ri.addr (inode.base + idx)

/-- `set_data_blkaddr`. -/
def setDataBlkaddr (inode : InodeInfo) (ri : RawInode) (idx blkaddr : Nat) : RawInode :=
  { ri with addr := Function.update ri.addr (inode.base + idx) blkaddr }

/-- `f2fs_reserve_block` of a block index; one that another node holds leaves the inode alone. -/
def reserveBlock (inode : InodeInfo) (ri : RawInode) (idx : Nat) : RawInode :=
  if idx < inode.addrsPerInode ∧ dataBlkaddr inode ri idx = nullAddr then
    setDataBlkaddr inode ri idx newAddr
  else ri

/-! ## Conversion of inline files -/

/-- `f2fs_convert_inline_page`; `exist` is `f2fs_exist_data`, `blkaddr` where the page is
    written. -/
def convertInlinePage (inode : InodeInfo) (ri : RawInode) (exist : Bool) (blkaddr : Nat) :
    InodeInfo × RawInode :=
  ({ inode with flags := { inode.flags with inlineData := false } },
    if exist then setDataBlkaddr inode ri 0 blkaddr else ri)

/-- `f2fs_move_inline_dirents`. -/
def moveInlineDirents (inode : InodeInfo) (ri : RawInode) : InodeInfo × RawInode :=
  ({ inode with flags := { inode.flags with inlineDentry := false } }, reserveBlock inode ri 0)

/-- `f2fs_move_rehashed_dirents`; `blocks` are the dentry blocks that the entries go to. -/
def moveRehashedDirents (inode : InodeInfo) (ri : RawInode) (blocks : List Nat) :
    InodeInfo × RawInode :=
  ({ inode with flags := { inode.flags with inlineDentry := false } },
    blocks.foldl (reserveBlock inode) ri)

/-- `f2fs_convert_inline_dir`. -/
def convertInlineDir (inode : InodeInfo) (ri : RawInode) (blocks : List Nat) :
    InodeInfo × RawInode :=
  if inode.dirLevel = 0 then moveInlineDirents inode ri
  else moveRehashedDirents inode ri blocks

/-! ## The life of one inode -/

/-- The inode in memory, unless it is evicted, and its node page, once it has one. -/
structure State where
  mem : Option InodeInfo
  raw : Option RawInode

inductive Op where
  | create (opts : MountOpts) (mode : FileKind) (encrypted : Bool) (dirLevel : Nat)
  | update
  | setBlkaddr (idx blkaddr : Nat)
  | convertData (exist : Bool) (blkaddr : Nat)
  | convertDir (blocks : List Nat)
  | evict
  | read

/-- One operation; `none` where it cannot happen. -/
def step (sb : Features) : State → Op → Option State
  | ⟨none, none⟩, .create opts mode encrypted dirLevel =>
      some ⟨some (f2fsNewInode sb opts mode encrypted dirLevel), none⟩
  | ⟨some inode, none⟩, .update => some ⟨some inode, some (updateInode sb inode newInodePage)⟩
  | ⟨some inode, some ri⟩, .update => some ⟨some inode, some (updateInode sb inode ri)⟩
  | ⟨some inode, some ri⟩, .setBlkaddr idx blkaddr =>
      if idx < inode.addrsPerInode ∧
          (blkaddr ≠ nullAddr ∨ dataBlkaddr inode ri idx ≠ nullAddr) then
        some ⟨some inode, some (setDataBlkaddr inode ri idx blkaddr)⟩
      else none
  | ⟨some inode, some ri⟩, .convertData exist blkaddr =>
      if inode.flags.inlineData then
        let (inode, ri) := convertInlinePage inode ri exist blkaddr
        some ⟨some inode, some ri⟩
      else none
  | ⟨some inode, some ri⟩, .convertDir blocks =>
      if inode.flags.inlineDentry then
        let (inode, ri) := convertInlineDir inode ri blocks
        some ⟨some inode, some ri⟩
      else none
  | ⟨some _, some ri⟩, .evict => some ⟨none, some ri⟩
  | ⟨none, some ri⟩, .read => some ⟨some (doReadInode sb ri), some ri⟩
  | _, _ => none

/-- Runs whose operations all satisfy `P` in the state they start from. -/
inductive Run (sb : Features) (P : State → Op → Prop) : State → State → Prop
  | refl (s : State) : Run sb P s s
  | step {s s' s'' : State} (op : Op) (r : Run sb P s s') (hP : P s' op)
      (h : step sb s' op = some s'') : Run sb P s s''

/-- The state before the inode is created. -/
def State.start : State := ⟨none, none⟩

/-- The inode holds a block address in its address area. -/
def RawInode.HoldsAddr (ri : RawInode) : Prop :=
  ∃ slot, (if ri.inlineBits.extraAttr then ri.extraIsize / 4 else 0) ≤ slot ∧
    ri.addr slot ≠ nullAddr

def State.HoldsAddr (s : State) : Prop := ∃ ri, s.raw = some ri ∧ ri.HoldsAddr

/-- The values of `ADDRS_PER_INODE`: that of the inode in memory, and that of the inode
    `do_read_inode` would make of the node page. -/
def State.layouts (sb : Features) (s : State) : List Nat :=
  (s.mem.toList ++ s.raw.toList.map (doReadInode sb)).map InodeInfo.addrsPerInode

/-! ## Lemmas on the single functions -/

section Basic

variable {sb : Features} {inode : InodeInfo} {ri : RawInode} {idx blkaddr : Nat}

theorem reserveBlock_bits (inode : InodeInfo) (ri : RawInode) (idx : Nat) :
    (reserveBlock inode ri idx).inlineBits = ri.inlineBits := by
  unfold reserveBlock
  split <;> rfl

theorem foldl_reserveBlock_bits (inode : InodeInfo) (ri : RawInode) (blocks : List Nat) :
    (blocks.foldl (reserveBlock inode) ri).inlineBits = ri.inlineBits := by
  induction blocks generalizing ri with
  | nil => rfl
  | cons idx blocks ih => exact (ih _).trans (reserveBlock_bits inode ri idx)

/-- An address behind the first slot leaves the extra attributes alone. -/
theorem setDataBlkaddr_slot (h : 0 < inode.base + idx) :
    (setDataBlkaddr inode ri idx blkaddr).addr 0 = ri.addr 0 :=
  Function.update_of_ne (Nat.ne_of_lt h) _ _

theorem reserveBlock_slot (h : 0 < inode.base) :
    (reserveBlock inode ri idx).addr 0 = ri.addr 0 := by
  unfold reserveBlock
  split
  · exact setDataBlkaddr_slot (by omega)
  · rfl

theorem foldl_reserveBlock_slot (h : 0 < inode.base) (blocks : List Nat) (ri : RawInode) :
    (blocks.foldl (reserveBlock inode) ri).addr 0 = ri.addr 0 := by
  induction blocks generalizing ri with
  | nil => rfl
  | cons idx blocks ih => exact (ih _).trans (reserveBlock_slot h)

/-- The bits and flags a conversion leaves. -/
theorem convertInlineDir_fst (inode : InodeInfo) (ri : RawInode) (blocks : List Nat) :
    (convertInlineDir inode ri blocks).1 =
      { inode with flags := { inode.flags with inlineDentry := false } } := by
  unfold convertInlineDir
  split <;> rfl

theorem convertInlineDir_bits (inode : InodeInfo) (ri : RawInode) (blocks : List Nat) :
    (convertInlineDir inode ri blocks).2.inlineBits = ri.inlineBits := by
  unfold convertInlineDir
  split
  · exact reserveBlock_bits inode ri 0
  · exact foldl_reserveBlock_bits inode ri blocks

theorem convertInlineDir_slot (h : 0 < inode.base) (ri : RawInode) (blocks : List Nat) :
    (convertInlineDir inode ri blocks).2.addr 0 = ri.addr 0 := by
  unfold convertInlineDir
  split
  · exact reserveBlock_slot h
  · exact foldl_reserveBlock_slot h blocks ri

theorem updateInode_slot (he : inode.flags.extraAttr = true) :
    (updateInode sb inode ri).addr 0 =
      (if sb.flexibleInlineXattr then inode.inlineXattrSize % 2 ^ 16 else ri.inlineXattrSize) *
        2 ^ 16 + inode.extraIsize % 2 ^ 16 := by
  show (if inode.flags.extraAttr then _ else _ : Nat → Nat) 0 = _
  rw [if_pos he]
  exact Function.update_self ..

/-- `update_inode` stores the two sizes. -/
theorem updateInode_sizes (he : inode.flags.extraAttr = true) :
    (updateInode sb inode ri).extraIsize = inode.extraIsize % 2 ^ 16 ∧
      (sb.flexibleInlineXattr = true →
        (updateInode sb inode ri).inlineXattrSize = inode.inlineXattrSize % 2 ^ 16) := by
  refine ⟨?_, fun hflex => ?_⟩
  · rw [RawInode.extraIsize, updateInode_slot he]
    omega
  · rw [RawInode.inlineXattrSize, updateInode_slot he, if_pos hflex]
    omega

theorem updateInode_addr (he : inode.flags.extraAttr = false) :
    (updateInode sb inode ri).addr = ri.addr := by
  simp only [updateInode, he, Bool.false_eq_true, if_false]

end Basic

end F2fs.Inode

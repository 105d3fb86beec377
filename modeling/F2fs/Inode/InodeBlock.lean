/-
  The inode block: `update_inode` writes the inode in memory to it, `do_read_inode` makes
  an inode in memory of it (`inode.c`).

  The extra attributes lie in the first words of `i_addr[]`: `i_extra_isize` and
  `i_inline_xattr_size` in the halves of word 0, `i_projid` in word 1, `i_crtime` in words
  3 and 4 and `i_crtime_nsec` in word 5.  Word 2 is the checksum, which is written with the
  page.  Block addresses, inline data and the device number begin behind `i_extra_isize`.

  Fields that have one width in memory and on disk are words of that width; `int` and `long`
  are numbers, cut where they are stored.  User ids are those of the initial namespace.
-/
import F2fs.Node.NodePath

namespace F2fs.InodeBlock

open Node

/-! ## The inode in memory -/

/-- `struct timespec`. -/
structure Timespec where
  tvSec : Int64
  tvNsec : Nat
  deriving DecidableEq

/-- `struct extent_info` and `struct f2fs_extent`. -/
structure Extent where
  fofs : UInt32
  blk : UInt32
  len : UInt32
  deriving DecidableEq

/-- The bits of `fi->flags` that `i_inline` stores. -/
structure InlineFlags where
  inlineXattr : Bool
  inlineData : Bool
  inlineDentry : Bool
  dataExist : Bool
  inlineDots : Bool
  extraAttr : Bool
  pinFile : Bool
  deriving DecidableEq

/-- `struct inode` and `struct f2fs_inode_info`.  Of the extent tree only the largest extent
    counts here. -/
structure InodeInfo where
  iMode : UInt16
  iUid : UInt32
  iGid : UInt32
  iNlink : UInt32
  iSize : Int64
  iBlocks : UInt64
  iAtime : Timespec
  iCtime : Timespec
  iMtime : Timespec
  iGeneration : UInt32
  iRdev : UInt32
  /-- shares its place with `i_gc_failures` -/
  iCurrentDepth : UInt32
  iXattrNid : UInt32
  iFlags : Nat
  iAdvise : UInt8
  iPino : UInt32
  iDirLevel : UInt8
  flags : InlineFlags
  noExtent : Bool
  projInherit : Bool
  firstBlockWritten : Bool
  extentTree : Option Extent
  iExtraIsize : Nat
  iInlineXattrSize : Nat
  iProjid : UInt32
  iCrtime : Timespec
  lastDiskSize : Int64
  deriving DecidableEq

/-- What of the super block and of the mount options is read here. -/
structure SuperBlock where
  flexibleInlineXattr : Bool
  projectQuota : Bool
  inodeCrtime : Bool
  extentCache : Bool
  rootIno : Nat
  maxNid : Nat

/-- The device numbers of the kernel. -/
structure DevCodec where
  oldValidDev : UInt32 → Bool
  oldEncodeDev : UInt32 → UInt32
  oldDecodeDev : UInt32 → UInt32
  newEncodeDev : UInt32 → UInt32
  newDecodeDev : UInt32 → UInt32
  old_decode : ∀ dev, oldValidDev dev = true → oldDecodeDev (oldEncodeDev dev) = dev
  new_decode : ∀ dev, newDecodeDev (newEncodeDev dev) = dev
  decode_zero : newDecodeDev 0 = oldDecodeDev 0

/-! ### The type of a file -/

/-- The file type in `i_mode` (`S_IFMT`). -/
def fileType (mode : UInt16) : Nat := mode.toNat / 2 ^ 12

def sIsFifo (mode : UInt16) : Bool := decide (fileType mode = 1)
def sIsChr (mode : UInt16) : Bool := decide (fileType mode = 2)
def sIsBlk (mode : UInt16) : Bool := decide (fileType mode = 6)
def sIsReg (mode : UInt16) : Bool := decide (fileType mode = 8)
def sIsSock (mode : UInt16) : Bool := decide (fileType mode = 12)

/-! ## The block -/

/-- `i_addr[]`. -/
abbrev AddrArea := Nat → UInt32

/-- `struct f2fs_inode`, without the name and the nids. -/
structure RawInode where
  iMode : UInt16
  iAdvise : UInt8
  iInline : UInt8
  iUid : UInt32
  iGid : UInt32
  iLinks : UInt32
  iSize : UInt64
  iBlocks : UInt64
  iAtime : UInt64
  iCtime : UInt64
  iMtime : UInt64
  iAtimeNsec : UInt32
  iCtimeNsec : UInt32
  iMtimeNsec : UInt32
  iGeneration : UInt32
  iCurrentDepth : UInt32
  iXattrNid : UInt32
  iFlags : UInt32
  iPino : UInt32
  iDirLevel : UInt8
  iExt : Extent
  iAddr : AddrArea

namespace AddrArea

variable (a : AddrArea)

/-- `i_extra_isize`. -/
def extraIsize : Nat := (a 0).toNat % 2 ^ 16

/-- `i_inline_xattr_size`. -/
def inlineXattrSize : Nat := (a 0).toNat / 2 ^ 16

/-- `i_projid`. -/
def projid : UInt32 := a 1

/-- `i_crtime` and `i_crtime_nsec`. -/
def crtime : Timespec :=
  ⟨(UInt64.ofNat ((a 4).toNat * 2 ^ 32 + (a 3).toNat)).toInt64, (a 5).toNat⟩

def set (i : Nat) (word : UInt32) : AddrArea := Function.update a i word

def setExtraIsize (size : Nat) : AddrArea :=
  set a 0 (UInt32.ofNat (inlineXattrSize a * 2 ^ 16 + size % 2 ^ 16))

def setInlineXattrSize (size : Nat) : AddrArea :=
  set a 0 (UInt32.ofNat (size % 2 ^ 16 * 2 ^ 16 + extraIsize a))

def setProjid (projid : UInt32) : AddrArea := set a 1 projid

def setCrtime (time : Timespec) : AddrArea :=
  let sec := time.tvSec.toUInt64.toNat
  set (set (set a 3 (UInt32.ofNat sec)) 4 (UInt32.ofNat (sec / 2 ^ 32))) 5
    (UInt32.ofNat time.tvNsec)

end AddrArea

/-- `F2FS_FITS_IN_INODE` of a field of the extra attributes that ends at byte `stop` of
    `i_addr[]`. -/
def fitsInInode (extraIsize stop : Nat) : Bool := decide (stop ≤ extraIsize)

def projidEnd : Nat := 8
/-- The end of `i_crtime`, without the nanoseconds. -/
def crtimeEnd : Nat := 20

def defaultInlineXattrAddrs : Nat := 50

namespace InodeInfo

variable (inode : InodeInfo)

/-- `get_extra_isize`. -/
def getExtraIsize : Nat := inode.iExtraIsize / 4

/-- A character or block device. -/
def isDevice : Bool := sIsChr inode.iMode || sIsBlk inode.iMode

end InodeInfo

/-! ## The flags of `i_inline` -/

/-- `set_raw_inline`. -/
def setRawInline (flags : InlineFlags) : UInt8 :=
  (if flags.inlineXattr then 0x01 else 0) ||| (if flags.inlineData then 0x02 else 0) |||
    (if flags.inlineDentry then 0x04 else 0) ||| (if flags.dataExist then 0x08 else 0) |||
    (if flags.inlineDots then 0x10 else 0) ||| (if flags.extraAttr then 0x20 else 0) |||
    (if flags.pinFile then 0x40 else 0)

/-- `get_inline_info`, on flags that are clear. -/
def getInlineInfo (iInline : UInt8) : InlineFlags where
  inlineXattr := iInline &&& 0x01 ≠ 0
  inlineData := iInline &&& 0x02 ≠ 0
  inlineDentry := iInline &&& 0x04 ≠ 0
  dataExist := iInline &&& 0x08 ≠ 0
  inlineDots := iInline &&& 0x10 ≠ 0
  extraAttr := iInline &&& 0x20 ≠ 0
  pinFile := iInline &&& 0x40 ≠ 0

/-! ## `update_inode` -/

section

variable (sb : SuperBlock) (dev : DevCodec)

/-- The extra attributes that `update_inode` writes. -/
def updateExtraAttr (inode : InodeInfo) (a : AddrArea) : AddrArea :=
  let a := a.setExtraIsize inode.iExtraIsize
  let a := if sb.flexibleInlineXattr then a.setInlineXattrSize inode.iInlineXattrSize else a
  let a :=
    if sb.projectQuota && fitsInInode inode.iExtraIsize projidEnd then a.setProjid inode.iProjid
    else a
  if sb.inodeCrtime && fitsInInode inode.iExtraIsize crtimeEnd then a.setCrtime inode.iCrtime
  else a

/-- `__set_inode_rdev`. -/
def setInodeRdev (inode : InodeInfo) (a : AddrArea) : AddrArea :=
  let extraSize := inode.getExtraIsize
  if inode.isDevice then
    if dev.oldValidDev inode.iRdev then
      (a.set extraSize (dev.oldEncodeDev inode.iRdev)).set (extraSize + 1) 0
    else
      ((a.set extraSize 0).set (extraSize + 1) (dev.newEncodeDev inode.iRdev)).set
        (extraSize + 2) 0
  else a

/-- `update_inode`, on the inode of the page. -/
def updateInode (inode : InodeInfo) (ri : RawInode) : RawInode where
  iMode := inode.iMode
  iAdvise := inode.iAdvise
  iUid := inode.iUid
  iGid := inode.iGid
  iLinks := inode.iNlink
  iSize := inode.iSize.toUInt64
  iBlocks := inode.iBlocks / 8 + 1
  iExt := inode.extentTree.getD ⟨0, 0, 0⟩
  iInline := setRawInline inode.flags
  iAtime := inode.iAtime.tvSec.toUInt64
  iCtime := inode.iCtime.tvSec.toUInt64
  iMtime := inode.iMtime.tvSec.toUInt64
  iAtimeNsec := UInt32.ofNat inode.iAtime.tvNsec
  iCtimeNsec := UInt32.ofNat inode.iCtime.tvNsec
  iMtimeNsec := UInt32.ofNat inode.iMtime.tvNsec
  iCurrentDepth := inode.iCurrentDepth
  iXattrNid := inode.iXattrNid
  iFlags := UInt32.ofNat inode.iFlags
  iPino := inode.iPino
  iGeneration := inode.iGeneration
  iDirLevel := inode.iDirLevel
  iAddr := setInodeRdev dev inode
    (if inode.flags.extraAttr then updateExtraAttr sb inode ri.iAddr else ri.iAddr)

/-! ## `do_read_inode` -/

/-- What `do_read_inode` meets: an extent tree that was kept for the ino, with its largest
    extent and whether it has nodes; whether a node can be allocated; and what
    `need_inode_block_update` says. -/
structure ReadEnv where
  kept : Option (Extent × Bool) := none
  alloc : Bool := true
  needUpdate : Bool := false

/-- `__f2fs_init_extent_tree`: the largest extent of the tree, if there is one, and `i_ext`. -/
def initExtentTree (env : ReadEnv) (mayExtentTree : Bool) (iExt : Extent) :
    Option Extent × Extent :=
  if mayExtentTree = false then (none, { iExt with len := 0 })
  else
    let (largest, hasNodes) := env.kept.getD (⟨0, 0, 0⟩, false)
    if iExt.len = 0 ∨ hasNodes = true ∨ env.alloc = false then (some largest, iExt)
    else (some iExt, iExt)

/-- `i_inline_xattr_size` of the inode that is read. -/
def readInlineXattrSize (flags : InlineFlags) (a : AddrArea) : Nat :=
  if sb.flexibleInlineXattr then a.inlineXattrSize
  else if flags.inlineXattr || flags.inlineDentry then defaultInlineXattrAddrs
  -- only inline data gets the space back
  else 0

/-- The words of inline data. -/
def inlineWords (extraIsize xattrSize : Nat) : List Nat :=
  List.range' (extraIsize / 4 + 1) (defAddrsPerInode - extraIsize / 4 - xattrSize - 1)

/-- `__recover_inline_status` finds data. -/
def findsInlineData (flags : InlineFlags) (extraIsize xattrSize : Nat) (a : AddrArea) : Bool :=
  flags.inlineData && !flags.dataExist &&
    (inlineWords extraIsize xattrSize).any fun i => decide (a i ≠ 0)

/-- `__get_inode_rdev`. -/
def getInodeRdev (mode : UInt16) (extraIsize : Nat) (rdev : UInt32) (a : AddrArea) : UInt32 :=
  if sIsChr mode || sIsBlk mode || sIsFifo mode || sIsSock mode then
    if a (extraIsize / 4) ≠ 0 then dev.oldDecodeDev (a (extraIsize / 4))
    else dev.newDecodeDev (a (extraIsize / 4 + 1))
  else rdev

/-- `__written_first_block`. -/
def writtenFirstBlock (flags : InlineFlags) (a : AddrArea) : Bool :=
  let addr := (a (if flags.extraAttr then a.extraIsize / 4 else 0)).toNat
  decide (addr ≠ newAddr ∧ addr ≠ nullAddr)

/-- `FS_PROJINHERIT_FL`. -/
def fsProjinheritFl : UInt32 := 0x20000000

/-- `F2FS_DEF_PROJID`. -/
def f2fsDefProjid : UInt32 := 0

/-- `do_read_inode` on a page that was read, for an inode as it was allocated. -/
def readInode (env : ReadEnv) (inode : InodeInfo) (ri : RawInode) : InodeInfo × RawInode :=
  let tree := initExtentTree env (sb.extentCache && sIsReg ri.iMode) ri.iExt
  let flags := getInlineInfo ri.iInline
  let extraIsize := if flags.extraAttr then ri.iAddr.extraIsize else 0
  let xattrSize := readInlineXattrSize sb flags ri.iAddr
  let found := findsInlineData flags extraIsize xattrSize ri.iAddr
  let flags := { flags with dataExist := flags.dataExist || found }
  ({ inode with
      iMode := ri.iMode
      iUid := ri.iUid
      iGid := ri.iGid
      iNlink := ri.iLinks
      iSize := ri.iSize.toInt64
      iBlocks := (ri.iBlocks - 1) * 8
      iAtime := ⟨ri.iAtime.toInt64, ri.iAtimeNsec.toNat⟩
      iCtime := ⟨ri.iCtime.toInt64, ri.iCtimeNsec.toNat⟩
      iMtime := ⟨ri.iMtime.toInt64, ri.iMtimeNsec.toNat⟩
      iGeneration := ri.iGeneration
      iCurrentDepth := ri.iCurrentDepth
      iXattrNid := ri.iXattrNid
      iFlags := ri.iFlags.toNat
      iAdvise := ri.iAdvise
      iPino := ri.iPino
      iDirLevel := ri.iDirLevel
      extentTree := tree.1
      noExtent := tree.1.isNone
      flags := flags
      iExtraIsize := extraIsize
      iInlineXattrSize := xattrSize
      iRdev := getInodeRdev dev ri.iMode extraIsize inode.iRdev ri.iAddr
      firstBlockWritten := writtenFirstBlock flags ri.iAddr
      lastDiskSize := if env.needUpdate then inode.lastDiskSize else ri.iSize.toInt64
      projInherit := ri.iFlags &&& fsProjinheritFl ≠ 0
      iProjid :=
        if flags.extraAttr && sb.projectQuota && fitsInInode extraIsize projidEnd then
          ri.iAddr.projid
        else f2fsDefProjid
      iCrtime :=
        if flags.extraAttr && sb.inodeCrtime && fitsInInode extraIsize crtimeEnd then
          ri.iAddr.crtime
        else inode.iCrtime },
    { ri with
      iExt := tree.2
      iInline := if found then setRawInline flags else ri.iInline })

def einval : Nat := 22

/-- `do_read_inode`; `page` is what `get_node_page` returns. -/
def doReadInode (env : ReadEnv) (ino : Nat) (inode : InodeInfo) (page : Except Nat RawInode) :
    Except Nat (InodeInfo × RawInode) :=
  if ino < sb.rootIno ∨ sb.maxNid ≤ ino then .error einval
  else page.map (readInode sb dev env inode)

end

end F2fs.InodeBlock

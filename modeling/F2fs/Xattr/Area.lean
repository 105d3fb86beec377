/-
  Extended attributes (`xattr.c`): a packed list of entries behind a header, in one
  area that starts in the inode block and goes on in the xattr block.

  The area is bytes, and every access is bounded: one outside the buffer or outside
  `i_addr[]` is a `fault`, where C has no defined result.  A walk over the entries
  carries fuel, the size of its buffer, because each entry takes four bytes or more.

  `XattrEnv` says which of the calls to other parts of the file system fail.
-/
import F2fs.Lib.Splice
import F2fs.Node.NodePath

namespace F2fs.Xattr

open F2fs.Node (defAddrsPerInode)

abbrev Bytes := List UInt8

/-! ## Constants -/

/-- `sizeof(struct f2fs_xattr_header)`. -/
abbrev xattrHeaderSize : Nat := 24

/-- `sizeof(struct f2fs_xattr_entry)`. -/
abbrev xattrEntrySize : Nat := 4

/-- `VALID_XATTR_BLOCK_SIZE`: a page without its node footer. -/
abbrev validXattrBlockSize : Nat := 4072

/-- `XATTR_PADDING_SIZE`. -/
abbrev xattrPaddingSize : Nat := 4

/-- `F2FS_NAME_LEN`. -/
abbrev f2fsNameLen : Nat := 255

/-- `XATTR_ALIGN`. -/
def xattrAlign (size : Nat) : Nat := (size + 3) / 4 * 4

/-- The header a first write gives the area: `F2FS_XATTR_MAGIC` and a reference count of 1,
    little endian. -/
def xattrMagic : Bytes := [0x11, 0x20, 0xF5, 0xF2]

def xattrRefcount : Bytes := [1, 0, 0, 0]

/-- The errors of this module; `fault` is an access outside its object. -/
inductive XattrError where
  | fault | enodata | enomem | eio | erange | e2big | eexist | enospc
  deriving DecidableEq, Repr

abbrev XattrM := Except XattrError

/-- An access that is defined inside its object only. -/
def access {α : Type} : Option α → XattrM α
  | some a => .ok a
  | none => .error .fault

/-! ## The inode -/

/-- What the attributes of an inode consist of. -/
structure XattrInode where
  /-- `i_inline_xattr_size`, in words -/
  inlineXattrSize : Nat
  /-- `i_addr[]` of the inode page -/
  iAddr : Bytes
  /-- the block of `i_xattr_nid`, if it is not 0 -/
  xattrBlock : Option Bytes

/-- What fails around the attributes of an inode. -/
structure XattrEnv where
  nomem : Bool := false
  /-- `get_node_page` on the inode -/
  inodePage : Bool := true
  /-- `get_node_page` on the xattr node -/
  xattrPage : Bool := true
  allocNid : Bool := true
  newNodePage : Bool := true

/-- `inline_xattr_size`. -/
def inlineXattrBytes (inode : XattrInode) : Nat := 4 * inode.inlineXattrSize

/-- `inline_xattr_addr`, as an offset in `i_addr[]`. -/
def inlineXattrAddr (inode : XattrInode) : Option Nat :=
  if inode.inlineXattrSize ≤ defAddrsPerInode then
    some (4 * (defAddrsPerInode - inode.inlineXattrSize))
  else none

/-- The range check of `parse_options` on `inline_xattr_size=`: not 0, and below the words
    of `i_addr[]` less `F2FS_TOTAL_EXTRA_ATTR_SIZE`, `DEF_INLINE_RESERVED_SIZE` and
    `DEF_MIN_INLINE_SIZE`. -/
def inlineXattrSizeInRange (size : Nat) : Bool :=
  size ≠ 0 && decide (size < defAddrsPerInode - 24 - 1 - 1)

/-- `MIN_OFFSET`. -/
def minOffset (inode : XattrInode) : Nat :=
  xattrAlign (inlineXattrBytes inode + validXattrBlockSize)

/-- `MAX_VALUE_LEN`. -/
def maxValueLen (inode : XattrInode) : Nat :=
  minOffset inode - xattrHeaderSize - xattrEntrySize

/-! ## Entries in a buffer -/

/-- `IS_XATTR_LAST_ENTRY`. -/
def isLastEntry (b : Bytes) (entry : Nat) : XattrM Bool := do
  let word ← access (Splice.read b entry 4)
  return decide (word = [0, 0, 0, 0])

/-- `e_name_index`, `e_name_len` and `e_value_size`. -/
def entryHead (b : Bytes) (entry : Nat) : XattrM (UInt8 × Nat × Nat) := do
  match ← access (Splice.read b entry xattrEntrySize) with
  | [index, len, lo, hi] => return (index, len.toNat, lo.toNat + 256 * hi.toNat)
  | _ => .error .fault

/-- `ENTRY_SIZE`. -/
def entrySize (b : Bytes) (entry : Nat) : XattrM Nat := do
  let (_, len, size) ← entryHead b entry
  return xattrAlign (xattrEntrySize + len + size)

/-- `XATTR_NEXT_ENTRY`. -/
def nextEntry (b : Bytes) (entry : Nat) : XattrM Nat := do
  return entry + (← entrySize b entry)

/-- The three comparisons of `__find_xattr`. -/
def sameName (b : Bytes) (entry : Nat) (index : UInt8) (name : Bytes) : XattrM Bool := do
  let (i, len, _) ← entryHead b entry
  if i ≠ index then return false
  else if len ≠ name.length then return false
  else
    let stored ← access (Splice.read b (entry + xattrEntrySize) name.length)
    return decide (stored = name)

/-- `__find_xattr`, from the entry it starts at. -/
def findXattrFrom (b : Bytes) (index : UInt8) (name : Bytes) : Nat → Nat → XattrM Nat
  | 0, _ => .error .fault
  | fuel + 1, entry => do
    if ← isLastEntry b entry then return entry
    else if ← sameName b entry index name then return entry
    else findXattrFrom b index name fuel (← nextEntry b entry)

/-- `__find_xattr`. -/
def findXattr (b : Bytes) (baseAddr : Nat) (index : UInt8) (name : Bytes) : XattrM Nat :=
  findXattrFrom b index name b.length (baseAddr + xattrHeaderSize)

/-- What `__find_inline_xattr` returns: an entry, or `NULL` and `*last_addr`. -/
inductive InlineFound where
  | entry (e : Nat)
  | past (lastAddr : Nat)
  deriving DecidableEq, Repr

/-- The loop of `__find_inline_xattr`. -/
def findInlineXattrFrom (b : Bytes) (inlineSize : Nat) (index : UInt8) (name : Bytes) :
    Nat → Nat → XattrM InlineFound
  | 0, _ => .error .fault
  | fuel + 1, entry => do
    if ← isLastEntry b entry then return .entry entry
    else if entry + 4 > inlineSize then return .past entry
    else
      let next ← nextEntry b entry
      if next + 4 > inlineSize then return .past entry
      else if ← sameName b entry index name then return .entry entry
      else findInlineXattrFrom b inlineSize index name fuel next

/-- `__find_inline_xattr`. -/
def findInlineXattr (b : Bytes) (inlineSize : Nat) (index : UInt8) (name : Bytes) :
    XattrM InlineFound :=
  findInlineXattrFrom b inlineSize index name b.length xattrHeaderSize

/-! ## Reading the area -/

/-- `read_inline_xattr`. -/
def readInlineXattr (env : XattrEnv) (inode : XattrInode) (txattr : Bytes) : XattrM Bytes := do
  if !env.inodePage then .error .eio
  else
    let inlineAddr ← access (inlineXattrAddr inode)
    let src ← access (Splice.read inode.iAddr inlineAddr (inlineXattrBytes inode))
    access (Splice.write txattr 0 src)

/-- `read_xattr_block`. -/
def readXattrBlock (env : XattrEnv) (inode : XattrInode) (block txattr : Bytes) :
    XattrM Bytes :=
  if !env.xattrPage then .error .eio
  else access (Splice.write txattr (inlineXattrBytes inode) block)

/-- The inline part, if there is one. -/
def readInlinePart (env : XattrEnv) (inode : XattrInode) (txattr : Bytes) : XattrM Bytes :=
  if inlineXattrBytes inode ≠ 0 then readInlineXattr env inode txattr else .ok txattr

/-- The xattr block, if there is one. -/
def readBlockPart (env : XattrEnv) (inode : XattrInode) (txattr : Bytes) : XattrM Bytes :=
  match inode.xattrBlock with
  | some block => readXattrBlock env inode block txattr
  | none => .ok txattr

/-- The first walk of `lookup_all_xattrs`; without an inline part there is none, and
    `last_addr` stays `NULL`. -/
def findInlinePart (inode : XattrInode) (txattr : Bytes) (index : UInt8) (name : Bytes) :
    XattrM InlineFound :=
  if inlineXattrBytes inode ≠ 0 then findInlineXattr txattr (inlineXattrBytes inode) index name
  else .ok (.past 0)

/-- The second walk, from `last_addr` or from the first entry. -/
def findFromLast (txattr : Bytes) (lastAddr : Nat) (index : UInt8) (name : Bytes) : XattrM Nat :=
  if lastAddr ≠ 0 then findXattrFrom txattr index name txattr.length lastAddr
  else findXattr txattr 0 index name

/-- The check at the end of `lookup_all_xattrs`. -/
def checkEntry (txattr : Bytes) (xe : Nat) : XattrM (Nat × Bytes) := do
  if ← isLastEntry txattr xe then .error .enodata else return (xe, txattr)

/-- `lookup_all_xattrs`: the entry and the buffer it is in. -/
def lookupAllXattrs (env : XattrEnv) (inode : XattrInode) (index : UInt8) (name : Bytes) :
    XattrM (Nat × Bytes) := do
  let size := if inode.xattrBlock.isSome then validXattrBlockSize else 0
  let inlineSize := inlineXattrBytes inode
  if size = 0 ∧ inlineSize = 0 then .error .enodata
  else if env.nomem then .error .enomem
  else
    let txattr := List.replicate (inlineSize + size + xattrPaddingSize) 0
    let txattr₁ ← readInlinePart env inode txattr
    match ← findInlinePart inode txattr₁ index name with
    | .entry xe => checkEntry txattr₁ xe
    | .past lastAddr =>
      let txattr₂ ← readBlockPart env inode txattr₁
      let xe ← findFromLast txattr₂ lastAddr index name
      checkEntry txattr₂ xe

/-- `read_all_xattrs`. -/
def readAllXattrs (env : XattrEnv) (inode : XattrInode) : XattrM Bytes := do
  let inlineSize := inlineXattrBytes inode
  if env.nomem then .error .enomem
  else
    let txattr := List.replicate (inlineSize + validXattrBlockSize + xattrPaddingSize) 0
    let txattr₁ ← readInlinePart env inode txattr
    let txattr₂ ← readBlockPart env inode txattr₁
    -- never been allocated xattrs
    let magic ← access (Splice.read txattr₂ 0 4)
    if magic ≠ xattrMagic then access (Splice.write txattr₂ 0 (xattrMagic ++ xattrRefcount))
    else .ok txattr₂

/-! ## Writing the area -/

/-- `i_addr[]` with the inline part stored in it. -/
def storeInlinePart (env : XattrEnv) (inode : XattrInode) (txattr : Bytes) : XattrM Bytes :=
  if inlineXattrBytes inode = 0 then .ok inode.iAddr
  else if !env.inodePage then .error .eio
  else do
    let inlineAddr ← access (inlineXattrAddr inode)
    let src ← access (Splice.read txattr 0 (inlineXattrBytes inode))
    access (Splice.write inode.iAddr inlineAddr src)

/-- `write_all_xattrs`. -/
def writeAllXattrs (env : XattrEnv) (inode : XattrInode) (hsize : Nat) (txattr : Bytes) :
    XattrM XattrInode := do
  let inlineSize := inlineXattrBytes inode
  if hsize > inlineSize ∧ inode.xattrBlock.isNone ∧ !env.allocNid then .error .enospc
  else
    let iAddr ← storeInlinePart env inode txattr
    if inlineSize ≠ 0 ∧ hsize ≤ inlineSize then
      -- `truncate_xattr_node`
      if inode.xattrBlock.isSome ∧ !env.xattrPage then .error .eio
      else .ok { inode with iAddr := iAddr, xattrBlock := none }
    else if inode.xattrBlock.isSome ∧ !env.xattrPage then .error .eio
    else if inode.xattrBlock.isNone ∧ !env.newNodePage then .error .eio
    else
      let block ← access (Splice.read txattr inlineSize validXattrBlockSize)
      return { inode with iAddr := iAddr, xattrBlock := some block }

/-! ## The calls -/

/-- `f2fs_getxattr`: the size of the value, and the bytes stored in the caller's buffer,
    which has the size `buffer` if there is one. -/
def getxattr (env : XattrEnv) (inode : XattrInode) (index : UInt8) (name : Bytes)
    (buffer : Option Nat) : XattrM (Nat × Bytes) := do
  if name.length > f2fsNameLen then .error .erange
  else
    let (entry, b) ← lookupAllXattrs env inode index name
    let (_, len, size) ← entryHead b entry
    match buffer with
    | none => return (size, [])
    | some bufferSize =>
      if size > bufferSize then .error .erange
      else return (size, ← access (Splice.read b (entry + xattrEntrySize + len) size))

/-- The loop of `f2fs_listxattr`; `handler` is the prefix or name of the handler of an
    index, if there is one and it lists its attributes, and `listed` is
    `buffer_size - rest`. -/
def listxattrFrom (b : Bytes) (handler : UInt8 → Option Bytes) (buffer : Option Nat) :
    Nat → Nat → Nat → Bytes → XattrM (Nat × Bytes)
  | 0, _, _, _ => .error .fault
  | fuel + 1, entry, listed, out => do
    if ← isLastEntry b entry then return (listed, out)
    else
      let (index, len, _) ← entryHead b entry
      let next ← nextEntry b entry
      match handler index with
      | none => listxattrFrom b handler buffer fuel next listed out
      | some pre =>
        let size := pre.length + len + 1
        match buffer with
        | none => listxattrFrom b handler buffer fuel next (listed + size) out
        | some bufferSize =>
          if listed + size > bufferSize then .error .erange
          else
            let name ← access (Splice.read b (entry + xattrEntrySize) len)
            listxattrFrom b handler buffer fuel next (listed + size) (out ++ pre ++ name ++ [0])

/-- `f2fs_listxattr`. -/
def listxattr (env : XattrEnv) (inode : XattrInode) (handler : UInt8 → Option Bytes)
    (buffer : Option Nat) : XattrM (Nat × Bytes) := do
  let b ← readAllXattrs env inode
  listxattrFrom b handler buffer b.length xattrHeaderSize 0 []

/-- `XATTR_CREATE` and `XATTR_REPLACE`. -/
structure XattrFlags where
  create : Bool := false
  replace : Bool := false
  deriving DecidableEq, Repr

/-- `f2fs_xattr_value_same`. -/
def xattrValueSame (b : Bytes) (entry : Nat) (value : Bytes) : XattrM Bool := do
  let (_, len, size) ← entryHead b entry
  if size ≠ value.length then return false
  else
    let stored ← access (Splice.read b (entry + xattrEntrySize + len) size)
    return decide (stored = value)

/-- The walk from the found entry to the last one. -/
def lastEntryFrom (b : Bytes) : Nat → Nat → XattrM Nat
  | 0, _ => .error .fault
  | fuel + 1, entry => do
    if ← isLastEntry b entry then return entry
    else lastEntryFrom b fuel (← nextEntry b entry)

/-- "Remove old entry": the entries behind it move up, and the space they leave is zeroed. -/
def removeEntry (b : Bytes) (here last : Nat) : XattrM (Bytes × Nat) := do
  let next ← nextEntry b here
  let oldsize ← entrySize b here
  let tail ← access (Splice.read b next (last - next))
  let b₁ ← access (Splice.write b here tail)
  let b₂ ← access (Splice.write b₁ (last - oldsize) (List.replicate oldsize 0))
  return (b₂, last - oldsize)

/-- "Write new entry". -/
def writeEntry (b : Bytes) (last : Nat) (index : UInt8) (name value : Bytes) : XattrM Bytes := do
  let head : Bytes := [index, UInt8.ofNat name.length, UInt8.ofNat (value.length % 256),
    UInt8.ofNat (value.length / 256)]
  let b₁ ← access (Splice.write b last head)
  let b₂ ← access (Splice.write b₁ (last + xattrEntrySize) name)
  access (Splice.write b₂ (last + xattrEntrySize + name.length) value)

/-- The found entry already has the value. -/
def alreadySet (b : Bytes) (here : Nat) (found : Bool) (value : Option Bytes) : XattrM Bool :=
  match found, value with
  | true, some v => xattrValueSame b here v
  | _, _ => .ok false

/-- `ENTRY_SIZE` of the found entry. -/
def oldEntrySize (b : Bytes) (here : Nat) (found : Bool) : XattrM Nat :=
  if found then entrySize b here else .ok 0

/-- The buffer without the found entry, and its new end. -/
def dropOldEntry (b : Bytes) (here last : Nat) (found : Bool) : XattrM (Bytes × Nat) :=
  if found then removeEntry b here last else .ok (b, last)

/-- The new entry, if a value is given, and the write. -/
def storeNewEntry (env : XattrEnv) (inode : XattrInode) (b : Bytes) (last : Nat) (index : UInt8)
    (name : Bytes) (value : Option Bytes) : XattrM XattrInode :=
  match value with
  | none => writeAllXattrs env inode last b
  | some v => do
    let b' ← writeEntry b last index name v
    writeAllXattrs env inode
      (last + xattrAlign (xattrEntrySize + name.length + v.length)) b'

/-- `__f2fs_setxattr`; without a value it removes. -/
def setxattr (env : XattrEnv) (inode : XattrInode) (index : UInt8) (name : Bytes)
    (value : Option Bytes) (flags : XattrFlags) : XattrM XattrInode := do
  let size := (value.getD []).length
  if name.length > f2fsNameLen then .error .erange
  else if size > maxValueLen inode then .error .e2big
  else
    let b ← readAllXattrs env inode
    let here ← findXattr b 0 index name
    let isLast ← isLastEntry b here
    let found := !isLast
    if found && flags.create then .error .eexist
    else if !found && flags.replace then .error .enodata
    else
      let same ← alreadySet b here found value
      if same then .ok inode
      else
        let last ← lastEntryFrom b b.length here
        let newsize := xattrAlign (xattrEntrySize + name.length + size)
        let oldsize ← oldEntrySize b here found
        -- in `int`: the last entry may lie beyond the room there is
        if value.isSome ∧ ((minOffset inode : Int) - last + oldsize < newsize) then .error .e2big
        else
          let (b₁, last₁) ← dropOldEntry b here last found
          storeNewEntry env inode b₁ last₁ index name value

end F2fs.Xattr

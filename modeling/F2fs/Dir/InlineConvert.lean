/-
  The conversion of an inline directory: `f2fs_convert_inline_dir` (`inline.c`) and
  `f2fs_add_regular_entry` (`dir.c`) for an entry without an inode.

  The entries of an inline directory lie in words of `i_addr[]` behind the first, which a
  conversion needs for the addresses of blocks.  With `i_dir_level` above 0 they are copied
  away, the words are cleared, and each entry is added as to a regular directory; if one
  fails, the blocks are truncated and the words copied back.

  Pages are asked for one after the other, and each request meets an environment of its
  own: what other tasks have written back before, and what fails.  Times and the locks of
  pages are left out.
-/
import F2fs.Dir.DentryHash
import F2fs.Dir.HashBuckets
import F2fs.File.Preallocate
import F2fs.Lib.LittleEndian
import F2fs.Truncate.Stopped

namespace F2fs.Dir

open F2fs.File F2fs.Node F2fs.Truncate

/-! ## The inline area -/

section

variable (layout : InodeLayout)

/-- `MAX_INLINE_DATA`, in words. -/
def inlineWords : Nat := layout.addrsPerInode - 1

/-- The words of an inline area. -/
abbrev InlineArea := Nat → Nat

/-- The area at `inline_data_addr`. -/
def inlineArea (s : Index) : InlineArea := fun j =>
  if j < inlineWords layout then s.iAddr (layout.extraIsize + 1 + j) else 0

/-- `memcpy` of an area to `inline_data_addr`. -/
def setInlineArea (s : Index) (area : InlineArea) : Index :=
  { s with iAddr := fun j =>
      if layout.extraIsize + 1 ≤ j ∧ j < layout.extraIsize + 1 + inlineWords layout then
        area (j - (layout.extraIsize + 1))
      else s.iAddr j }

/-- `truncate_inline_inode` from 0 on. -/
def truncateInlineInode (s : Index) : Index := setInlineArea layout s fun _ => 0

def areaBytes (area : InlineArea) : LittleEndian.Memory := fun i =>
  UInt8.ofNat (area (i / 4) / 256 ^ (i % 4))

/-- `MAX_INLINE_DATA`. -/
def maxInlineData : Nat := 4 * inlineWords layout

/-- `SIZE_OF_DIR_ENTRY`. -/
def sizeOfDirEntry : Nat := 11

/-- `NR_INLINE_DENTRY`. -/
def nrInlineDentry : Nat := maxInlineData layout * 8 / ((sizeOfDirEntry + f2fsSlotLen) * 8 + 1)

/-- `INLINE_DENTRY_BITMAP_SIZE`. -/
def inlineDentryBitmapSize : Nat := (nrInlineDentry layout + 7) / 8

/-- `INLINE_RESERVED_SIZE`. -/
def inlineReservedSize : Nat :=
  maxInlineData layout -
    ((sizeOfDirEntry + f2fsSlotLen) * nrInlineDentry layout + inlineDentryBitmapSize layout)

/-- The entry that is stored at an offset. -/
def readDirEntry (m : LittleEndian.Memory) (offset : Nat) : DirEntry where
  hashCode := UInt32.ofNat (LittleEndian.load m offset 4)
  ino := UInt32.ofNat (LittleEndian.load m (offset + 4) 4)
  nameLen := UInt16.ofNat (LittleEndian.load m (offset + 8) 2)
  fileType := m (offset + 10)

/-- `make_dentry_ptr_inline`. -/
def makeDentryPtrInline (area : InlineArea) : DentryArea :=
  let dentry := inlineDentryBitmapSize layout + inlineReservedSize layout
  { max := nrInlineDentry layout
    bitmap := fun i => (areaBytes area (i / 8)).toNat.testBit (i % 8)
    dentry := fun i => readDirEntry (areaBytes area) (dentry + sizeOfDirEntry * i)
    filename := fun i => areaBytes area (dentry + sizeOfDirEntry * nrInlineDentry layout + i) }

/-- `make_dentry_ptr_block` on a page of zeros. -/
def zeroBlock : DentryArea := ⟨nrDentryInBlock, fun _ => false, fun _ => ⟨0, 0, 0, 0⟩, fun _ => 0⟩

end

/-! ## State -/

/-- A directory, and the pages of its mapping. -/
structure DirState where
  file : FileState
  iCurrentDepth : UInt32
  iSize : Nat
  chash : UInt32
  clevel : UInt32
  /-- `FI_INLINE_DENTRY` -/
  inlineDentry : Bool
  /-- the dentry blocks, by block -/
  page : Nat → DentryArea
  /-- the pages that are dirty -/
  dirty : Nat → Bool
  /-- `FI_DIRTY_DIR` -/
  dirtyDir : Bool
  /-- the pages asked for so far -/
  asked : Nat

/-- Blocks and nodes have been written back: those that had an address have one, and no link
    between nodes is changed. -/
structure Rewritten (layout : InodeLayout) (s s' : Index) : Prop where
  iNid : s'.iNid = s.iNid
  links : ∀ k, k < defNidsPerInode → Links s.word s'.word (topLevel k) (s.iNid k)
  nat : ∀ m, s'.nat m = nullAddr ↔ s.nat m = nullAddr
  addr : ∀ b, b < 2 ^ 63 →
    (blockAddr layout s' b = nullAddr ↔ blockAddr layout s b = nullAddr)

/-- What other tasks write back. -/
structure WriteBack (layout : InodeLayout) where
  index : Index → Index
  /-- the pages that stay dirty -/
  dirty : Nat → Bool
  rewritten : ∀ s, IndexTree s → Rewritten layout s (index s)

theorem Rewritten.refl (layout : InodeLayout) (s : Index) : Rewritten layout s s :=
  ⟨rfl, fun _ _ => Links.refl _ _ _, fun _ => Iff.rfl, fun _ _ => Iff.rfl⟩

/-- Nothing is written back. -/
def WriteBack.nothing (layout : InodeLayout) : WriteBack layout where
  index := id
  dirty _ := true
  rewritten s _ := Rewritten.refl layout s

/-- What one call of `get_new_data_page` meets. -/
structure PageEnv (layout : InodeLayout) where
  others : WriteBack layout := WriteBack.nothing layout
  /-- `f2fs_grab_cache_page` has a page -/
  page : Bool := true
  dnode : DnodeEnv
  /-- `PageUptodate` -/
  uptodate : Bool := false
  /-- what `get_lock_data_page` fails with -/
  read : Option AllocError := none

/-- What a conversion meets. -/
structure ConvertEnv (layout : InodeLayout) where
  /-- `f2fs_kmalloc` has memory for the copy -/
  memory : Bool := true
  /-- by the number of pages asked for before -/
  page : Nat → PageEnv layout
  /-- `FAULT_DIR_DEPTH`, by the number of pages asked for before -/
  fault : Nat → Bool := fun _ => false
  /-- the nodes that cannot be read when blocks are truncated -/
  unreadable : Nat → Option ReadError := fun _ => none

/-! ## Pages -/

section

variable {layout : InodeLayout}

variable (layout) in
/-- `f2fs_reserve_block` behind its lookup, with `dn->data_blkaddr`. -/
def reserveFound (env : DnodeEnv) :
    Except AllocError (DataPage × Nat) × FileState → Except AllocError Nat × FileState
  | (.error e, s) => (.error e, s)
  | (.ok (page, ofs), s) =>
    if dataAddr layout s.index page ofs = nullAddr then
      match reserveNewBlocks layout env s page ofs 1 with
      | (.error e, s) => (.error e, s)
      | (.ok _, s) => (.ok newAddr, s)
    else (.ok (dataAddr layout s.index page ofs), s)

variable (layout) in
/-- `f2fs_reserve_block`. -/
def reserveBlock (env : DnodeEnv) (s : FileState) (index : Nat) :
    Except AllocError Nat × FileState :=
  reserveFound layout env (getDnodeOfDataAlloc env layout s index)

/-- The work of other tasks before a page is asked for. -/
def DirState.writtenBack (s : DirState) (others : WriteBack layout) : DirState :=
  { s with
    file := { s.file with index := others.index s.file.index }
    dirty := fun b => others.dirty b && s.dirty b }

/-- `f2fs_i_size_write` of a size that is larger. -/
def DirState.growTo (s : DirState) (size : Nat) : DirState :=
  { s with iSize := max s.iSize size }

/-- The contents of the page of a block that has an address. -/
def fillPage (env : PageEnv layout) (s : DirState) (block blkaddr : Nat) :
    Except AllocError Unit × DirState :=
  if env.uptodate then (.ok (), s)
  else if blkaddr = newAddr then
    (.ok (), { s with page := Function.update s.page block zeroBlock })
  else
    match env.read with
    | some e => (.error e, s)
    | none => (.ok (), s)

/-- `get_new_data_page` behind `f2fs_reserve_block`. -/
def reservedPage (env : PageEnv layout) (s : DirState) (block : Nat) :
    Except AllocError Nat × FileState → Except AllocError Unit × DirState
  | (.error e, file) => (.error e, { s with file := file })
  | (.ok blkaddr, file) =>
    match fillPage env { s with file := file } block blkaddr with
    | (.error e, s) => (.error e, s)
    | (.ok _, s) => (.ok (), s.growTo ((block + 1) * 4096))

/-- The work of other tasks before page number `asked` is asked for. -/
def DirState.ask (s : DirState) (env : PageEnv layout) : DirState :=
  { s.writtenBack env.others with asked := s.asked + 1 }

/-- `get_new_data_page` with `new_i_size`. -/
def getNewDataPage (env : PageEnv layout) (s : DirState) (block : Nat) :
    Except AllocError Unit × DirState :=
  if !env.page then (.error .enomem, s.ask env)
  else
    reservedPage env (s.ask env) block (reserveBlock layout env.dnode (s.ask env).file block)

/-! ## `f2fs_add_regular_entry` -/

/-- An entry that is added, with its hash. -/
structure NewEntry where
  name : Name
  hash : UInt32
  ino : UInt32
  mode : UInt16

/-- The place for the entry in a dentry block. -/
def NewEntry.roomIn (entry : NewEntry) (d : DentryArea) : Nat :=
  (roomForFilename d.bitmap (getDentrySlots entry.name.length) nrDentryInBlock).getD
    nrDentryInBlock

variable (env : ConvertEnv layout)

/-- A round of the loop over the blocks of a bucket behind `get_new_data_page`; `next` is the
    rest of the loop. -/
def tryBlock (entry : NewEntry)
    (next : DirState → Except AllocError (Option (Nat × Nat)) × DirState) (block : Nat) :
    Except AllocError Unit × DirState → Except AllocError (Option (Nat × Nat)) × DirState
  | (.error e, s) => (.error e, s)
  | (.ok _, s) =>
    if entry.roomIn (s.page block) < nrDentryInBlock then
      (.ok (some (block, entry.roomIn (s.page block))), s)
    else next s

/-- The loop over the blocks of a bucket; it finds a block and a place in it. -/
def findRoom (entry : NewEntry) : List Nat → DirState →
    Except AllocError (Option (Nat × Nat)) × DirState
  | [], s => (.ok none, s)
  | block :: rest, s =>
    tryBlock entry (findRoom entry rest) block (getNewDataPage (env.page s.asked) s block)

/-- `add_dentry`: `f2fs_update_dentry` and `update_parent_metadata`. -/
def addDentry (entry : NewEntry) (depth : UInt32) (s : DirState) (block bitPos : Nat) :
    DirState :=
  { s with
    page := Function.update s.page block
      (updateDentry entry.ino entry.mode (s.page block) entry.name entry.hash bitPos)
    dirty := Function.update s.dirty block true
    dirtyDir := true
    iCurrentDepth := depth }

/-- The blocks of the bucket of a hash. -/
def bucketOf (dirLevel : UInt8) (level hash : UInt32) : List Nat :=
  (List.range (bucketBlocks level.toNat)).map
    (addIndex dirLevel.toNat level.toNat
      (hash.toNat % dirBuckets level.toNat dirLevel.toNat) + ·)

/-- The rounds from `start` until both the level and the depth are at the maximum, the level
    being one that wraps. -/
def roundsLeft (level depth : UInt32) : Nat := (depth - level).toNat + (63 - depth).toNat

/-- The levels from `start` on, with `roundsLeft` to go. -/
def addAtLevel (dirLevel : UInt8) (entry : NewEntry) :
    Nat → UInt32 → UInt32 → DirState → Except AllocError Unit × DirState
  | 0, _, _, s => (.error .enospc, s)
  | n + 1, level, depth, s =>
    if env.fault s.asked then (.error .enospc, s)
    else if depth = 63 then (.error .enospc, s)
    else
      -- increase the depth, if required
      let depth := if level = depth then depth + 1 else depth
      match findRoom env entry (bucketOf dirLevel level entry.hash) s with
      | (.error e, s) => (.error e, s)
      | (.ok (some (block, bitPos)), s) => (.ok (), addDentry entry depth s block bitPos)
      | (.ok none, s) => addAtLevel dirLevel entry n (level + 1) depth s

/-- `f2fs_add_regular_entry` without an inode. -/
def f2fsAddRegularEntry (dirLevel : UInt8) (s : DirState) (name : Name) (ino : UInt32)
    (mode : UInt16) : Except AllocError Unit × DirState :=
  let hash := f2fsDentryHash name
  let level := if s.chash = hash then s.clevel else 0
  let entry : NewEntry := ⟨name, hash, ino, mode⟩
  addAtLevel env dirLevel entry (roundsLeft level s.iCurrentDepth) level s.iCurrentDepth
    { s with chash := if s.chash = hash then 0 else s.chash }

/-! ## `f2fs_convert_inline_dir` -/

/-- The loop of `f2fs_add_inline_entries` up to its first failure.  A round moves on by a slot
    at least. -/
def addEntries (dirLevel : UInt8) (d : DentryArea) :
    Nat → Nat → DirState → Except AllocError Unit × DirState
  | 0, _, s => (.ok (), s)
  | n + 1, bitPos, s =>
    if bitPos < d.max then
      if d.bitmap bitPos = false then addEntries dirLevel d n (bitPos + 1) s
      else if (d.dentry bitPos).nameLen = 0 then addEntries dirLevel d n (bitPos + 1) s
      else
        match f2fsAddRegularEntry env dirLevel s (d.nameAt bitPos (d.nameLenAt bitPos))
            (d.dentry bitPos).ino (UInt16.ofNat (getDeType (d.dentry bitPos) * 2 ^ 12)) with
        | (.error e, s) => (.error e, s)
        | (.ok _, s) => addEntries dirLevel d n (bitPos + d.slotsAt bitPos) s
    else (.ok (), s)

/-- All entries of an area. -/
def addAllEntries (dirLevel : UInt8) (area : InlineArea) (s : DirState) :
    Except AllocError Unit × DirState :=
  addEntries env dirLevel (makeDentryPtrInline layout area) (nrInlineDentry layout) 0 s

/-- `punch_dentry_pages`. -/
def punchDentryPages (s : DirState) : DirState :=
  { s with
    file := { s.file with index :=
      (truncateAll layout { node := env.unreadable } s.file.index).2 }
    dirty := fun _ => false
    dirtyDir := false }

/-- `f2fs_add_inline_entries`. -/
def f2fsAddInlineEntries (dirLevel : UInt8) (area : InlineArea) (s : DirState) :
    Except AllocError Unit × DirState :=
  match addAllEntries env dirLevel area s with
  | (.error e, s) => (.error e, punchDentryPages env s)
  | (.ok _, s) => (.ok (), s)

/-- `truncate_inline_inode` on the page of the directory. -/
def DirState.clearArea (layout : InodeLayout) (s : DirState) : DirState :=
  { s with file := { s.file with index := truncateInlineInode layout s.file.index } }

/-- `recover`. -/
def DirState.recover (layout : InodeLayout) (s : DirState) (area : InlineArea) : DirState :=
  { s with
    file := { s.file with index := setInlineArea layout s.file.index area }
    iCurrentDepth := 0
    iSize := maxInlineData layout }

/-- `f2fs_move_rehashed_dirents`. -/
def f2fsMoveRehashedDirents (dirLevel : UInt8) (s : DirState) :
    Except AllocError Unit × DirState :=
  let backup := inlineArea layout s.file.index
  if !env.memory then (.error .enomem, s)
  else
    match f2fsAddInlineEntries env dirLevel backup (s.clearArea layout) with
    | (.error e, s) => (.error e, s.recover layout backup)
    | (.ok _, s) => (.ok (), { s with inlineDentry := false })

/-- The dentry block that `f2fs_move_inline_dirents` makes of an area, up to what no bit of
    the bitmap says is used. -/
def copyDentries (src dst : DentryArea) : DentryArea where
  max := nrDentryInBlock
  bitmap i := decide (i < (src.max + 7) / 8 * 8) && src.bitmap i
  dentry i := if i < src.max then src.dentry i else dst.dentry i
  filename i := if i < f2fsSlotLen * src.max then src.filename i else dst.filename i

/-- `f2fs_move_inline_dirents` behind `f2fs_reserve_block`. -/
def moveReserved (layout : InodeLayout) (s : DirState) :
    Except AllocError Nat × FileState → Except AllocError Unit × DirState
  | (.error e, file) => (.error e, { s with file := file })
  | (.ok _, file) =>
    let src := makeDentryPtrInline layout (inlineArea layout file.index)
    let s := { s with
      file := file
      page := Function.update s.page 0 (copyDentries src (s.page 0))
      dirty := Function.update s.dirty 0 true
      dirtyDir := true }
    (.ok (), { (s.clearArea layout).growTo 4096 with inlineDentry := false, iCurrentDepth := 1 })

/-- `f2fs_move_inline_dirents`. -/
def f2fsMoveInlineDirents (s : DirState) : Except AllocError Unit × DirState :=
  let pageEnv := env.page s.asked
  if !pageEnv.page then (.error .enomem, s.ask pageEnv)
  else
    moveReserved layout (s.ask pageEnv)
      (reserveBlock layout pageEnv.dnode (s.ask pageEnv).file 0)

/-- `f2fs_convert_inline_dir`. -/
def f2fsConvertInlineDir (dirLevel : UInt8) (s : DirState) :
    Except AllocError Unit × DirState :=
  if dirLevel = 0 then f2fsMoveInlineDirents env s else f2fsMoveRehashedDirents env dirLevel s

/-- `find_in_inline_dir`, for the hash of a name and what `fscrypt_match_name` says. -/
def findInInlineDir (layout : InodeLayout) (s : DirState) (namehash : UInt32)
    (matchName : Name → Bool) : Option FindResult :=
  findTargetDentry (makeDentryPtrInline layout (inlineArea layout s.file.index)) namehash matchName

end

end F2fs.Dir

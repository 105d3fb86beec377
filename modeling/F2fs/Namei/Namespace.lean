/-
  Directories and their inodes, as `dir.c` keeps them for `namei.c`.

  A directory is the list of its named dentries in the order in which a search meets them,
  and apart from them the entry "..".  An `f2fs_dir_entry *` is a position in the list.  A new
  dentry goes to the end of it, and the conversion of an inline directory keeps the order.

  What else can fail (a page that cannot be read, a missing key, the quota, a full volume)
  is a parameter of each call.
-/
import F2fs.Checkpoint.Orphans

namespace F2fs.Namei

open Checkpoint

/-! ## Inodes -/

abbrev Name := List UInt8

/-- The `S_IFMT` bits of a mode. -/
inductive FileType where
  | reg
  | dir
  | chr
  | blk
  | fifo
  | sock
  | lnk
  deriving DecidableEq, Repr

/-- `struct f2fs_dir_entry` and its file name. -/
structure DirEntry where
  name : Name
  ino : Nat
  fileType : FileType
  deriving DecidableEq, Repr

/-- `struct inode` and `struct f2fs_inode_info`. -/
structure InodeInfo where
  mode : FileType
  nlink : UInt32
  iProjid : Nat
  -- `FS_PROJINHERIT_FL` in `i_flags`, and `FI_PROJ_INHERIT`
  projinheritFl : Bool
  fiProjInherit : Bool
  fiNewInode : Bool
  fiIncLink : Bool
  fiInlineDentry : Bool
  lostPino : Bool
  iPino : Nat
  dotdot : Option Nat
  dentries : List DirEntry
  deriving DecidableEq, Repr

/-- `S_ISDIR`. -/
def InodeInfo.isDir (inode : InodeInfo) : Bool := decide (inode.mode = .dir)

def f2fsDefProjid : Nat := 0

def f2fsLinkMax : UInt32 := 0xffffffff

/-- A mounted volume: `f2fs_cp_error`, the features and options read here, the inodes, the
    orphan list, and the inodes of `TRANS_DIR_INO`. -/
structure FsState where
  cpError : Bool
  projectQuota : Bool
  inlineDentryOpt : Bool
  maxOrphans : Nat
  inodes : Nat → InodeInfo
  orphans : InodeManagement
  transDir : Finset Nat

/-! ## Errors -/

/-- An error number. -/
structure Errno where
  code : Nat
  pos : 0 < code
  deriving DecidableEq, Repr

/-- The variable `err`; `none` is 0. -/
abbrev Err := Option Errno

def enoent : Errno := ⟨2, by decide⟩
def eio : Errno := ⟨5, by decide⟩
def eexist : Errno := ⟨17, by decide⟩
def exdev : Errno := ⟨18, by decide⟩
def enospc : Errno := ⟨28, by decide⟩
def emlink : Errno := ⟨31, by decide⟩
def enotempty : Errno := ⟨39, by decide⟩

/-- Why a search may not see an entry: `page` holds an error, or `fscrypt_setup_filename`
    has returned `-ENOENT` and `page` is NULL. -/
inductive FindFault where
  | error (e : Errno)
  | noKey
  deriving DecidableEq, Repr

/-! ## Searching -/

/-- What a search returns that would come to `x`: an error in `page`, or an entry or NULL. -/
def searched {α : Type} (fault : Option FindFault) (x : Option α) : Except Errno (Option α) :=
  match fault with
  | some (.error e) => .error e
  | some .noKey => .ok none
  | none => .ok x

/-- The position of a name. -/
def position (dentries : List DirEntry) (name : Name) : Option Nat :=
  dentries.findIdx? fun de => de.name = name

/-- `f2fs_find_entry`. -/
def findEntry (fault : Option FindFault) (dir : InodeInfo) (name : Name) :
    Except Errno (Option Nat) :=
  searched fault (position dir.dentries name)

/-- `f2fs_parent_dir`. -/
def parentDir (fault : Option FindFault) (inode : InodeInfo) : Except Errno (Option Nat) :=
  searched fault inode.dotdot

/-- `f2fs_empty_dir`, which says no if a page cannot be read. -/
def emptyDir (unreadable : Bool) (inode : InodeInfo) : Bool :=
  !unreadable && inode.dentries.isEmpty

/-- The inode a name resolves to. -/
def FsState.lookup (s : FsState) (dir : Nat) (name : Name) : Option Nat :=
  (position (s.inodes dir).dentries name).bind fun i => (s.inodes dir).dentries[i]?.map DirEntry.ino

/-! ## Writing -/

/-- An assignment to one inode. -/
def FsState.setInode (s : FsState) (ino : Nat) (inode : InodeInfo) : FsState :=
  { s with inodes := Function.update s.inodes ino inode }

def FsState.modifyInode (s : FsState) (ino : Nat) (f : InodeInfo → InodeInfo) : FsState :=
  s.setInode ino (f (s.inodes ino))

/-- `f2fs_set_link` at a named dentry. -/
def FsState.setLink (s : FsState) (dir i ino : Nat) : FsState :=
  s.modifyInode dir fun d => { d with
    dentries := d.dentries.modify i fun de =>
      { de with ino := ino, fileType := (s.inodes ino).mode } }

/-- `f2fs_set_link` at the entry "..". -/
def FsState.setParent (s : FsState) (inode dir : Nat) : FsState :=
  s.modifyInode inode fun n => { n with dotdot := some dir }

/-- `f2fs_i_links_write`. -/
def FsState.linksWrite (s : FsState) (ino : Nat) (inc : Bool) : FsState :=
  s.modifyInode ino fun n => { n with nlink := if inc then n.nlink + 1 else n.nlink - 1 }

/-- `file_lost_pino`. -/
def FsState.fileLostPino (s : FsState) (ino : Nat) : FsState :=
  s.modifyInode ino fun n => { n with lostPino := true }

/-- `add_ino_entry` for `TRANS_DIR_INO`. -/
def FsState.addTransDir (s : FsState) (ino : Nat) : FsState :=
  { s with transDir := insert ino s.transDir }

/-- `add_orphan_inode`. -/
def FsState.addOrphanInode (s : FsState) (ino : Nat) : FsState :=
  { s with orphans := addInoEntry s.orphans ino }

/-- `release_orphan_inode`. -/
def FsState.releaseOrphan (s : FsState) : FsState :=
  { s with orphans := releaseOrphanInode s.orphans }

/-- `remove_orphan_inode`. -/
def FsState.removeOrphanInode (s : FsState) (ino : Nat) : FsState :=
  { s with orphans := removeInoEntry s.orphans ino }

/-- `acquire_orphan_inode`. -/
def FsState.acquireOrphan (s : FsState) : Err × FsState :=
  match acquireOrphanInode s.maxOrphans s.orphans with
  | none => (some enospc, s)
  | some im => (none, { s with orphans := im })

/-- `f2fs_delete_entry` without an inode. -/
def FsState.deleteEntry (s : FsState) (dir i : Nat) : FsState :=
  (s.addTransDir dir).modifyInode dir fun d => { d with dentries := d.dentries.eraseIdx i }

/-- `f2fs_drop_nlink`. -/
def FsState.dropNlink (s : FsState) (dir ino : Nat) : FsState :=
  let s := if (s.inodes ino).isDir then s.linksWrite dir false else s
  let s := s.linksWrite ino false
  let s := if (s.inodes ino).isDir then s.linksWrite ino false else s
  if (s.inodes ino).nlink = 0 then s.addOrphanInode ino else s.releaseOrphan

/-! ## Adding a link -/

/-- What fails in `f2fs_add_link`, and what it finds. -/
structure AddLinkFaults where
  -- `fscrypt_setup_filename`
  setup : Option Errno
  -- `current == F2FS_I(dir)->task`
  sameTask : Bool
  find : Option FindFault
  -- the inline directory is full
  converts : Bool
  -- the conversion, or the dentry page
  room : Option Errno
  -- `init_inode_metadata`
  metadata : Option Errno

/-- `init_inode_metadata` when it succeeds. -/
def FsState.initInodeMetadata (s : FsState) (ino dir : Nat) : FsState :=
  let n := s.inodes ino
  -- `make_empty_dir`
  let n := if n.fiNewInode && n.isDir then { n with dotdot := some dir, dentries := [] } else n
  if n.fiIncLink then
    let s := if n.nlink = 0 then s.removeOrphanInode ino else s
    s.setInode ino { n with lostPino := n.lostPino || !n.isDir, nlink := n.nlink + 1 }
  else s.setInode ino n

/-- `init_inode_metadata` when it fails: `put_error` for a new inode. -/
def FsState.failInodeMetadata (s : FsState) (ino : Nat) : FsState :=
  if (s.inodes ino).fiNewInode then s.modifyInode ino fun n => { n with nlink := 0 } else s

/-- `update_parent_metadata`. -/
def FsState.updateParentMetadata (s : FsState) (dir ino : Nat) : FsState :=
  let n := s.inodes ino
  let s := if n.fiNewInode && n.isDir then s.linksWrite dir true else s
  s.modifyInode ino fun n => { n with fiNewInode := false, fiIncLink := false }

/-- The dentry of `f2fs_update_dentry`. -/
def FsState.updateDentry (s : FsState) (dir : Nat) (name : Name) (ino : Nat) : FsState :=
  s.modifyInode dir fun d => { d with
    dentries := d.dentries ++ [{ name := name, ino := ino, fileType := (s.inodes ino).mode }] }

/-- `__f2fs_do_add_link`. -/
def FsState.doAddLink (s : FsState) (f : AddLinkFaults) (dir : Nat) (name : Name) (ino : Nat) :
    Err × FsState :=
  let s := if f.converts then s.modifyInode dir fun d => { d with fiInlineDentry := false } else s
  match f.room, f.metadata with
  | some e, _ => (some e, s)
  | none, some e => (some e, s.failInodeMetadata ino)
  | none, none =>
    (none, (((s.initInodeMetadata ino dir).updateDentry dir name ino).modifyInode ino
      fun n => { n with iPino := dir }).updateParentMetadata dir ino)

/-- `f2fs_add_link`. -/
def FsState.addLink (s : FsState) (f : AddLinkFaults) (dir : Nat) (name : Name) (ino : Nat) :
    Err × FsState :=
  match f.setup with
  | some e => (some e, s)
  | none =>
    match if f.sameTask then .ok none else findEntry f.find (s.inodes dir) name with
    | .error e => (some e, s)
    | .ok (some _) => (some eexist, s)
    | .ok none => s.doAddLink f dir name ino

end F2fs.Namei

/-
  The operations of `namei.c` that give an inode a name: creation, `f2fs_link`,
  `f2fs_rename` and `f2fs_cross_rename`.

  `err` is what the functions leave in their variable, so a `goto out` with the value that
  a call before it has left is one here too: after `dquot_initialize` has succeeded it is 0.
  The part of an exchange or a rename that only looks is a function of its own, which
  throws the `err` it leaves with.
-/
import F2fs.Namei.Namespace

namespace F2fs.Namei

open Checkpoint

/-! ## New inodes -/

/-- `f2fs_mask_flags` on `FS_PROJINHERIT_FL`, which `F2FS_OTHER_FLMASK` does not hold. -/
def maskProjinherit (mode : FileType) (fl : Bool) : Bool :=
  match mode with
  | .dir | .reg => fl
  | _ => false

/-- `f2fs_new_inode`; `ino` is what `alloc_nid` has returned. -/
def FsState.newInode (s : FsState) (fault : Option Errno) (dir ino : Nat) (mode : FileType) :
    Err × FsState :=
  match fault with
  | some e => (some e, s)
  | none =>
    let d := s.inodes dir
    (none, s.setInode ino
      { mode := mode
        nlink := 1
        iProjid := if s.projectQuota && d.projinheritFl then d.iProjid else f2fsDefProjid
        projinheritFl := maskProjinherit mode d.projinheritFl
        fiProjInherit := maskProjinherit mode d.projinheritFl
        fiNewInode := true
        fiIncLink := false
        fiInlineDentry := s.inlineDentryOpt && decide (mode = .dir)
        lostPino := false
        iPino := 0
        dotdot := none
        dentries := [] })

/-- `iput` of the last reference: an inode without links is evicted, and its node with it
    unless that fails. -/
def FsState.iput (s : FsState) (ino : Nat) (evicts : Bool) : FsState :=
  if (s.inodes ino).nlink = 0 && evicts then s.removeOrphanInode ino else s

/-- `handle_failed_inode`, for an inode whose node has an address or not. -/
def FsState.handleFailedInode (s : FsState) (ino : Nat) (hasNode evicts : Bool) : FsState :=
  let s := s.modifyInode ino fun n => { n with nlink := 0 }
  let s :=
    if hasNode then
      match s.acquireOrphan with
      | (some _, s) => s
      | (none, s) => s.addOrphanInode ino
    else s
  s.iput ino evicts

/-- What fails while an inode is made. -/
structure CreateFaults where
  dquotDir : Option Errno
  newInode : Option Errno
  addLink : AddLinkFaults
  hasNode : Bool
  evicts : Bool

/-- What `f2fs_create`, `f2fs_mkdir`, `f2fs_mknod` and `f2fs_symlink` have in common. -/
def FsState.makeInode (s : FsState) (f : CreateFaults) (incLink : Bool) (dir : Nat) (name : Name)
    (ino : Nat) (mode : FileType) : Err × FsState :=
  if s.cpError then (some eio, s)
  else
    match f.dquotDir with
    | some e => (some e, s)
    | none =>
      match s.newInode f.newInode dir ino mode with
      | (some e, s) => (some e, s)
      | (none, s) =>
        let s := s.modifyInode ino fun n => { n with fiIncLink := incLink }
        match s.addLink f.addLink dir name ino with
        | (none, s) => (none, s)
        | (some e, s) =>
          let s := s.modifyInode ino fun n => { n with fiIncLink := false }
          (some e, s.handleFailedInode ino f.hasNode f.evicts)

/-- `f2fs_create`. -/
def f2fsCreate (s : FsState) (f : CreateFaults) (dir : Nat) (name : Name) (ino : Nat) :
    Err × FsState :=
  s.makeInode f false dir name ino .reg

/-- `f2fs_mkdir`. -/
def f2fsMkdir (s : FsState) (f : CreateFaults) (dir : Nat) (name : Name) (ino : Nat) :
    Err × FsState :=
  s.makeInode f true dir name ino .dir

/-- `f2fs_mknod`. -/
def f2fsMknod (s : FsState) (f : CreateFaults) (dir : Nat) (name : Name) (ino : Nat)
    (mode : FileType) : Err × FsState :=
  s.makeInode f false dir name ino mode

/-! ## Removing a name -/

/-- What fails in `f2fs_unlink`. -/
structure UnlinkFaults where
  dquotDir : Option Errno
  dquotInode : Option Errno
  find : Option FindFault

/-- `f2fs_unlink`. -/
def f2fsUnlink (s : FsState) (f : UnlinkFaults) (dir : Nat) (name : Name) (ino : Nat) :
    Err × FsState :=
  if s.cpError then (some eio, s)
  else
    match f.dquotDir, f.dquotInode with
    | some e, _ => (some e, s)
    | none, some e => (some e, s)
    | none, none =>
      match findEntry f.find (s.inodes dir) name with
      | .error e => (some e, s)
      -- `err` is what `dquot_initialize` has left
      | .ok none => (none, s)
      | .ok (some i) =>
        match s.acquireOrphan with
        | (some e, s) => (some e, s)
        | (none, s) => (none, (s.deleteEntry dir i).dropNlink dir ino)

/-- `f2fs_rmdir`. -/
def f2fsRmdir (s : FsState) (unreadable : Bool) (f : UnlinkFaults) (dir : Nat) (name : Name)
    (ino : Nat) : Err × FsState :=
  if emptyDir unreadable (s.inodes ino) then f2fsUnlink s f dir name ino
  else (some enotempty, s)

/-- `f2fs_symlink`, where `prepare` is the error of `fscrypt_prepare_symlink` and `content`
    that of writing the target. -/
def f2fsSymlink (s : FsState) (f : CreateFaults) (prepare content : Option Errno)
    (u : UnlinkFaults) (dir : Nat) (name : Name) (ino : Nat) : Err × FsState :=
  if s.cpError then (some eio, s)
  else
    match prepare with
    | some e => (some e, s)
    | none =>
      match s.makeInode f false dir name ino .lnk, content with
      | (some e, s), _ => (some e, s)
      | (none, s), none => (none, s)
      | (none, s), some e => (some e, (f2fsUnlink s u dir name ino).2)

/-! ## Inodes without a name -/

/-- What fails in `__f2fs_tmpfile`. -/
structure TmpfileFaults where
  dquotDir : Option Errno
  newInode : Option Errno
  metadata : Option Errno
  hasNode : Bool
  evicts : Bool

/-- `f2fs_do_tmpfile`. -/
def FsState.doTmpfile (s : FsState) (metadata : Option Errno) (ino dir : Nat) : Err × FsState :=
  match metadata with
  | some e => (some e, s.failInodeMetadata ino)
  | none =>
    (none, (s.initInodeMetadata ino dir).modifyInode ino fun n => { n with fiNewInode := false })

/-- `__f2fs_tmpfile`; `f2fs_i_links_write` or `d_tmpfile` drops the link. -/
def FsState.tmpfile (s : FsState) (f : TmpfileFaults) (dir ino : Nat) (mode : FileType) :
    Err × FsState :=
  match f.dquotDir with
  | some e => (some e, s)
  | none =>
    match s.newInode f.newInode dir ino mode with
    | (some e, s) => (some e, s)
    | (none, s) =>
      match s.acquireOrphan with
      | (some e, s) => (some e, s.handleFailedInode ino f.hasNode f.evicts)
      | (none, s) =>
        match s.doTmpfile f.metadata ino dir with
        | (some e, s) =>
          (some e, s.releaseOrphan.handleFailedInode ino f.hasNode f.evicts)
        | (none, s) => (none, (s.addOrphanInode ino).linksWrite ino false)

/-- `f2fs_tmpfile`; `key` is the error of `fscrypt_get_encryption_info`. -/
def f2fsTmpfile (s : FsState) (key : Option Errno) (f : TmpfileFaults) (dir ino : Nat) :
    Err × FsState :=
  if s.cpError then (some eio, s)
  else
    match key with
    | some e => (some e, s)
    | none => s.tmpfile f dir ino .reg

/-- `f2fs_create_whiteout`. -/
def FsState.createWhiteout (s : FsState) (f : TmpfileFaults) (dir ino : Nat) : Err × FsState :=
  if s.cpError then (some eio, s) else s.tmpfile f dir ino .chr

/-! ## Links -/

/-- `FI_PROJ_INHERIT` of the directory, and another project id. -/
def FsState.projidDiffers (s : FsState) (flagDir idDir ino : Nat) : Bool :=
  (s.inodes flagDir).fiProjInherit && decide ((s.inodes idDir).iProjid ≠ (s.inodes ino).iProjid)

/-- What fails in `f2fs_link`. -/
structure LinkFaults where
  -- `fscrypt_prepare_link`
  prepare : Option Errno
  dquotDir : Option Errno
  addLink : AddLinkFaults

/-- `f2fs_link`; the dentry of the old name keeps its reference to the inode. -/
def f2fsLink (s : FsState) (f : LinkFaults) (inode dir : Nat) (name : Name) : Err × FsState :=
  if s.cpError then (some eio, s)
  else
    match f.prepare with
    | some e => (some e, s)
    | none =>
      if s.projidDiffers dir dir inode then (some exdev, s)
      else
        match f.dquotDir with
        | some e => (some e, s)
        | none =>
          let s := s.modifyInode inode fun n => { n with fiIncLink := true }
          match s.addLink f.addLink dir name inode with
          | (none, s) => (none, s)
          | (some e, s) => (some e, s.modifyInode inode fun n => { n with fiIncLink := false })

/-! ## `f2fs_rename` -/

/-- `if (!entry) { if (IS_ERR(page)) err = PTR_ERR(page); goto out; }`. -/
def entryOr {α : Type} (err : Err) : Except Errno (Option α) → Except Err α
  | .error e => .error (some e)
  | .ok none => .error err
  | .ok (some x) => .ok x

/-- `if (err) goto out;`. -/
def check : Option Errno → Except Err Unit
  | some e => .error (some e)
  | none => .ok ()

structure RenameArgs where
  oldDir : Nat
  oldName : Name
  oldInode : Nat
  newDir : Nat
  newName : Name
  newInode : Option Nat
  -- `RENAME_WHITEOUT`, and the nid of the whiteout
  whiteout : Option Nat

structure RenameFaults where
  dquotOldDir : Option Errno
  dquotNewDir : Option Errno
  dquotNewInode : Option Errno
  findOld : Option FindFault
  parent : Option FindFault
  createWhiteout : TmpfileFaults
  unreadable : Bool
  findNew : Option FindFault
  addLink : AddLinkFaults
  findAgain : Option FindFault
  addWhiteout : AddLinkFaults
  evicts : Bool

/-- Up to the whiteout: `old_entry`, and whether there is an `old_dir_entry`. -/
def FsState.renameLookups (s : FsState) (f : RenameFaults) (a : RenameArgs) :
    Except Err (Nat × Bool) := do
  if s.cpError then throw (some eio)
  if s.projidDiffers a.newDir a.newDir a.oldInode then throw (some exdev)
  check f.dquotOldDir
  check f.dquotNewDir
  if a.newInode.isSome then check f.dquotNewInode
  let oldEntry ← entryOr none (findEntry f.findOld (s.inodes a.oldDir) a.oldName)
  if (s.inodes a.oldInode).isDir then
    let _ ← entryOr none (parentDir f.parent (s.inodes a.oldInode))
    return (oldEntry, true)
  else return (oldEntry, false)

/-- The branch with a `new_inode`: the new name goes over to the old inode. -/
def FsState.renameOver (s : FsState) (f : RenameFaults) (a : RenameArgs) (oldDirEntry : Bool)
    (newInode : Nat) : Err × FsState :=
  if oldDirEntry && !emptyDir f.unreadable (s.inodes newInode) then (some enotempty, s)
  else
    match findEntry f.findNew (s.inodes a.newDir) a.newName with
    | .error e => (some e, s)
    | .ok none => (some enoent, s)
    | .ok (some i) =>
      match s.acquireOrphan with
      | (some e, s) => (some e, s)
      | (none, s) =>
        let s := s.setLink a.newDir i a.oldInode
        let s := if oldDirEntry then s.linksWrite newInode false else s
        let s := s.linksWrite newInode false
        (none, if (s.inodes newInode).nlink = 0 then s.addOrphanInode newInode
          else s.releaseOrphan)

/-- The branch without: the new name is added.  With the position of the old one, which is
    searched again if the directory was inline. -/
def FsState.renameAdd (s : FsState) (f : RenameFaults) (a : RenameArgs) (oldEntry : Nat)
    (oldDirEntry : Bool) : Except Err Nat × FsState :=
  let isOldInline := (s.inodes a.oldDir).fiInlineDentry
  match s.addLink f.addLink a.newDir a.newName a.oldInode with
  | (some e, s) => (.error (some e), s)
  | (none, s) =>
    let s := if oldDirEntry then s.linksWrite a.newDir true else s
    if isOldInline && !(s.inodes a.oldDir).fiInlineDentry then
      (entryOr (some enoent) (findEntry f.findAgain (s.inodes a.oldDir) a.oldName), s)
    else (.ok oldEntry, s)

/-- `if (flags & RENAME_WHITEOUT)`. -/
def FsState.renameWhiteout (s : FsState) (f : RenameFaults) (a : RenameArgs) : Err × FsState :=
  match a.whiteout with
  | none => (none, s)
  | some whiteout => s.createWhiteout f.createWhiteout a.oldDir whiteout

/-- `if (new_inode)`, with the position of the old name. -/
def FsState.renameLink (s : FsState) (f : RenameFaults) (a : RenameArgs) (oldEntry : Nat)
    (oldDirEntry : Bool) : Except Err Nat × FsState :=
  match a.newInode with
  | none => s.renameAdd f a oldEntry oldDirEntry
  | some newInode =>
    match s.renameOver f a oldDirEntry newInode with
    | (some e, s) => (.error (some e), s)
    | (none, s) => (.ok oldEntry, s)

/-- `if (whiteout)`: it gets the old name. -/
def FsState.renameAddWhiteout (s : FsState) (f : RenameFaults) (a : RenameArgs) : Err × FsState :=
  match a.whiteout with
  | none => (none, s)
  | some whiteout =>
    (s.modifyInode whiteout fun n => { n with fiIncLink := true }).addLink f.addWhiteout a.oldDir
      a.oldName whiteout

/-- What is left for a directory, and `TRANS_DIR_INO`. -/
def FsState.renameParent (s : FsState) (a : RenameArgs) (oldDirEntry : Bool) : FsState :=
  let s :=
    if oldDirEntry then
      (if a.oldDir ≠ a.newDir ∧ a.whiteout.isNone then s.setParent a.oldInode a.newDir
        else s).linksWrite a.oldDir false
    else s
  s.addTransDir a.newDir

/-- The end of `f2fs_rename`, from `file_lost_pino` on. -/
def FsState.renameFinish (s : FsState) (f : RenameFaults) (a : RenameArgs) (oldEntry : Nat)
    (oldDirEntry : Bool) : Err × FsState :=
  let s :=
    if !oldDirEntry || a.whiteout.isSome then s.fileLostPino a.oldInode
    else s.modifyInode a.oldInode fun n => { n with iPino := a.newDir }
  match (s.deleteEntry a.oldDir oldEntry).renameAddWhiteout f a with
  | (some e, s) => (some e, s)
  | (none, s) => (none, s.renameParent a oldDirEntry)

/-- `out_whiteout`, and the `iput` of a whiteout that has its name. -/
def FsState.iputWhiteout (s : FsState) (f : RenameFaults) (a : RenameArgs) : FsState :=
  match a.whiteout with
  | none => s
  | some whiteout => s.iput whiteout f.evicts

/-- `f2fs_rename`. -/
def f2fsRename (s : FsState) (f : RenameFaults) (a : RenameArgs) : Err × FsState :=
  match s.renameLookups f a with
  | .error err => (err, s)
  | .ok (oldEntry, oldDirEntry) =>
    match s.renameWhiteout f a with
    | (some e, s) => (some e, s)
    | (none, s) =>
      match s.renameLink f a oldEntry oldDirEntry with
      | (.error err, s) => (err, s.iputWhiteout f a)
      | (.ok oldEntry, s) =>
        let r := s.renameFinish f a oldEntry oldDirEntry
        (r.1, r.2.iputWhiteout f a)

/-! ## `f2fs_cross_rename` -/

structure CrossRenameArgs where
  oldDir : Nat
  oldName : Name
  oldInode : Nat
  newDir : Nat
  newName : Name
  newInode : Nat

structure CrossRenameFaults where
  dquotOldDir : Option Errno
  dquotNewDir : Option Errno
  findOld : Option FindFault
  findNew : Option FindFault
  oldParent : Option FindFault
  newParent : Option FindFault

/-- What the exchange has found: the two dentries, and whether there is an `old_dir_entry`
    and a `new_dir_entry`. -/
structure CrossEntries where
  oldEntry : Nat
  newEntry : Nat
  oldDirEntry : Bool
  newDirEntry : Bool

/-- The search for "..", for a directory that changes its parent. -/
def FsState.movedParent (s : FsState) (fault : Option FindFault) (a : CrossRenameArgs)
    (inode : Nat) : Except Err Bool :=
  if a.oldDir ≠ a.newDir ∧ (s.inodes inode).isDir then
    (entryOr none (parentDir fault (s.inodes inode))).map fun _ => true
  else .ok false

/-- `old_nlink` is 1 and the directory has no room for a link. -/
def FsState.linksFull (s : FsState) (gains loses : Bool) (dir : Nat) : Bool :=
  gains && !loses && decide (f2fsLinkMax ≤ (s.inodes dir).nlink)

/-- Up to `f2fs_balance_fs`. -/
def FsState.crossRenameLookups (s : FsState) (f : CrossRenameFaults) (a : CrossRenameArgs) :
    Except Err CrossEntries := do
  if s.cpError then throw (some eio)
  -- the flag of `new_dir` is tested twice
  if s.projidDiffers a.newDir a.newDir a.oldInode ||
      s.projidDiffers a.newDir a.oldDir a.newInode then
    throw (some exdev)
  check f.dquotOldDir
  check f.dquotNewDir
  let oldEntry ← entryOr none (findEntry f.findOld (s.inodes a.oldDir) a.oldName)
  let newEntry ← entryOr none (findEntry f.findNew (s.inodes a.newDir) a.newName)
  let oldDirEntry ← s.movedParent f.oldParent a a.oldInode
  let newDirEntry ← s.movedParent f.newParent a a.newInode
  if s.linksFull newDirEntry oldDirEntry a.oldDir ||
      s.linksFull oldDirEntry newDirEntry a.newDir then
    throw (some emlink)
  return ⟨oldEntry, newEntry, oldDirEntry, newDirEntry⟩

/-- `if (nlink) f2fs_i_links_write(dir, nlink > 0);`, for the directory that gets the inode
    with `gains` and gives away the one with `loses`. -/
def FsState.exchangeLinks (s : FsState) (dir : Nat) (gains loses : Bool) : FsState :=
  if gains = loses then s else s.linksWrite dir gains

/-- From `f2fs_lock_op` on. -/
def FsState.crossRenameUpdate (s : FsState) (a : CrossRenameArgs) (es : CrossEntries) : FsState :=
  let s := if es.oldDirEntry then s.setParent a.oldInode a.newDir else s
  let s := if es.newDirEntry then s.setParent a.newInode a.oldDir else s
  let s := s.setLink a.oldDir es.oldEntry a.newInode
  let s := s.fileLostPino a.oldInode
  let s := s.exchangeLinks a.oldDir es.newDirEntry es.oldDirEntry
  let s := s.setLink a.newDir es.newEntry a.oldInode
  let s := s.fileLostPino a.newInode
  let s := s.exchangeLinks a.newDir es.oldDirEntry es.newDirEntry
  (s.addTransDir a.oldDir).addTransDir a.newDir

/-- `f2fs_cross_rename`. -/
def f2fsCrossRename (s : FsState) (f : CrossRenameFaults) (a : CrossRenameArgs) : Err × FsState :=
  match s.crossRenameLookups f a with
  | .error err => (err, s)
  | .ok es => (none, s.crossRenameUpdate a es)

end F2fs.Namei

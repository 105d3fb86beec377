/-
  Roll-forward recovery (`recovery.c`): `find_fsync_dnodes` follows the warm-node log
  from where the checkpoint left it and lists the inodes that were fsynced;
  `recover_data` follows it again and replays their blocks.

  Nothing is written while `SBI_POR_DOING` is set, so the log is a fixed function from
  addresses to node footers.  What the passes do to an inode (`recover_inode`,
  `recover_dentry`, `do_recover_data`) is a parameter: the model says which of these
  calls are made, on which inode and block, and in what order.
-/
import F2fs.Recovery.NodeLog
import F2fs.Lib.Loop

namespace F2fs.Recovery

open Checkpoint Segment Loop

universe u

/-- Error numbers; `noent` and `inval` are the ones the passes produce or test for. -/
inductive Errno where
  | noent
  | inval
  | other (code : Nat)
  deriving DecidableEq, Repr

/-- What does not change during recovery: the volume, the current checkpoint and the
    warm-node log as it is on disk. -/
structure NodeLog where
  sm : SmInfo
  cp : CurCp
  nodeIno : Nat
  metaIno : Nat
  rootIno : Nat
  maxNid : Nat
  curseg : CursegPos
  page : Nat → NodeFooter

namespace NodeLog

variable (log : NodeLog)

/-- Where both passes start. -/
def start : Nat := nextFreeBlkaddr log.sm log.curseg

/-- `next_blkaddr_of_node` of the block at an address. -/
def nextBlkaddr (blkaddr : Nat) : Nat := (log.page blkaddr).nextBlkaddr

/-- Both passes go on past this address. -/
def recoverable (blkaddr : Nat) : Bool :=
  isValidBlkaddr log.sm blkaddr && isRecoverableDnode log.cp (log.page blkaddr)

/-- `check_nid_range`. -/
def checkNidRange (nid : Nat) : Bool := nid < log.rootIno || log.maxNid ≤ nid

end NodeLog

/-- `struct fsync_inode_entry`. -/
structure FsyncInodeEntry where
  ino : Nat
  blkaddr : Nat
  lastDentry : Nat
  deriving DecidableEq, Repr

/-- `get_fsync_inode`. -/
def getFsyncInode (head : List FsyncInodeEntry) (ino : Nat) : Option FsyncInodeEntry :=
  head.find? fun entry => entry.ino = ino

/-! ## The inodes -/

/-- What `f2fs_iget_retry` and `recover_inode_page` find besides the log: the address
    in the NAT entry of a node, and the errors of the device, the allocator and the
    quota code, if any, while an inode is read and set up. -/
structure Inodes where
  blkAddr : Nat → Nat
  setupErr : Nat → Option Errno

/-- `f2fs_iget_retry` with the quota calls after it: `none` is success. -/
def Inodes.iget (log : NodeLog) (inodes : Inodes) (ino : Nat) : Option Errno :=
  -- these two are in the inode cache since mount
  if ino = log.nodeIno ∨ ino = log.metaIno then inodes.setupErr ino
  else if log.checkNidRange ino then some .inval
  else if inodes.blkAddr ino = nullAddr then some .noent
  else inodes.setupErr ino

/-- `recover_inode_page`. -/
def Inodes.recoverInodePage (inodes : Inodes) (ino : Nat) : Except Errno Inodes :=
  if inodes.blkAddr ino ≠ nullAddr then .error .inval
  else .ok { inodes with blkAddr := Function.update inodes.blkAddr ino newAddr }

/-! ## `find_fsync_dnodes` -/

/-- The local variables of `find_fsync_dnodes`, its list and the inodes. -/
structure FindState where
  blkaddr : Nat
  head : List FsyncInodeEntry
  inodes : Inodes

/-- `entry->blkaddr = blkaddr`, and `last_dentry` when the block is an inode block with
    the dentry mark. -/
def markEntry (page : NodeFooter) (blkaddr : Nat) (entry : FsyncInodeEntry) : FsyncInodeEntry :=
  { entry with
    blkaddr := blkaddr
    lastDentry := if page.isInode && page.isDentDnode then blkaddr else entry.lastDentry }

/-- The entry of the block's inode is marked; the others stay. -/
def markList (page : NodeFooter) (blkaddr : Nat) (head : List FsyncInodeEntry) :
    List FsyncInodeEntry :=
  head.map fun entry => if entry.ino = page.ino then markEntry page blkaddr entry else entry

/-- `add_fsync_inode`. -/
def addFsyncInode (log : NodeLog) (s : FindState) (ino : Nat) : Except Errno FindState :=
  match s.inodes.iget log ino with
  | some err => .error err
  | none => .ok { s with head := s.head ++ [{ ino := ino, blkaddr := 0, lastDentry := 0 }] }

/-- The call of `recover_inode_page` for a block whose inode is not in the list: made
    only if the block itself says that the inode is new. -/
def recoverMissing (checkOnly : Bool) (s : FindState) (page : NodeFooter) :
    Except Errno FindState :=
  if !checkOnly && page.isInode && page.isDentDnode then
    match s.inodes.recoverInodePage page.ino with
    | .error err => .error err
    | .ok inodes => .ok { s with inodes := inodes }
  else .ok s

/-- The entry is found or made: mark it and go to the next block. -/
def FindState.mark (s : FindState) (page : NodeFooter) : FindState :=
  { s with blkaddr := page.nextBlkaddr, head := markList page s.blkaddr s.head }

/-- Go to the next block without touching the list. -/
def FindState.skip (s : FindState) (page : NodeFooter) : FindState :=
  { s with blkaddr := page.nextBlkaddr }

/-- One round of `find_fsync_dnodes`; the result is its error, if any, and the list. -/
def findStep (log : NodeLog) (checkOnly : Bool) (s : FindState) :
    Turn FindState (Option Errno × FindState) :=
  if !isValidBlkaddr log.sm s.blkaddr then .done (none, s)
  else
    let page := log.page s.blkaddr
    if !isRecoverableDnode log.cp page then .done (none, s)
    else if !page.isFsyncDnode then .next (s.skip page)
    else
      match getFsyncInode s.head page.ino with
      | some _ => .next (s.mark page)
      | none =>
          match recoverMissing checkOnly s page with
          | .error err => .done (some err, s)
          | .ok s =>
              match addFsyncInode log s page.ino with
              | .error .noent => .next (s.skip page)  -- CP | dnode(F) | inode(DF)
              | .error err => .done (some err, s)
              | .ok s => .next (s.mark page)

/-- The start of `find_fsync_dnodes`. -/
def findStart (log : NodeLog) (inodes : Inodes) : FindState where
  blkaddr := log.start
  head := []
  inodes := inodes

/-! ## `recover_data` -/

/-- What `recover_data` calls for a block: on which inode, with the block at which address. -/
inductive Call where
  | recoverInode (ino blkaddr : Nat)
  | recoverDentry (ino blkaddr : Nat)
  | doRecoverData (ino blkaddr : Nat)
  deriving DecidableEq, Repr

/-- What these functions do to the rest of the file system.  `recover_inode` returns
    nothing; the others return an error number or 0. -/
structure Callees (σ : Type u) where
  recoverInode : σ → Nat → Nat → σ
  recoverDentry : σ → Nat → Nat → Option Errno × σ
  doRecoverData : σ → Nat → Nat → Option Errno × σ

/-- The local variables of `recover_data`, the list and the rest of the file system. -/
structure RecoverState (σ : Type u) where
  blkaddr : Nat
  inodeList : List FsyncInodeEntry
  vol : σ

variable {σ : Type u}

/-- `del_fsync_inode`. -/
def delFsyncInode (entry : FsyncInodeEntry) (head : List FsyncInodeEntry) :
    List FsyncInodeEntry :=
  head.erase entry

/-- One round of `recover_data`. -/
def recoverStep (log : NodeLog) (f : Callees σ) (s : RecoverState σ) :
    Turn (RecoverState σ) (Option Errno × RecoverState σ) :=
  if !isValidBlkaddr log.sm s.blkaddr then .done (none, s)
  else
    let page := log.page s.blkaddr
    if !isRecoverableDnode log.cp page then .done (none, s)
    else
      match getFsyncInode s.inodeList page.ino with
      | none => .next { s with blkaddr := page.nextBlkaddr }
      | some entry =>
          let vol := if page.isInode then f.recoverInode s.vol entry.ino s.blkaddr else s.vol
          let dentry :=
            if entry.lastDentry = s.blkaddr then f.recoverDentry vol entry.ino s.blkaddr
            else (none, vol)
          match dentry with
          | (some err, vol) => .done (some err, { s with vol := vol })
          | (none, vol) =>
              match f.doRecoverData vol entry.ino s.blkaddr with
              | (some err, vol) => .done (some err, { s with vol := vol })
              | (none, vol) =>
                  .next
                    { blkaddr := page.nextBlkaddr
                      inodeList :=
                        if entry.blkaddr = s.blkaddr then delFsyncInode entry s.inodeList
                        else s.inodeList
                      vol := vol }

/-- The start of `recover_data`. -/
def recoverStart (log : NodeLog) (inodeList : List FsyncInodeEntry) (vol : σ) :
    RecoverState σ where
  blkaddr := log.start
  inodeList := inodeList
  vol := vol

/-! ## What a round does -/

theorem recoverable_eq_true {log : NodeLog} {blkaddr : Nat} :
    log.recoverable blkaddr = true ↔
      isValidBlkaddr log.sm blkaddr = true ∧
        isRecoverableDnode log.cp (log.page blkaddr) = true := by
  rw [NodeLog.recoverable, Bool.and_eq_true]

section FindStep

variable (log : NodeLog) (checkOnly : Bool) (s : FindState)

theorem findStep_stop (h : log.recoverable s.blkaddr = false) :
    findStep log checkOnly s = .done (none, s) := by
  unfold findStep
  cases hv : isValidBlkaddr log.sm s.blkaddr with
  | false => rfl
  | true =>
      have hr : isRecoverableDnode log.cp (log.page s.blkaddr) = false := by
        simpa [NodeLog.recoverable, hv] using h
      simp [hr]

/-- A block that is not part of the log any more ends the pass, one without the fsync
    mark is passed over, one of a listed inode is marked; otherwise the inode is added,
    unless it is missing or cannot be read. -/
theorem findStep_cases :
    let page := log.page s.blkaddr
    (log.recoverable s.blkaddr = false ∧ findStep log checkOnly s = .done (none, s)) ∨
    log.recoverable s.blkaddr = true ∧
      ((page.isFsyncDnode = false ∧ findStep log checkOnly s = .next (s.skip page)) ∨
      page.isFsyncDnode = true ∧
        ((∃ entry, getFsyncInode s.head page.ino = some entry ∧
            findStep log checkOnly s = .next (s.mark page)) ∨
        getFsyncInode s.head page.ino = none ∧
          ((∃ err, recoverMissing checkOnly s page = .error err ∧
              findStep log checkOnly s = .done (some err, s)) ∨
          ∃ s₁, recoverMissing checkOnly s page = .ok s₁ ∧
            ((s₁.inodes.iget log page.ino = some .noent ∧
                findStep log checkOnly s = .next (s₁.skip page)) ∨
            (∃ err, err ≠ .noent ∧ s₁.inodes.iget log page.ino = some err ∧
                findStep log checkOnly s = .done (some err, s₁)) ∨
            (s₁.inodes.iget log page.ino = none ∧
                findStep log checkOnly s = .next (FindState.mark
                  { s₁ with head := s₁.head ++ [⟨page.ino, 0, 0⟩] } page)))))) := by
  intro page
  cases hr : log.recoverable s.blkaddr with
  | false => exact .inl ⟨rfl, findStep_stop log checkOnly s hr⟩
  | true =>
      refine .inr ⟨rfl, ?_⟩
      obtain ⟨hv, hd⟩ := recoverable_eq_true.mp hr
      unfold findStep
      rw [hv]
      simp only [Bool.not_true, Bool.false_eq_true, if_false, hd]
      cases hf : page.isFsyncDnode with
      | false =>
          refine .inl ⟨rfl, ?_⟩
          rw [if_pos (by simp)]
      | true =>
          refine .inr ⟨rfl, ?_⟩
          rw [if_neg (by simp)]
          cases he : getFsyncInode s.head page.ino with
          | some entry => exact .inl ⟨entry, rfl, rfl⟩
          | none =>
              refine .inr ⟨rfl, ?_⟩
              cases hm : recoverMissing checkOnly s page with
              | error err => exact .inl ⟨err, rfl, rfl⟩
              | ok s₁ =>
                  refine .inr ⟨s₁, rfl, ?_⟩
                  cases hi : s₁.inodes.iget log page.ino with
                  | none =>
                      refine .inr (.inr ⟨rfl, ?_⟩)
                      simp only [addFsyncInode, page, hi]
                  | some err =>
                      cases err with
                      | noent =>
                          refine .inl ⟨rfl, ?_⟩
                          simp only [addFsyncInode, page, hi]
                      | inval =>
                          refine .inr (.inl ⟨.inval, by simp, rfl, ?_⟩)
                          simp only [addFsyncInode, page, hi]
                      | other code =>
                          refine .inr (.inl ⟨.other code, by simp, rfl, ?_⟩)
                          simp only [addFsyncInode, page, hi]

/-- `recover_inode_page` is called for the first marked inode block of a new inode. -/
theorem recoverMissing_cases (page : NodeFooter) :
    (recoverMissing checkOnly s page = .ok s ∧
        ¬(checkOnly = false ∧ page.isInode = true ∧ page.isDentDnode = true)) ∨
    (checkOnly = false ∧ page.isInode = true ∧ page.isDentDnode = true ∧
      ((s.inodes.blkAddr page.ino ≠ nullAddr ∧
          recoverMissing checkOnly s page = .error .inval) ∨
      (s.inodes.blkAddr page.ino = nullAddr ∧
        recoverMissing checkOnly s page = .ok
          { s with inodes :=
            { s.inodes with
              blkAddr := Function.update s.inodes.blkAddr page.ino newAddr } }))) := by
  unfold recoverMissing Inodes.recoverInodePage
  by_cases h : checkOnly = false ∧ page.isInode = true ∧ page.isDentDnode = true
  · obtain ⟨hc, hi, hd⟩ := h
    refine .inr ⟨hc, hi, hd, ?_⟩
    by_cases hb : s.inodes.blkAddr page.ino = nullAddr
    · simp [hc, hi, hd, hb]
    · simp [hc, hi, hd, hb]
  · refine .inl ⟨?_, h⟩
    rw [if_neg]
    intro h'
    simp only [Bool.and_eq_true, Bool.not_eq_true'] at h'
    exact h ⟨h'.1.1, h'.1.2, h'.2⟩

theorem recoverMissing_frame {page : NodeFooter} {s₁ : FindState}
    (h : recoverMissing checkOnly s page = .ok s₁) :
    s₁.blkaddr = s.blkaddr ∧ s₁.head = s.head ∧ s₁.inodes.setupErr = s.inodes.setupErr := by
  obtain ⟨e, -⟩ | ⟨-, -, -, ⟨-, e⟩ | ⟨-, e⟩⟩ := recoverMissing_cases checkOnly s page
  · obtain rfl := Except.ok.inj (e.symm.trans h)
    exact ⟨rfl, rfl, rfl⟩
  · cases e.symm.trans h
  · obtain rfl := Except.ok.inj (e.symm.trans h)
    exact ⟨rfl, rfl, rfl⟩

end FindStep

section RecoverStep

variable (log : NodeLog) (f : Callees σ) (s : RecoverState σ)

/-- What `recover_data` does with a block of a listed inode, up to the first error. -/
def replayBlock (page : NodeFooter) (entry : FsyncInodeEntry) : Option Errno × σ :=
  let vol := if page.isInode then f.recoverInode s.vol entry.ino s.blkaddr else s.vol
  let dentry :=
    if entry.lastDentry = s.blkaddr then f.recoverDentry vol entry.ino s.blkaddr
    else (none, vol)
  match dentry with
  | (some err, vol) => (some err, vol)
  | (none, vol) => f.doRecoverData vol entry.ino s.blkaddr

theorem recoverStep_stop (h : log.recoverable s.blkaddr = false) :
    recoverStep log f s = .done (none, s) := by
  unfold recoverStep
  cases hv : isValidBlkaddr log.sm s.blkaddr with
  | false => rfl
  | true =>
      have hr : isRecoverableDnode log.cp (log.page s.blkaddr) = false := by
        simpa [NodeLog.recoverable, hv] using h
      simp [hr]

theorem recoverStep_skip (h : log.recoverable s.blkaddr = true)
    (he : getFsyncInode s.inodeList (log.page s.blkaddr).ino = none) :
    recoverStep log f s = .next { s with blkaddr := log.nextBlkaddr s.blkaddr } := by
  obtain ⟨hv, hd⟩ := recoverable_eq_true.mp h
  unfold recoverStep
  simp only [hv, hd, he, Bool.not_true, Bool.false_eq_true, if_false]
  rfl

theorem recoverStep_replay {entry : FsyncInodeEntry} (h : log.recoverable s.blkaddr = true)
    (he : getFsyncInode s.inodeList (log.page s.blkaddr).ino = some entry) :
    recoverStep log f s =
      match replayBlock f s (log.page s.blkaddr) entry with
      | (some err, vol) => .done (some err, { s with vol := vol })
      | (none, vol) =>
          .next
            { blkaddr := log.nextBlkaddr s.blkaddr
              inodeList :=
                if entry.blkaddr = s.blkaddr then delFsyncInode entry s.inodeList
                else s.inodeList
              vol := vol } := by
  obtain ⟨hv, hd⟩ := recoverable_eq_true.mp h
  unfold recoverStep replayBlock
  simp only [hv, hd, he, Bool.not_true, Bool.false_eq_true, if_false]
  rcases (if entry.lastDentry = s.blkaddr then _ else _ : Option Errno × σ) with ⟨_ | err, vol⟩
  · rcases f.doRecoverData vol entry.ino s.blkaddr with ⟨_ | err, vol'⟩ <;> rfl
  · rfl

end RecoverStep

end F2fs.Recovery

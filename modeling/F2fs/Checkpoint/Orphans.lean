/-
  The orphan list: `acquire_orphan_inode`, `add_orphan_inode`, `release_orphan_inode`,
  `remove_orphan_inode`, and what a checkpoint writes of it.

  A slot is counted before the inode is listed.  The steps are the callers: each takes a slot
  before it drops a link, and gives it to the list or back.  An inode is listed only while
  its link count is zero, so no caller lists it a second time.

  `orphans_accounted` is about every state of a mounted file system; its last part reads the
  blocks of `write_orphan_inodes` back with the loop of `recover_orphan_inodes`.
-/
import F2fs.Checkpoint.Layout

namespace F2fs.Checkpoint

open Placement

/-! ## The list -/

/-- `struct inode_management` for `ORPHAN_INO`. -/
structure InodeManagement where
  inoNum : Int
  inoList : List Nat

/-- `acquire_orphan_inode`; `none` is `-ENOSPC`. -/
def acquireOrphanInode (max : Nat) (im : InodeManagement) : Option InodeManagement :=
  if max ≤ im.inoNum then none else some { im with inoNum := im.inoNum + 1 }

/-- `release_orphan_inode`. -/
def releaseOrphanInode (im : InodeManagement) : InodeManagement :=
  { im with inoNum := im.inoNum - 1 }

/-- `__add_ino_entry` for `ORPHAN_INO`, whose slot is counted already. -/
def addInoEntry (im : InodeManagement) (ino : Nat) : InodeManagement :=
  if ino ∈ im.inoList then im else { im with inoList := im.inoList ++ [ino] }

/-- `__remove_ino_entry`. -/
def removeInoEntry (im : InodeManagement) (ino : Nat) : InodeManagement :=
  if ino ∈ im.inoList then
    { inoNum := im.inoNum - 1, inoList := im.inoList.erase ino }
  else im

/-! ## The callers -/

/-- The link count of an inode, and whether it is still being made. -/
structure InodeLinks where
  links : UInt32
  isNew : Bool

/-- `recover_orphan_inodes` at an inode or between two, the mounted file system, or a mount
    that has failed. -/
inductive MountPhase where
  | recovery (cur : Option Nat)
  | running
  | failed
  deriving DecidableEq

/-- The orphan list, the slots that are acquired and neither listed nor released, and the
    inodes. -/
structure OrphanState where
  im : InodeManagement
  slots : Nat
  inodes : Nat → Option InodeLinks
  phase : MountPhase

/-- `init_ino_entry_info`. -/
def mountOrphans (inodes : Nat → Option InodeLinks) : OrphanState where
  im := ⟨0, []⟩
  slots := 0
  inodes := inodes
  phase := .recovery none

/-- An assignment to one inode. -/
def OrphanState.setInode (s : OrphanState) (ino : Nat) (n : Option InodeLinks) : OrphanState :=
  { s with inodes := Function.update s.inodes ino n }

/-- `remove_orphan_inode`. -/
def OrphanState.removeOrphan (s : OrphanState) (ino : Nat) : OrphanState :=
  { s with im := removeInoEntry s.im ino }

/-- `add_orphan_inode`: the slot becomes an entry. -/
def OrphanState.addOrphan (s : OrphanState) (ino : Nat) : OrphanState :=
  { s with im := addInoEntry s.im ino, slots := s.slots - 1 }

/-- With the slot that `acquire_orphan_inode` has counted. -/
def OrphanState.acquired (s : OrphanState) (im : InodeManagement) : OrphanState :=
  { s with im := im, slots := s.slots + 1 }

/-- The slot is given back. -/
def OrphanState.release (s : OrphanState) : OrphanState :=
  { s with im := releaseOrphanInode s.im, slots := s.slots - 1 }

/-- `f2fs_i_links_write`, once for the name and once more for a directory. -/
def droppedLinks (n : InodeLinks) (isDir : Bool) : UInt32 :=
  if isDir then n.links - 1 - 1 else n.links - 1

/-- `f2fs_drop_nlink` behind the parent's count, and the same lines in `f2fs_rename`. -/
def dropNlink (s : OrphanState) (ino : Nat) (n : InodeLinks) (isDir : Bool) : OrphanState :=
  let s := s.setInode ino (some { n with links := droppedLinks n isDir })
  if droppedLinks n isDir = 0 then s.addOrphan ino else s.release

/-- `handle_failed_inode`, for an inode whose node was allocated or not. -/
def handleFailedInode (max : Nat) (s : OrphanState) (ino : Nat) (hasNode : Bool) : OrphanState :=
  let s := s.setInode ino (some ⟨0, false⟩)
  if hasNode then
    match acquireOrphanInode max s.im with
    | some im => (s.acquired im).addOrphan ino
    | none => s
  else s

/-- `recover_orphan_inode` up to the end of `f2fs_iget_retry` and `clear_nlink`, with the slot
    it has acquired. -/
def recoverOrphan (s : OrphanState) (im : InodeManagement) (ino : Nat) (found : Bool) :
    OrphanState :=
  { ((s.acquired im).addOrphan ino).setInode ino
      ((s.inodes ino).map fun n => { n with links := 0 }) with
    phase := if found then .recovery (some ino) else .failed }

/-- One caller, or one part of it between two holds of a lock. -/
inductive OrphanStep (max : Nat) : OrphanState → OrphanState → Prop
  -- before `f2fs_delete_entry`, in `f2fs_rename`, `__f2fs_tmpfile` and `recover_dentry`
  | acquire {s : OrphanState} {im : InodeManagement} (hp : s.phase = .running)
      (h : acquireOrphanInode max s.im = some im) :
      OrphanStep max s (s.acquired im)
  -- `f2fs_do_tmpfile` has failed
  | release {s : OrphanState} (hp : s.phase = .running) (hs : 0 < s.slots) :
      OrphanStep max s s.release
  -- `f2fs_new_inode`, on a nid that belongs to no inode
  | newInode {s : OrphanState} {ino : Nat} (hp : s.phase = .running)
      (h : s.inodes ino = none) : OrphanStep max s (s.setInode ino (some ⟨1, true⟩))
  -- `f2fs_add_link` has made the name of a new inode
  | instantiate {s : OrphanState} {ino : Nat} {n : InodeLinks} (hp : s.phase = .running)
      (h : s.inodes ino = some n) (hn : n.isNew = true) :
      OrphanStep max s (s.setInode ino (some { n with isNew := false }))
  -- `init_inode_metadata` with `FI_INC_LINK`
  | incLink {s : OrphanState} {ino : Nat} {n : InodeLinks} (hp : s.phase = .running)
      (h : s.inodes ino = some n) :
      OrphanStep max s ((if n.links = 0 then s.removeOrphan ino else s).setInode ino
        (some { n with links := n.links + 1 }))
  -- the count of a parent directory, which is not a removed one
  | parentLinks {s : OrphanState} {dir : Nat} {n : InodeLinks} (inc : Bool)
      (hp : s.phase = .running) (h : s.inodes dir = some n) (hn : n.links ≠ 0) :
      OrphanStep max s (s.setInode dir
        (some { n with links := if inc then n.links + 1 else n.links - 1 }))
  -- a name goes away; `drop_nlink` expects that it was counted
  | dropNlink {s : OrphanState} {ino : Nat} {n : InodeLinks} (isDir : Bool)
      (hp : s.phase = .running) (hs : 0 < s.slots) (h : s.inodes ino = some n)
      (hnew : n.isNew = false) (hn : n.links ≠ 0) : OrphanStep max s (dropNlink s ino n isDir)
  -- `__f2fs_tmpfile` lists the inode it has made and drops its link
  | tmpfile {s : OrphanState} {ino : Nat} (hp : s.phase = .running) (hs : 0 < s.slots)
      (h : s.inodes ino = some ⟨1, true⟩) :
      OrphanStep max s ((s.addOrphan ino).setInode ino (some ⟨0, false⟩))
  | failedInode {s : OrphanState} {ino : Nat} {n : InodeLinks} (hasNode : Bool)
      (hp : s.phase = .running) (h : s.inodes ino = some n) (hn : n.isNew = true) :
      OrphanStep max s (handleFailedInode max s ino hasNode)
  -- `truncate_node` for the node of an evicted inode without links
  | removeInode {s : OrphanState} {ino : Nat} {n : InodeLinks} (hp : s.phase ≠ .failed)
      (h : s.inodes ino = some n) (hn : n.links = 0) :
      OrphanStep max s ((s.removeOrphan ino).setInode ino none)
  -- the next ino of the pack
  | recover {s : OrphanState} {im : InodeManagement} (ino : Nat) (found : Bool)
      (hp : s.phase = .recovery none) (h : acquireOrphanInode max s.im = some im) :
      OrphanStep max s (recoverOrphan s im ino found)
  -- the inode is gone
  | recovered {s : OrphanState} {ino : Nat} (hp : s.phase = .recovery (some ino)) :
      OrphanStep max s { s.removeOrphan ino with phase := .recovery none }
  -- no slot, or the inode is still there
  | recoverFailed {s : OrphanState} {cur : Option Nat} (hp : s.phase = .recovery cur) :
      OrphanStep max s { s with phase := .failed }
  -- the end of `recover_orphan_inodes`
  | mounted {s : OrphanState} (hp : s.phase = .recovery none) :
      OrphanStep max s { s with phase := .running }

/-- The states of a mount and what follows it. -/
inductive OrphanReach (max : Nat) (inodes : Nat → Option InodeLinks) : OrphanState → Prop
  | mount : OrphanReach max inodes (mountOrphans inodes)
  | step {s s' : OrphanState} (hs : OrphanReach max inodes s) (h : OrphanStep max s s') :
      OrphanReach max inodes s'

/-! ## The invariant -/

structure OrphanBooks (max : Nat) (s : OrphanState) : Prop where
  count : s.im.inoNum = s.im.inoList.length + s.slots
  bound : s.im.inoNum ≤ max
  nodup : s.im.inoList.Nodup
  unlinked : s.phase = .running → ∀ i ∈ s.im.inoList, s.inodes i = some ⟨0, false⟩
  recovering : ∀ cur, s.phase = .recovery cur → ∀ i ∈ s.im.inoList, cur = some i

/-! ## The operations of the list -/

section

variable {im : InodeManagement} {ino : Nat}

theorem addInoEntry_new (h : ino ∉ im.inoList) :
    addInoEntry im ino = { im with inoList := im.inoList ++ [ino] } :=
  if_neg h

theorem removeInoEntry_count :
    (removeInoEntry im ino).inoNum - (removeInoEntry im ino).inoList.length =
      im.inoNum - im.inoList.length := by
  unfold removeInoEntry
  split
  · rename_i h
    have hpos := List.length_pos_of_mem h
    simp only [List.length_erase_of_mem h]
    omega
  · rfl

theorem removeInoEntry_le : (removeInoEntry im ino).inoNum ≤ im.inoNum := by
  unfold removeInoEntry
  split
  · exact Int.sub_le_self _ (by decide)
  · exact le_rfl

theorem removeInoEntry_nodup (h : im.inoList.Nodup) : (removeInoEntry im ino).inoList.Nodup := by
  unfold removeInoEntry
  split
  · exact h.erase ino
  · exact h

theorem mem_removeInoEntry (h : im.inoList.Nodup) {i : Nat} :
    i ∈ (removeInoEntry im ino).inoList ↔ i ≠ ino ∧ i ∈ im.inoList := by
  unfold removeInoEntry
  split
  · exact h.mem_erase_iff
  · rename_i hno
    exact ⟨fun hi => ⟨fun heq => hno (heq ▸ hi), hi⟩, And.right⟩

theorem acquireOrphanInode_eq {max : Nat} {im' : InodeManagement}
    (h : acquireOrphanInode max im = some im') :
    im.inoNum < max ∧ im' = { im with inoNum := im.inoNum + 1 } := by
  unfold acquireOrphanInode at h
  split at h
  · cases h
  · rename_i hlt
    exact ⟨not_le.mp hlt, (Option.some.inj h).symm⟩

end

/-! ## The steps keep the books -/

section

variable {max : Nat} {s : OrphanState} {ino : Nat}

/-- An inode with links, or one that is being made, is not listed. -/
theorem OrphanBooks.notMem {n : InodeLinks} (h : OrphanBooks max s) (hp : s.phase = .running)
    (hn : s.inodes ino = some n) (hne : n ≠ ⟨0, false⟩) : ino ∉ s.im.inoList := by
  intro hin
  have heq := h.unlinked hp ino hin
  rw [hn] at heq
  exact hne (Option.some.inj heq)

/-- An inode that is not listed may change as it likes. -/
theorem OrphanBooks.setInode (h : OrphanBooks max s) (hno : ino ∉ s.im.inoList)
    (n : Option InodeLinks) : OrphanBooks max (s.setInode ino n) where
  count := h.count
  bound := h.bound
  nodup := h.nodup
  unlinked hp i hi := by
    have hne : i ≠ ino := fun heq => hno (heq ▸ hi)
    exact (Function.update_of_ne hne _ _).trans (h.unlinked hp i hi)
  recovering := h.recovering

theorem OrphanBooks.acquired {im : InodeManagement} (h : OrphanBooks max s)
    (hacq : acquireOrphanInode max s.im = some im) : OrphanBooks max (s.acquired im) := by
  obtain ⟨hlt, rfl⟩ := acquireOrphanInode_eq hacq
  refine ⟨?_, ?_, h.nodup, h.unlinked, h.recovering⟩
  · have hcount := h.count
    simp only [OrphanState.acquired]
    omega
  · simp only [OrphanState.acquired]
    omega

theorem OrphanBooks.release (h : OrphanBooks max s) (hs : 0 < s.slots) :
    OrphanBooks max s.release where
  count := by
    have hcount := h.count
    simp only [OrphanState.release, releaseOrphanInode]
    omega
  bound := by
    have hbound := h.bound
    simp only [OrphanState.release, releaseOrphanInode]
    omega
  nodup := h.nodup
  unlinked := h.unlinked
  recovering := h.recovering

theorem OrphanBooks.addOrphan (h : OrphanBooks max s) (hs : 0 < s.slots)
    (hp : s.phase = .running) (hno : ino ∉ s.im.inoList) (hn : s.inodes ino = some ⟨0, false⟩) :
    OrphanBooks max (s.addOrphan ino) := by
  have him : addInoEntry s.im ino = { s.im with inoList := s.im.inoList ++ [ino] } :=
    addInoEntry_new hno
  constructor
  · have hcount := h.count
    simp only [OrphanState.addOrphan, him, List.length_append, List.length_singleton]
    omega
  · simp only [OrphanState.addOrphan, him]
    exact h.bound
  · simp only [OrphanState.addOrphan, him]
    exact h.nodup.append (List.nodup_singleton _) (List.disjoint_singleton.mpr hno)
  · intro hp' i hi
    simp only [OrphanState.addOrphan, him] at hi
    rcases List.mem_append.mp hi with hi | hi
    · exact h.unlinked hp i hi
    · rw [List.mem_singleton.mp hi]
      exact hn
  · intro cur hcur
    exact MountPhase.noConfusion (hp.symm.trans hcur)

/-- The entry goes, and with it the slot. -/
theorem OrphanBooks.removeOrphan (h : OrphanBooks max s) :
    OrphanBooks max (s.removeOrphan ino) where
  count := by
    have hcount := h.count
    have hrem := @removeInoEntry_count s.im ino
    simp only [OrphanState.removeOrphan]
    omega
  bound := removeInoEntry_le.trans h.bound
  nodup := removeInoEntry_nodup h.nodup
  unlinked hp i hi := h.unlinked hp i ((mem_removeInoEntry h.nodup).mp hi).2
  recovering cur hp i hi := h.recovering cur hp i ((mem_removeInoEntry h.nodup).mp hi).2

theorem notMem_removeOrphan (h : OrphanBooks max s) :
    ino ∉ (s.removeOrphan ino).im.inoList :=
  fun hi => ((mem_removeInoEntry h.nodup).mp hi).1 rfl

/-- The link count reaches zero only from one that is not zero, so the inode was not listed. -/
theorem OrphanBooks.dropNlink {n : InodeLinks} (h : OrphanBooks max s) (isDir : Bool)
    (hp : s.phase = .running) (hs : 0 < s.slots) (hn : s.inodes ino = some n)
    (hnew : n.isNew = false) (hne : n.links ≠ 0) :
    OrphanBooks max (dropNlink s ino n isDir) := by
  have hno := h.notMem hp hn fun heq => hne (congrArg InodeLinks.links heq)
  have hset := h.setInode hno (some { n with links := droppedLinks n isDir })
  unfold Checkpoint.dropNlink
  by_cases hzero : droppedLinks n isDir = 0
  · simp only [if_pos hzero]
    refine hset.addOrphan hs hp hno ?_
    exact (Function.update_self ..).trans (by rw [hzero, hnew])
  · simp only [if_neg hzero]
    exact hset.release hs

theorem OrphanBooks.failedInode {n : InodeLinks} (h : OrphanBooks max s) (hasNode : Bool)
    (hp : s.phase = .running) (hn : s.inodes ino = some n) (hnew : n.isNew = true) :
    OrphanBooks max (handleFailedInode max s ino hasNode) := by
  have hno := h.notMem hp hn fun heq => by rw [heq] at hnew; cases hnew
  have hset := h.setInode hno (some ⟨0, false⟩)
  unfold handleFailedInode
  cases hasNode with
  | false => exact hset
  | true =>
    simp only [if_true]
    split
    · rename_i im hacq
      have hlist : ((s.setInode ino (some ⟨0, false⟩)).acquired im).im.inoList =
          s.im.inoList := by
        rw [(acquireOrphanInode_eq hacq).2]
        rfl
      exact (hset.acquired hacq).addOrphan (Nat.succ_pos _) hp (hlist ▸ hno)
        (Function.update_self ..)
    · exact hset

/-- The list is empty between two inos of the pack, so the next one is new to it. -/
theorem OrphanBooks.recover {im : InodeManagement} (h : OrphanBooks max s) (ino : Nat)
    (found : Bool) (hp : s.phase = .recovery none)
    (hacq : acquireOrphanInode max s.im = some im) :
    OrphanBooks max (recoverOrphan s im ino found) := by
  have hnil : s.im.inoList = [] := by
    rw [List.eq_nil_iff_forall_not_mem]
    intro i hi
    cases h.recovering none hp i hi
  obtain ⟨hlt, rfl⟩ := acquireOrphanInode_eq hacq
  have him : (recoverOrphan s { s.im with inoNum := s.im.inoNum + 1 } ino found).im =
      ⟨s.im.inoNum + 1, [ino]⟩ := by
    show addInoEntry ⟨s.im.inoNum + 1, s.im.inoList⟩ ino = _
    rw [hnil, addInoEntry_new List.not_mem_nil, List.nil_append]
  have hcount := h.count
  rw [hnil, List.length_nil] at hcount
  constructor
  · rw [him]
    show s.im.inoNum + 1 = (1 : Nat) + ((s.slots + 1 - 1 : Nat) : Int)
    omega
  · rw [him]
    show s.im.inoNum + 1 ≤ max
    omega
  · rw [him]
    exact List.nodup_singleton ino
  · intro hrun
    cases found <;> cases hrun
  · intro cur hcur i hi
    rw [him] at hi
    rw [List.mem_singleton.mp hi]
    cases found <;> cases hcur
    rfl

theorem OrphanStep.books {s' : OrphanState} (hstep : OrphanStep max s s')
    (h : OrphanBooks max s) : OrphanBooks max s' := by
  cases hstep with
  | acquire hp hacq => exact h.acquired hacq
  | release hp hs => exact h.release hs
  | newInode hp hn =>
    refine h.setInode (fun hin => ?_) _
    have heq := h.unlinked hp _ hin
    rw [hn] at heq
    cases heq
  | instantiate hp hn hnew =>
    exact h.setInode (h.notMem hp hn fun heq => by rw [heq] at hnew; cases hnew) _
  | @incLink ino n hp hn =>
    by_cases hzero : n.links = 0
    · rw [if_pos hzero]
      exact h.removeOrphan.setInode (notMem_removeOrphan h) _
    · rw [if_neg hzero]
      exact h.setInode (h.notMem hp hn fun heq => hzero (congrArg InodeLinks.links heq)) _
  | parentLinks inc hp hn hne =>
    exact h.setInode (h.notMem hp hn fun heq => hne (congrArg InodeLinks.links heq)) _
  | dropNlink isDir hp hs hn hnew hne => exact h.dropNlink isDir hp hs hn hnew hne
  | @tmpfile ino hp hs hn =>
    have hno := h.notMem hp hn fun heq => absurd (congrArg InodeLinks.isNew heq) (by decide)
    exact (h.setInode hno (some ⟨0, false⟩)).addOrphan hs hp hno (Function.update_self ..)
  | failedInode hasNode hp hn hnew => exact h.failedInode hasNode hp hn hnew
  | removeInode hp hn hzero => exact h.removeOrphan.setInode (notMem_removeOrphan h) _
  | recover ino found hp hacq => exact h.recover ino found hp hacq
  | @recovered ino hp =>
    have hrem : OrphanBooks max (s.removeOrphan ino) := h.removeOrphan
    refine ⟨hrem.count, hrem.bound, hrem.nodup, fun hrun => ?_, fun cur _ i hi => ?_⟩
    · cases hrun
    · have hcur := hrem.recovering _ hp i hi
      exact absurd hi (Option.some.inj hcur ▸ notMem_removeOrphan h)
  | recoverFailed hp =>
    refine ⟨h.count, h.bound, h.nodup, fun hrun => ?_, fun cur hcur => ?_⟩
    · cases hrun
    · cases hcur
  | mounted hp =>
    refine ⟨h.count, h.bound, h.nodup, fun _ i hi => ?_, fun cur hcur => ?_⟩
    · cases h.recovering none hp i hi
    · cases hcur

end

theorem mountOrphans_books (max : Nat) (inodes : Nat → Option InodeLinks) :
    OrphanBooks max (mountOrphans inodes) where
  count := rfl
  bound := Int.natCast_nonneg max
  nodup := List.nodup_nil
  unlinked hrun := by cases hrun
  recovering _ _ i hi := absurd hi List.not_mem_nil

theorem OrphanReach.books {max : Nat} {inodes : Nat → Option InodeLinks} {s : OrphanState}
    (h : OrphanReach max inodes s) : OrphanBooks max s := by
  induction h with
  | mount => exact mountOrphans_books max inodes
  | step _ hstep ih => exact hstep.books ih

/-! ## Reading the pages back -/

/-- The meta pages after the writes. -/
def putPages (pages : Nat → PackBlock) (writes : List (Nat × PackBlock)) : Nat → PackBlock :=
  writes.foldl (fun pages w => Function.update pages w.1 w.2) pages

/-- The inner loop of `recover_orphan_inodes`: `ino[j]` for each `j` below `entry_count`. -/
def orphanEntries : PackBlock → List Nat
  | .orphan blk => (List.range blk.entryCount).map fun j => blk.ino.getD j 0
  | _ => []

/-- The inos that `recover_orphan_inodes` comes by. -/
def recoverOrphanInos (sbi : SbInfo) (startBlk : Nat) (ckpt : Ckpt) (pages : Nat → PackBlock) :
    List Nat :=
  (orphanReads sbi startBlk ckpt).flatMap fun addr => orphanEntries (pages addr)

/-- Every page counts the inos it holds. -/
def PackBlock.Counted : PackBlock → Prop
  | .orphan blk => blk.entryCount = blk.ino.length
  | _ => True

theorem orphanEntries_counted {b : PackBlock} (h : b.Counted) : orphanEntries b = b.orphanInos := by
  cases b with
  | orphan blk =>
    simp only [orphanEntries, PackBlock.orphanInos]
    rw [h]
    apply List.ext_getElem
    · rw [List.length_map, List.length_range]
    · intro j h1 h2
      rw [List.getElem_map, List.getElem_range, List.getD_eq_getElem _ _ h2]
  | _ => rfl

theorem orphanStep_counted {n ino : Nat} {w : OrphanWriter} (h : ∀ e ∈ w.out, e.2.Counted) :
    ∀ e ∈ (orphanStep n w ino).out, e.2.Counted := by
  unfold orphanStep
  cases hp : w.page with
  | none =>
    simp only
    split
    · intro e he
      rcases List.mem_append.mp he with he | he
      · exact h e he
      · rw [List.mem_singleton.mp he]
        rfl
    · exact h
  | some page =>
    simp only [hp]
    split
    · intro e he
      rcases List.mem_append.mp he with he | he
      · exact h e he
      · rw [List.mem_singleton.mp he]
        rfl
    · exact h

theorem writeOrphanInodes_counted (start : Nat) (orphans : List Nat) :
    ∀ e ∈ writeOrphanInodes start orphans, e.2.Counted := by
  have hloop : ∀ (n : Nat) (l : List Nat) (w : OrphanWriter), (∀ e ∈ w.out, e.2.Counted) →
      ∀ e ∈ (l.foldl (orphanStep n) w).out, e.2.Counted := by
    intro n l
    induction l with
    | nil => exact fun w h => h
    | cons ino l ih => exact fun w h => ih _ (orphanStep_counted h)
  unfold writeOrphanInodes OrphanWriter.finish
  dsimp only
  split
  · exact hloop _ _ _ fun e he => absurd he List.not_mem_nil
  · intro e he
    rcases List.mem_append.mp he with he | he
    · exact hloop _ _ _ (fun e he => absurd he List.not_mem_nil) e he
    · rw [List.mem_singleton.mp he]
      rfl

/-- A page that one write names holds what it wrote. -/
theorem putPages_of_mem {pages : Nat → PackBlock} {writes : List (Nat × PackBlock)}
    (h : (writes.map Prod.fst).Nodup) {w : Nat × PackBlock} (hw : w ∈ writes) :
    putPages pages writes w.1 = w.2 := by
  have hkeep : ∀ (writes : List (Nat × PackBlock)) (pages : Nat → PackBlock) (a : Nat),
      a ∉ writes.map Prod.fst → putPages pages writes a = pages a := by
    intro writes
    induction writes with
    | nil => exact fun _ _ _ => rfl
    | cons v writes ih =>
      intro pages a ha
      have hne : a ≠ v.1 := fun heq => ha (heq ▸ List.mem_cons_self)
      exact (ih _ a fun hin => ha (List.mem_cons_of_mem _ hin)).trans
        (Function.update_of_ne hne _ _)
  induction writes generalizing pages with
  | nil => cases hw
  | cons v writes ih =>
    rw [List.map_cons, List.nodup_cons] at h
    rcases List.mem_cons.mp hw with rfl | hw
    · exact (hkeep writes _ _ h.1).trans (Function.update_self ..)
    · exact ih h.2 hw

/-- Reading the pages of a run back in its order gives the inos it holds. -/
theorem flatMap_putPages {start : Nat} {bs : List PackBlock} (h : bs.length ≤ 2 ^ 32)
    (hbs : ∀ e ∈ blocksAt start bs, e.2.Counted) (pages : Nat → PackBlock) :
    ((List.range bs.length).map fun i => u32 (start + i)).flatMap
        (fun addr => orphanEntries (putPages pages (blocksAt start bs) addr)) =
      bs.flatMap PackBlock.orphanInos := by
  have hsnd : (blocksAt start bs).map Prod.snd = bs := map_snd_placed start bs
  have hread : ∀ w ∈ blocksAt start bs,
      orphanEntries (putPages pages (blocksAt start bs) w.1) = w.2.orphanInos := by
    intro w hw
    have hnodup : ((blocksAt start bs).map Prod.fst).Nodup := nodup_placed start h
    rw [putPages_of_mem hnodup hw]
    exact orphanEntries_counted (hbs w hw)
  calc _ = ((blocksAt start bs).map Prod.fst).flatMap
        (fun addr => orphanEntries (putPages pages (blocksAt start bs) addr)) := by
        rw [map_fst_blocksAt]
    _ = (blocksAt start bs).flatMap fun w => w.2.orphanInos := by
        rw [List.flatMap_map]
        exact List.flatMap_congr hread
    _ = ((blocksAt start bs).map Prod.snd).flatMap PackBlock.orphanInos :=
        (List.flatMap_map ..).symm
    _ = bs.flatMap PackBlock.orphanInos := by rw [hsnd]

/-! ## The mounted file system -/

/-- `KMALLOC_MAX_SIZE`. -/
def kmallocMaxSize : Nat := 2 ^ 22

/-- What `get_valid_checkpoint` asks `f2fs_kzalloc` for, `cp_blks * blk_size` bytes; it reads
    the first page of the pack into them. -/
def ckptBytes (sbi : SbInfo) : Nat := u32 (1 + sbi.cpPayload) * pageSize

/-- `get_valid_checkpoint` has its memory. -/
def CkptAllocated (sbi : SbInfo) : Prop := 0 < ckptBytes sbi ∧ ckptBytes sbi ≤ kmallocMaxSize

instance (sbi : SbInfo) : Decidable (CkptAllocated sbi) := instDecidableAnd

theorem CkptAllocated.payload {sbi : SbInfo} (h : CkptAllocated sbi) :
    sbi.cpPayload ≤ 1023 := by
  obtain ⟨hpos, hle⟩ := h
  have hlt := sbi.cpPayload_lt
  unfold ckptBytes kmallocMaxSize pageSize u32 at *
  omega

/-- The reader counts the blocks from `cp_pack_start_sum`, the writer from `ino_num`. -/
theorem recoverOrphanInos_write {sbi : SbInfo} (hckpt : CkptAllocated sbi) {orphans : List Nat}
    (hmax : orphans.length ≤ maxOrphans sbi) (needFsck : Bool) (logs : CursegType → CursegPos)
    (reason : CpReason) (ckpt : Ckpt) (startBlk : Nat) (pages : Nat → PackBlock) :
    recoverOrphanInos sbi startBlk (fillCkpt sbi needFsck logs orphans.length reason ckpt)
        (putPages pages
          (writeOrphanInodes (startBlk + 1 + payloadBlks sbi.cpPayload) orphans)) =
      orphans := by
  have hp := hckpt.payload
  have hlt : maxOrphans sbi < 2 ^ 32 := u32_lt _
  obtain ⟨bs, hwrite, hlen, -, hinos⟩ :=
    writeOrphanInodes_eq (startBlk + 1 + payloadBlks sbi.cpPayload) orphans
  have hblocks : getOrphanBlocks orphans.length ≤ 2 ^ 23 := by
    unfold getOrphanBlocks f2fsOrphansPerBlock
    omega
  have hcount : u32Sub (u32Sub (u32 (1 + sbi.cpPayload + getOrphanBlocks orphans.length)) 1)
      sbi.cpPayload = bs.length := by
    rw [hlen, u32_of_lt (by omega)]
    unfold u32Sub
    omega
  have hstart : startBlk + 1 + payloadBlks sbi.cpPayload = startBlk + 1 + sbi.cpPayload := by
    rw [payloadBlks_eq (by omega)]
  have hcounted := writeOrphanInodes_counted (startBlk + 1 + payloadBlks sbi.cpPayload) orphans
  rw [hwrite] at hcounted ⊢
  have hflag : (fillCkpt sbi needFsck logs orphans.length reason ckpt).flags.orphanPresent =
      decide (orphans.length ≠ 0) := rfl
  have hsum : (fillCkpt sbi needFsck logs orphans.length reason ckpt).cpPackStartSum =
      u32 (1 + sbi.cpPayload + getOrphanBlocks orphans.length) := rfl
  unfold recoverOrphanInos orphanReads
  rw [hflag, hsum]
  dsimp only
  rw [hcount]
  by_cases hz : orphans.length = 0
  · rw [if_neg (by simpa using hz), List.length_eq_zero_iff.mp hz]
    rfl
  · have hlist := flatMap_putPages (by omega) hcounted pages
    rw [hinos] at hlist
    rw [if_pos (by simpa using hz)]
    refine Eq.trans ?_ hlist
    refine congrArg (List.flatMap _) (List.map_congr_left fun i _ => ?_)
    rw [u32_u32_add, hstart]

/-- In every state of a mount and what follows it the books of the list are right, and what a
    checkpoint writes of the list is what a mount reads. -/
theorem orphans_accounted {sbi : SbInfo} (hckpt : CkptAllocated sbi)
    {inodes : Nat → Option InodeLinks} {s : OrphanState}
    (h : OrphanReach (maxOrphans sbi) inodes s) :
    s.im.inoNum = s.im.inoList.length + s.slots ∧
      0 ≤ s.im.inoNum ∧ s.im.inoNum ≤ maxOrphans sbi ∧ s.im.inoList.Nodup ∧
      (s.slots = 0 → ∀ (needFsck : Bool) (logs : CursegType → CursegPos) (reason : CpReason)
        (ckpt : Ckpt) (startBlk : Nat) (pages : Nat → PackBlock),
        (writeOrphanInodes (startBlk + 1 + payloadBlks sbi.cpPayload) s.im.inoList).map Prod.fst =
            (List.range (getOrphanBlocks s.im.inoNum.toNat)).map
              (fun k => u32 (startBlk + 1 + payloadBlks sbi.cpPayload + k)) ∧
          recoverOrphanInos sbi startBlk
              (fillCkpt sbi needFsck logs s.im.inoNum.toNat reason ckpt)
              (putPages pages (writeOrphanInodes
                (startBlk + 1 + payloadBlks sbi.cpPayload) s.im.inoList)) =
            s.im.inoList) := by
  have hbooks := h.books
  have hcount := hbooks.count
  have hbound := hbooks.bound
  refine ⟨hcount, by omega, hbound, hbooks.nodup, ?_⟩
  intro hslots needFsck logs reason ckpt startBlk pages
  have hnum : s.im.inoNum.toNat = s.im.inoList.length := by omega
  rw [hnum]
  constructor
  · obtain ⟨bs, hwrite, hlen, -, -⟩ :=
      writeOrphanInodes_eq (startBlk + 1 + payloadBlks sbi.cpPayload) s.im.inoList
    rw [hwrite, map_fst_blocksAt, hlen]
  · exact recoverOrphanInos_write hckpt (by omega) needFsck logs reason ckpt startBlk pages

/-- An empty file system with a new inode. -/
def newFile : OrphanState :=
  { mountOrphans (fun _ => none) with phase := .running }.setInode 5 (some ⟨1, true⟩)

/-- The file has its name, and the name is about to go. -/
def namedFile : OrphanState := (newFile.setInode 5 (some ⟨1, false⟩)).acquired ⟨1, []⟩

/-- The name is gone. -/
def unlinkedFile : OrphanState := dropNlink namedFile 5 ⟨1, false⟩ false

theorem unlinkedFile_reach :
    OrphanReach (maxOrphans smallSbi) (fun _ => none) unlinkedFile := by
  have hnew : OrphanReach (maxOrphans smallSbi) (fun _ => none) newFile :=
    .step (.step .mount (.mounted rfl)) (.newInode rfl rfl)
  have hname := OrphanReach.step hnew
    (@OrphanStep.instantiate _ newFile 5 ⟨1, true⟩ rfl rfl rfl)
  have hslot : acquireOrphanInode (maxOrphans smallSbi) ⟨0, []⟩ = some ⟨1, []⟩ :=
    if_neg (by decide +kernel)
  exact .step (.step hname (.acquire rfl hslot))
    (@OrphanStep.dropNlink _ namedFile 5 ⟨1, false⟩ false rfl Nat.one_pos
      rfl rfl (by decide))

theorem unlinkedFile_accounted : unlinkedFile.im.inoNum = 1 ∧
    recoverOrphanInos smallSbi 512
      (fillCkpt smallSbi false fullPack.logs 1 fullPack.reason fullPack.ckpt)
      (putPages (fun _ => .head) (writeOrphanInodes 513 [5])) = [5] :=
  have hckpt : CkptAllocated smallSbi := by decide +kernel
  have h := orphans_accounted hckpt unlinkedFile_reach
  ⟨h.1, (h.2.2.2.2 rfl false fullPack.logs fullPack.reason fullPack.ckpt 512 fun _ => .head).2⟩

end F2fs.Checkpoint

/-
  Project ids and `FI_PROJ_INHERIT`: what a directory with the flag holds has its project id.

  `f2fs_link` and `f2fs_rename` check the one inode that they place, and a new inode takes
  the id of its directory.  `f2fs_cross_rename` places two inodes.  For the one that goes to
  `old_dir` it tests the flag of `new_dir`, so an exchange out of a directory with the flag
  into one without it is not checked.  `projInherit_runs` asks for this check and for nothing
  else.
-/
import F2fs.Namei.CrossRename

namespace F2fs.Namei

open Checkpoint

/-! ## Containment -/

/-- The inode may have an entry in the directory. -/
def FsState.Fits (s : FsState) (dir ino : Nat) : Prop :=
  (s.inodes dir).fiProjInherit = true → (s.inodes ino).iProjid = (s.inodes dir).iProjid

/-- Every entry is of an inode that fits. -/
def FsState.Contained (s : FsState) : Prop :=
  ∀ dir, ∀ de ∈ (s.inodes dir).dentries, s.Fits dir de.ino

/-- What `do_read_inode` makes of the flag, and of the id without the feature. -/
def FsState.ProjLoaded (s : FsState) : Prop :=
  ∀ ino, (s.inodes ino).projinheritFl = (s.inodes ino).fiProjInherit ∧
    (s.projectQuota = false → (s.inodes ino).iProjid = f2fsDefProjid)

structure ProjInv (s : FsState) : Prop where
  contained : s.Contained
  loaded : s.ProjLoaded

/-- The project id of an inode and its two flags. -/
def InodeInfo.projPart (n : InodeInfo) : Nat × Bool × Bool :=
  (n.iProjid, n.projinheritFl, n.fiProjInherit)

/-! ## What a step may do -/

/-- Nothing but entries changes, and an entry that comes is of an inode that fits. -/
structure Admits (s s' : FsState) : Prop where
  projPart : ∀ x, (s'.inodes x).projPart = (s.inodes x).projPart
  quota : s'.projectQuota = s.projectQuota
  named : ∀ dir, ∀ de ∈ (s'.inodes dir).dentries,
    (∃ de' ∈ (s.inodes dir).dentries, de'.ino = de.ino) ∨ s.Fits dir de.ino

section

variable {s s' s'' : FsState} {dir ino x : Nat}

theorem Admits.projid (h : Admits s s') (x : Nat) : (s'.inodes x).iProjid = (s.inodes x).iProjid :=
  congrArg Prod.fst (h.projPart x)

theorem Admits.flag (h : Admits s s') (x : Nat) :
    (s'.inodes x).fiProjInherit = (s.inodes x).fiProjInherit :=
  congrArg (fun p => p.2.2) (h.projPart x)

theorem Admits.fits (h : Admits s s') : s'.Fits dir ino ↔ s.Fits dir ino := by
  unfold FsState.Fits
  rw [h.flag, h.projid, h.projid]

theorem Admits.refl (s : FsState) : Admits s s where
  projPart _ := rfl
  quota := rfl
  named _ de hde := .inl ⟨de, hde, rfl⟩

theorem Admits.trans (h : Admits s s') (h' : Admits s' s'') : Admits s s'' where
  projPart x := (h'.projPart x).trans (h.projPart x)
  quota := h'.quota.trans h.quota
  named dir de hde := by
    rcases h'.named dir de hde with ⟨de', hde', hino⟩ | hfits
    · rw [← hino]
      exact h.named dir de' hde'
    · exact .inr (h.fits.mp hfits)

/-- A step that only admits what fits keeps the invariant. -/
theorem Admits.inv (h : Admits s s') (hinv : ProjInv s) : ProjInv s' where
  contained dir de hde := by
    rw [h.fits]
    rcases h.named dir de hde with ⟨de', hde', hino⟩ | hfits
    · exact hino ▸ hinv.contained dir de' hde'
    · exact hfits
  loaded x := by
    have hfl : (s'.inodes x).projinheritFl = (s.inodes x).projinheritFl :=
      congrArg (fun p => p.2.1) (h.projPart x)
    rw [hfl, h.flag, h.projid, h.quota]
    exact hinv.loaded x

/-! ## The assignments -/

/-- An assignment that leaves the project and adds no entry. -/
theorem modifyInode_admits {f : InodeInfo → InodeInfo}
    (hproj : ∀ n, (f n).projPart = n.projPart) (hsub : ∀ n, (f n).dentries ⊆ n.dentries) :
    Admits s (s.modifyInode ino f) where
  projPart x := modifyInode_keeps InodeInfo.projPart hproj
  quota := rfl
  named dir de hde := by
    rw [modifyInode_inodes] at hde
    split at hde
    · rename_i hdir
      exact .inl ⟨de, hdir ▸ hsub _ hde, rfl⟩
    · exact .inl ⟨de, hde, rfl⟩

/-- The inodes are what they were. -/
theorem admits_of_inodes (h : s'.inodes = s.inodes) (hq : s'.projectQuota = s.projectQuota) :
    Admits s s' where
  projPart x := by rw [h]
  quota := hq
  named dir de hde := .inl ⟨de, h ▸ hde, rfl⟩

theorem setLink_admits {i : Nat} (h : s.Fits dir ino) : Admits s (s.setLink dir i ino) where
  projPart x := setLink_keeps InodeInfo.projPart fun _ _ => rfl
  quota := rfl
  named d de hde := by
    rw [setLink_dentries] at hde
    split at hde
    · rename_i hd
      subst hd
      obtain ⟨j, hj⟩ := List.mem_iff_getElem?.mp hde
      rw [List.getElem?_modify] at hj
      cases hat : (s.inodes d).dentries[j]? with
      | none =>
        rw [hat] at hj
        cases hj
      | some de' =>
        rw [hat] at hj
        obtain rfl := Option.some.inj hj
        dsimp only
        by_cases hij : i = j
        · rw [if_pos hij]
          exact .inr h
        · rw [if_neg hij]
          exact .inl ⟨de', List.mem_of_getElem? hat, rfl⟩
    · exact .inl ⟨de, hde, rfl⟩

theorem updateDentry_admits {name : Name} (h : s.Fits dir ino) :
    Admits s (s.updateDentry dir name ino) where
  projPart x := modifyInode_keeps InodeInfo.projPart fun _ => rfl
  quota := rfl
  named d de hde := by
    unfold FsState.updateDentry at hde
    rw [modifyInode_inodes] at hde
    split at hde
    · rename_i hd
      subst hd
      rcases List.mem_append.mp hde with hde | hde
      · exact .inl ⟨de, hde, rfl⟩
      · obtain rfl := List.mem_singleton.mp hde
        exact .inr h
    · exact .inl ⟨de, hde, rfl⟩

theorem setParent_admits : Admits s (s.setParent ino dir) :=
  modifyInode_admits (fun _ => rfl) fun _ => List.Subset.refl _

theorem linksWrite_admits {inc : Bool} : Admits s (s.linksWrite ino inc) :=
  modifyInode_admits (fun _ => rfl) fun _ => List.Subset.refl _

theorem fileLostPino_admits : Admits s (s.fileLostPino ino) :=
  modifyInode_admits (fun _ => rfl) fun _ => List.Subset.refl _

theorem exchangeLinks_admits {gains loses : Bool} : Admits s (s.exchangeLinks dir gains loses) := by
  unfold FsState.exchangeLinks
  split
  · exact Admits.refl s
  · exact linksWrite_admits

theorem deleteEntry_admits {i : Nat} : Admits s (s.deleteEntry dir i) :=
  (admits_of_inodes rfl rfl : Admits s (s.addTransDir dir)).trans
    (modifyInode_admits (fun _ => rfl) fun _ => List.eraseIdx_subset)

theorem acquireOrphan_admits : Admits s s.acquireOrphan.2 := by
  unfold FsState.acquireOrphan
  split <;> exact admits_of_inodes rfl rfl

theorem iput_admits {evicts : Bool} : Admits s (s.iput ino evicts) := by
  unfold FsState.iput
  split
  · exact admits_of_inodes rfl rfl
  · exact Admits.refl s

theorem handleFailedInode_admits {hasNode evicts : Bool} :
    Admits s (s.handleFailedInode ino hasNode evicts) := by
  unfold FsState.handleFailedInode
  refine Admits.trans ?_ iput_admits
  have hclear : Admits s (s.modifyInode ino fun n => { n with nlink := 0 }) :=
    modifyInode_admits (fun _ => rfl) fun _ => List.Subset.refl _
  cases hasNode with
  | false => exact hclear
  | true =>
    refine hclear.trans ?_
    have hacquire := acquireOrphan_admits (s := s.modifyInode ino fun n => { n with nlink := 0 })
    rw [if_pos rfl]
    generalize FsState.acquireOrphan _ = r at hacquire ⊢
    match r with
    | (some _, s) => exact hacquire
    | (none, s) => exact hacquire.trans (admits_of_inodes rfl rfl)

theorem dropNlink_admits : Admits s (s.dropNlink dir ino) := by
  have hif : ∀ (s : FsState) (b : Bool) (x : Nat),
      Admits s (if b then s.linksWrite x false else s) := by
    intro s b x
    split
    · exact linksWrite_admits
    · exact Admits.refl s
  unfold FsState.dropNlink
  extract_lets s₁ s₂ s₃
  have h₁ : Admits s s₁ := hif s _ dir
  have h₂ : Admits s₁ s₂ := linksWrite_admits
  have h₃ : Admits s₂ s₃ := hif s₂ _ ino
  refine h₁.trans (h₂.trans (h₃.trans ?_))
  split <;> exact admits_of_inodes rfl rfl

/-! ## Links -/

theorem initInodeMetadata_admits : Admits s (s.initInodeMetadata ino dir) := by
  unfold FsState.initInodeMetadata
  extract_lets n n'
  have hproj : n'.projPart = n.projPart := by
    show InodeInfo.projPart (if _ then _ else _) = _
    split <;> rfl
  have hsub : n'.dentries ⊆ n.dentries := by
    show InodeInfo.dentries (if _ then _ else _) ⊆ _
    split
    · exact List.nil_subset _
    · exact List.Subset.refl _
  have hset : ∀ (t : FsState) (m : InodeInfo), t.inodes = s.inodes →
      t.projectQuota = s.projectQuota → m.projPart = n'.projPart → m.dentries = n'.dentries →
      Admits s (t.setInode ino m) := by
    intro t m ht hq hm hd
    refine ⟨fun x => ?_, hq, fun d de hde => ?_⟩
    · show InodeInfo.projPart (Function.update t.inodes ino m x) = _
      rw [Function.update_apply, ht]
      split
      · rename_i hx
        rw [hm, hproj, hx]
      · rfl
    · replace hde : de ∈ (Function.update t.inodes ino m d).dentries := hde
      rw [Function.update_apply, ht] at hde
      split at hde
      · rename_i hd'
        exact .inl ⟨de, hd' ▸ hsub (hd ▸ hde), rfl⟩
      · exact .inl ⟨de, hde, rfl⟩
  split
  · refine hset _ _ ?_ ?_ rfl rfl
    · show FsState.inodes (if _ then _ else _) = _
      split <;> rfl
    · show FsState.projectQuota (if _ then _ else _) = _
      split <;> rfl
  · exact hset _ _ rfl rfl rfl rfl

theorem failInodeMetadata_admits : Admits s (s.failInodeMetadata ino) := by
  unfold FsState.failInodeMetadata
  split
  · exact modifyInode_admits (fun _ => rfl) fun _ => List.Subset.refl _
  · exact Admits.refl s

theorem updateParentMetadata_admits : Admits s (s.updateParentMetadata dir ino) := by
  unfold FsState.updateParentMetadata
  extract_lets n s'
  have hlinks : Admits s s' := by
    show Admits s (if _ then _ else _)
    split
    · exact linksWrite_admits
    · exact Admits.refl s
  exact hlinks.trans (modifyInode_admits (fun _ => rfl) fun _ => List.Subset.refl _)

/-- A link to an inode that fits. -/
theorem doAddLink_admits (f : AddLinkFaults) (name : Name) (h : s.Fits dir ino) :
    Admits s (s.doAddLink f dir name ino).2 := by
  unfold FsState.doAddLink
  extract_lets s'
  have hconvert : Admits s s' := by
    show Admits s (if _ then _ else _)
    split
    · exact modifyInode_admits (fun _ => rfl) fun _ => List.Subset.refl _
    · exact Admits.refl s
  split
  · exact hconvert
  · exact hconvert.trans failInodeMetadata_admits
  · have hinit : Admits s (s'.initInodeMetadata ino dir) :=
      hconvert.trans initInodeMetadata_admits
    have hpino : ∀ t : FsState, Admits t (t.modifyInode ino fun n => { n with iPino := dir }) :=
      fun t => modifyInode_admits (fun _ => rfl) fun _ => List.Subset.refl _
    exact hinit.trans ((updateDentry_admits (hinit.fits.mpr h)).trans
      ((hpino _).trans updateParentMetadata_admits))

theorem addLink_admits (f : AddLinkFaults) (name : Name) (h : s.Fits dir ino) :
    Admits s (s.addLink f dir name ino).2 := by
  unfold FsState.addLink
  split
  · exact Admits.refl s
  · split
    · exact Admits.refl s
    · exact Admits.refl s
    · exact doAddLink_admits f name h

/-! ## New inodes -/

/-- The nid belongs to no inode of the call, and no entry names it. -/
def FsState.FreeNid (s : FsState) (ino : Nat) (used : List Nat) : Prop :=
  ino ∉ used ∧ ∀ dir, ∀ de ∈ (s.inodes dir).dentries, de.ino ≠ ino

/-- A new inode is there that fits. -/
structure Spawned (s s' : FsState) (dir ino : Nat) : Prop where
  inv : ProjInv s'
  fits : s'.Fits dir ino
  others : ∀ x, x ≠ ino → (s'.inodes x).projPart = (s.inodes x).projPart

theorem Spawned.admits (h : Spawned s s' dir ino) (h' : Admits s' s'') : Spawned s s'' dir ino where
  inv := h'.inv h.inv
  fits := h'.fits.mpr h.fits
  others x hx := (h'.projPart x).trans (h.others x hx)

theorem newInode_cases {used : List Nat} (fault : Option Errno) (mode : FileType)
    (hinv : ProjInv s) (hfree : s.FreeNid ino used) (hdir : dir ∈ used) :
    (∃ e, s.newInode fault dir ino mode = (some e, s)) ∨
      ∃ s', s.newInode fault dir ino mode = (none, s') ∧ Spawned s s' dir ino := by
  cases fault with
  | some e => exact .inl ⟨e, rfl⟩
  | none =>
    right
    refine ⟨_, rfl, ?_⟩
    have hne : dir ≠ ino := fun h => hfree.1 (h ▸ hdir)
    have hself : ∀ n, (s.setInode ino n).inodes ino = n := fun n => Function.update_self ..
    have hother : ∀ n x, x ≠ ino → (s.setInode ino n).inodes x = s.inodes x :=
      fun n x hx => Function.update_of_ne hx ..
    refine ⟨⟨fun d de hde => ?_, fun x => ?_⟩, ?_, fun x hx => by rw [hother _ x hx]⟩
    · by_cases hd : d = ino
      · rw [hd, hself] at hde
        cases hde
      · rw [hother _ d hd] at hde
        unfold FsState.Fits
        rw [hother _ d hd, hother _ de.ino (hfree.2 d de hde)]
        exact hinv.contained d de hde
    · by_cases hx : x = ino
      · rw [hx, hself]
        refine ⟨rfl, fun hq => ?_⟩
        have hq : s.projectQuota = false := hq
        show (if _ then _ else _) = _
        rw [hq]
        rfl
      · rw [hother _ x hx]
        exact hinv.loaded x
    · unfold FsState.Fits
      rw [hself, hother _ dir hne]
      intro hflag
      obtain ⟨hfl, hquota⟩ := hinv.loaded dir
      show (if _ then _ else _) = _
      rw [hfl, hflag]
      cases hq : s.projectQuota with
      | true => rfl
      | false => exact (hquota hq).symm

theorem makeInode_inv {used : List Nat} {f : CreateFaults} {incLink : Bool} {name : Name}
    {mode : FileType} (hinv : ProjInv s) (hfree : s.FreeNid ino used) (hdir : dir ∈ used) :
    ProjInv (s.makeInode f incLink dir name ino mode).2 ∧
      ((s.makeInode f incLink dir name ino mode).1 = none →
        (s.makeInode f incLink dir name ino mode).2.Fits dir ino) := by
  have hmark : ∀ (t : FsState) (b : Bool),
      Admits t (t.modifyInode ino fun n => { n with fiIncLink := b }) :=
    fun t b => modifyInode_admits (fun _ => rfl) fun _ => List.Subset.refl _
  unfold FsState.makeInode
  split
  · exact ⟨hinv, fun h => by cases h⟩
  · split
    · exact ⟨hinv, fun h => by cases h⟩
    · rcases newInode_cases f.newInode mode hinv hfree hdir with ⟨e, he⟩ | ⟨s₁, he, hspawned⟩
      · rw [he]
        exact ⟨hinv, fun h => by cases h⟩
      · rw [he]
        dsimp only
        have hmarked := hspawned.admits (hmark s₁ incLink)
        have hlink := hmarked.admits (addLink_admits f.addLink name hmarked.fits)
        generalize FsState.addLink _ f.addLink dir name ino = r at hlink ⊢
        match r with
        | (none, s₂) => exact ⟨hlink.inv, fun _ => hlink.fits⟩
        | (some e, s₂) =>
          refine ⟨?_, fun h => by cases h⟩
          exact handleFailedInode_admits.inv ((hmark s₂ false).inv hlink.inv)

theorem unlink_admits {f : UnlinkFaults} {name : Name} :
    Admits s (f2fsUnlink s f dir name ino).2 := by
  unfold f2fsUnlink
  split
  · exact Admits.refl s
  · split
    · exact Admits.refl s
    · exact Admits.refl s
    · split
      · exact Admits.refl s
      · exact Admits.refl s
      · have hacquire := acquireOrphan_admits (s := s)
        generalize s.acquireOrphan = r at hacquire ⊢
        match r with
        | (some e, s₁) => exact hacquire
        | (none, s₁) => exact hacquire.trans (deleteEntry_admits.trans dropNlink_admits)

theorem tmpfile_cases {used : List Nat} (f : TmpfileFaults) (mode : FileType) (hinv : ProjInv s)
    (hfree : s.FreeNid ino used) (hdir : dir ∈ used) :
    (∃ e s', s.tmpfile f dir ino mode = (some e, s') ∧ ProjInv s') ∨
      ∃ s', s.tmpfile f dir ino mode = (none, s') ∧ Spawned s s' dir ino := by
  unfold FsState.tmpfile
  split
  · exact .inl ⟨_, s, rfl, hinv⟩
  · rcases newInode_cases f.newInode mode hinv hfree hdir with ⟨e, he⟩ | ⟨s₁, he, hspawned⟩
    · rw [he]
      exact .inl ⟨e, s, rfl, hinv⟩
    · rw [he]
      dsimp only
      have hacquire := hspawned.admits acquireOrphan_admits
      generalize s₁.acquireOrphan = r at hacquire ⊢
      match r with
      | (some e, s₂) => exact .inl ⟨e, _, rfl, handleFailedInode_admits.inv hacquire.inv⟩
      | (none, s₂) =>
        unfold FsState.doTmpfile
        cases f.metadata with
        | some e =>
          have hrelease : ∀ t : FsState, Admits t t.releaseOrphan :=
            fun t => admits_of_inodes rfl rfl
          refine .inl ⟨e, _, rfl, handleFailedInode_admits.inv ?_⟩
          exact (failInodeMetadata_admits.trans (hrelease _)).inv hacquire.inv
        | none =>
          have hold : ∀ t : FsState,
              Admits t (t.modifyInode ino fun n => { n with fiNewInode := false }) :=
            fun t => modifyInode_admits (fun _ => rfl) fun _ => List.Subset.refl _
          have horphan : ∀ t : FsState, Admits t (t.addOrphanInode ino) :=
            fun t => admits_of_inodes rfl rfl
          refine .inr ⟨_, rfl, hacquire.admits ?_⟩
          exact initInodeMetadata_admits.trans
            ((hold _).trans ((horphan _).trans linksWrite_admits))

/-! ## The operations -/

theorem fits_of_projidDiffers (h : s.projidDiffers dir dir ino = false) : s.Fits dir ino := by
  intro hflag
  rw [FsState.projidDiffers, hflag, Bool.true_and] at h
  exact (not_not.mp (of_decide_eq_false h)).symm

theorem link_admits {f : LinkFaults} {name : Name} :
    Admits s (f2fsLink s f ino dir name).2 ∧
      ((f2fsLink s f ino dir name).1 = none → s.Fits dir ino) := by
  have hmark : ∀ (t : FsState) (b : Bool),
      Admits t (t.modifyInode ino fun n => { n with fiIncLink := b }) :=
    fun t b => modifyInode_admits (fun _ => rfl) fun _ => List.Subset.refl _
  unfold f2fsLink
  split
  · exact ⟨Admits.refl s, fun h => by cases h⟩
  · split
    · exact ⟨Admits.refl s, fun h => by cases h⟩
    · split
      · exact ⟨Admits.refl s, fun h => by cases h⟩
      · rename_i hdiff
        have hfits : s.Fits dir ino := fits_of_projidDiffers (Bool.eq_false_iff.mpr hdiff)
        split
        · exact ⟨Admits.refl s, fun h => by cases h⟩
        · have hmarked := hmark s true
          have hlink := hmarked.trans
            (addLink_admits f.addLink name (hmarked.fits.mpr hfits))
          dsimp only
          generalize FsState.addLink _ f.addLink dir name ino = r at hlink ⊢
          match r with
          | (none, s₁) => exact ⟨hlink, fun _ => hfits⟩
          | (some e, s₁) => exact ⟨hlink.trans (hmark s₁ false), fun h => by cases h⟩

/-- The exchange admits the two inodes if they fit. -/
theorem crossRenameUpdate_admits {a : CrossRenameArgs} {es : CrossEntries}
    (hnew : s.Fits a.oldDir a.newInode) (hold : s.Fits a.newDir a.oldInode) :
    Admits s (s.crossRenameUpdate a es) := by
  have hparents : Admits s (s.exchangeParents a es) := by
    unfold FsState.exchangeParents
    cases es.oldDirEntry <;> cases es.newDirEntry
    · exact Admits.refl s
    · exact setParent_admits
    · exact setParent_admits
    · exact setParent_admits.trans setParent_admits
  have hfirst : Admits s (s.exchangeOld a es) :=
    hparents.trans ((setLink_admits (hparents.fits.mpr hnew)).trans
      (fileLostPino_admits.trans exchangeLinks_admits))
  have hsecond : Admits s ((((s.exchangeOld a es).setLink a.newDir es.newEntry
      a.oldInode).fileLostPino a.newInode).exchangeLinks a.newDir es.oldDirEntry es.newDirEntry) :=
    hfirst.trans ((setLink_admits (hfirst.fits.mpr hold)).trans
      (fileLostPino_admits.trans exchangeLinks_admits))
  exact hsecond.trans (admits_of_inodes rfl rfl)

/-- A call that does not leave with an error has passed the check. -/
theorem crossRename_checked {f : CrossRenameFaults} {a : CrossRenameArgs}
    (h : ∀ e, s.crossRenameLookups f a ≠ .error (some e)) : s.Fits a.newDir a.oldInode := by
  refine fits_of_projidDiffers ?_
  cases hdiff : s.projidDiffers a.newDir a.newDir a.oldInode with
  | false => rfl
  | true =>
    unfold FsState.crossRenameLookups at h
    rw [hdiff] at h
    cases hcp : s.cpError with
    | true =>
      rw [hcp] at h
      exact absurd rfl (h eio)
    | false =>
      rw [hcp] at h
      exact absurd rfl (h exdev)

theorem rename_checked {f : RenameFaults} {a : RenameArgs}
    (h : ∀ e, s.renameLookups f a ≠ .error (some e)) : s.Fits a.newDir a.oldInode := by
  refine fits_of_projidDiffers ?_
  cases hdiff : s.projidDiffers a.newDir a.newDir a.oldInode with
  | false => rfl
  | true =>
    unfold FsState.renameLookups at h
    rw [hdiff] at h
    cases hcp : s.cpError with
    | true =>
      rw [hcp] at h
      exact absurd rfl (h eio)
    | false =>
      rw [hcp] at h
      exact absurd rfl (h exdev)

section

variable {f : RenameFaults} {a : RenameArgs} {oldDirEntry : Bool}

variable (f oldDirEntry) in
theorem renameOver_admits (newInode : Nat) (h : s.Fits a.newDir a.oldInode) :
    Admits s (s.renameOver f a oldDirEntry newInode).2 := by
  unfold FsState.renameOver
  split
  · exact Admits.refl s
  · split
    · exact Admits.refl s
    · exact Admits.refl s
    · have hacquire := acquireOrphan_admits (s := s)
      generalize s.acquireOrphan = r at hacquire ⊢
      match r with
      | (some e, s₁) => exact hacquire
      | (none, s₁) =>
        have hif : ∀ t : FsState,
            Admits t (if oldDirEntry then t.linksWrite newInode false else t) := by
          intro t
          split
          · exact linksWrite_admits
          · exact Admits.refl t
        have hend : ∀ t : FsState, Admits t (if (t.inodes newInode).nlink = 0 then
            t.addOrphanInode newInode else t.releaseOrphan) := by
          intro t
          split <;> exact admits_of_inodes rfl rfl
        exact hacquire.trans ((setLink_admits (hacquire.fits.mpr h)).trans
          ((hif _).trans (linksWrite_admits.trans (hend _))))

variable (f oldDirEntry) in
theorem renameAdd_admits (oldEntry : Nat) (h : s.Fits a.newDir a.oldInode) :
    Admits s (s.renameAdd f a oldEntry oldDirEntry).2 := by
  have hif : ∀ t : FsState, Admits t (if oldDirEntry then t.linksWrite a.newDir true else t) := by
    intro t
    split
    · exact linksWrite_admits
    · exact Admits.refl t
  unfold FsState.renameAdd
  dsimp only
  have hlink := addLink_admits f.addLink a.newName h
  generalize s.addLink f.addLink a.newDir a.newName a.oldInode = r at hlink ⊢
  match r with
  | (some e, s₁) => exact hlink
  | (none, s₁) =>
    have hcount := hlink.trans (hif s₁)
    dsimp only
    generalize (if oldDirEntry then s₁.linksWrite a.newDir true else s₁) = s₂ at hcount ⊢
    split <;> exact hcount

variable (f oldDirEntry) in
theorem renameLink_admits (oldEntry : Nat) (h : s.Fits a.newDir a.oldInode) :
    Admits s (s.renameLink f a oldEntry oldDirEntry).2 := by
  unfold FsState.renameLink
  cases a.newInode with
  | none => exact renameAdd_admits f oldDirEntry oldEntry h
  | some newInode =>
    have hover := renameOver_admits f oldDirEntry newInode h
    dsimp only
    generalize s.renameOver f a oldDirEntry newInode = r at hover ⊢
    match r with
    | (some e, s₁) => exact hover
    | (none, s₁) => exact hover

variable (f) in
theorem renameAddWhiteout_admits (h : ∀ w, a.whiteout = some w → s.Fits a.oldDir w) :
    Admits s (s.renameAddWhiteout f a).2 := by
  unfold FsState.renameAddWhiteout
  cases hw : a.whiteout with
  | none => exact Admits.refl s
  | some w =>
    have hmark : Admits s (s.modifyInode w fun n => { n with fiIncLink := true }) :=
      modifyInode_admits (fun _ => rfl) fun _ => List.Subset.refl _
    exact hmark.trans (addLink_admits _ _ (hmark.fits.mpr (h w hw)))

theorem renameParent_admits : Admits s (s.renameParent a oldDirEntry) := by
  have htrans : ∀ t : FsState, Admits t (t.addTransDir a.newDir) :=
    fun t => admits_of_inodes rfl rfl
  have hparent : ∀ t : FsState, Admits t (if a.oldDir ≠ a.newDir ∧ a.whiteout.isNone then
      t.setParent a.oldInode a.newDir else t) := by
    intro t
    split
    · exact setParent_admits
    · exact Admits.refl t
  unfold FsState.renameParent
  cases oldDirEntry with
  | false => exact htrans s
  | true => exact (hparent s).trans (linksWrite_admits.trans (htrans _))

variable (f oldDirEntry) in
theorem renameFinish_admits (oldEntry : Nat)
    (h : ∀ w, a.whiteout = some w → s.Fits a.oldDir w) :
    Admits s (s.renameFinish f a oldEntry oldDirEntry).2 := by
  unfold FsState.renameFinish
  extract_lets s₁
  have hpino : Admits s s₁ := by
    show Admits s (if _ then _ else _)
    split
    · exact fileLostPino_admits
    · exact modifyInode_admits (fun _ => rfl) fun _ => List.Subset.refl _
  have hdelete : Admits s (s₁.deleteEntry a.oldDir oldEntry) := hpino.trans deleteEntry_admits
  have hlink := hdelete.trans
    (renameAddWhiteout_admits f fun w hw => hdelete.fits.mpr (h w hw))
  generalize (s₁.deleteEntry a.oldDir oldEntry).renameAddWhiteout f a = r at hlink ⊢
  match r with
  | (some e, s₂) => exact hlink
  | (none, s₂) => exact hlink.trans renameParent_admits

theorem iputWhiteout_admits : Admits s (s.iputWhiteout f a) := by
  unfold FsState.iputWhiteout
  split
  · exact Admits.refl s
  · exact iput_admits

variable (f) in
/-- The whiteout is there, and the moved inode fits as before. -/
theorem renameWhiteout_inv (hinv : ProjInv s) (hfits : s.Fits a.newDir a.oldInode)
    (hfree : ∀ w, a.whiteout = some w → s.FreeNid w [a.oldDir, a.newDir, a.oldInode]) :
    ProjInv (s.renameWhiteout f a).2 ∧ ((s.renameWhiteout f a).1 = none →
      (s.renameWhiteout f a).2.Fits a.newDir a.oldInode ∧
        ∀ w, a.whiteout = some w → (s.renameWhiteout f a).2.Fits a.oldDir w) := by
  unfold FsState.renameWhiteout FsState.createWhiteout
  cases hw : a.whiteout with
  | none => exact ⟨hinv, fun _ => ⟨hfits, fun _ h => by cases h⟩⟩
  | some w =>
    have hnid := hfree w hw
    dsimp only
    split
    · exact ⟨hinv, fun h => by cases h⟩
    · rcases tmpfile_cases f.createWhiteout .chr hinv hnid
          (List.mem_cons_self : a.oldDir ∈ _) with
        ⟨e, s₁, he, hinv₁⟩ | ⟨s₁, he, hspawned⟩
      · rw [he]
        exact ⟨hinv₁, fun h => by cases h⟩
      · rw [he]
        refine ⟨hspawned.inv, fun _ => ⟨?_, fun w' hw' => Option.some.inj hw' ▸ hspawned.fits⟩⟩
        have hdir := hspawned.others a.newDir fun h => hnid.1 (by simp [← h])
        have hino := hspawned.others a.oldInode fun h => hnid.1 (by simp [← h])
        intro hflag
        have hflag' : (s.inodes a.newDir).fiProjInherit = true :=
          (congrArg (fun p => p.2.2) hdir).symm.trans hflag
        have hdirId : (s₁.inodes a.newDir).iProjid = (s.inodes a.newDir).iProjid :=
          congrArg Prod.fst hdir
        have hinoId : (s₁.inodes a.oldInode).iProjid = (s.inodes a.oldInode).iProjid :=
          congrArg Prod.fst hino
        exact hinoId.trans ((hfits hflag').trans hdirId.symm)

theorem rename_inv (hinv : ProjInv s)
    (hfree : ∀ w, a.whiteout = some w → s.FreeNid w [a.oldDir, a.newDir, a.oldInode]) :
    ProjInv (f2fsRename s f a).2 ∧
      ((f2fsRename s f a).1 = none → (f2fsRename s f a).2.Fits a.newDir a.oldInode) := by
  unfold f2fsRename
  cases hlook : s.renameLookups f a with
  | error err =>
    refine ⟨hinv, fun herr => ?_⟩
    obtain rfl : err = none := herr
    exact rename_checked (f := f) fun e he => by cases hlook.symm.trans he
  | ok entries =>
    have hfits : s.Fits a.newDir a.oldInode :=
      rename_checked fun e he => by cases hlook.symm.trans he
    obtain ⟨oldEntry, oldDirEntry⟩ := entries
    obtain ⟨hinv₁, hfits₁⟩ := renameWhiteout_inv f hinv hfits hfree
    dsimp only
    generalize s.renameWhiteout f a = created at hinv₁ hfits₁ ⊢
    match created with
    | (some e, s₁) => exact ⟨hinv₁, fun h => by cases h⟩
    | (none, s₁) =>
      obtain ⟨hnew, hwhiteout⟩ := hfits₁ rfl
      have hlink := renameLink_admits f oldDirEntry oldEntry hnew
      dsimp only at hnew hwhiteout hinv₁ hlink ⊢
      generalize s₁.renameLink f a oldEntry oldDirEntry = linked at hlink ⊢
      match linked with
      | (.error err, s₂) =>
        have hend : Admits s₁ (s₂.iputWhiteout f a) := hlink.trans iputWhiteout_admits
        exact ⟨hend.inv hinv₁, fun _ => hend.fits.mpr hnew⟩
      | (.ok oldEntry, s₂) =>
        have hfinish := hlink.trans (renameFinish_admits f oldDirEntry oldEntry fun w hw =>
          hlink.fits.mpr (hwhiteout w hw))
        have hend := hfinish.trans (iputWhiteout_admits (f := f) (a := a))
        exact ⟨hend.inv hinv₁, fun _ => hend.fits.mpr hnew⟩

end

theorem crossRename_admits {f : CrossRenameFaults} {a : CrossRenameArgs}
    (h : s.Fits a.oldDir a.newInode) : Admits s (f2fsCrossRename s f a).2 := by
  unfold f2fsCrossRename
  cases hlook : s.crossRenameLookups f a with
  | error err => exact Admits.refl s
  | ok es =>
    exact crossRenameUpdate_admits h (crossRename_checked fun e he => by cases hlook.symm.trans he)

end

/-! ## Runs -/

/-- One call, with what fails in it. -/
inductive NameiOp where
  | create (f : CreateFaults) (dir : Nat) (name : Name) (ino : Nat)
  | mkdir (f : CreateFaults) (dir : Nat) (name : Name) (ino : Nat)
  | mknod (f : CreateFaults) (dir : Nat) (name : Name) (ino : Nat) (mode : FileType)
  | symlink (f : CreateFaults) (prepare content : Option Errno) (u : UnlinkFaults) (dir : Nat)
      (name : Name) (ino : Nat)
  | tmpfile (key : Option Errno) (f : TmpfileFaults) (dir ino : Nat)
  | unlink (f : UnlinkFaults) (dir : Nat) (name : Name) (ino : Nat)
  | rmdir (unreadable : Bool) (f : UnlinkFaults) (dir : Nat) (name : Name) (ino : Nat)
  | link (f : LinkFaults) (inode dir : Nat) (name : Name)
  | rename (f : RenameFaults) (a : RenameArgs)
  | crossRename (f : CrossRenameFaults) (a : CrossRenameArgs)

namespace NameiOp

def run (s : FsState) : NameiOp → Err × FsState
  | create f dir name ino => f2fsCreate s f dir name ino
  | mkdir f dir name ino => f2fsMkdir s f dir name ino
  | mknod f dir name ino mode => f2fsMknod s f dir name ino mode
  | symlink f prepare content u dir name ino => f2fsSymlink s f prepare content u dir name ino
  | tmpfile key f dir ino => f2fsTmpfile s key f dir ino
  | unlink f dir name ino => f2fsUnlink s f dir name ino
  | rmdir unreadable f dir name ino => f2fsRmdir s unreadable f dir name ino
  | link f inode dir name => f2fsLink s f inode dir name
  | rename f a => f2fsRename s f a
  | crossRename f a => f2fsCrossRename s f a

/-- `alloc_nid` returns a nid that is free. -/
def AllocatesFree (s : FsState) : NameiOp → Prop
  | create _ dir _ ino | mkdir _ dir _ ino | mknod _ dir _ ino _ | symlink _ _ _ _ dir _ ino
  | tmpfile _ _ dir ino => s.FreeNid ino [dir]
  | rename _ a => ∀ w, a.whiteout = some w → s.FreeNid w [a.oldDir, a.newDir, a.oldInode]
  | unlink .. | rmdir .. | link .. | crossRename .. => True

/-- The directories and the inodes that get an entry there if the call succeeds. -/
def placed : NameiOp → List (Nat × Nat)
  | create _ dir _ ino | mkdir _ dir _ ino | mknod _ dir _ ino _ | symlink _ _ _ _ dir _ ino =>
    [(dir, ino)]
  | link _ inode dir _ => [(dir, inode)]
  | rename _ a => [(a.newDir, a.oldInode)]
  | crossRename _ a => [(a.newDir, a.oldInode), (a.oldDir, a.newInode)]
  | tmpfile .. | unlink .. | rmdir .. => []

/-- What `f2fs_cross_rename` does not check. -/
def OldDirFits (s : FsState) : NameiOp → Prop
  | crossRename _ a => s.Fits a.oldDir a.newInode
  | _ => True

end NameiOp

theorem makeInode_step {s : FsState} {ino dir : Nat} {f : CreateFaults} {incLink : Bool}
    {name : Name} {mode : FileType} (hinv : ProjInv s) (hfree : s.FreeNid ino [dir]) :
    ProjInv (s.makeInode f incLink dir name ino mode).2 ∧
      ((s.makeInode f incLink dir name ino mode).1 = none →
        ∀ p ∈ [(dir, ino)], (s.makeInode f incLink dir name ino mode).2.Fits p.1 p.2) := by
  obtain ⟨hinv', hfits⟩ := makeInode_inv (f := f) hinv hfree List.mem_cons_self
  exact ⟨hinv', fun h p hp => (List.mem_singleton.mp hp) ▸ hfits h⟩

/-- Every call keeps the invariant, and what it places fits, if what it leaves unchecked
    does. -/
theorem NameiOp.run_inv {s : FsState} {op : NameiOp} (hinv : ProjInv s)
    (hfree : op.AllocatesFree s) (hold : op.OldDirFits s) :
    ProjInv (op.run s).2 ∧
      ((op.run s).1 = none → ∀ p ∈ op.placed, (op.run s).2.Fits p.1 p.2) := by
  cases op with
  | create => exact makeInode_step hinv hfree
  | mkdir => exact makeInode_step hinv hfree
  | mknod => exact makeInode_step hinv hfree
  | symlink f prepare content u dir name ino =>
    have hmake : ProjInv (s.makeInode f false dir name ino .lnk).2 ∧ _ :=
      makeInode_step hinv hfree
    show ProjInv (f2fsSymlink s f prepare content u dir name ino).2 ∧
      ((f2fsSymlink s f prepare content u dir name ino).1 = none →
        ∀ p ∈ [(dir, ino)], (f2fsSymlink s f prepare content u dir name ino).2.Fits p.1 p.2)
    unfold f2fsSymlink
    split
    · exact ⟨hinv, fun h => by cases h⟩
    · split
      · exact ⟨hinv, fun h => by cases h⟩
      · generalize s.makeInode f false dir name ino .lnk = r at hmake ⊢
        match r, content with
        | (some e, s₁), _ => exact hmake
        | (none, s₁), none => exact hmake
        | (none, s₁), some e => exact ⟨unlink_admits.inv hmake.1, fun h => by cases h⟩
  | tmpfile key f dir ino =>
    refine ⟨?_, fun _ p hp => absurd hp List.not_mem_nil⟩
    show ProjInv (f2fsTmpfile s key f dir ino).2
    unfold f2fsTmpfile
    split
    · exact hinv
    · split
      · exact hinv
      · rcases tmpfile_cases f .reg hinv hfree List.mem_cons_self with
          ⟨e, s₁, he, hinv₁⟩ | ⟨s₁, he, hspawned⟩
        · rw [he]
          exact hinv₁
        · rw [he]
          exact hspawned.inv
  | unlink => exact ⟨unlink_admits.inv hinv, fun _ p hp => absurd hp List.not_mem_nil⟩
  | rmdir unreadable f dir name ino =>
    refine ⟨?_, fun _ p hp => absurd hp List.not_mem_nil⟩
    show ProjInv (f2fsRmdir s unreadable f dir name ino).2
    unfold f2fsRmdir
    split
    · exact unlink_admits.inv hinv
    · exact hinv
  | link f inode dir name =>
    obtain ⟨hadmits, hfits⟩ : Admits s (f2fsLink s f inode dir name).2 ∧ _ := link_admits
    exact ⟨hadmits.inv hinv, fun h p hp => (List.mem_singleton.mp hp) ▸ hadmits.fits.mpr (hfits h)⟩
  | rename f a =>
    obtain ⟨hinv', hfits⟩ := rename_inv (f := f) hinv hfree
    exact ⟨hinv', fun h p hp => (List.mem_singleton.mp hp) ▸ hfits h⟩
  | crossRename f a =>
    have hadmits := crossRename_admits (f := f) hold
    refine ⟨hadmits.inv hinv, fun h p hp => ?_⟩
    have hnew : s.Fits a.newDir a.oldInode := by
      refine crossRename_checked (f := f) fun e he => ?_
      have herr : (f2fsCrossRename s f a).1 = some e := by
        unfold f2fsCrossRename
        rw [he]
      cases herr.symm.trans h
    rcases List.mem_cons.mp hp with rfl | hp
    · exact hadmits.fits.mpr hnew
    · obtain rfl := List.mem_singleton.mp hp
      exact hadmits.fits.mpr hold

/-- In a run whose exchanges place in `old_dir` only what fits there, every directory with
    the flag holds inodes with its project id only, and every call that succeeds has placed
    such inodes. -/
theorem projInherit_runs (ops : Nat → NameiOp) (s : Nat → FsState) (n : Nat)
    (hcontained : (s 0).Contained) (hloaded : (s 0).ProjLoaded)
    (hstep : ∀ i < n, s (i + 1) = ((ops i).run (s i)).2)
    (hfree : ∀ i < n, (ops i).AllocatesFree (s i))
    (hold : ∀ i < n, (ops i).OldDirFits (s i)) :
    (∀ i ≤ n, (s i).Contained) ∧ ∀ i < n, ((ops i).run (s i)).1 = none →
      ∀ p ∈ (ops i).placed, (s (i + 1)).Fits p.1 p.2 := by
  have hinv : ∀ i ≤ n, ProjInv (s i) := by
    intro i
    induction i with
    | zero => exact fun _ => ⟨hcontained, hloaded⟩
    | succ i ih =>
      intro hi
      rw [hstep i hi]
      exact (NameiOp.run_inv (ih (by omega)) (hfree i hi) (hold i hi)).1
  refine ⟨fun i hi => (hinv i hi).contained, fun i hi hok p hp => ?_⟩
  rw [hstep i hi]
  exact (NameiOp.run_inv (hinv i hi.le) (hfree i hi) (hold i hi)).2 hok p hp

/-! ## Two exchanges -/

/-- `a` passes its project 7 on to its entries; `c` has it, and `d` has the given one. -/
def projectOfA (projid : Nat) : FsState :=
  { twoParents (some 4) with
    projectQuota := true
    inodes := fun ino =>
      let n := (twoParents (some 4)).inodes ino
      if ino = 4 then { n with iProjid := 7, projinheritFl := true, fiProjInherit := true }
      else if ino = 6 then { n with iProjid := 7 }
      else if ino = 7 then { n with iProjid := projid }
      else n }

theorem projectOfA_contained (projid : Nat) : (projectOfA projid).Contained := by
  intro dir de hde hflag
  by_cases h4 : dir = 4
  · subst h4
    obtain rfl := List.mem_singleton.mp hde
    rfl
  · have hnone : ((projectOfA projid).inodes dir).fiProjInherit = false := by
      simp only [projectOfA, twoParents, if_neg h4]
      repeat' split
      all_goals rfl
    rw [hnone] at hflag
    cases hflag

theorem projectOfA_loaded (projid : Nat) : (projectOfA projid).ProjLoaded := by
  refine fun ino => ⟨?_, fun h => by cases h⟩
  simp only [projectOfA, twoParents]
  repeat' split
  all_goals rfl

/-- The run that exchanges `a/c` and `b/d`. -/
def exchangeRun (s : FsState) (i : Nat) : FsState :=
  if i = 0 then s else (f2fsCrossRename s noFaults exchangeCD).2

theorem exchangeRun_contained : (exchangeRun (projectOfA 7) 1).Contained := by
  refine (projInherit_runs (fun _ => .crossRename noFaults exchangeCD) (exchangeRun (projectOfA 7))
    1 (projectOfA_contained 7) (projectOfA_loaded 7) (fun i hi => ?_) (fun _ _ => trivial)
    fun i hi => ?_).1 1 (le_refl 1)
  · obtain rfl : i = 0 := by omega
    rfl
  · obtain rfl : i = 0 := by omega
    exact fun _ => rfl

/-- A file without the project of `a` gets into `a`. -/
theorem exchangeRun_escapes :
    (projectOfA 0).Contained ∧ (projectOfA 0).ProjLoaded ∧
      (f2fsCrossRename (projectOfA 0) noFaults exchangeCD).1 = none ∧
      ¬(exchangeRun (projectOfA 0) 1).Contained := by
  refine ⟨projectOfA_contained 0, projectOfA_loaded 0, by decide, fun h => ?_⟩
  have hfits := h 4 ⟨[99], 7, .reg⟩ (by decide) (by decide)
  exact absurd hfits (by decide)

end F2fs.Namei

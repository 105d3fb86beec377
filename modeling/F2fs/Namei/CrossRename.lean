/-
  `f2fs_cross_rename` exchanges two names, or leaves everything as it was.

  The caller has looked both names up and holds the locks of the directories, so a name that
  is still there resolves to the inode of its dentry, and the two inodes differ.  `err` is 0
  after `dquot_initialize`, so a search that ends with NULL and no error makes the call
  return 0 with nothing done.  `crossRename_exchanges` says that nothing else goes wrong.
-/
import F2fs.Namei.Operations

namespace F2fs.Namei

/-! ## What an exchange is -/

/-- The dentries of a directory that name directories. -/
def FsState.subdirs (s : FsState) (dir : Nat) : Nat :=
  (s.inodes dir).dentries.countP fun de => (s.inodes de.ino).isDir

/-- The link count of a directory is 2 and one for each subdirectory. -/
def FsState.LinksCounted (s : FsState) (dir : Nat) : Prop :=
  (s.inodes dir).nlink.toNat = 2 + s.subdirs dir

/-- The fields of an inode that no exchange changes. -/
def InodeInfo.fixedPart (n : InodeInfo) : InodeInfo :=
  { n with nlink := 0, dotdot := none, dentries := [], lostPino := false }

/-- The inode is a directory and changes its parent. -/
def FsState.Moved (s : FsState) (a : CrossRenameArgs) (inode : Nat) : Prop :=
  a.oldDir ≠ a.newDir ∧ (s.inodes inode).isDir = true

structure Exchanged (s s' : FsState) (a : CrossRenameArgs) : Prop where
  oldName : s'.lookup a.oldDir a.oldName = some a.newInode
  newName : s'.lookup a.newDir a.newName = some a.oldInode
  oldParent : s.Moved a a.oldInode → (s'.inodes a.oldInode).dotdot = some a.newDir
  newParent : s.Moved a a.newInode → (s'.inodes a.newInode).dotdot = some a.oldDir
  links : ∀ dir, s.LinksCounted dir → s'.LinksCounted dir
  otherNames : ∀ dir name, (dir, name) ≠ (a.oldDir, a.oldName) →
    (dir, name) ≠ (a.newDir, a.newName) → s'.lookup dir name = s.lookup dir name
  otherDentries : ∀ (dir i : Nat) (de : DirEntry), (s.inodes dir).dentries[i]? = some de →
    (dir, de.name) ≠ (a.oldDir, a.oldName) → (dir, de.name) ≠ (a.newDir, a.newName) →
    (s'.inodes dir).dentries[i]? = some de
  dentries : ∀ dir, (s'.inodes dir).dentries.length = (s.inodes dir).dentries.length
  otherParents : ∀ ino, ¬(s.Moved a ino ∧ (ino = a.oldInode ∨ ino = a.newInode)) →
    (s'.inodes ino).dotdot = (s.inodes ino).dotdot
  otherLinks : ∀ ino, ino ≠ a.oldDir → ino ≠ a.newDir →
    (s'.inodes ino).nlink = (s.inodes ino).nlink
  otherPinos : ∀ ino, ino ≠ a.oldInode → ino ≠ a.newInode →
    (s'.inodes ino).lostPino = (s.inodes ino).lostPino
  fixed : ∀ ino, (s'.inodes ino).fixedPart = (s.inodes ino).fixedPart
  orphans : s'.orphans = s.orphans

/-- Success exchanges, an error leaves everything as it was. -/
def ExchangesOrKeeps (s : FsState) (f : CrossRenameFaults) (a : CrossRenameArgs) : Prop :=
  ((f2fsCrossRename s f a).1 = none → Exchanged s (f2fsCrossRename s f a).2 a) ∧
    ((f2fsCrossRename s f a).1 ≠ none → (f2fsCrossRename s f a).2 = s)

/-- What the callers of `->rename` have made sure of. -/
structure ExchangePromise (s : FsState) (a : CrossRenameArgs) : Prop where
  old : ∀ ino, s.lookup a.oldDir a.oldName = some ino → ino = a.oldInode
  new : ∀ ino, s.lookup a.newDir a.newName = some ino → ino = a.newInode
  ne : a.oldInode ≠ a.newInode

/-! ## What is missing -/

/-- The checks before the first search. -/
def FsState.ExchangeAllowed (s : FsState) (f : CrossRenameFaults) (a : CrossRenameArgs) : Prop :=
  s.cpError = false ∧ s.projidDiffers a.newDir a.newDir a.oldInode = false ∧
    s.projidDiffers a.newDir a.oldDir a.newInode = false ∧
    f.dquotOldDir = none ∧ f.dquotNewDir = none

/-- The search for "..", for a moved directory, ends with NULL and no error. -/
def FsState.ParentMissing (s : FsState) (fault : Option FindFault) (a : CrossRenameArgs)
    (inode : Nat) : Prop :=
  s.Moved a inode ∧ parentDir fault (s.inodes inode) = .ok none

/-- One of the searches ends so, and none before it with an error. -/
def FsState.NameMissing (s : FsState) (f : CrossRenameFaults) (a : CrossRenameArgs) : Prop :=
  s.ExchangeAllowed f a ∧
    (findEntry f.findOld (s.inodes a.oldDir) a.oldName = .ok none ∨
      (∃ i, findEntry f.findOld (s.inodes a.oldDir) a.oldName = .ok (some i)) ∧
        (findEntry f.findNew (s.inodes a.newDir) a.newName = .ok none ∨
          (∃ i, findEntry f.findNew (s.inodes a.newDir) a.newName = .ok (some i)) ∧
            (s.ParentMissing f.oldParent a a.oldInode ∨
              (s.Moved a a.oldInode → ∃ p, parentDir f.oldParent (s.inodes a.oldInode) =
                .ok (some p)) ∧ s.ParentMissing f.newParent a a.newInode)))

/-! ## Dentries -/

section

variable {l : List DirEntry} {name : Name} {i : Nat}

/-- What `f2fs_set_link` writes. -/
def DirEntry.relink (ino : Nat) (fileType : FileType) (de : DirEntry) : DirEntry :=
  { de with ino := ino, fileType := fileType }

theorem position_modify (i : Nat) {g : DirEntry → DirEntry} (hg : ∀ de, (g de).name = de.name) :
    position (l.modify i g) name = position l name := by
  have hnames : (l.modify i g).map DirEntry.name = l.map DirEntry.name := by
    apply List.ext_getElem?
    intro j
    rw [List.getElem?_map, List.getElem?_map, List.getElem?_modify]
    cases l[j]? with
    | none => rfl
    | some de =>
      by_cases hij : i = j
      · simp [hij, hg]
      · simp [hij]
  have hposition : ∀ l : List DirEntry, position l name =
      (l.map DirEntry.name).findIdx? fun n => n = name := by
    intro l
    rw [List.findIdx?_map]
    rfl
  rw [hposition, hposition, hnames]

theorem position_spec (h : position l name = some i) : ∃ de, l[i]? = some de ∧ de.name = name := by
  obtain ⟨hi, hname, -⟩ := List.findIdx?_eq_some_iff_getElem.mp h
  exact ⟨l[i], List.getElem?_eq_getElem hi, of_decide_eq_true hname⟩

/-- A count over a list with one element replaced. -/
theorem countP_modify {p : DirEntry → Bool} {g : DirEntry → DirEntry} {de : DirEntry}
    (h : l[i]? = some de) :
    (l.modify i g).countP p + (if p de then 1 else 0) = l.countP p + if p (g de) then 1 else 0 := by
  induction l generalizing i with
  | nil => simp at h
  | cons d l ih =>
    cases i with
    | zero =>
      obtain rfl : d = de := by simpa using h
      simp only [List.modify_zero_cons, List.countP_cons]
      omega
    | succ i =>
      have := ih (by simpa using h)
      simp only [List.modify_succ_cons, List.countP_cons]
      omega

end

theorem lookup_of_position {s : FsState} {dir i : Nat} {name : Name} {de : DirEntry}
    (h : position (s.inodes dir).dentries name = some i)
    (hde : (s.inodes dir).dentries[i]? = some de) :
    s.lookup dir name = some de.ino := by
  rw [FsState.lookup, h, Option.bind_some, hde]
  rfl

/-! ## One assignment -/

section

variable {γ : Type} {s : FsState} {ino dir i x : Nat}

theorem modifyInode_inodes (f : InodeInfo → InodeInfo) :
    (s.modifyInode ino f).inodes x = if x = ino then f (s.inodes ino) else s.inodes x :=
  Function.update_apply s.inodes ino _ x

/-- A field that the assignment does not change. -/
theorem modifyInode_keeps (g : InodeInfo → γ) {f : InodeInfo → InodeInfo}
    (h : ∀ n, g (f n) = g n) : g ((s.modifyInode ino f).inodes x) = g (s.inodes x) := by
  rw [modifyInode_inodes]
  split
  · rename_i hx
    rw [h, hx]
  · rfl

theorem setLink_keeps (g : InodeInfo → γ) (h : ∀ n l, g { n with dentries := l } = g n) :
    g ((s.setLink dir i ino).inodes x) = g (s.inodes x) :=
  modifyInode_keeps g fun n => h n _

theorem setParent_keeps (g : InodeInfo → γ) (h : ∀ n p, g { n with dotdot := p } = g n) :
    g ((s.setParent ino dir).inodes x) = g (s.inodes x) :=
  modifyInode_keeps g fun n => h n _

theorem linksWrite_keeps {inc : Bool} (g : InodeInfo → γ)
    (h : ∀ n k, g { n with nlink := k } = g n) :
    g ((s.linksWrite ino inc).inodes x) = g (s.inodes x) :=
  modifyInode_keeps g fun n => h n _

theorem fileLostPino_keeps (g : InodeInfo → γ) (h : ∀ n b, g { n with lostPino := b } = g n) :
    g ((s.fileLostPino ino).inodes x) = g (s.inodes x) :=
  modifyInode_keeps g fun n => h n _

theorem exchangeLinks_keeps {gains loses : Bool} (g : InodeInfo → γ)
    (h : ∀ n k, g { n with nlink := k } = g n) :
    g ((s.exchangeLinks dir gains loses).inodes x) = g (s.inodes x) := by
  unfold FsState.exchangeLinks
  split
  · rfl
  · exact linksWrite_keeps g h

theorem setLink_dentries :
    ((s.setLink dir i ino).inodes x).dentries =
      if x = dir then
        (s.inodes dir).dentries.modify i (DirEntry.relink ino (s.inodes ino).mode)
      else (s.inodes x).dentries := by
  unfold FsState.setLink
  rw [modifyInode_inodes]
  split <;> rfl

theorem setParent_dotdot :
    ((s.setParent ino dir).inodes x).dotdot =
      if x = ino then some dir else (s.inodes x).dotdot := by
  unfold FsState.setParent
  rw [modifyInode_inodes]
  split <;> rfl

/-- The two directories swap a directory for another inode, or they do not. -/
theorem exchangeLinks_nlink {gains loses : Bool} :
    ((s.exchangeLinks dir gains loses).inodes x).nlink =
      if x = dir ∧ gains ≠ loses then
        if gains then (s.inodes x).nlink + 1 else (s.inodes x).nlink - 1
      else (s.inodes x).nlink := by
  unfold FsState.exchangeLinks FsState.linksWrite
  by_cases h : gains = loses
  · rw [if_pos h, if_neg fun hc => hc.2 h]
  · rw [if_neg h, modifyInode_inodes]
    by_cases hx : x = dir
    · have hdiff : x = dir ∧ gains ≠ loses := ⟨hx, h⟩
      rw [if_pos hx, if_pos hdiff, hx]
    · rw [if_neg hx, if_neg fun hc => hx hc.1]

end

/-! ## The update -/

section

variable {γ : Type} (s : FsState) (a : CrossRenameArgs) (es : CrossEntries)

/-- The two entries "..". -/
def FsState.exchangeParents : FsState :=
  let s := if es.oldDirEntry then s.setParent a.oldInode a.newDir else s
  if es.newDirEntry then s.setParent a.newInode a.oldDir else s

theorem exchangeParents_keeps (g : InodeInfo → γ) (h : ∀ n p, g { n with dotdot := p } = g n)
    (x : Nat) : g ((s.exchangeParents a es).inodes x) = g (s.inodes x) := by
  unfold FsState.exchangeParents
  cases es.oldDirEntry <;> cases es.newDirEntry <;> simp [setParent_keeps g h]

theorem exchangeParents_dotdot (hne : a.oldInode ≠ a.newInode) (x : Nat) :
    ((s.exchangeParents a es).inodes x).dotdot =
      if es.oldDirEntry = true ∧ x = a.oldInode then some a.newDir
      else if es.newDirEntry = true ∧ x = a.newInode then some a.oldDir
      else (s.inodes x).dotdot := by
  unfold FsState.exchangeParents
  by_cases hold : x = a.oldInode
  · have hnew : x ≠ a.newInode := fun h => hne (hold.symm.trans h)
    cases es.oldDirEntry <;> cases es.newDirEntry <;> simp [setParent_dotdot, hold, hne]
  · cases es.oldDirEntry <;> cases es.newDirEntry <;> simp [setParent_dotdot, hold]

/-- With the old directory's side of the exchange. -/
def FsState.exchangeOld : FsState :=
  (((s.exchangeParents a es).setLink a.oldDir es.oldEntry a.newInode).fileLostPino
    a.oldInode).exchangeLinks a.oldDir es.newDirEntry es.oldDirEntry

theorem crossRenameUpdate_inodes (x : Nat) :
    (s.crossRenameUpdate a es).inodes x =
      ((((s.exchangeOld a es).setLink a.newDir es.newEntry a.oldInode).fileLostPino
        a.newInode).exchangeLinks a.newDir es.oldDirEntry es.newDirEntry).inodes x :=
  rfl

/-- A field that depends on none of the four that change. -/
theorem exchangeOld_keeps (g : InodeInfo → γ) (hparent : ∀ n p, g { n with dotdot := p } = g n)
    (hdentries : ∀ n l, g { n with dentries := l } = g n)
    (hpino : ∀ n b, g { n with lostPino := b } = g n)
    (hlinks : ∀ n k, g { n with nlink := k } = g n) (x : Nat) :
    g ((s.exchangeOld a es).inodes x) = g (s.inodes x) := by
  unfold FsState.exchangeOld
  rw [exchangeLinks_keeps g hlinks, fileLostPino_keeps g hpino, setLink_keeps g hdentries,
    exchangeParents_keeps s a es g hparent]

theorem crossRenameUpdate_keeps (g : InodeInfo → γ)
    (hparent : ∀ n p, g { n with dotdot := p } = g n)
    (hdentries : ∀ n l, g { n with dentries := l } = g n)
    (hpino : ∀ n b, g { n with lostPino := b } = g n)
    (hlinks : ∀ n k, g { n with nlink := k } = g n) (x : Nat) :
    g ((s.crossRenameUpdate a es).inodes x) = g (s.inodes x) := by
  rw [crossRenameUpdate_inodes, exchangeLinks_keeps g hlinks, fileLostPino_keeps g hpino,
    setLink_keeps g hdentries, exchangeOld_keeps s a es g hparent hdentries hpino hlinks]

theorem crossRenameUpdate_mode (x : Nat) :
    ((s.crossRenameUpdate a es).inodes x).mode = (s.inodes x).mode :=
  crossRenameUpdate_keeps s a es InodeInfo.mode (fun _ _ => rfl) (fun _ _ => rfl) (fun _ _ => rfl)
    (fun _ _ => rfl) x

/-- The dentries behind the first `f2fs_set_link`. -/
theorem exchangeOld_dentries (x : Nat) :
    ((s.exchangeOld a es).inodes x).dentries =
      if x = a.oldDir then (s.inodes a.oldDir).dentries.modify es.oldEntry
        (DirEntry.relink a.newInode (s.inodes a.newInode).mode)
      else (s.inodes x).dentries := by
  have hparents := exchangeParents_keeps s a es InodeInfo.dentries fun _ _ => rfl
  have hmode := exchangeParents_keeps s a es InodeInfo.mode fun _ _ => rfl
  unfold FsState.exchangeOld
  rw [exchangeLinks_keeps InodeInfo.dentries fun _ _ => rfl,
    fileLostPino_keeps InodeInfo.dentries fun _ _ => rfl, setLink_dentries, hparents, hparents,
      hmode]

theorem crossRenameUpdate_dentries (x : Nat) :
    ((s.crossRenameUpdate a es).inodes x).dentries =
      if x = a.newDir then ((s.exchangeOld a es).inodes a.newDir).dentries.modify es.newEntry
        (DirEntry.relink a.oldInode (s.inodes a.oldInode).mode)
      else ((s.exchangeOld a es).inodes x).dentries := by
  have hmode := exchangeOld_keeps s a es InodeInfo.mode (fun _ _ => rfl) (fun _ _ => rfl)
    (fun _ _ => rfl) (fun _ _ => rfl)
  rw [crossRenameUpdate_inodes, exchangeLinks_keeps InodeInfo.dentries fun _ _ => rfl,
    fileLostPino_keeps InodeInfo.dentries fun _ _ => rfl, setLink_dentries, hmode]

theorem crossRenameUpdate_dotdot (hne : a.oldInode ≠ a.newInode) (x : Nat) :
    ((s.crossRenameUpdate a es).inodes x).dotdot =
      if es.oldDirEntry = true ∧ x = a.oldInode then some a.newDir
      else if es.newDirEntry = true ∧ x = a.newInode then some a.oldDir
      else (s.inodes x).dotdot := by
  rw [crossRenameUpdate_inodes, exchangeLinks_keeps InodeInfo.dotdot fun _ _ => rfl,
    fileLostPino_keeps InodeInfo.dotdot fun _ _ => rfl,
    setLink_keeps InodeInfo.dotdot fun _ _ => rfl]
  unfold FsState.exchangeOld
  rw [exchangeLinks_keeps InodeInfo.dotdot fun _ _ => rfl,
    fileLostPino_keeps InodeInfo.dotdot fun _ _ => rfl,
    setLink_keeps InodeInfo.dotdot fun _ _ => rfl, exchangeParents_dotdot s a es hne]

theorem crossRenameUpdate_lostPino (x : Nat) :
    ((s.crossRenameUpdate a es).inodes x).lostPino =
      if x = a.newInode then true else if x = a.oldInode then true else (s.inodes x).lostPino := by
  have hlost : ∀ (s : FsState) (ino : Nat), ((s.fileLostPino ino).inodes x).lostPino =
      if x = ino then true else (s.inodes x).lostPino := by
    intro s ino
    unfold FsState.fileLostPino
    rw [modifyInode_inodes]
    split <;> rfl
  rw [crossRenameUpdate_inodes, exchangeLinks_keeps InodeInfo.lostPino fun _ _ => rfl, hlost,
    setLink_keeps InodeInfo.lostPino fun _ _ => rfl]
  unfold FsState.exchangeOld
  rw [exchangeLinks_keeps InodeInfo.lostPino fun _ _ => rfl, hlost,
    setLink_keeps InodeInfo.lostPino fun _ _ => rfl,
    exchangeParents_keeps s a es InodeInfo.lostPino fun _ _ => rfl]

theorem crossRenameUpdate_orphans : (s.crossRenameUpdate a es).orphans = s.orphans := by
  have hlinks : ∀ (s : FsState) (dir : Nat) (b b' : Bool),
      (s.exchangeLinks dir b b').orphans = s.orphans := by
    intro s dir b b'
    unfold FsState.exchangeLinks
    split <;> rfl
  have hparents : (s.exchangeParents a es).orphans = s.orphans := by
    unfold FsState.exchangeParents
    cases es.oldDirEntry <;> cases es.newDirEntry <;> rfl
  calc (s.crossRenameUpdate a es).orphans
      = ((((s.exchangeOld a es).setLink a.newDir es.newEntry a.oldInode).fileLostPino
          a.newInode).exchangeLinks a.newDir es.oldDirEntry es.newDirEntry).orphans := rfl
    _ = (s.exchangeOld a es).orphans := hlinks _ _ _ _
    _ = (s.exchangeParents a es).orphans := hlinks _ _ _ _
    _ = s.orphans := hparents

theorem exchangeOld_nlink (x : Nat) :
    ((s.exchangeOld a es).inodes x).nlink =
      if x = a.oldDir ∧ es.newDirEntry ≠ es.oldDirEntry then
        if es.newDirEntry then (s.inodes x).nlink + 1 else (s.inodes x).nlink - 1
      else (s.inodes x).nlink := by
  unfold FsState.exchangeOld
  rw [exchangeLinks_nlink, fileLostPino_keeps InodeInfo.nlink fun _ _ => rfl,
    setLink_keeps InodeInfo.nlink fun _ _ => rfl,
    exchangeParents_keeps s a es InodeInfo.nlink fun _ _ => rfl]

theorem crossRenameUpdate_nlink (x : Nat) :
    ((s.crossRenameUpdate a es).inodes x).nlink =
      if x = a.newDir ∧ es.oldDirEntry ≠ es.newDirEntry then
        if es.oldDirEntry then ((s.exchangeOld a es).inodes x).nlink + 1
        else ((s.exchangeOld a es).inodes x).nlink - 1
      else ((s.exchangeOld a es).inodes x).nlink := by
  rw [crossRenameUpdate_inodes, exchangeLinks_nlink,
    fileLostPino_keeps InodeInfo.nlink fun _ _ => rfl, setLink_keeps InodeInfo.nlink fun _ _ => rfl]

end

/-! ## The searches -/

section

variable {s : FsState} {f : CrossRenameFaults} {a : CrossRenameArgs}

/-- What the searches have found. -/
structure ExchangeFound (s : FsState) (a : CrossRenameArgs) (es : CrossEntries) : Prop where
  oldEntry : position (s.inodes a.oldDir).dentries a.oldName = some es.oldEntry
  newEntry : position (s.inodes a.newDir).dentries a.newName = some es.newEntry
  oldDirEntry : es.oldDirEntry = true ↔ s.Moved a a.oldInode
  newDirEntry : es.newDirEntry = true ↔ s.Moved a a.newInode
  oldRoom : es.newDirEntry = true → es.oldDirEntry = false → (s.inodes a.oldDir).nlink < f2fsLinkMax
  newRoom : es.oldDirEntry = true → es.newDirEntry = false → (s.inodes a.newDir).nlink < f2fsLinkMax

theorem searched_some {α : Type} {fault : Option FindFault} {x : Option α} {y : α}
    (h : searched fault x = .ok (some y)) : x = some y := by
  cases fault with
  | none => exact Except.ok.inj h
  | some fault => cases fault with
    | error e => cases h
    | noKey => cases h

/-- A search ends with an error, with NULL or with an entry. -/
theorem entryOr_cases {α : Type} (err : Err) (r : Except Errno (Option α)) :
    (∃ e, r = .error e ∧ entryOr err r = .error (some e)) ∨
      (r = .ok none ∧ entryOr err r = .error err) ∨
      ∃ x, r = .ok (some x) ∧ entryOr err r = .ok x := by
  match r with
  | .error e => exact .inl ⟨e, rfl, rfl⟩
  | .ok none => exact .inr (.inl ⟨rfl, rfl⟩)
  | .ok (some x) => exact .inr (.inr ⟨x, rfl, rfl⟩)

theorem movedParent_cases (fault : Option FindFault) (inode : Nat) :
    (∃ e, (s.Moved a inode ∧ parentDir fault (s.inodes inode) = .error e) ∧
        s.movedParent fault a inode = .error (some e)) ∨
      (s.ParentMissing fault a inode ∧ s.movedParent fault a inode = .error none) ∨
      (s.Moved a inode → ∃ p, parentDir fault (s.inodes inode) = .ok (some p)) ∧
        ∃ b, s.movedParent fault a inode = .ok b ∧ (b = true ↔ s.Moved a inode) := by
  unfold FsState.movedParent
  by_cases hmoved : s.Moved a inode
  · rw [if_pos (show a.oldDir ≠ a.newDir ∧ _ from hmoved)]
    rcases entryOr_cases none (parentDir fault (s.inodes inode)) with
      ⟨e, hr, he⟩ | ⟨hnull, he⟩ | ⟨p, hp, he⟩
    · exact .inl ⟨e, ⟨hmoved, hr⟩, by rw [he]; rfl⟩
    · exact .inr (.inl ⟨⟨hmoved, hnull⟩, by rw [he]; rfl⟩)
    · exact .inr (.inr ⟨fun _ => ⟨p, hp⟩, true, by rw [he]; rfl, iff_of_true rfl hmoved⟩)
  · rw [if_neg (show ¬(a.oldDir ≠ a.newDir ∧ _) from hmoved)]
    exact .inr (.inr ⟨fun h => absurd h hmoved, false, rfl,
      iff_of_false Bool.false_ne_true hmoved⟩)

theorem linksFull_false {gains loses : Bool} {dir : Nat} (h : s.linksFull gains loses dir = false)
    (hg : gains = true) (hl : loses = false) : (s.inodes dir).nlink < f2fsLinkMax := by
  rw [FsState.linksFull, hg, hl] at h
  simpa using h

variable (s f a) in
/-- The lookups end with an error, with `err` at 0 exactly when a name is missing, or with
    everything found. -/
theorem crossRenameLookups_cases :
    (¬s.NameMissing f a ∧ ∃ e, s.crossRenameLookups f a = .error (some e)) ∨
      (s.NameMissing f a ∧ s.crossRenameLookups f a = .error none) ∨
      ¬s.NameMissing f a ∧ ∃ es, s.crossRenameLookups f a = .ok es ∧ ExchangeFound s a es := by
  by_cases hallowed : s.ExchangeAllowed f a
  · obtain ⟨hcp, hold, hnew, hq, hq'⟩ := id hallowed
    have hstart : s.crossRenameLookups f a = do
        let oldEntry ← entryOr none (findEntry f.findOld (s.inodes a.oldDir) a.oldName)
        let newEntry ← entryOr none (findEntry f.findNew (s.inodes a.newDir) a.newName)
        let oldDirEntry ← s.movedParent f.oldParent a a.oldInode
        let newDirEntry ← s.movedParent f.newParent a a.newInode
        if s.linksFull newDirEntry oldDirEntry a.oldDir ||
            s.linksFull oldDirEntry newDirEntry a.newDir then throw (some emlink)
        return ⟨oldEntry, newEntry, oldDirEntry, newDirEntry⟩ := by
      unfold FsState.crossRenameLookups
      rw [hcp, hold, hnew, hq, hq']
      rfl
    rw [hstart]
    rcases entryOr_cases none (findEntry f.findOld (s.inodes a.oldDir) a.oldName) with
      ⟨e, hr, he⟩ | ⟨hr, he⟩ | ⟨i, hi, he⟩
    · exact .inl ⟨fun h => by simp [FsState.NameMissing, hr] at h, e, by rw [he]; rfl⟩
    · exact .inr (.inl ⟨⟨hallowed, .inl hr⟩, by rw [he]; rfl⟩)
    rw [he]
    rcases entryOr_cases none (findEntry f.findNew (s.inodes a.newDir) a.newName) with
      ⟨e, hr, he⟩ | ⟨hr, he⟩ | ⟨j, hj, he⟩
    · exact .inl ⟨fun h => by simp [FsState.NameMissing, hi, hr] at h, e, by rw [he]; rfl⟩
    · exact .inr (.inl ⟨⟨hallowed, .inr ⟨⟨i, hi⟩, .inl hr⟩⟩, by rw [he]; rfl⟩)
    rw [he]
    have hmissing : s.NameMissing f a ↔ s.ParentMissing f.oldParent a a.oldInode ∨
        (s.Moved a a.oldInode → ∃ p, parentDir f.oldParent (s.inodes a.oldInode) =
          .ok (some p)) ∧ s.ParentMissing f.newParent a a.newInode := by
      simp [FsState.NameMissing, hallowed, hi, hj]
    rw [hmissing]
    rcases movedParent_cases f.oldParent a.oldInode with
      ⟨e, ⟨hmoved, hr⟩, he⟩ | ⟨hr, he⟩ | ⟨hseen, o, he, ho⟩
    · refine .inl ⟨fun h => ?_, e, by rw [he]; rfl⟩
      rcases h with ⟨-, hnull⟩ | ⟨hseen, -⟩
      · cases hr.symm.trans hnull
      · obtain ⟨p, hp⟩ := hseen hmoved
        cases hr.symm.trans hp
    · exact .inr (.inl ⟨.inl hr, by rw [he]; rfl⟩)
    have hold : ¬s.ParentMissing f.oldParent a a.oldInode := by
      rintro ⟨hmoved, hnull⟩
      obtain ⟨p, hp⟩ := hseen hmoved
      cases hp.symm.trans hnull
    rw [he]
    rcases movedParent_cases f.newParent a.newInode with
      ⟨e, ⟨hmoved, hr⟩, he⟩ | ⟨hr, he⟩ | ⟨hseen', n, he, hn⟩
    · refine .inl ⟨fun h => ?_, e, by rw [he]; rfl⟩
      obtain ⟨-, -, hnull⟩ := h.resolve_left hold
      cases hr.symm.trans hnull
    · exact .inr (.inl ⟨.inr ⟨hseen, hr⟩, by rw [he]; rfl⟩)
    have hnew : ¬s.ParentMissing f.newParent a a.newInode := by
      rintro ⟨hmoved, hnull⟩
      obtain ⟨p, hp⟩ := hseen' hmoved
      cases hp.symm.trans hnull
    have hnone : ¬(s.ParentMissing f.oldParent a a.oldInode ∨
        (s.Moved a a.oldInode → ∃ p, parentDir f.oldParent (s.inodes a.oldInode) =
          .ok (some p)) ∧ s.ParentMissing f.newParent a a.newInode) :=
      fun h => hnew (h.resolve_left hold).2
    rw [he]
    cases hfull : s.linksFull n o a.oldDir || s.linksFull o n a.newDir with
    | true => exact .inl ⟨hnone, emlink, by
        show (if (s.linksFull n o a.oldDir || s.linksFull o n a.newDir) = true then _ else _) = _
        rw [hfull]
        rfl⟩
    | false =>
      obtain ⟨h1, h2⟩ := Bool.or_eq_false_iff.mp hfull
      refine .inr (.inr ⟨hnone, ⟨i, j, o, n⟩, ?_, searched_some hi, searched_some hj, ho, hn,
        linksFull_false h1, linksFull_false h2⟩)
      show (if (s.linksFull n o a.oldDir || s.linksFull o n a.newDir) = true then _ else _) = _
      rw [hfull]
      rfl
  · refine .inl ⟨fun h => hallowed h.1, ?_⟩
    unfold FsState.crossRenameLookups
    cases hcp : s.cpError with
    | true => exact ⟨eio, rfl⟩
    | false =>
      cases hdiff : s.projidDiffers a.newDir a.newDir a.oldInode ||
          s.projidDiffers a.newDir a.oldDir a.newInode with
      | true => exact ⟨exdev, rfl⟩
      | false =>
        cases hq : f.dquotOldDir with
        | some e => exact ⟨e, rfl⟩
        | none =>
          cases hq' : f.dquotNewDir with
          | some e => exact ⟨e, rfl⟩
          | none =>
            obtain ⟨h1, h2⟩ := Bool.or_eq_false_iff.mp hdiff
            exact absurd ⟨hcp, h1, h2, hq, hq'⟩ hallowed

end

/-! ## The exchange -/

section

variable {s : FsState} {a : CrossRenameArgs} {es : CrossEntries}

/-- The dentries that the searches have found, and where they were. -/
structure TwoDentries (s : FsState) (a : CrossRenameArgs) (es : CrossEntries) (old new : DirEntry) :
    Prop where
  atOld : (s.inodes a.oldDir).dentries[es.oldEntry]? = some old
  atNew : (s.inodes a.newDir).dentries[es.newEntry]? = some new
  oldIno : old.ino = a.oldInode
  newIno : new.ino = a.newInode
  oldName : old.name = a.oldName
  newName : new.name = a.newName
  apart : a.oldDir = a.newDir → es.oldEntry ≠ es.newEntry

theorem exists_twoDentries (h : ExchangePromise s a) (hes : ExchangeFound s a es) :
    ∃ old new, TwoDentries s a es old new := by
  obtain ⟨old, hold, holdName⟩ := position_spec hes.oldEntry
  obtain ⟨new, hnew, hnewName⟩ := position_spec hes.newEntry
  have holdIno := h.old _ (lookup_of_position hes.oldEntry hold)
  have hnewIno := h.new _ (lookup_of_position hes.newEntry hnew)
  refine ⟨old, new, hold, hnew, holdIno, hnewIno, holdName, hnewName, fun hdir hentry => h.ne ?_⟩
  rw [hdir, hentry, hnew] at hold
  rw [← holdIno, ← hnewIno, Option.some.inj hold]

variable {old new : DirEntry} (d : TwoDentries s a es old new)

include d

/-- The first `f2fs_set_link` leaves the second dentry alone. -/
theorem TwoDentries.new_untouched :
    ((s.exchangeOld a es).inodes a.newDir).dentries[es.newEntry]? = some new := by
  rw [exchangeOld_dentries]
  split
  · rename_i hdir
    rw [List.getElem?_modify_ne _ _ (d.apart hdir.symm), ← hdir]
    exact d.atNew
  · exact d.atNew

/-- What stands where after both. -/
theorem TwoDentries.getElem?_update (dir i : Nat) :
    ((s.crossRenameUpdate a es).inodes dir).dentries[i]? =
      if dir = a.oldDir ∧ i = es.oldEntry then
        some (old.relink a.newInode (s.inodes a.newInode).mode)
      else if dir = a.newDir ∧ i = es.newEntry then
        some (new.relink a.oldInode (s.inodes a.oldInode).mode)
      else (s.inodes dir).dentries[i]? := by
  have hfirst : ∀ i, ((s.exchangeOld a es).inodes dir).dentries[i]? =
      if dir = a.oldDir ∧ i = es.oldEntry then
        some (old.relink a.newInode (s.inodes a.newInode).mode)
      else (s.inodes dir).dentries[i]? := by
    intro i
    rw [exchangeOld_dentries]
    by_cases hdir : dir = a.oldDir
    · subst hdir
      rw [if_pos rfl, List.getElem?_modify]
      by_cases hi : i = es.oldEntry
      · subst hi
        rw [if_pos ⟨rfl, rfl⟩, d.atOld]
        simp
      · rw [if_neg fun hc => hi hc.2]
        simp [Ne.symm hi]
    · rw [if_neg hdir, if_neg fun hc => hdir hc.1]
  rw [crossRenameUpdate_dentries]
  by_cases hdir : dir = a.newDir
  · subst hdir
    rw [if_pos rfl, List.getElem?_modify]
    by_cases hi : i = es.newEntry
    · subst hi
      have hold : ¬(a.newDir = a.oldDir ∧ es.newEntry = es.oldEntry) :=
        fun hc => d.apart hc.1.symm hc.2.symm
      rw [if_neg hold, if_pos ⟨rfl, rfl⟩, d.new_untouched]
      simp
    · rw [hfirst, if_neg fun hc : a.newDir = a.newDir ∧ i = es.newEntry => hi hc.2]
      simp [Ne.symm hi]
  · rw [if_neg hdir, hfirst, if_neg fun hc : dir = a.newDir ∧ i = es.newEntry => hdir hc.1]

omit d in
theorem position_update (dir : Nat) (name : Name) :
    position ((s.crossRenameUpdate a es).inodes dir).dentries name =
      position (s.inodes dir).dentries name := by
  have hfirst : ∀ x, position ((s.exchangeOld a es).inodes x).dentries name =
      position (s.inodes x).dentries name := by
    intro x
    rw [exchangeOld_dentries]
    split
    · rename_i hx
      rw [hx]
      exact position_modify _ fun _ => rfl
    · rfl
  rw [crossRenameUpdate_dentries]
  split
  · rename_i hdir
    rw [hdir, ← hfirst]
    exact position_modify _ fun _ => rfl
  · exact hfirst dir

theorem TwoDentries.otherDentries {dir i : Nat} {de : DirEntry}
    (hde : (s.inodes dir).dentries[i]? = some de) (hold : (dir, de.name) ≠ (a.oldDir, a.oldName))
    (hnew : (dir, de.name) ≠ (a.newDir, a.newName)) :
    ((s.crossRenameUpdate a es).inodes dir).dentries[i]? = some de := by
  rw [d.getElem?_update]
  by_cases h1 : dir = a.oldDir ∧ i = es.oldEntry
  · obtain ⟨rfl, rfl⟩ := h1
    obtain rfl := Option.some.inj (d.atOld.symm.trans hde)
    exact absurd (by rw [d.oldName]) hold
  · by_cases h2 : dir = a.newDir ∧ i = es.newEntry
    · obtain ⟨rfl, rfl⟩ := h2
      obtain rfl := Option.some.inj (d.atNew.symm.trans hde)
      exact absurd (by rw [d.newName]) hnew
    · rw [if_neg h1, if_neg h2]
      exact hde

theorem TwoDentries.lookup_other {dir : Nat} {name : Name}
    (hold : (dir, name) ≠ (a.oldDir, a.oldName)) (hnew : (dir, name) ≠ (a.newDir, a.newName)) :
    (s.crossRenameUpdate a es).lookup dir name = s.lookup dir name := by
  unfold FsState.lookup
  rw [position_update]
  cases hpos : position (s.inodes dir).dentries name with
  | none => rfl
  | some i =>
    obtain ⟨de, hde, rfl⟩ := position_spec hpos
    rw [Option.bind_some, Option.bind_some, d.otherDentries hde hold hnew, hde]

/-- The directories among the dentries, before and after. -/
theorem TwoDentries.subdirs (dir : Nat) :
    (s.crossRenameUpdate a es).subdirs dir +
        (if dir = a.oldDir then (s.inodes a.oldInode).isDir.toNat else 0) +
        (if dir = a.newDir then (s.inodes a.newInode).isDir.toNat else 0) =
      s.subdirs dir + (if dir = a.oldDir then (s.inodes a.newInode).isDir.toNat else 0) +
        (if dir = a.newDir then (s.inodes a.oldInode).isDir.toNat else 0) := by
  have hif : ∀ b : Bool, (if b = true then 1 else 0) = b.toNat := fun b => by cases b <;> rfl
  have hmode : ∀ x, ((s.crossRenameUpdate a es).inodes x).isDir = (s.inodes x).isDir := by
    intro x
    unfold InodeInfo.isDir
    rw [crossRenameUpdate_mode]
  unfold FsState.subdirs
  simp only [hmode]
  have hfirst : ((s.exchangeOld a es).inodes dir).dentries.countP
        (fun de => (s.inodes de.ino).isDir) +
        (if dir = a.oldDir then (s.inodes a.oldInode).isDir.toNat else 0) =
      (s.inodes dir).dentries.countP (fun de => (s.inodes de.ino).isDir) +
        (if dir = a.oldDir then (s.inodes a.newInode).isDir.toNat else 0) := by
    rw [exchangeOld_dentries]
    by_cases hdir : dir = a.oldDir
    · subst hdir
      have hcount := countP_modify (p := fun de => (s.inodes de.ino).isDir)
        (g := DirEntry.relink a.newInode (s.inodes a.newInode).mode) d.atOld
      rw [hif, hif, d.oldIno] at hcount
      rw [if_pos rfl, if_pos rfl, if_pos rfl]
      exact hcount
    · rw [if_neg hdir, if_neg hdir, if_neg hdir]
  rw [crossRenameUpdate_dentries]
  by_cases hdir : dir = a.newDir
  · subst hdir
    have hcount := countP_modify (p := fun de => (s.inodes de.ino).isDir)
      (g := DirEntry.relink a.oldInode (s.inodes a.oldInode).mode) d.new_untouched
    rw [hif, hif, d.newIno] at hcount
    simp only [if_true]
    simp only [DirEntry.relink] at hcount hfirst ⊢
    omega
  · rw [if_neg hdir, if_neg hdir, if_neg hdir]
    omega

end

theorem toNat_add_one {n : UInt32} (h : n < f2fsLinkMax) : (n + 1).toNat = n.toNat + 1 := by
  have hlt : n.toNat < 4294967295 := UInt32.lt_iff_toNat_lt.mp h
  rw [UInt32.toNat_add]
  exact Nat.mod_eq_of_lt (by show n.toNat + 1 < 2 ^ 32; omega)

theorem toNat_sub_one {n : UInt32} (h : 1 ≤ n.toNat) : (n - 1).toNat = n.toNat - 1 :=
  UInt32.toNat_sub_of_le n 1 (UInt32.le_iff_toNat_le.mpr h)

/-- One directory's side: what it loses is among its subdirectories. -/
theorem nlink_delta {n : UInt32} {gains loses : Bool} {k : Nat} (h : n.toNat = 2 + k)
    (hpos : loses.toNat ≤ k) (hroom : gains = true → loses = false → n < f2fsLinkMax) :
    (if gains ≠ loses then if gains = true then n + 1 else n - 1 else n).toNat + loses.toNat =
      2 + k + gains.toNat := by
  cases gains with
  | false =>
    cases loses with
    | false => exact h
    | true =>
      have hsub : (n - 1).toNat = n.toNat - 1 := toNat_sub_one (by omega)
      rw [if_pos Bool.false_ne_true, if_neg Bool.false_ne_true, hsub]
      rw [Bool.toNat_true] at hpos ⊢
      rw [Bool.toNat_false]
      omega
  | true =>
    cases loses with
    | false =>
      rw [if_pos (by decide), if_pos rfl, toNat_add_one (hroom rfl rfl), h]
      rfl
    | true =>
      rw [if_neg (not_not.mpr rfl), h]

section

variable {s : FsState} {a : CrossRenameArgs} {es : CrossEntries} {old new : DirEntry}

/-- What a directory has at the two places counts for its links. -/
theorem TwoDentries.subdirs_pos (d : TwoDentries s a es old new) :
    (s.inodes a.oldInode).isDir.toNat ≤ s.subdirs a.oldDir ∧
      (s.inodes a.newInode).isDir.toNat ≤ s.subdirs a.newDir := by
  have hcount : ∀ {dir i : Nat} {de : DirEntry}, (s.inodes dir).dentries[i]? = some de →
      (s.inodes de.ino).isDir.toNat ≤ s.subdirs dir := by
    intro dir i de h
    cases hdir : (s.inodes de.ino).isDir with
    | false => exact Nat.zero_le _
    | true => exact List.countP_pos_iff.mpr ⟨de, List.mem_of_getElem? h, hdir⟩
  rw [← d.oldIno, ← d.newIno]
  exact ⟨hcount d.atOld, hcount d.atNew⟩

/-- Every link count goes with the subdirectories. -/
theorem crossRenameUpdate_links (hes : ExchangeFound s a es) (d : TwoDentries s a es old new)
    {dir : Nat} (h : s.LinksCounted dir) : (s.crossRenameUpdate a es).LinksCounted dir := by
  have hsub := d.subdirs dir
  obtain ⟨hold, hnew⟩ := d.subdirs_pos
  unfold FsState.LinksCounted at h ⊢
  rw [crossRenameUpdate_nlink, exchangeOld_nlink]
  by_cases hsame : a.oldDir = a.newDir
  · -- no directory moves, and the two dentries are in the same one
    have ho : es.oldDirEntry = false :=
      Bool.eq_false_iff.mpr fun hc => (hes.oldDirEntry.mp hc).1 hsame
    have hn : es.newDirEntry = false :=
      Bool.eq_false_iff.mpr fun hc => (hes.newDirEntry.mp hc).1 hsame
    rw [ho, hn, if_neg fun hc => hc.2 rfl, if_neg fun hc => hc.2 rfl]
    rw [hsame] at hsub
    split at hsub <;> omega
  · have ho : es.oldDirEntry = (s.inodes a.oldInode).isDir := by
      rw [Bool.eq_iff_iff, hes.oldDirEntry]
      exact and_iff_right hsame
    have hn : es.newDirEntry = (s.inodes a.newInode).isDir := by
      rw [Bool.eq_iff_iff, hes.newDirEntry]
      exact and_iff_right hsame
    have hroom := hes.oldRoom
    have hroom' := hes.newRoom
    rw [ho, hn] at hroom hroom' ⊢
    by_cases h1 : dir = a.oldDir
    · subst h1
      rw [if_pos rfl, if_pos rfl, if_neg hsame, if_neg hsame] at hsub
      have hdelta := nlink_delta h hold hroom
      rw [if_neg fun hc => hsame hc.1]
      simp only [true_and]
      omega
    · rw [if_neg h1, if_neg h1] at hsub
      rw [if_neg fun hc : dir = a.oldDir ∧ _ => h1 hc.1]
      by_cases h2 : dir = a.newDir
      · subst h2
        rw [if_pos rfl, if_pos rfl] at hsub
        have hdelta := nlink_delta h hnew hroom'
        simp only [true_and]
        omega
      · rw [if_neg h2, if_neg h2] at hsub
        rw [if_neg fun hc : dir = a.newDir ∧ _ => h2 hc.1]
        omega

/-- Both names resolve to the other inode, and nothing else has changed. -/
theorem crossRenameUpdate_exchanged (h : ExchangePromise s a) (hes : ExchangeFound s a es) :
    Exchanged s (s.crossRenameUpdate a es) a := by
  obtain ⟨old, new, d⟩ := exists_twoDentries h hes
  have hlookup : ∀ {dir i : Nat} {name : Name} {de : DirEntry},
      position (s.inodes dir).dentries name = some i →
      ((s.crossRenameUpdate a es).inodes dir).dentries[i]? = some de →
      (s.crossRenameUpdate a es).lookup dir name = some de.ino :=
    fun hpos hde => lookup_of_position ((position_update _ _).trans hpos) hde
  refine ⟨?_, ?_, fun hm => ?_, fun hm => ?_, fun dir hdir => crossRenameUpdate_links hes d hdir,
    fun dir name => d.lookup_other, fun dir i de => d.otherDentries, fun dir => ?_,
      fun ino hino => ?_, fun ino h1 h2 => ?_, fun ino h1 h2 => ?_,
    fun ino => ?_, ?_⟩
  · exact hlookup hes.oldEntry (by rw [d.getElem?_update, if_pos ⟨rfl, rfl⟩])
  · have hat := d.getElem?_update a.newDir es.newEntry
    rw [if_neg fun hc => d.apart hc.1.symm hc.2.symm, if_pos ⟨rfl, rfl⟩] at hat
    exact hlookup hes.newEntry hat
  · rw [crossRenameUpdate_dotdot s a es h.ne, if_pos ⟨hes.oldDirEntry.mpr hm, rfl⟩]
  · rw [crossRenameUpdate_dotdot s a es h.ne, if_neg fun hc => h.ne hc.2.symm,
      if_pos ⟨hes.newDirEntry.mpr hm, rfl⟩]
  · have hfirst : ∀ x, ((s.exchangeOld a es).inodes x).dentries.length =
        (s.inodes x).dentries.length := by
      intro x
      rw [exchangeOld_dentries]
      split
      · rename_i hx
        rw [List.length_modify, hx]
      · rfl
    rw [crossRenameUpdate_dentries]
    split
    · rename_i hdir
      rw [List.length_modify, hdir, hfirst]
    · exact hfirst dir
  · rw [crossRenameUpdate_dotdot s a es h.ne, if_neg ?_, if_neg ?_]
    · rintro ⟨hn, rfl⟩
      exact hino ⟨hes.newDirEntry.mp hn, .inr rfl⟩
    · rintro ⟨ho, rfl⟩
      exact hino ⟨hes.oldDirEntry.mp ho, .inl rfl⟩
  · rw [crossRenameUpdate_nlink, exchangeOld_nlink, if_neg fun hc => h2 hc.1,
      if_neg fun hc => h1 hc.1]
  · rw [crossRenameUpdate_lostPino, if_neg h2, if_neg h1]
  · exact crossRenameUpdate_keeps s a es InodeInfo.fixedPart (fun _ _ => rfl) (fun _ _ => rfl)
      (fun _ _ => rfl) (fun _ _ => rfl) ino
  · exact crossRenameUpdate_orphans s a es

end

/-! ## The function -/

/-- With the callers' promise it exchanges or keeps exactly if no search ends with NULL and
    no error. -/
theorem crossRename_exchanges (s : FsState) (f : CrossRenameFaults) (a : CrossRenameArgs)
    (h : ExchangePromise s a) : ExchangesOrKeeps s f a ↔ ¬s.NameMissing f a := by
  unfold ExchangesOrKeeps f2fsCrossRename
  rcases crossRenameLookups_cases s f a with
    ⟨hnone, e, hr⟩ | ⟨hmissing, hr⟩ | ⟨hnone, es, hr, hes⟩
  · rw [hr]
    exact iff_of_true ⟨fun hc => (by cases hc), fun _ => rfl⟩ hnone
  · rw [hr]
    refine iff_of_false (fun hc => h.ne ?_) (not_not.mpr hmissing)
    -- nothing is done, so the old name would have to resolve to the new inode already
    exact (h.old _ (hc.1 rfl).oldName).symm
  · rw [hr]
    exact iff_of_true ⟨fun _ => crossRenameUpdate_exchanged h hes, fun hc => absurd rfl hc⟩ hnone

/-- An inode without dentries. -/
def plainInode (mode : FileType) (nlink : UInt32) (dotdot : Option Nat) : InodeInfo where
  mode := mode
  nlink := nlink
  iProjid := f2fsDefProjid
  projinheritFl := false
  fiProjInherit := false
  fiNewInode := false
  fiIncLink := false
  fiInlineDentry := true
  lostPino := false
  iPino := 3
  dotdot := dotdot
  dentries := []

/-- The root 3 holds the directories `a` (4) and `b` (5), `a` holds the directory `c` (6) and
    `b` the file `d` (7).  The entry ".." of `c` may be missing (`FI_INLINE_DOTS`). -/
def twoParents (dotdot : Option Nat) : FsState where
  cpError := false
  projectQuota := false
  inlineDentryOpt := true
  maxOrphans := 10
  inodes := fun ino =>
    if ino = 3 then { plainInode .dir 4 (some 3) with
      dentries := [⟨[97], 4, .dir⟩, ⟨[98], 5, .dir⟩] }
    else if ino = 4 then { plainInode .dir 3 (some 3) with dentries := [⟨[99], 6, .dir⟩] }
    else if ino = 5 then { plainInode .dir 2 (some 3) with dentries := [⟨[100], 7, .reg⟩] }
    else if ino = 6 then plainInode .dir 2 dotdot
    else plainInode .reg 1 none
  orphans := ⟨0, []⟩
  transDir := ∅

/-- The exchange of `a/c` and `b/d`. -/
def exchangeCD : CrossRenameArgs where
  oldDir := 4
  oldName := [99]
  oldInode := 6
  newDir := 5
  newName := [100]
  newInode := 7

def noFaults : CrossRenameFaults := ⟨none, none, none, none, none, none⟩

theorem exchangeCD_promise (dotdot : Option Nat) :
    ExchangePromise (twoParents dotdot) exchangeCD where
  old _ h := (Option.some.inj h).symm
  new _ h := (Option.some.inj h).symm
  ne := by decide

theorem exchangeCD_exchanges : ExchangesOrKeeps (twoParents (some 4)) noFaults exchangeCD :=
  (crossRename_exchanges _ _ _ (exchangeCD_promise (some 4))).mpr fun h => by
    rcases h.2 with hnull | ⟨-, hnull | ⟨-, ⟨-, hnull⟩ | ⟨-, ⟨-, hdir⟩, -⟩⟩⟩
    · cases hnull
    · cases hnull
    · cases hnull
    · cases hdir

/-- Without its entry "..", the directory `c` stays where it is and the call returns 0. -/
theorem exchangeCD_lost :
    (f2fsCrossRename (twoParents none) noFaults exchangeCD).1 = none ∧
      (f2fsCrossRename (twoParents none) noFaults exchangeCD).2.lookup 4 [99] = some 6 ∧
      ¬ExchangesOrKeeps (twoParents none) noFaults exchangeCD := by
  refine ⟨by decide, by decide, fun h => ?_⟩
  have hname := (h.1 (by decide)).oldName
  exact absurd hname (by decide)

end F2fs.Namei

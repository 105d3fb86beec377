/-
  A block moves out of a section: what `allocate_data_block` keeps of the books, and how much
  room for new dirty segments there is.

  A segment gets dirty when a block of it is invalidated, or when a log leaves it with holes.
  A log that LFS started on a free segment leaves it full, so only the logs that had holes
  before, or that SSR took to a dirty segment, leave a new one (`openDirt`).
-/
import F2fs.Segment.DirtyBooks

namespace F2fs.Segment

namespace SegManager

variable (sm : SmInfo) (s : SegManager)

/-! ## Loose logs -/

/-- A log that may leave holes behind: SSR, or LFS with blocks invalidated since. -/
def Loose (s : SegManager) (type : CursegType) : Prop :=
  ¬((s.curseg type).allocType = AllocMode.LFS ∧
    (s.curseg type).nextBlkoff ≤ (s.sit.sentries (s.curseg type).segno).validBlocks)

instance (s : SegManager) (type : CursegType) : Decidable (s.Loose type) := by
  unfold Loose
  infer_instance

def looseLogs (s : SegManager) : Finset CursegType :=
  CursegType.all.toFinset.filter fun type => s.Loose type

/-- The dirty segments outside the sections `secs`. -/
def dirtyOutside (sm : SmInfo) (s : SegManager) (secs : Finset Nat) : Finset Nat :=
  (s.dirty.dirtySegmap dirtyAll).filter fun k => getSec sm k ∉ secs

/-- The dirty segments outside some sections, and those the logs may still add. -/
def openDirt (sm : SmInfo) (s : SegManager) (secs : Finset Nat) : Nat :=
  (dirtyOutside sm s secs).card + (looseLogs s).card

section

variable {sm s}

theorem mem_looseLogs {type : CursegType} : type ∈ s.looseLogs ↔ s.Loose type := by
  unfold looseLogs
  rw [Finset.mem_filter, List.mem_toFinset, and_iff_right (CursegType.mem_all type)]

theorem mem_dirtyOutside {k : Nat} {secs : Finset Nat} : k ∈ dirtyOutside sm s secs ↔
    k ∈ s.dirty.dirtySegmap dirtyAll ∧ getSec sm k ∉ secs := Finset.mem_filter

/-- No segment of the section has valid blocks. -/
def SectionEmpty (sm : SmInfo) (s : SegManager) (secno : Nat) : Prop :=
  ∀ k < sm.mainSegments, getSec sm k = secno → (s.sit.sentries k).curValidMap = ∅

/-! ## The next block -/

section Next

variable {type : CursegType} {now oldBlkaddr : Nat} {sum : SumEntry}

theorem writeNext_log (t : CursegType) :
    ((s.writeNext sm type now oldBlkaddr sum).curseg t).segno = (s.curseg t).segno ∧
      ((s.writeNext sm type now oldBlkaddr sum).curseg t).allocType = (s.curseg t).allocType ∧
      (t ≠ type → (s.writeNext sm type now oldBlkaddr sum).curseg t = s.curseg t) := by
  rw [writeNext_curseg]
  unfold refreshNextBlkoff addSumEntry
  simp only [setCurseg_self]
  by_cases ht : t = type
  · rw [ht, setCurseg_self]
    exact ⟨rfl, rfl, fun hc => absurd rfl hc⟩
  · rw [setCurseg_ne _ _ ht, setCurseg_ne _ _ ht]
    exact ⟨rfl, rfl, fun _ => rfl⟩

theorem writeNext_lfs (hlfs : (s.curseg type).allocType = AllocMode.LFS) :
    ((s.writeNext sm type now oldBlkaddr sum).curseg type).nextBlkoff =
      (s.curseg type).nextBlkoff + 1 := by
  rw [writeNext_curseg]
  unfold refreshNextBlkoff addSumEntry
  simp only [setCurseg_self, hlfs]

theorem writeNext_free : (s.writeNext sm type now oldBlkaddr sum).free = s.free ∧
    (s.writeNext sm type now oldBlkaddr sum).ssa = s.ssa := by
  unfold writeNext
  simp only
  split <;> exact ⟨rfl, rfl⟩

theorem writeNext_sit_eq (hold : InMain sm oldBlkaddr) :
    (s.writeNext sm type now oldBlkaddr sum).sit =
      (s.sit.updateSitEntry sm now (s.nextFreeBlkaddr sm type) true).updateSitEntry sm now
        oldBlkaddr false := by
  unfold writeNext
  simp only
  rw [if_pos (getSegno_ne_null hold)]
  rfl

theorem writeNext_type (hold : InMain sm oldBlkaddr) (k : Nat) :
    ((s.writeNext sm type now oldBlkaddr sum).sit.sentries k).type = (s.sit.sentries k).type := by
  rw [writeNext_sit_eq hold, updateSitEntry_type, updateSitEntry_type]

/-- The maps of valid blocks, for a block that moves to another segment. -/
theorem writeNext_map (now : Nat) (sum : SumEntry) (hold : InMain sm oldBlkaddr)
    (hroom : s.HasRoom type)
    (hseg : (s.curseg type).segno < sm.mainSegments)
    (hne : (s.curseg type).segno ≠ getSegno sm oldBlkaddr) (k : Nat) :
    ((s.writeNext sm type now oldBlkaddr sum).sit.sentries k).curValidMap =
      if k = (s.curseg type).segno then
        insert (getBlkoff sm (s.nextFreeBlkaddr sm type)) (s.sit.sentries k).curValidMap
      else if k = getSegno sm oldBlkaddr then
        (s.sit.sentries k).curValidMap.erase (getBlkoff sm oldBlkaddr)
      else (s.sit.sentries k).curValidMap := by
  have hsegno : getSegno sm (s.nextFreeBlkaddr sm type) = (s.curseg type).segno :=
    getSegno_startBlock hseg hroom.lt
  rw [writeNext_sit_eq hold, updateSitEntry_curValidMap, updateSitEntry_curValidMap, hsegno]
  by_cases hk : k = (s.curseg type).segno
  · rw [if_neg fun hc => hne (hk.symm.trans hc), if_pos hk, if_pos rfl, if_pos hk]
  · rw [if_neg hk, if_neg hk, if_neg Bool.false_ne_true]

theorem Books.writeNext (h : Books sm s) (hold : InMain sm oldBlkaddr) (hroom : s.HasRoom type) :
    Books sm (s.writeNext sm type now oldBlkaddr sum) := by
  have hseg := h.logMain type
  refine ⟨fun t => ?_, fun t => ?_, fun {t t'} heq => ?_, fun k hk => ?_, ?_,
    fun k hk hfree i hi => ?_, ?_, ?_, ?_, fun t => ?_, fun {t k} ht hk => ?_, ?_⟩
  · rw [(writeNext_log t).1]
    exact h.logMain t
  · rw [(writeNext_log t).1, writeNext_free.1]
    exact h.logInUse t
  · rw [(writeNext_log t).1, (writeNext_log t').1] at heq
    exact h.apart heq
  · exact (writeNext_sit sm now oldBlkaddr sum hroom hseg k).2 (h.counted k hk)
  · have hnew : InMain sm (s.nextFreeBlkaddr sm type) := inMain_startBlock hseg hroom.lt
    have hvalid := (h.counted _ (getSegno_lt hnew)).valid
    rw [writeNext_sit_eq hold]
    refine secCounted_updateSitEntry (secCounted_updateSitEntry h.sections hnew hvalid) hold ?_
    rw [updateSitEntry_sentries, Function.update_apply]
    split
    case isTrue => exact update_valid sm now _ true hvalid
    case isFalse => exact (h.counted _ (getSegno_lt hold)).valid
  · rw [writeNext_free.1] at hfree
    refine (writeNext_sit sm now oldBlkaddr sum hroom hseg k).1 i (h.unused k hk hfree i hi) ?_
    rintro rfl
    exact absurd (h.logInUse type) hfree
  · rw [writeNext_free.1]
    exact h.segmap
  · rw [writeNext_dirty]
    exact h.dirtyMain
  · rw [writeNext_dirty, writeNext_free.1]
    exact h.dirtyInUse
  · rw [(writeNext_log t).1, writeNext_dirty]
    exact h.dirtyLog t
  · rw [writeNext_dirty] at hk ⊢
    rw [writeNext_type hold]
    exact h.lists ht hk
  · rw [writeNext_dirty]
    exact h.victims

/-- The logs after the block was written; the one that wrote may be full. -/
theorem LogRoom.writeNext (h : Books sm s) (hwrite : s.LogRoom type) {t : CursegType}
    (ht : s.LogRoom t)
    (hspace : t = type →
      ((s.writeNext sm type now oldBlkaddr sum).curseg type).nextBlkoff < blocksPerSeg) :
    (s.writeNext sm type now oldBlkaddr sum).LogRoom t := by
  have hseg := h.logMain type
  have hkeep := fun k => (writeNext_sit sm now oldBlkaddr sum hwrite.room hseg k).1
  by_cases heq : t = type
  · subst heq
    have hlt := hspace rfl
    cases hmode : (s.curseg t).allocType with
    | SSR =>
      refine ⟨(writeNext_ssr sm now oldBlkaddr sum hmode hwrite.room hseg).2.2 hlt, fun hlfs => ?_⟩
      rw [(writeNext_log t).2.1, hmode] at hlfs
      cases hlfs
    | LFS =>
      rw [writeNext_lfs hmode] at hlt
      have hahead : ∀ i, (s.curseg t).nextBlkoff + 1 ≤ i → i < blocksPerSeg →
          ((s.writeNext sm t now oldBlkaddr sum).sit.sentries (s.curseg t).segno).FreeAt i :=
        fun i hi hi' => hkeep _ i (ht.ahead hmode i (Nat.le_of_succ_le hi) hi') fun _ hc =>
          absurd hi (by omega)
      constructor
      · unfold HasRoom
        rw [(writeNext_log t).1, writeNext_lfs hmode]
        exact hahead _ (Nat.le_refl _) hlt
      · rw [(writeNext_log t).1, writeNext_lfs hmode]
        exact fun _ i hi hi' => hahead i hi hi'
  · have hsame : (s.writeNext sm type now oldBlkaddr sum).curseg t = s.curseg t :=
      (writeNext_log t).2.2 heq
    have hfree : ∀ i, (s.sit.sentries (s.curseg t).segno).FreeAt i →
        ((s.writeNext sm type now oldBlkaddr sum).sit.sentries (s.curseg t).segno).FreeAt i :=
      fun i hi => hkeep _ i hi fun hc => absurd (h.apart hc) heq
    constructor
    · unfold HasRoom
      rw [hsame]
      exact hfree _ ht.room
    · rw [hsame]
      exact fun hlfs i hi hi' => hfree i (ht.ahead hlfs i hi hi')

/-- A log that left no holes leaves none. -/
theorem loose_of_writeNext (h : Books sm s) (hold : InMain sm oldBlkaddr) (hroom : s.HasRoom type)
    (hne : ∀ t, (s.curseg t).segno ≠ getSegno sm oldBlkaddr) {t : CursegType}
    (hloose : (s.writeNext sm type now oldBlkaddr sum).Loose t) : s.Loose t := by
  rintro ⟨hlfs, hle⟩
  refine hloose ⟨(writeNext_log t).2.1.trans hlfs, ?_⟩
  have hcounted : ((s.writeNext sm type now oldBlkaddr sum).sit.sentries
      (s.curseg t).segno).Counted := (h.writeNext hold hroom).counted _ (h.logMain t)
  rw [(h.counted _ (h.logMain t)).valid] at hle
  rw [(writeNext_log t).1, hcounted.valid,
    writeNext_map now sum hold hroom (h.logMain type) (hne type)]
  by_cases ht : t = type
  · subst ht
    rw [writeNext_lfs hlfs, if_pos rfl]
    have hnot : getBlkoff sm (s.nextFreeBlkaddr sm t) ∉
        (s.sit.sentries (s.curseg t).segno).curValidMap := by
      obtain ⟨offset, hoff, hfree⟩ := hroom
      have heq : getBlkoff sm (s.nextFreeBlkaddr sm t) = offset :=
        Fin.ext ((getBlkoff_startBlock (hoff ▸ offset.isLt)).trans hoff.symm)
      rw [heq]
      exact fun hc => hfree (Finset.mem_union_right _ hc)
    rw [Finset.card_insert_of_notMem hnot]
    omega
  · rw [(writeNext_log t).2.2 ht, if_neg fun hc => ht (h.apart hc), if_neg (hne t)]
    exact hle

end Next

/-! ## The switch -/

section Switch

variable {p : AllocPolicy} {type : CursegType} {secs : Finset Nat} {u : SegManager}

/-- What SSR may take: a dirty segment outside the sections `secs` with a free block. -/
def SsrOutside (sm : SmInfo) (s : SegManager) (secs : Finset Nat) (found : Option Nat) : Prop :=
  ∀ m, found = some m → m ∈ s.dirty.dirtySegmap dirtyAll ∧ getSec sm m ∉ secs ∧
    ∃ i, (s.sit.sentries m).FreeAt i

/-- A full log was switched, to a new segment or by SSR. -/
structure Switched (sm : SmInfo) (s u : SegManager) (type : CursegType) (secs : Finset Nat)
    (m : Nat) : Prop where
  moved : LogMoved s u type m
  books : Books sm u
  rooms : ∀ t, u.LogRoom t
  outside : getSec sm m ∉ secs
  victims : u.dirty.victimSecmap ⊆ s.dirty.victimSecmap
  kept : ∀ c ∈ secs, c ∈ s.dirty.victimSecmap → c ∈ u.dirty.victimSecmap
  how : (u.dirty = s.dirty ∧ ¬u.Loose type) ∨
    (m ∈ s.dirty.dirtySegmap dirtyAll ∧
      u.dirty.dirtySegmap dirtyAll = (s.dirty.dirtySegmap dirtyAll).erase m)

theorem allocateSegment_switched (h : Books sm s) (hrooms : ∀ t, t ≠ type → s.LogRoom t)
    (hsec : ∀ t, getSec sm (s.curseg t).segno ∉ secs) (hused : secs ⊆ s.free.freeSecmap)
    (hp : SsrOutside sm s secs (getSsrSegment p type)) {force : Bool}
    (heq : s.allocateSegmentByDefault sm p type force = some u) :
    ∃ m, Switched sm s u type secs m := by
  rcases allocateSegmentByDefault_cases sm heq with ⟨newSec, hnew⟩ | ⟨m, hfound, rfl⟩
  · obtain ⟨m, hbooks, hmoved, hroom, halloc, hblkoff, hdirty, -, -, hwhere⟩ :=
      newCurseg_spec h hnew
    refine ⟨m, hmoved, hbooks, fun t => ?_, fun hm => ?_, by rw [hdirty],
      fun c _ hc => by rwa [hdirty], Or.inl ⟨hdirty, fun hc => hc ⟨halloc, ?_⟩⟩⟩
    · by_cases ht : t = type
      · rwa [ht]
      · exact hmoved.room ht (hrooms t ht)
    · rcases hwhere with hsame | hfree
      · exact hsec type (hsame ▸ hm)
      · exact hfree (hused hm)
    · rw [hblkoff]
      exact Nat.zero_le _
  · obtain ⟨hm, hout, i, hi⟩ := hp m hfound
    obtain ⟨hbooks, hmoved, hroom, -, hdirty, hvictims, hkept⟩ :=
      changeCurseg_spec h type hm hi
    refine ⟨m, hmoved, hbooks, fun t => ?_, hout, hvictims,
      fun c hc hv => hkept c hv fun heq => hout (heq ▸ hc), Or.inr ⟨hm, hdirty⟩⟩
    by_cases ht : t = type
    · rwa [ht]
    · exact hmoved.room ht (hrooms t ht)

/-- Only the log that was switched can have become loose. -/
theorem Switched.loose {m : Nat} (h : Switched sm s u type secs m) :
    looseLogs u ⊆ insert type (looseLogs s) := by
  intro t ht
  rw [Finset.mem_insert]
  by_cases heq : t = type
  · exact Or.inl heq
  · refine Or.inr (mem_looseLogs.mpr fun hc => mem_looseLogs.mp ht ?_)
    rw [h.moved.other t heq, (h.moved.sentry _).2.2]
    exact hc

/-- The segment the log left is dirty only if the log was loose. -/
theorem Switched.openDirt_le {m : Nat} (h : Switched sm s u type secs m) {w : SegManager}
    (hlogs : looseLogs w = looseLogs u) {k : Nat}
    (hdirty : dirtyOutside sm w secs ⊆ insert k (dirtyOutside sm u secs))
    (hfull : ¬s.Loose type → k ∉ dirtyOutside sm w secs) :
    openDirt sm w secs ≤ openDirt sm s secs := by
  have hcard : (dirtyOutside sm w secs).card ≤
      (dirtyOutside sm u secs).card + if s.Loose type then 1 else 0 := by
    split
    case isTrue => exact (Finset.card_le_card hdirty).trans (Finset.card_insert_le _ _)
    case isFalse hnot =>
      refine Finset.card_le_card fun j hj => ?_
      rcases Finset.mem_insert.mp (hdirty hj) with rfl | hmem
      · exact absurd hj (hfull hnot)
      · exact hmem
  unfold openDirt
  rw [hlogs]
  rcases h.how with ⟨hsame, hnot⟩ | ⟨hm, herase⟩
  · -- a new segment is left full
    have hout : dirtyOutside sm u secs = dirtyOutside sm s secs := by
      unfold dirtyOutside
      rw [hsame]
    have hloose : looseLogs u ⊆ (looseLogs s).erase type := fun t ht =>
      Finset.mem_erase.mpr ⟨fun hc => hnot (hc ▸ mem_looseLogs.mp ht),
        (Finset.mem_insert.mp (h.loose ht)).resolve_left
          fun hc => hnot (hc ▸ mem_looseLogs.mp ht)⟩
    have hle := Finset.card_le_card hloose
    rw [hout] at hcard
    split at hcard
    case isTrue hl =>
      have hpos := Finset.card_erase_add_one (mem_looseLogs.mpr hl)
      omega
    case isFalse hl =>
      have herase := Finset.card_le_card (Finset.erase_subset type (looseLogs s))
      omega
  · -- SSR takes a segment from the lists
    have hout : dirtyOutside sm u secs = (dirtyOutside sm s secs).erase m := by
      unfold dirtyOutside
      rw [herase, Finset.filter_erase]
    have hpos := Finset.card_erase_add_one (mem_dirtyOutside.mpr ⟨hm, h.outside⟩)
    have hle := Finset.card_le_card h.loose
    rw [hout] at hcard
    split at hcard
    case isTrue hl =>
      rw [Finset.insert_eq_of_mem (mem_looseLogs.mpr hl)] at hle
      omega
    case isFalse =>
      have hins := Finset.card_insert_le type (looseLogs s)
      omega

end Switch

/-! ## The two segments of a move -/

section Locate

variable {k k' : Nat}

theorem locateDirtySegment_same (sm : SmInfo) (s : SegManager) (k : Nat) :
    (s.locateDirtySegment sm k).curseg = s.curseg ∧
    (s.locateDirtySegment sm k).sit = s.sit ∧ (s.locateDirtySegment sm k).ssa = s.ssa ∧
    (s.locateDirtySegment sm k).free = s.free := by
  rw [locateDirtySegment_eq]
  exact ⟨rfl, rfl, rfl, rfl⟩

theorem LogRoom.congr {u : SegManager} {type : CursegType} (h : s.LogRoom type)
    (hlogs : u.curseg = s.curseg) (hsit : u.sit = s.sit) : u.LogRoom type where
  room := h.room.congr (congrFun hlogs type) hsit
  ahead := by
    rw [hlogs, hsit]
    exact h.ahead

theorem looseLogs_congr {u : SegManager} (hlogs : u.curseg = s.curseg) (hsit : u.sit = s.sit) :
    looseLogs u = looseLogs s := by
  ext t
  rw [mem_looseLogs, mem_looseLogs]
  unfold Loose
  rw [hlogs, hsit]

/-- Both segments are put where they belong. -/
theorem locate_both (k' : Nat) (h : Books sm s) (hrooms : ∀ t, s.LogRoom t)
    (hvalid : s.DirtyValid (some k))
    (hk : k < sm.mainSegments) (hk' : k' < sm.mainSegments) :
    let w := (s.locateDirtySegment sm k).locateDirtySegment sm k'
    BooksOk sm w ∧ w.curseg = s.curseg ∧ w.sit = s.sit ∧ w.ssa = s.ssa ∧ w.free = s.free ∧
      w.dirty.victimSecmap ⊆ s.dirty.victimSecmap ∧
      (∀ c, getSec sm k' ≠ c → c ∈ s.dirty.victimSecmap →
        c ∈ w.dirty.victimSecmap ∨ SectionEmpty sm w c) ∧
      (∀ secs : Finset Nat, getSec sm k ∈ secs →
        dirtyOutside sm w secs ⊆ insert k' (dirtyOutside sm s secs)) ∧
      (k' ∈ w.dirty.dirtySegmap dirtyAll → s.isCurseg k' = false ∧
        (s.sit.sentries k').validBlocks < blocksPerSeg) := by
  intro w
  have hbooks := h.locateDirtySegment hk
  obtain ⟨hlogs, hsit, hssa, hfree⟩ := locateDirtySegment_same sm s k
  obtain ⟨hlogs', hsit', hssa', hfree'⟩ :=
    locateDirtySegment_same sm (s.locateDirtySegment sm k) k'
  have hcur : (s.locateDirtySegment sm k).isCurseg k' = s.isCurseg k' := by
    unfold isCurseg
    rw [hlogs]
  have hmem := fun j => mem_locateDirtySegment (j := j) hbooks hk'
  have hmem₁ := fun j => mem_locateDirtySegment (j := j) h hk
  rw [hcur, hsit] at hmem
  refine ⟨⟨hbooks.locateDirtySegment hk', fun t => ?_, fun j hj _ => ?_⟩, hlogs'.trans hlogs,
    hsit'.trans hsit, hssa'.trans hssa, hfree'.trans hfree, ?_, fun c hsec' hc => ?_,
    fun secs hsec j hj => ?_, fun hj => ?_⟩
  · exact (hrooms t).congr (hlogs'.trans hlogs) (hsit'.trans hsit)
  · rw [show w.sit = s.sit from hsit'.trans hsit]
    rcases (hmem j).mp hj with ⟨-, hj⟩ | ⟨rfl, -, hv, -⟩
    · rcases (hmem₁ j).mp hj with ⟨hne, hj⟩ | ⟨rfl, -, hv, -⟩
      · exact hvalid j hj fun hc => hne (Option.some.inj hc)
      · exact hv
    · exact hv
  · exact (locateDirtySegment_victims hk').trans (locateDirtySegment_victims hk)
  · by_cases hzero : getSec sm k = c ∧ getValidBlocks sm s.sit k true = 0
    · refine Or.inr fun j hj hjsec => ?_
      rw [show w.sit = s.sit from hsit'.trans hsit]
      exact h.empty hk hzero.2 hj (hjsec.trans hzero.1.symm)
    · exact Or.inl (locateDirtySegment_keeps hk'
        (locateDirtySegment_keeps hk hc fun hsec hc' => hzero ⟨hsec, hc'⟩)
        fun heq => absurd heq hsec')
  · obtain ⟨hj, hout⟩ := mem_dirtyOutside.mp hj
    rw [Finset.mem_insert]
    rcases (hmem j).mp hj with ⟨-, hj⟩ | ⟨rfl, -⟩
    · rcases (hmem₁ j).mp hj with ⟨-, hj⟩ | ⟨rfl, -⟩
      · exact Or.inr (mem_dirtyOutside.mpr ⟨hj, hout⟩)
      · exact absurd hsec hout
    · exact Or.inl rfl
  · rcases (hmem k').mp hj with ⟨hne, -⟩ | ⟨-, hc, -, hlt⟩
    · exact absurd rfl hne
    · exact ⟨hc, hlt⟩

end Locate

/-! ## A block moves out of a section -/

/-- The block at `oldBlkaddr`, in one of the sections `secs`, was written elsewhere. -/
structure MovedOut (sm : SmInfo) (s s' : SegManager) (secs : Finset Nat) (oldBlkaddr : Nat) :
    Prop where
  books : BooksOk sm s'
  apart : ∀ t, getSec sm (s'.curseg t).segno ∉ secs
  free : s.free.freeSecmap ⊆ s'.free.freeSecmap
  map : ∀ k, getSec sm k ∈ secs → (s'.sit.sentries k).curValidMap =
    if k = getSegno sm oldBlkaddr then
      (s.sit.sentries k).curValidMap.erase (getBlkoff sm oldBlkaddr)
    else (s.sit.sentries k).curValidMap
  ssa : ∀ k, getSec sm k ∈ secs → s'.ssa k = s.ssa k
  victims : s'.dirty.victimSecmap ⊆ s.dirty.victimSecmap
  kept : ∀ c ∈ secs, c ∈ s.dirty.victimSecmap →
    c ∈ s'.dirty.victimSecmap ∨ SectionEmpty sm s' c
  openDirt_le : openDirt sm s' secs ≤ openDirt sm s secs

theorem allocateDataBlock_movedOut {p : AllocPolicy} {type : CursegType} {secs : Finset Nat}
    {now oldBlkaddr addr : Nat} {sum : SumEntry} {s' : SegManager} (h : BooksOk sm s)
    (hsec : ∀ t, getSec sm (s.curseg t).segno ∉ secs) (hused : secs ⊆ s.free.freeSecmap)
    (hold : InMain sm oldBlkaddr) (hin : getSec sm (getSegno sm oldBlkaddr) ∈ secs)
    (hp : SsrOutside sm (s.writeNext sm type now oldBlkaddr sum) secs (getSsrSegment p type))
    (heq : s.allocateDataBlock sm p now oldBlkaddr sum type = some (addr, s')) :
    MovedOut sm s s' secs oldBlkaddr := by
  have hroom := (h.rooms type).room
  have hne : ∀ t, (s.curseg t).segno ≠ getSegno sm oldBlkaddr :=
    fun t hc => hsec t (hc.symm ▸ hin)
  have hmain := getSegno_lt hold
  have hbooks : Books sm (s.writeNext sm type now oldBlkaddr sum) := h.writeNext hold hroom
  have hmap := writeNext_map now sum hold hroom (h.logMain type) (hne type)
  have hlog : ∀ t, ((s.writeNext sm type now oldBlkaddr sum).curseg t).segno =
      (s.curseg t).segno := fun t => (writeNext_log t).1
  have hssa : (s.writeNext sm type now oldBlkaddr sum).ssa = s.ssa := writeNext_free.2
  have hfree : (s.writeNext sm type now oldBlkaddr sum).free = s.free := writeNext_free.1
  have hdirty : (s.writeNext sm type now oldBlkaddr sum).dirty = s.dirty := writeNext_dirty ..
  have hrooms : ∀ t, (t = type → ((s.writeNext sm type now oldBlkaddr sum).curseg type).nextBlkoff <
      blocksPerSeg) → (s.writeNext sm type now oldBlkaddr sum).LogRoom t := fun t hspace =>
    LogRoom.writeNext h.toBooks (h.rooms type) (h.rooms t) hspace
  have hloose : looseLogs (s.writeNext sm type now oldBlkaddr sum) ⊆ looseLogs s := fun t ht =>
    mem_looseLogs.mpr (loose_of_writeNext h.toBooks hold hroom hne (mem_looseLogs.mp ht))
  have hopen : openDirt sm (s.writeNext sm type now oldBlkaddr sum) secs ≤
      openDirt sm s secs := by
    have hle := Finset.card_le_card hloose
    unfold openDirt dirtyOutside
    rw [hdirty]
    omega
  -- only the segment of the old block can have become empty
  have hdv : (s.writeNext sm type now oldBlkaddr sum).DirtyValid
      (some (getSegno sm oldBlkaddr)) := by
    intro j hj hjne
    rw [hdirty] at hj
    have hjold : j ≠ getSegno sm oldBlkaddr := fun hc => hjne (congrArg some hc)
    have hjlog : j ≠ (s.curseg type).segno := fun hc => h.dirtyLog type (hc ▸ hj)
    have hjmain := Finset.mem_range.mp (h.dirtyMain _ hj)
    rw [(hbooks.counted j hjmain).valid, hmap, if_neg hjlog, if_neg hjold,
      ← (h.counted j hjmain).valid]
    exact h.dirtyValid j hj fun hc => by cases hc
  have hsegno : getSegno sm (s.nextFreeBlkaddr sm type) = (s.curseg type).segno :=
    getSegno_startBlock (h.logMain type) hroom.lt
  rw [allocateDataBlock_eq] at heq
  simp only [hsegno] at heq
  have hmap' : ∀ k, getSec sm k ∈ secs →
      ((s.writeNext sm type now oldBlkaddr sum).sit.sentries k).curValidMap =
        if k = getSegno sm oldBlkaddr then
          (s.sit.sentries k).curValidMap.erase (getBlkoff sm oldBlkaddr)
        else (s.sit.sentries k).curValidMap := fun k hk => by
    rw [hmap, if_neg fun hc : k = (s.curseg type).segno => hsec type (hc ▸ hk)]
  have hlast' : ∀ c ∈ secs, getSec sm (s.curseg type).segno ≠ c :=
    fun c hc heq => hsec type (heq ▸ hc)
  generalize s.writeNext sm type now oldBlkaddr sum = t at *
  by_cases hfull : blocksPerSeg ≤ (t.curseg type).nextBlkoff
  · rw [if_pos hfull] at heq
    obtain ⟨u, hswitch, hs'⟩ := Option.map_eq_some_iff.mp heq
    obtain rfl := (Prod.mk.inj hs').2
    obtain ⟨m, hsw⟩ := allocateSegment_switched hbooks
      (fun t' ht' => hrooms t' fun hc => absurd hc ht') (fun t' => hlog t' ▸ hsec t')
      (hfree ▸ hused) hp hswitch
    have hsub : u.dirty.dirtySegmap dirtyAll ⊆ t.dirty.dirtySegmap dirtyAll := by
      rcases hsw.how with ⟨hsame, -⟩ | ⟨-, herase⟩
      · rw [hsame]
      · rw [herase]
        exact Finset.erase_subset _ _
    obtain ⟨hok, hlogs, hsit, hssa', hfree', hvictims, hkept, hout, hlast⟩ :=
      locate_both (s.curseg type).segno hsw.books hsw.rooms (fun j hj hjne => by
        rw [(hsw.moved.sentry j).2.2]
        exact hdv j (hsub hj) hjne) hmain (h.logMain type)
    refine ⟨hok, fun t' => ?_, ?_, fun k hk => ?_, fun k hk => ?_, ?_, fun c hc hv => ?_, ?_⟩
    · rw [hlogs]
      by_cases ht : t' = type
      · rw [ht, hsw.moved.segno]
        exact hsw.outside
      · rw [hsw.moved.other t' ht, hlog t']
        exact hsec t'
    · rw [hfree', ← hfree]
      exact hsw.moved.inUse
    · rw [hsit, (hsw.moved.sentry k).1]
      exact hmap' k hk
    · have hk' : k ≠ (t.curseg type).segno := by
        rw [hlog type]
        exact fun hc : k = (s.curseg type).segno => hsec type (hc ▸ hk)
      rw [hssa', hsw.moved.ssa, Function.update_of_ne hk', hssa]
    · exact (hvictims.trans hsw.victims).trans (hdirty ▸ subset_rfl)
    · exact hkept c (hlast' c hc) (hsw.kept c hc (hdirty.symm ▸ hv))
    · refine (hsw.openDirt_le (looseLogs_congr hlogs hsit) (hout secs hin) fun hnot hc => ?_).trans
        hopen
      have hlt := (hlast (mem_dirtyOutside.mp hc).1).2
      rw [(hsw.moved.sentry _).2.2] at hlt
      have hle := (not_not.mp hnot).2
      rw [hlog type] at hle
      omega
  · rw [if_neg hfull] at heq
    obtain rfl := (Prod.mk.inj (Option.some.inj heq)).2
    obtain ⟨hok, hlogs, hsit, hssa', hfree', hvictims, hkept, hout, hlast⟩ :=
      locate_both (s.curseg type).segno hbooks
        (fun t' => hrooms t' fun _ => Nat.not_le.mp hfull) hdv hmain (h.logMain type)
    refine ⟨hok, fun t' => ?_, ?_, fun k hk => ?_, fun k _ => ?_, ?_,
      fun c hc hv => hkept c (hlast' c hc) (hdirty.symm ▸ hv), ?_⟩
    · rw [hlogs, hlog t']
      exact hsec t'
    · rw [hfree', hfree]
    · rw [hsit]
      exact hmap' k hk
    · rw [hssa', hssa]
    · exact hvictims.trans (hdirty ▸ subset_rfl)
    · have hcur : t.isCurseg (s.curseg type).segno = true := isCurseg_iff.mpr ⟨type, hlog type⟩
      have hsub : dirtyOutside sm _ secs ⊆ dirtyOutside sm t secs := fun j hj => by
        rcases Finset.mem_insert.mp (hout secs hin hj) with rfl | hmem
        · have hc := (hlast (mem_dirtyOutside.mp hj).1).1
          rw [hcur] at hc
          cases hc
        · exact hmem
      refine le_trans ?_ hopen
      unfold openDirt
      rw [looseLogs_congr hlogs hsit]
      exact Nat.add_le_add_right (Finset.card_le_card hsub) _

end

end SegManager

end F2fs.Segment

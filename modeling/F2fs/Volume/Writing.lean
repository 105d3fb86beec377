/-
  One block is written, and one becomes invalid.

  The new block was neither valid nor part of the last checkpoint.  Between checkpoints the
  SIT changes only in entries that are marked dirty, and the blocks of the last checkpoint
  stay marked in it (`Touches`).
-/
import F2fs.Volume.Turn

namespace F2fs.Volume

open F2fs.Segment F2fs.Gc
open SegManager (writeNext_log writeNext_free writeNext_dirty)

/-! ## Addresses -/

section

variable {sm : SmInfo} {sit sit' : SitInfo} {a addr : Nat}

theorem addr_ext {b : Nat} (ha : InMain sm a) (hb : InMain sm b)
    (hseg : getSegno sm a = getSegno sm b) (hoff : getBlkoff sm a = getBlkoff sm b) : a = b := by
  rw [← startBlock_getSegno ha, ← startBlock_getSegno hb, hseg, hoff]

theorem validAt_updateSitEntry (now : Nat) (ha : InMain sm addr) (set : Bool) :
    ValidAt sm (sit.updateSitEntry sm now addr set) a ↔
      if set = true then a = addr ∨ ValidAt sm sit a else ValidAt sm sit a ∧ a ≠ addr := by
  unfold ValidAt
  rw [updateSitEntry_curValidMap]
  by_cases haddr : a = addr
  · subst haddr
    rw [if_pos rfl]
    cases set with
    | true =>
        simp only [if_true, true_or, iff_true]
        exact ⟨ha, Finset.mem_insert_self _ _⟩
    | false =>
        simp only [Bool.false_eq_true, if_false, ne_eq, not_true_eq_false, and_false, iff_false]
        exact fun hc => absurd hc.2 (Finset.notMem_erase _ _)
  · by_cases hseg : getSegno sm a = getSegno sm addr
    · rw [if_pos hseg]
      have hoff : InMain sm a → getBlkoff sm a ≠ getBlkoff sm addr :=
        fun hin hc => haddr (addr_ext hin ha hseg hc)
      cases set with
      | true =>
          simp only [if_true, haddr, false_or]
          exact and_congr_right fun hin => by
            rw [Finset.mem_insert, or_iff_right (hoff hin)]
      | false =>
          simp only [Bool.false_eq_true, if_false, ne_eq, haddr, not_false_eq_true, and_true]
          exact and_congr_right fun hin => by
            rw [Finset.mem_erase, and_iff_right (hoff hin)]
    · rw [if_neg hseg]
      cases set with
      | true => simp only [if_true, haddr, false_or]
      | false => simp only [Bool.false_eq_true, if_false, ne_eq, haddr, not_false_eq_true, and_true]

theorem validAt_congr (h : ∀ k, (sit'.sentries k).curValidMap = (sit.sentries k).curValidMap) :
    ValidAt sm sit' a ↔ ValidAt sm sit a := by
  unfold ValidAt
  rw [h]

/-! ## Changes between checkpoints -/

/-- Only entries marked dirty have changed, and no block has left the map of the last
    checkpoint. -/
structure Touches (sm : SmInfo) (sit sit' : SitInfo) : Prop where
  lt : ∀ d ∈ sit'.dirtySentriesBitmap, d ∈ sit.dirtySentriesBitmap ∨ d < sm.mainSegments
  count : sit.dirtySentries = (sit.dirtySentriesBitmap.card : Int) →
    sit'.dirtySentries = (sit'.dirtySentriesBitmap.card : Int)
  clean : ∀ k, k ∉ sit'.dirtySentriesBitmap →
    k ∉ sit.dirtySentriesBitmap ∧ sit'.sentries k = sit.sentries k
  ckpt : ∀ k, (sit.sentries k).ckptValidMap ⊆ (sit'.sentries k).ckptValidMap

theorem Touches.refl (sit : SitInfo) : Touches sm sit sit :=
  ⟨fun _ hd => Or.inl hd, id, fun _ hk => ⟨hk, rfl⟩, fun _ => subset_rfl⟩

theorem Touches.trans {sit'' : SitInfo} (h : Touches sm sit sit') (h' : Touches sm sit' sit'') :
    Touches sm sit sit'' where
  lt d hd := (h'.lt d hd).elim (h.lt d) Or.inr
  count hc := h'.count (h.count hc)
  clean k hk := by
    obtain ⟨hk', heq⟩ := h'.clean k hk
    obtain ⟨hk'', heq'⟩ := h.clean k hk'
    exact ⟨hk'', heq.trans heq'⟩
  ckpt k := (h.ckpt k).trans (h'.ckpt k)

theorem touches_updateSitEntry (now : Nat) (ha : InMain sm addr) (set : Bool) :
    Touches sm sit (sit.updateSitEntry sm now addr set) where
  lt d hd := by
    rw [updateSitEntry_bitmap] at hd
    rcases Finset.mem_insert.mp hd with rfl | hd
    · exact Or.inr (getSegno_lt ha)
    · exact Or.inl hd
  count hc := markSitEntryDirty_count _ hc
  clean k hk := by
    rw [updateSitEntry_bitmap, Finset.mem_insert, not_or] at hk
    rw [updateSitEntry_sentries, Function.update_of_ne hk.1]
    exact ⟨hk.2, rfl⟩
  ckpt k := by
    rw [updateSitEntry_sentries, Function.update_apply]
    split
    case isTrue heq =>
      rw [updated, update_ckptValidMap, heq]
      split
      · exact Finset.subset_insert _ _
      · exact subset_rfl
    case isFalse => exact subset_rfl

theorem touches_setSitEntryType (type : CursegType) {segno : Nat} (hseg : segno < sm.mainSegments) :
    Touches sm sit (sit.setSitEntryType type segno true) where
  lt d hd := by
    have hmark : (sit.setSitEntryType type segno true).dirtySentriesBitmap =
        insert segno sit.dirtySentriesBitmap := markSitEntryDirty_bitmap _ _
    rw [hmark] at hd
    rcases Finset.mem_insert.mp hd with rfl | hd
    · exact Or.inr hseg
    · exact Or.inl hd
  count hc := markSitEntryDirty_count _ hc
  clean k hk := by
    have hmark : (sit.setSitEntryType type segno true).dirtySentriesBitmap =
        insert segno sit.dirtySentriesBitmap := markSitEntryDirty_bitmap _ _
    rw [hmark, Finset.mem_insert, not_or] at hk
    rw [setSitEntryType_sentries, Function.update_of_ne hk.1]
    exact ⟨hk.2, rfl⟩
  ckpt k := by
    rw [setSitEntryType_sentries, Function.update_apply]
    split
    case isTrue heq => rw [heq]
    case isFalse => exact subset_rfl

end

/-! ## The next block -/

section

variable {sm : SmInfo} {s s' u : SegManager} {type : CursegType} {now oldBlkaddr addr : Nat}
  {sum : SumEntry}

/-- `update_sit_entry` on a segment in use. -/
theorem books_updateSitEntry (h : SegManager.Books sm s) (now : Nat) (ha : InMain sm addr)
    {set : Bool} (huse : getSegno sm addr ∈ s.free.freeSegmap)
    (hfree : set = true →
      (s.sit.sentries (getSegno sm addr)).FreeAt (getBlkoff sm addr).val) :
    SegManager.Books sm (s.updateSitEntry sm now addr set) where
  logMain := h.logMain
  logInUse := h.logInUse
  apart := h.apart
  counted k hk := counted_updateSitEntry (h.counted k hk) fun hset heq => by
    rw [heq]
    exact hfree hset
  sections := secCounted_updateSitEntry h.sections ha (h.counted _ (getSegno_lt ha)).valid
  unused k hk hkfree i hi := by
    refine freeAt_updateSitEntry (h.unused k hk hkfree i hi) fun _ heq => ?_
    rw [heq] at hkfree
    exact absurd huse hkfree
  segmap := h.segmap
  dirtyMain := h.dirtyMain
  dirtyInUse := h.dirtyInUse
  dirtyLog := h.dirtyLog
  lists ht hk := by
    have htype := @updateSitEntry_type sm now s.sit addr set
    exact ⟨(h.lists ht hk).1, (congrArg Fin.val (htype _)).trans (h.lists ht hk).2⟩
  victims := h.victims

/-- The segment of a valid block is in use. -/
theorem inUse_of_validAt (h : SegManager.Books sm s) (hvalid : ValidAt sm s.sit addr) :
    getSegno sm addr ∈ s.free.freeSegmap ∧
      (s.sit.sentries (getSegno sm addr)).validBlocks ≠ 0 := by
  have hmain := getSegno_lt hvalid.1
  have hne : (s.sit.sentries (getSegno sm addr)).validBlocks ≠ 0 := by
    rw [(h.counted _ hmain).valid]
    exact Finset.card_ne_zero_of_mem hvalid.2
  exact ⟨h.inUse hmain hne, hne⟩

theorem OldBlock.null_or (h : OldBlock sm s.sit oldBlkaddr) :
    getSegno sm oldBlkaddr = nullSegno ∨ ValidAt sm s.sit oldBlkaddr := by
  rcases h with rfl | rfl | hvalid
  · exact Or.inl getSegno_null
  · exact Or.inl getSegno_new
  · exact Or.inr hvalid

/-- The SIT after the two calls of `update_sit_entry`. -/
theorem writeNext_sit_def : (s.writeNext sm type now oldBlkaddr sum).sit =
    if getSegno sm oldBlkaddr ≠ nullSegno then
      (s.sit.updateSitEntry sm now (s.nextFreeBlkaddr sm type) true).updateSitEntry sm now
        oldBlkaddr false
    else s.sit.updateSitEntry sm now (s.nextFreeBlkaddr sm type) true := by
  unfold SegManager.writeNext
  simp only
  split <;> rfl

/-- The log's block, as an address. -/
theorem nextFree_inMain (h : SegManager.Books sm s) (hroom : s.HasRoom type) :
    InMain sm (s.nextFreeBlkaddr sm type) ∧
      getSegno sm (s.nextFreeBlkaddr sm type) = (s.curseg type).segno ∧
      (getBlkoff sm (s.nextFreeBlkaddr sm type)).val = (s.curseg type).nextBlkoff :=
  ⟨inMain_startBlock (h.logMain type) hroom.lt, getSegno_startBlock (h.logMain type) hroom.lt,
    getBlkoff_startBlock hroom.lt⟩

theorem books_writeNext (h : SegManager.Books sm s) (hold : OldBlock sm s.sit oldBlkaddr)
    (hroom : s.HasRoom type) : SegManager.Books sm (s.writeNext sm type now oldBlkaddr sum) := by
  obtain ⟨hmain, hseg, hoff⟩ := nextFree_inMain h hroom
  have hnext : SegManager.Books sm ((s.addSumEntry type sum).refreshNextBlkoff type) := by
    refine h.ofLogs (fun t => ?_) rfl rfl rfl
    rw [← SegManager.writeNext_curseg sm s type now oldBlkaddr sum]
    exact (writeNext_log t).1
  have hset : SegManager.Books sm (((s.addSumEntry type sum).refreshNextBlkoff type).updateSitEntry
      sm now (s.nextFreeBlkaddr sm type) true) := by
    refine books_updateSitEntry hnext now hmain ?_ fun _ => ?_
    · rw [hseg]
      exact h.logInUse type
    · rw [hseg, hoff]
      exact hroom
  unfold SegManager.writeNext
  simp only
  split
  case isTrue hne =>
    have hvalid := hold.null_or.resolve_left hne
    exact books_updateSitEntry hset now hvalid.1 (inUse_of_validAt h hvalid).1 fun hc => by cases hc
  case isFalse => exact hset

theorem touches_writeNext (h : SegManager.Books sm s) (hold : OldBlock sm s.sit oldBlkaddr)
    (hroom : s.HasRoom type) : Touches sm s.sit (s.writeNext sm type now oldBlkaddr sum).sit := by
  have hset : Touches sm s.sit (s.sit.updateSitEntry sm now (s.nextFreeBlkaddr sm type) true) :=
    touches_updateSitEntry now (nextFree_inMain h hroom).1 true
  rw [writeNext_sit_def]
  split
  case isTrue hne =>
    exact hset.trans (touches_updateSitEntry now (hold.null_or.resolve_left hne).1 false)
  case isFalse => exact hset

/-- The new block is valid, the old one is not, and nothing else has changed. -/
theorem validAt_writeNext (h : SegManager.Books sm s) (hold : OldBlock sm s.sit oldBlkaddr)
    (hroom : s.HasRoom type) (a : Nat) :
    ValidAt sm (s.writeNext sm type now oldBlkaddr sum).sit a ↔
      (a = s.nextFreeBlkaddr sm type ∨ ValidAt sm s.sit a) ∧ a ≠ oldBlkaddr := by
  have hmain := (nextFree_inMain h hroom).1
  have hset := @validAt_updateSitEntry sm s.sit a _ now hmain true
  rw [if_pos rfl] at hset
  rw [writeNext_sit_def]
  split
  case isTrue hne =>
    rw [validAt_updateSitEntry now (hold.null_or.resolve_left hne).1 false,
      if_neg Bool.false_ne_true, hset]
  case isFalse heq =>
    rw [hset]
    refine ⟨fun hc => ⟨hc, ?_⟩, And.left⟩
    rintro rfl
    have hin : InMain sm a := hc.elim (fun hc => hc ▸ hmain) And.left
    exact getSegno_ne_null hin (not_not.mp heq)

/-- Only the entries of two segments change. -/
theorem writeNext_sentries (h : SegManager.Books sm s) (hroom : s.HasRoom type) {k : Nat}
    (hk : k ≠ (s.curseg type).segno) (hk' : k ≠ getSegno sm oldBlkaddr) :
    (s.writeNext sm type now oldBlkaddr sum).sit.sentries k = s.sit.sentries k := by
  have hseg := (nextFree_inMain h hroom).2.1
  rw [writeNext_sit_def]
  split
  · rw [updateSitEntry_sentries, Function.update_of_ne hk', updateSitEntry_sentries, hseg,
      Function.update_of_ne hk]
  · rw [updateSitEntry_sentries, hseg, Function.update_of_ne hk]

theorem writeNext_types (k : Nat) :
    ((s.writeNext sm type now oldBlkaddr sum).sit.sentries k).type = (s.sit.sentries k).type := by
  rw [writeNext_sit_def]
  split
  · rw [updateSitEntry_type, updateSitEntry_type]
  · rw [updateSitEntry_type]

theorem writeNext_left (k : Nat) :
    Left (s.writeNext sm type now oldBlkaddr sum) k ↔ Left s k := by
  unfold Left SegManager.isCurseg
  rw [writeNext_free.1]
  simp only [(writeNext_log _).1]

/-! ## The lists -/

/-- A change of counts, in the segments `but'` and in those of the logs. -/
theorem Lists.recount {but but' : Finset Nat} (h : Lists sm s but) (hsub : but ⊆ but')
    (hdirty : u.dirty = s.dirty) (hleft : ∀ k, Left u k ↔ Left s k)
    (htype : ∀ k, (u.sit.sentries k).type = (s.sit.sentries k).type)
    (hsame : ∀ k, Left s k → k ∉ but' → u.sit.sentries k = s.sit.sentries k)
    (hpre : ∀ k ∈ s.dirty.dirtySegmap dirtyPre, k ∉ but') : Lists sm u but' where
  listed k hk hnot := by
    have hold := h.listed k hk fun hc => hnot (hsub hc)
    constructor
    · rw [hdirty, hleft, hold.dirty]
      exact and_congr_right fun hc => by rw [hsame k hc hnot]
    · rw [hdirty, hleft, hold.pre]
      exact and_congr_right fun hc => by rw [hsame k hc hnot]
  pre k hk := by
    rw [hdirty] at hk
    obtain ⟨hl, hzero⟩ := h.pre k hk
    rw [hleft, hsame k hl (hpre k hk)]
    exact ⟨hl, hzero⟩
  preMain := by
    rw [hdirty]
    exact h.preMain
  byType k hk := by
    rw [hdirty] at hk ⊢
    rw [htype]
    exact h.byType k hk
  types k hk := by
    rw [htype]
    exact h.types k hk
  count := by
    rw [hdirty]
    exact h.count

theorem left_ne_curseg {k : Nat} (h : Left s k) (t : CursegType) : k ≠ (s.curseg t).segno :=
  (SegManager.isCurseg_false_iff.mp h.2 t).symm

/-- A valid block keeps its segment off the prefree list. -/
theorem Lists.not_pre {but : Finset Nat} (h : Lists sm s but) (hbooks : SegManager.Books sm s)
    (hvalid : ValidAt sm s.sit addr) : getSegno sm addr ∉ s.dirty.dirtySegmap dirtyPre :=
  fun hc => (inUse_of_validAt hbooks hvalid).2 (h.pre _ hc).2

theorem lists_writeNext (h : SegManager.Books sm s) (hlists : Lists sm s ∅)
    (hold : OldBlock sm s.sit oldBlkaddr) (hroom : s.HasRoom type) :
    Lists sm (s.writeNext sm type now oldBlkaddr sum) {getSegno sm oldBlkaddr} := by
  refine hlists.recount (Finset.empty_subset _) (writeNext_dirty ..) writeNext_left writeNext_types
    (fun k hleft hnot => ?_) fun k hk hc => ?_
  · exact writeNext_sentries h hroom (left_ne_curseg hleft type)
      fun hc => hnot (Finset.mem_singleton.mpr hc)
  · rw [Finset.mem_singleton] at hc
    rcases hold.null_or with hnull | hvalid
    · have hlt := Finset.mem_range.mp (hlists.preMain hk)
      have hmain := mainSegments_lt_nullSegno sm
      omega
    · exact hlists.not_pre h hvalid (hc ▸ hk)

/-- All segments are listed, and the logs have room. -/
theorem booksOk_of_lists (h : SegManager.Books sm s) (hrooms : ∀ t, s.LogRoom t)
    (hlists : Lists sm s ∅) : SegManager.BooksOk sm s where
  toBooks := h
  rooms := hrooms
  dirtyValid j hj _ :=
    (((hlists.listed j (Finset.mem_range.mp (h.dirtyMain _ hj))
      (Finset.notMem_empty j)).dirty).mp hj).2.1

/-! ## `allocate_data_block` -/

/-- What `allocate_data_block` does up to the lists: the log turns if it is full. -/
structure Allocated (sm : SmInfo) (s t u : SegManager) (type : CursegType) (oldBlkaddr addr : Nat) :
    Prop where
  addr_eq : addr = s.nextFreeBlkaddr sm type
  books : SegManager.Books sm u
  rooms : ∀ t', u.LogRoom t'
  lists : Lists sm u {getSegno sm oldBlkaddr, (s.curseg type).segno}
  turn : u = t ∨ ∃ m, Turned sm t u type m

theorem allocateDataBlock_steps {p : SegManager.AllocPolicy} (h : SegManager.BooksOk sm s)
    (hlists : Lists sm s ∅) (hold : OldBlock sm s.sit oldBlkaddr)
    (hp : SsrFits (s.writeNext sm type now oldBlkaddr sum) type
      (SegManager.getSsrSegment p type))
    (heq : s.allocateDataBlock sm p now oldBlkaddr sum type = some (addr, s')) :
    ∃ u, Allocated sm s (s.writeNext sm type now oldBlkaddr sum) u type oldBlkaddr addr ∧
      s' = (u.locateDirtySegment sm (getSegno sm oldBlkaddr)).locateDirtySegment sm
        (s.curseg type).segno := by
  have hroom := (h.rooms type).room
  have hbooks : SegManager.Books sm (s.writeNext sm type now oldBlkaddr sum) :=
    books_writeNext h.toBooks hold hroom
  have hlists' : Lists sm (s.writeNext sm type now oldBlkaddr sum) {getSegno sm oldBlkaddr} :=
    lists_writeNext h.toBooks hlists hold hroom
  have hrooms : ∀ t', (t' = type → ((s.writeNext sm type now oldBlkaddr sum).curseg
      type).nextBlkoff < blocksPerSeg) →
      (s.writeNext sm type now oldBlkaddr sum).LogRoom t' := fun t' hspace =>
    SegManager.LogRoom.writeNext h.toBooks (h.rooms type) (h.rooms t') hspace
  have hlog : ((s.writeNext sm type now oldBlkaddr sum).curseg type).segno =
      (s.curseg type).segno := (writeNext_log type).1
  rw [SegManager.allocateDataBlock_eq] at heq
  simp only [(nextFree_inMain h.toBooks hroom).2.1] at heq
  generalize s.writeNext sm type now oldBlkaddr sum = t at *
  by_cases hfull : blocksPerSeg ≤ (t.curseg type).nextBlkoff
  · rw [if_pos hfull] at heq
    obtain ⟨u, hswitch, hs'⟩ := Option.map_eq_some_iff.mp heq
    obtain ⟨haddr, rfl⟩ := Prod.mk.inj hs'
    obtain ⟨m, hturn⟩ := turned_allocateSegment hbooks
      (fun t' ht' => hrooms t' fun hc => absurd hc ht') (fun _ => hp) hswitch
    refine ⟨u, ⟨haddr.symm, hturn.books, hturn.rooms, ?_, Or.inr ⟨m, hturn⟩⟩, rfl⟩
    have hturned := hlists'.turn hbooks hturn
    rw [hlog] at hturned
    exact hturned.mono (Finset.pair_comm _ _).subset
  · rw [if_neg hfull] at heq
    obtain ⟨haddr, rfl⟩ := Prod.mk.inj (Option.some.inj heq)
    exact ⟨t, ⟨haddr.symm, hbooks, fun t' => hrooms t' fun _ => Nat.not_le.mp hfull,
      hlists'.mono (Finset.singleton_subset_iff.mpr (Finset.mem_insert_self _ _)), Or.inl rfl⟩, rfl⟩

/-- The tables after `locate_dirty_segment` was called for two segments. -/
theorem locate_same (sm : SmInfo) (u : SegManager) (k k' : Nat) :
    ((u.locateDirtySegment sm k).locateDirtySegment sm k').curseg = u.curseg ∧
      ((u.locateDirtySegment sm k).locateDirtySegment sm k').sit = u.sit ∧
      ((u.locateDirtySegment sm k).locateDirtySegment sm k').ssa = u.ssa ∧
      ((u.locateDirtySegment sm k).locateDirtySegment sm k').free = u.free := by
  obtain ⟨h₁, h₂, h₃, h₄⟩ := SegManager.locateDirtySegment_same sm u k
  obtain ⟨g₁, g₂, g₃, g₄⟩ :=
    SegManager.locateDirtySegment_same sm (u.locateDirtySegment sm k) k'
  exact ⟨g₁.trans h₁, g₂.trans h₂, g₃.trans h₃, g₄.trans h₄⟩

/-- The tables are in order after a step, and the SIT has changed as it may. -/
structure Settled (sm : SmInfo) (s s' : SegManager) : Prop where
  touches : Touches sm s.sit s'.sit
  books : SegManager.BooksOk sm s'
  lists : Lists sm s' ∅
  segmap : SegmapBooks sm s.free → SegmapBooks sm s'.free

/-- A block was written at `addr`, in place of the one at `oldBlkaddr`. -/
structure Wrote (sm : SmInfo) (s s' : SegManager) (oldBlkaddr addr : Nat) : Prop extends
    Settled sm s s' where
  inMain : InMain sm addr
  free : (s.sit.sentries (getSegno sm addr)).FreeAt (getBlkoff sm addr).val
  valid : ∀ a, ValidAt sm s'.sit a ↔ (a = addr ∨ ValidAt sm s.sit a) ∧ a ≠ oldBlkaddr

theorem Turned.touches {m : Nat} (h : Turned sm s u type m) : Touches sm s.sit u.sit := by
  rw [h.sit]
  exact touches_setSitEntryType type h.main

theorem Allocated.located {u : SegManager}
    (h : SegManager.BooksOk sm s) (hold : OldBlock sm s.sit oldBlkaddr)
    (ha : Allocated sm s (s.writeNext sm type now oldBlkaddr sum) u type oldBlkaddr addr)
    (hs' : s' = (u.locateDirtySegment sm (getSegno sm oldBlkaddr)).locateDirtySegment sm
      (s.curseg type).segno) : Wrote sm s s' oldBlkaddr addr := by
  have hroom := (h.rooms type).room
  obtain ⟨hmain, hseg, hoff⟩ := nextFree_inMain h.toBooks hroom
  obtain ⟨hlogs, hsit, -, hfree⟩ :=
    locate_same sm u (getSegno sm oldBlkaddr) (s.curseg type).segno
  rw [← hs'] at hlogs hsit hfree
  have hlt := h.logMain type
  -- what is in use stays so
  have huse : s.free.freeSegmap ⊆ u.free.freeSegmap := fun k hk => by
    rcases ha.turn with rfl | ⟨m, hturn⟩
    · rwa [writeNext_free.1]
    · rw [hturn.inUse, writeNext_free.1]
      exact Or.inr hk
  have hfirst : SegManager.Books sm (u.locateDirtySegment sm (getSegno sm oldBlkaddr)) ∧
      Lists sm (u.locateDirtySegment sm (getSegno sm oldBlkaddr)) {(s.curseg type).segno} := by
    rcases hold.null_or with hnull | hvalid
    · have hskip : u.locateDirtySegment sm (getSegno sm oldBlkaddr) = u := if_pos (Or.inl hnull)
      rw [hskip]
      refine ⟨ha.books, ⟨fun k hk hnot => ha.lists.listed k hk fun hc => ?_, ha.lists.pre,
        ha.lists.preMain, ha.lists.byType, ha.lists.types, ha.lists.count⟩⟩
      rcases Finset.mem_insert.mp hc with heq | hc
      · have hnlt := mainSegments_lt_nullSegno sm
        omega
      · exact hnot hc
    · have hk := getSegno_lt hvalid.1
      refine ⟨ha.books.locateDirtySegment hk,
        (ha.lists.locate ha.books hk (huse (inUse_of_validAt h.toBooks hvalid).1)).mono ?_⟩
      intro k hk
      obtain ⟨hne, hmem⟩ := Finset.mem_erase.mp hk
      exact (Finset.mem_insert.mp hmem).resolve_left hne
  have hbooks : SegManager.Books sm s' := by
    rw [hs']
    exact hfirst.1.locateDirtySegment hlt
  have hlists' : Lists sm s' ∅ := by
    rw [hs']
    refine (hfirst.2.locate hfirst.1 hlt ?_).mono (by rw [Finset.erase_singleton])
    rw [(SegManager.locateDirtySegment_same sm u _).2.2.2]
    exact huse (h.logInUse type)
  have hmap : ∀ k, (u.sit.sentries k).curValidMap =
      ((s.writeNext sm type now oldBlkaddr sum).sit.sentries k).curValidMap := fun k => by
    rcases ha.turn with rfl | ⟨m, hturn⟩
    · rfl
    · exact (hturn.moved.sentry k).1
  refine ⟨⟨?_, booksOk_of_lists hbooks (fun t => ?_) hlists', hlists', ?_⟩, ?_, ?_, fun a => ?_⟩
  · rw [hsit]
    have hnext : Touches sm s.sit (s.writeNext sm type now oldBlkaddr sum).sit :=
      touches_writeNext h.toBooks hold hroom
    rcases ha.turn with rfl | ⟨m, hturn⟩
    · exact hnext
    · exact hnext.trans hturn.touches
  · exact (ha.rooms t).congr hlogs hsit
  · intro hmaps
    rw [hfree]
    rcases ha.turn with rfl | ⟨m, hturn⟩
    · rwa [writeNext_free.1]
    · refine hturn.segmap ?_
      rwa [writeNext_free.1]
  · rw [ha.addr_eq]
    exact hmain
  · rw [ha.addr_eq, hseg, hoff]
    exact hroom
  · rw [hsit, validAt_congr hmap, validAt_writeNext h.toBooks hold hroom, ha.addr_eq]

/-! ## `invalidate_blocks` -/

/-- Clearing a block takes no room. -/
theorem logRoom_clear (now : Nat) {t : CursegType} (h : s.LogRoom t) :
    (s.updateSitEntry sm now addr false).LogRoom t where
  room := freeAt_updateSitEntry h.room fun hc => absurd hc Bool.false_ne_true
  ahead hlfs i hi hlt :=
    freeAt_updateSitEntry (h.ahead hlfs i hi hlt) fun hc => absurd hc Bool.false_ne_true

theorem lists_clear (now : Nat) (h : SegManager.Books sm s) (hlists : Lists sm s ∅)
    (hvalid : ValidAt sm s.sit addr) :
    Lists sm (s.updateSitEntry sm now addr false) {getSegno sm addr} := by
  refine hlists.recount (Finset.empty_subset _) rfl (fun _ => Iff.rfl)
    (updateSitEntry_type now s.sit addr false) (fun k _ hnot => ?_) fun k hk hc => ?_
  · show (s.sit.updateSitEntry sm now addr false).sentries k = _
    rw [updateSitEntry_sentries, Function.update_of_ne fun hc => hnot (Finset.mem_singleton.mpr hc)]
  · rw [Finset.mem_singleton] at hc
    exact hlists.not_pre h hvalid (hc ▸ hk)

theorem invalidateBlocks_settled (now : Nat) (h : SegManager.BooksOk sm s)
    (hlists : Lists sm s ∅) (haddr : addr = newAddr ∨ ValidAt sm s.sit addr) :
    Settled sm s (invalidateBlocks sm now addr s) ∧
      ∀ a, ValidAt sm (invalidateBlocks sm now addr s).sit a ↔ ValidAt sm s.sit a ∧ a ≠ addr := by
  unfold invalidateBlocks
  by_cases hnew : addr = newAddr
  · rw [if_pos hnew]
    refine ⟨⟨Touches.refl _, h, hlists, id⟩, fun a => ⟨fun ha => ⟨ha, ?_⟩, And.left⟩⟩
    rintro rfl
    exact ha.1.ne (Or.inr hnew)
  · rw [if_neg hnew]
    have hvalid := haddr.resolve_left hnew
    have hlt := getSegno_lt hvalid.1
    have huse := (inUse_of_validAt h.toBooks hvalid).1
    have hbooks : SegManager.Books sm (s.updateSitEntry sm now addr false) :=
      books_updateSitEntry h.toBooks now hvalid.1 huse fun hc => absurd hc Bool.false_ne_true
    have hlists' := lists_clear now h.toBooks hlists hvalid
    obtain ⟨hlogs, hsit, -, hfree⟩ := SegManager.locateDirtySegment_same sm
      (s.updateSitEntry sm now addr false) (getSegno sm addr)
    have hlists'' : Lists sm _ ∅ := (hlists'.locate hbooks hlt huse).mono
      (by rw [Finset.erase_singleton])
    refine ⟨⟨?_, booksOk_of_lists (hbooks.locateDirtySegment hlt) (fun t => ?_) hlists'',
      hlists'', fun hs => ?_⟩, fun a => ?_⟩
    · rw [hsit]
      exact touches_updateSitEntry now hvalid.1 false
    · exact (logRoom_clear now (h.rooms t)).congr hlogs hsit
    · rwa [hfree]
    · rw [hsit]
      exact (validAt_updateSitEntry now hvalid.1 false).trans (by rw [if_neg Bool.false_ne_true])

/-! ## `allocate_new_segments` -/

theorem allocateNewSegment_settled {p : SegManager.AllocPolicy} (h : SegManager.BooksOk sm s)
    (hlists : Lists sm s ∅) (heq : allocateNewSegment sm p s type = some s') :
    (∃ u m, Turned sm s u type m ∧ s' = u.locateDirtySegment sm (s.curseg type).segno) ∧
      Settled sm s s' := by
  obtain ⟨u, hswitch, rfl⟩ := Option.map_eq_some_iff.mp heq
  obtain ⟨m, hturn⟩ := turned_allocateSegment h.toBooks (fun t _ => h.rooms t)
    (fun hc => by cases hc) hswitch
  have hlt := h.logMain type
  obtain ⟨hlogs, hsit, -, hfree⟩ :=
    SegManager.locateDirtySegment_same sm u (s.curseg type).segno
  have hlists' : Lists sm _ ∅ := ((hlists.turn h.toBooks hturn).locate hturn.books hlt
    (hturn.inUse.mpr (Or.inr (h.logInUse type)))).mono
      (by rw [insert_empty_eq, Finset.erase_singleton])
  refine ⟨⟨u, m, hturn, rfl⟩, ⟨?_, booksOk_of_lists (hturn.books.locateDirtySegment hlt)
    (fun t => (hturn.rooms t).congr hlogs hsit) hlists', hlists', fun hs => ?_⟩⟩
  · rw [hsit]
    exact hturn.touches
  · rw [hfree]
    exact hturn.segmap hs

end

end F2fs.Volume

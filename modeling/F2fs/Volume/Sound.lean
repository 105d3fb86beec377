/-
  What holds of a mounted volume in every state: its tables agree with each other, with what
  is on the device, and with the last checkpoint.  Every step that writes no checkpoint and
  does not mount keeps it.
-/
import F2fs.Volume.Summaries

namespace F2fs.Volume

open F2fs.Segment F2fs.Gc

variable {α : Type}

/-! ## The device -/

/-- The log can go on in its segment, by the record of the last checkpoint. -/
structure PackRoom (rs : RawSit) (c : Curseg) : Prop where
  room : ∃ offset : Fin blocksPerSeg, offset.val = c.nextBlkoff ∧ offset ∉ rs.validMap
  ahead : c.allocType = AllocMode.LFS → ∀ offset : Fin blocksPerSeg,
    c.nextBlkoff ≤ offset.val → offset ∉ rs.validMap

/-- The last checkpoint can be mounted. -/
structure Saved (sm : SmInfo) (dev : Device α) : Prop where
  sound : dev.store.Sound sm
  distinct : dev.store.journal.Distinct
  le : dev.store.journal.n ≤ sitJournalEntries
  types : ∀ k < sm.mainSegments, (dev.store.persisted sm k).getType.val < dirtyAll
  logMain : ∀ t, (dev.logs t).segno < sm.mainSegments
  apart : ∀ {t t'}, (dev.logs t).segno = (dev.logs t').segno → t = t'
  logTypes : ∀ t, (dev.store.persisted sm (dev.logs t).segno).getType.val = t.idx
  rooms : ∀ t, PackRoom (dev.store.persisted sm (dev.logs t).segno) (dev.logs t)
  logNames : ∀ t, ∀ i ∈ (dev.store.persisted sm (dev.logs t).segno).validMap,
    Names (dev.logs t).sumBlk (dev.store.persisted sm (dev.logs t).segno).getType i.val
      (dev.blocks (startBlock sm (dev.logs t).segno + i.val))
  ssaNames : SsaNames sm dev.ssa dev

section

variable {sm : SmInfo} {sit : SitInfo} {st : SitStore} {dev : Device α} {addr k : Nat}

theorem validAt_iff (hk : k < sm.mainSegments) (i : Fin blocksPerSeg) :
    ValidAt sm sit (startBlock sm k + i.val) ↔ i ∈ (sit.sentries k).curValidMap := by
  have hoff : getBlkoff sm (startBlock sm k + i.val) = i := Fin.ext (getBlkoff_startBlock i.isLt)
  unfold ValidAt
  rw [getSegno_startBlock hk i.isLt, hoff]
  exact and_iff_right (inMain_startBlock hk i.isLt)

theorem savedAt_iff (hk : k < sm.mainSegments) (i : Fin blocksPerSeg) :
    SavedAt sm st (startBlock sm k + i.val) ↔ i ∈ (st.persisted sm k).validMap := by
  have hoff : getBlkoff sm (startBlock sm k + i.val) = i := Fin.ext (getBlkoff_startBlock i.isLt)
  unfold SavedAt
  rw [getSegno_startBlock hk i.isLt, hoff]
  exact and_iff_right (inMain_startBlock hk i.isLt)

/-- The blocks outside the last checkpoint may change. -/
theorem Saved.ofBlocks (h : Saved sm dev) (blocks : Nat → Block α)
    (hsame : ∀ addr, SavedAt sm dev.store addr → blocks addr = dev.blocks addr) :
    Saved sm { dev with blocks := blocks } where
  sound := h.sound
  distinct := h.distinct
  le := h.le
  types := h.types
  logMain := h.logMain
  apart := h.apart
  logTypes := h.logTypes
  rooms := h.rooms
  logNames t i hi := by
    rw [show ({ dev with blocks := blocks } : Device α).blocks = blocks from rfl,
      hsame _ ((savedAt_iff (h.logMain t) i).mpr hi)]
    exact h.logNames t i hi
  ssaNames k hk hlogs i hi := by
    rw [show ({ dev with blocks := blocks } : Device α).blocks = blocks from rfl,
      hsame _ ((savedAt_iff hk i).mpr hi)]
    exact h.ssaNames k hk hlogs i hi

end

/-! ## The volume -/

/-- The SIT with its place on the device, as a flush finds them. -/
def Mounted.sitState (v : Mounted α) : SitState where
  info := v.segs.sit
  store := v.dev.store
  sitEntrySet := []
  dcc := v.dcc

/-- The blocks that are valid now or in the last checkpoint. -/
def Mounted.used (sm : SmInfo) (v : Mounted α) (k : Nat) : BlockMap :=
  (v.segs.sit.sentries k).curValidMap ∪ (v.dev.store.persisted sm k).validMap

/-- What holds of a mounted volume. -/
structure Sound (sm : SmInfo) (v : Mounted α) : Prop where
  books : SegManager.BooksOk sm v.segs
  lists : Lists sm v.segs ∅
  segmap : SegmapBooks sm v.segs.free
  table : v.sitState.Flushable sm
  clean : ∀ k < sm.mainSegments, k ∉ v.segs.sit.dirtySentriesBitmap →
    (v.segs.sit.sentries k).ckptValidMap = (v.segs.sit.sentries k).curValidMap
  kept : ∀ k < sm.mainSegments,
    (v.dev.store.persisted sm k).validMap ⊆ (v.segs.sit.sentries k).ckptValidMap
  sums : Summed sm v.segs v.dev.blocks (v.used sm)
  ssa : SsaNames sm v.segs.ssa v.dev
  saved : Saved sm v.dev

section

variable {sm : SmInfo} {v v' : Mounted α} {segs : SegManager}

/-- What holds of the SIT after a step. -/
theorem Sound.table_settled (h : Sound sm v) (hs : Settled sm v.segs segs) :
    ({ v with segs := segs } : Mounted α).sitState.Flushable sm :=
  flushable_info (s := v.sitState) h.table
    (fun d hd => (hs.touches.lt d hd).elim (h.table.dirty_lt d) id)
    (hs.touches.count h.table.count)
    (fun k hk => by
      rw [(hs.books.counted k hk).valid]
      exact card_blockMap_le _)
    fun k _ hk => by
      obtain ⟨hold, heq⟩ := hs.touches.clean k hk
      rw [heq]
      exact ⟨hold, rfl, rfl, rfl, rfl⟩

theorem Sound.clean_settled (h : Sound sm v) (hs : Settled sm v.segs segs) {k : Nat}
    (hk : k < sm.mainSegments) (hclean : k ∉ segs.sit.dirtySentriesBitmap) :
    (segs.sit.sentries k).ckptValidMap = (segs.sit.sentries k).curValidMap := by
  obtain ⟨hold, heq⟩ := hs.touches.clean k hclean
  rw [heq]
  exact h.clean k hk hold

/-- A free block was not part of the last checkpoint. -/
theorem Sound.not_used (h : Sound sm v) {k i : Nat} (hk : k < sm.mainSegments)
    (hfree : (v.segs.sit.sentries k).FreeAt i) : ∀ j ∈ v.used sm k, j.val ≠ i := by
  rintro j hj rfl
  obtain ⟨offset, hoff, hnot⟩ := hfree
  obtain rfl := Fin.ext hoff
  rcases Finset.mem_union.mp hj with hcur | hsaved
  · exact hnot (Finset.mem_union_right _ hcur)
  · exact hnot (Finset.mem_union_left _ (h.kept k hk hsaved))

/-- A segment that is not in use has no block that is valid now or in the last checkpoint. -/
theorem Sound.used_free (h : Sound sm v) {k : Nat} (hk : k < sm.mainSegments)
    (hfree : k ∉ v.segs.free.freeSegmap) : v.used sm k = ∅ := by
  refine Finset.eq_empty_of_forall_notMem fun j hj => ?_
  exact h.not_used hk (h.books.unused k hk hfree j.val j.isLt) j hj rfl

/-! ## A write -/

variable {type : CursegType} {now oldBlkaddr addr : Nat} {sum : SumEntry}

/-- What `do_write_page` finds and does. -/
theorem Sound.write_steps (h : Sound sm v) {g : GcInfo} {fuel : Nat} {needSSR crcRecovery : Bool}
    (hold : OldBlock sm v.segs.sit oldBlkaddr)
    (hg : g.segs = v.segs.writeNext sm type now oldBlkaddr sum)
    (hfuel : ∀ mode, max (g.lastVictim mode) sm.mainSegments + 1 + sm.mainSegments < fuel)
    (heq : v.segs.allocateDataBlock sm (victimPolicy sm fuel g type needSSR crcRecovery) now
      oldBlkaddr sum type = some (addr, segs)) :
    ∃ u, Allocated sm v.segs (v.segs.writeNext sm type now oldBlkaddr sum) u type oldBlkaddr addr ∧
      segs = (u.locateDirtySegment sm (getSegno sm oldBlkaddr)).locateDirtySegment sm
        (v.segs.curseg type).segno := by
  refine allocateDataBlock_steps h.books h.lists hold ?_ heq
  have hbooks : SegManager.Books sm g.segs := by
    rw [hg]
    exact books_writeNext h.books.toBooks hold (h.books.rooms type).room
  rw [← hg]
  exact ssr_fits hbooks hfuel needSSR crcRecovery

theorem Sound.wrote (h : Sound sm v) {g : GcInfo} {fuel : Nat} {needSSR crcRecovery : Bool}
    (hold : OldBlock sm v.segs.sit oldBlkaddr)
    (hg : g.segs = v.segs.writeNext sm type now oldBlkaddr sum)
    (hfuel : ∀ mode, max (g.lastVictim mode) sm.mainSegments + 1 + sm.mainSegments < fuel)
    (heq : v.segs.allocateDataBlock sm (victimPolicy sm fuel g type needSSR crcRecovery) now
      oldBlkaddr sum type = some (addr, segs)) : Wrote sm v.segs segs oldBlkaddr addr := by
  obtain ⟨u, ha, hsegs⟩ := h.write_steps hold hg hfuel heq
  exact ha.located h.books hold hsegs

/-- The block that is written is free. -/
theorem Wrote.unsaved (h : Sound sm v) (hw : Wrote sm v.segs segs oldBlkaddr addr) :
    ¬ValidAt sm v.segs.sit addr ∧ ¬SavedAt sm v.dev.store addr := by
  have hnot := h.not_used (getSegno_lt hw.inMain) hw.free
  exact ⟨fun hc => hnot _ (Finset.mem_union_left _ hc.2) rfl,
    fun hc => hnot _ (Finset.mem_union_right _ hc.2) rfl⟩

theorem Sound.write (h : Sound sm v) (hold : OldBlock sm v.segs.sit oldBlkaddr)
    (hsum : SumFits type sum) (data : α) {u : SegManager}
    (ha : Allocated sm v.segs (v.segs.writeNext sm type now oldBlkaddr sum) u type oldBlkaddr addr)
    (hsegs : segs = (u.locateDirtySegment sm (getSegno sm oldBlkaddr)).locateDirtySegment sm
      (v.segs.curseg type).segno) :
    Sound sm { v with
      segs := segs
      dev := { v.dev with
        blocks := Function.update v.dev.blocks addr ⟨sum, type.isNodeSeg, data⟩ } } := by
  have hbooks := h.books.toBooks
  have hroom := (h.books.rooms type).room
  have hw := ha.located h.books hold hsegs
  obtain ⟨-, hunsaved⟩ := hw.unsaved h
  obtain ⟨hlogs, hsit, hssa, -⟩ :=
    locate_same sm u (getSegno sm oldBlkaddr) (v.segs.curseg type).segno
  rw [← hsegs] at hlogs hsit hssa
  have hnextBooks : SegManager.Books sm (v.segs.writeNext sm type now oldBlkaddr sum) :=
    books_writeNext hbooks hold hroom
  set t := v.segs.writeNext sm type now oldBlkaddr sum with ht
  set dev : Device α := { v.dev with
    blocks := Function.update v.dev.blocks addr ⟨sum, type.isNodeSeg, data⟩ } with hdev
  set map : Nat → BlockMap := fun k =>
    (t.sit.sentries k).curValidMap ∪ (v.dev.store.persisted sm k).validMap with hmap
  -- the map after the two calls of `update_sit_entry`
  have hmapSub : ∀ k < sm.mainSegments, ∀ i ∈ map k, i ∈ v.used sm k ∨
      (k = (v.segs.curseg type).segno ∧ i.val = (v.segs.curseg type).nextBlkoff) := by
    intro k hk i hi
    rcases Finset.mem_union.mp hi with hcur | hsaved
    · have hvalid := ((validAt_writeNext hbooks hold hroom _).mp
        ((validAt_iff hk i).mpr hcur)).1
      rcases hvalid with heq | hvalid
      · exact Or.inr (startBlock_inj hk (hbooks.logMain type) i.isLt hroom.lt heq)
      · exact Or.inl (Finset.mem_union_left _ ((validAt_iff hk i).mp hvalid))
    · exact Or.inl (Finset.mem_union_right _ hsaved)
  have hsums : Summed sm t dev.blocks map := by
    rw [hdev, ha.addr_eq]
    exact h.sums.writeNext hbooks hold hroom hsum data
      (h.not_used (hbooks.logMain type) hroom) hmapSub
  have hssaNext : SsaNames sm t.ssa dev := by
    rw [ht, SegManager.writeNext_free.2]
    exact h.ssa.write _ hunsaved
  have hboth : Summed sm u dev.blocks map ∧ SsaNames sm u.ssa dev ∧
      ∀ k, (u.sit.sentries k).curValidMap = (t.sit.sentries k).curValidMap := by
    rcases ha.turn with rfl | ⟨m, hturn⟩
    · exact ⟨hsums, hssaNext, fun _ => rfl⟩
    · refine ⟨hsums.turn hnextBooks hturn fun hfree => ?_,
        hssaNext.turn hsums hnextBooks (fun k _ => Finset.subset_union_right) hturn,
        fun k => (hturn.moved.sentry k).1⟩
      rw [ht, SegManager.writeNext_free.1] at hfree
      have hused := h.used_free hturn.main hfree
      refine Finset.eq_empty_of_forall_notMem fun j hj => ?_
      rcases hmapSub m hturn.main j hj with hmem | ⟨heq, -⟩
      · rw [hused] at hmem
        exact Finset.notMem_empty j hmem
      · exact hfree (heq ▸ hbooks.logInUse type)
  have hcur : ∀ k, (segs.sit.sentries k).curValidMap = (t.sit.sentries k).curValidMap := fun k => by
    rw [hsit]
    exact hboth.2.2 k
  refine ⟨hw.books, hw.lists, hw.segmap h.segmap, ?_, fun k hk => h.clean_settled hw.toSettled hk,
    fun k hk => (h.kept k hk).trans (hw.touches.ckpt k),
    (hboth.1.congr hlogs hsit hssa).mono fun k _ => ?_, ?_, h.saved.ofBlocks _ fun a hsaved => ?_⟩
  · exact h.table_settled hw.toSettled
  · show (segs.sit.sentries k).curValidMap ∪ _ ⊆ _
    rw [hcur]
  · show SsaNames sm segs.ssa dev
    rw [hssa]
    exact hboth.2.1
  · refine Function.update_of_ne ?_ _ _
    rintro rfl
    exact hunsaved hsaved

/-! ## The other steps -/

theorem Sound.invalidate (h : Sound sm v) (now : Nat)
    (haddr : addr = newAddr ∨ ValidAt sm v.segs.sit addr) :
    Sound sm { v with segs := invalidateBlocks sm now addr v.segs } := by
  obtain ⟨hs, hvalid⟩ := invalidateBlocks_settled now h.books h.lists haddr
  have hsame : (invalidateBlocks sm now addr v.segs).curseg = v.segs.curseg ∧
      (invalidateBlocks sm now addr v.segs).ssa = v.segs.ssa ∧
      ∀ k, ((invalidateBlocks sm now addr v.segs).sit.sentries k).type =
        (v.segs.sit.sentries k).type := by
    unfold invalidateBlocks
    split
    · exact ⟨rfl, rfl, fun _ => rfl⟩
    · obtain ⟨hlogs, hsit, hssa, -⟩ := SegManager.locateDirtySegment_same sm
        (v.segs.updateSitEntry sm now addr false) (getSegno sm addr)
      refine ⟨hlogs, hssa, fun k => ?_⟩
      rw [hsit]
      exact updateSitEntry_type now v.segs.sit addr false k
  obtain ⟨hlogs, hssa, htype⟩ := hsame
  refine ⟨hs.books, hs.lists, hs.segmap h.segmap, h.table_settled hs,
    fun k hk => h.clean_settled hs hk, fun k hk => (h.kept k hk).trans (hs.touches.ckpt k),
    ⟨fun t => ?_, fun t => ?_, fun k hk i hi => ?_⟩, ?_, h.saved⟩
  · show ((invalidateBlocks sm now addr v.segs).sit.sentries _).type.val = _
    rw [htype, hlogs]
    exact h.sums.types t
  · show ((invalidateBlocks sm now addr v.segs).curseg t).sumBlk.entryType = _
    rw [hlogs]
    exact h.sums.footers t
  · show Names (sumOf (invalidateBlocks sm now addr v.segs) k)
      ((invalidateBlocks sm now addr v.segs).sit.sentries k).type _ _
    rw [sumOf_congr hlogs hssa, htype]
    refine h.sums.named k hk i ?_
    rcases Finset.mem_union.mp hi with hcur | hsaved
    · exact Finset.mem_union_left _
        ((validAt_iff hk i).mp ((hvalid _).mp ((validAt_iff hk i).mpr hcur)).1)
    · exact Finset.mem_union_right _ hsaved
  · show SsaNames sm (invalidateBlocks sm now addr v.segs).ssa v.dev
    rw [hssa]
    exact h.ssa

/-- One log of `allocate_new_segments`. -/
theorem Sound.newSegment (h : Sound sm v) {p : SegManager.AllocPolicy}
    (heq : allocateNewSegment sm p v.segs type = some segs) :
    Sound sm { v with segs := segs } ∧
      ∀ k, (segs.sit.sentries k).curValidMap = (v.segs.sit.sentries k).curValidMap := by
  obtain ⟨⟨u, m, hturn, rfl⟩, hs⟩ := allocateNewSegment_settled h.books h.lists heq
  obtain ⟨hlogs, hsit, hssa, -⟩ :=
    SegManager.locateDirtySegment_same sm u (v.segs.curseg type).segno
  have hcur : ∀ k, ((u.locateDirtySegment sm (v.segs.curseg type).segno).sit.sentries
      k).curValidMap = (v.segs.sit.sentries k).curValidMap := fun k => by
    rw [hsit]
    exact (hturn.moved.sentry k).1
  refine ⟨⟨hs.books, hs.lists, hs.segmap h.segmap, h.table_settled hs,
    fun k hk => h.clean_settled hs hk, fun k hk => (h.kept k hk).trans (hs.touches.ckpt k),
    ((h.sums.turn h.books.toBooks hturn (h.used_free hturn.main)).congr hlogs hsit hssa).mono
      fun k _ => ?_, ?_, h.saved⟩, hcur⟩
  · show ((u.locateDirtySegment sm (v.segs.curseg type).segno).sit.sentries k).curValidMap ∪ _ ⊆ _
    rw [hcur]
    rfl
  · show SsaNames sm (u.locateDirtySegment sm (v.segs.curseg type).segno).ssa v.dev
    rw [hssa]
    exact h.ssa.turn h.sums h.books.toBooks (fun k _ => Finset.subset_union_right) hturn

theorem Sound.newSegments (h : Sound sm v) {p : SegManager.AllocPolicy}
    (heq : allocateNewSegments sm p v.segs = some segs) :
    Sound sm { v with segs := segs } ∧
      ∀ k, (segs.sit.sentries k).curValidMap = (v.segs.sit.sentries k).curValidMap := by
  refine OptionFold.foldlM_inv (P := fun s : SegManager => Sound sm { v with segs := s } ∧
    ∀ k, (s.sit.sentries k).curValidMap = (v.segs.sit.sentries k).curValidMap)
    (fun s t s' _ hP hstep => ?_) ⟨h, fun _ => rfl⟩ heq
  obtain ⟨hsound, hcur⟩ := hP.1.newSegment hstep
  exact ⟨hsound, fun k => (hcur k).trans (hP.2 k)⟩

theorem Sound.mark (h : Sound sm v) {secs : Finset Nat} (lastVictim : Nat)
    (hsecs : secs ⊆ Finset.range sm.totalSections) :
    Sound sm { v with
      segs := { v.segs with
        dirty := { v.segs.dirty with victimSecmap := secs }
        lastVictim := lastVictim } } := by
  have hbooks := h.books
  have hlists := h.lists
  exact ⟨⟨⟨hbooks.logMain, hbooks.logInUse, hbooks.apart, hbooks.counted, hbooks.sections,
      hbooks.unused, hbooks.segmap, hbooks.dirtyMain, hbooks.dirtyInUse, hbooks.dirtyLog,
      hbooks.lists, hsecs⟩, fun t => ⟨(hbooks.rooms t).room, (hbooks.rooms t).ahead⟩,
      hbooks.dirtyValid⟩,
    ⟨fun k hk hnot => ⟨(hlists.listed k hk hnot).dirty, (hlists.listed k hk hnot).pre⟩,
      hlists.pre, hlists.preMain, hlists.byType, hlists.types, hlists.count⟩,
    h.segmap, h.table, h.clean, h.kept, ⟨h.sums.types, h.sums.footers, h.sums.named⟩, h.ssa,
    h.saved⟩

/-- A summary block is written back. -/
theorem Sound.writeSum (h : Sound sm v) (segno : Nat) :
    Sound sm { v with
      dev := { v.dev with ssa := Function.update v.dev.ssa segno (v.segs.ssa segno) } } := by
  have hsaved := h.saved
  refine ⟨h.books, h.lists, h.segmap, h.table, h.clean, h.kept, h.sums, h.ssa,
    ⟨hsaved.sound, hsaved.distinct, hsaved.le, hsaved.types, hsaved.logMain, hsaved.apart,
      hsaved.logTypes, hsaved.rooms, hsaved.logNames, fun k hk hlogs i hi => ?_⟩⟩
  show Names (Function.update v.dev.ssa segno (v.segs.ssa segno) k) _ _ _
  rw [Function.update_apply]
  split
  case isTrue heq =>
    rw [← heq]
    exact h.ssa k hk hlogs i hi
  case isFalse => exact hsaved.ssaNames k hk hlogs i hi

end

end F2fs.Volume

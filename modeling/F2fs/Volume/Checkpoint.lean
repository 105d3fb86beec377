/-
  A checkpoint: it always goes through, the volume is sound behind it, and what is valid when
  it begins is what the next mount finds.

  Where whole sections are discarded, `clear_prefree_segments` may leave segments on the
  prefree list that are free already (`clearPrefreeSegments_drained`); these volumes are not
  considered.
-/
import F2fs.Segment.SitRecords
import F2fs.Volume.Mount

namespace F2fs.Volume

open F2fs.Segment F2fs.Gc F2fs.Checkpoint
open SegManager (isCurseg_false_iff)

variable {α : Type} {sm : SmInfo}

/-! ## The prefree segments -/

theorem setTestAndFree_fold (l : List Nat) (f : FreeSegmapInfo) (k : Nat) :
    k ∈ (l.foldl (fun f segno => f.setTestAndFree sm segno) f).freeSegmap ↔
      k ∈ f.freeSegmap ∧ k ∉ l := by
  induction l generalizing f with
  | nil => simp
  | cons segno l ih =>
      rw [List.foldl_cons, ih, setTestAndFree_freeSegmap, Finset.mem_erase, List.mem_cons, not_or]
      tauto

/-- The free segments after `set_prefree_as_free_segments`. -/
theorem mem_setPrefreeAsFreeSegments {s : SegManager}
    (hmain : s.dirty.dirtySegmap dirtyPre ⊆ Finset.range sm.mainSegments) (k : Nat) :
    k ∈ (setPrefreeAsFreeSegments sm s).free.freeSegmap ↔
      k ∈ s.free.freeSegmap ∧ k ∉ s.dirty.dirtySegmap dirtyPre := by
  show k ∈ (List.foldl _ s.free (prefreeList sm s)).freeSegmap ↔ _
  rw [setTestAndFree_fold, prefreeList, List.mem_filter, List.mem_range, decide_eq_true_eq]
  exact and_congr_right fun _ => not_congr
    ⟨And.right, fun hk => ⟨Finset.mem_range.mp (hmain hk), hk⟩⟩

theorem segmapBooks_setPrefree {s : SegManager} (h : SegmapBooks sm s.free) :
    SegmapBooks sm (setPrefreeAsFreeSegments sm s).free :=
  List.foldlRecOn (motive := SegmapBooks sm) _ _ h fun _ hf _ _ => hf.setTestAndFree

/-! ## The discards -/

/-- What a discard leaves of the SIT. -/
structure SameButDiscards (a b : SitInfo) : Prop where
  type_eq : ∀ k, (a.sentries k).type = (b.sentries k).type
  cur : ∀ k, (a.sentries k).curValidMap = (b.sentries k).curValidMap
  ckpt : ∀ k, (a.sentries k).ckptValidMap = (b.sentries k).ckptValidMap
  valid : ∀ k, (a.sentries k).validBlocks = (b.sentries k).validBlocks
  ckptValid : ∀ k, (a.sentries k).ckptValidBlocks = (b.sentries k).ckptValidBlocks
  sections : a.secEntries = b.secEntries
  dirty : a.dirtySentriesBitmap = b.dirtySentriesBitmap

theorem SameButDiscards.refl (a : SitInfo) : SameButDiscards a a :=
  ⟨fun _ => rfl, fun _ => rfl, fun _ => rfl, fun _ => rfl, fun _ => rfl, rfl, rfl⟩

theorem sameButDiscards_discardBlock {a b : SitInfo} (h : SameButDiscards a b) (addr : Nat) :
    SameButDiscards (a.discardBlock sm addr) b := by
  have hckpt : ∀ k, ((a.discardBlock sm addr).sentries k).ckptValidBlocks =
      (a.sentries k).ckptValidBlocks := fun k => by
    unfold SitInfo.discardBlock
    simp only
    split
    · rfl
    · show (Function.update a.sentries (getSegno sm addr) _ k).ckptValidBlocks = _
      rw [Function.update_apply]
      split
      case isTrue heq => rw [heq]
      case isFalse => rfl
  have hrest : (a.discardBlock sm addr).secEntries = a.secEntries ∧
      (a.discardBlock sm addr).dirtySentriesBitmap = a.dirtySentriesBitmap := by
    unfold SitInfo.discardBlock
    simp only
    split <;> exact ⟨rfl, rfl⟩
  have hsent := discardBlock_sentries sm a addr
  exact ⟨fun k => (hsent k).1.trans (h.type_eq k), fun k => (hsent k).2.1.trans (h.cur k),
    fun k => (hsent k).2.2.1.trans (h.ckpt k), fun k => (hsent k).2.2.2.1.trans (h.valid k),
    fun k => (hckpt k).trans (h.ckptValid k), hrest.1.trans h.sections, hrest.2.trans h.dirty⟩

/-- Any number of discards. -/
theorem issueDiscards_inv {P : SitInfo → Prop} {sit : SitInfo} (discards : List (Nat × Nat))
    (step : ∀ addr t, P t → P (t.discardBlock sm addr)) (h : P sit) :
    P (issueDiscards sm sit discards) :=
  List.foldlRecOn (motive := P) _ _ h fun _ ht _ _ =>
    issueDiscard_inv (fun _ _ t => step _ t) ht

/-! ## The tables after a checkpoint -/

/-- `s'` is `s` after a checkpoint. -/
structure Cleared (sm : SmInfo) (s s' : SegManager) : Prop where
  curseg : s'.curseg = s.curseg
  ssa : s'.ssa = s.ssa
  type_eq : ∀ k, (s'.sit.sentries k).type = (s.sit.sentries k).type
  cur : ∀ k, (s'.sit.sentries k).curValidMap = (s.sit.sentries k).curValidMap
  valid : ∀ k, (s'.sit.sentries k).validBlocks = (s.sit.sentries k).validBlocks
  ckpt : ∀ k < sm.mainSegments,
    (s'.sit.sentries k).ckptValidMap = (s'.sit.sentries k).curValidMap
  counted : ∀ k < sm.mainSegments, (s'.sit.sentries k).Counted
  sections : s'.sit.secEntries = s.sit.secEntries
  free : ∀ k, k ∈ s'.free.freeSegmap ↔ k ∈ s.free.freeSegmap ∧ k ∉ s.dirty.dirtySegmap dirtyPre
  segmap : SegmapBooks sm s'.free
  lists : ∀ t, s'.dirty.dirtySegmap t = if t = dirtyPre then ∅ else s.dirty.dirtySegmap t
  counts : ∀ t, s'.dirty.nrDirty t = if t = dirtyPre then 0 else s.dirty.nrDirty t
  victims : s'.dirty.victimSecmap = s.dirty.victimSecmap

section

variable {s s' : SegManager}

theorem Cleared.isCurseg (h : Cleared sm s s') (k : Nat) : s'.isCurseg k = s.isCurseg k := by
  unfold SegManager.isCurseg
  rw [h.curseg]

theorem Cleared.dirtyAll_eq (h : Cleared sm s s') :
    s'.dirty.dirtySegmap dirtyAll = s.dirty.dirtySegmap dirtyAll := by
  rw [h.lists]
  exact if_neg (by decide)

/-- A block that was free is free, and only blocks that are not valid become free. -/
theorem Cleared.freeAt (h : Cleared sm s s') {k i : Nat} (hk : k < sm.mainSegments)
    (hfree : (s.sit.sentries k).FreeAt i) : (s'.sit.sentries k).FreeAt i := by
  obtain ⟨offset, hoff, hnot⟩ := hfree
  refine ⟨offset, hoff, fun hc => hnot (Finset.mem_union_right _ ?_)⟩
  rw [h.ckpt k hk, Finset.union_self, h.cur k] at hc
  exact hc

theorem Cleared.books (h : Cleared sm s s') (hbooks : SegManager.BooksOk sm s)
    (hlists : Lists sm s ∅) : SegManager.BooksOk sm s' := by
  have hlog : ∀ type, (s.curseg type).segno ∉ s.dirty.dirtySegmap dirtyPre := fun type hpre =>
    isCurseg_false_iff.mp (hlists.pre _ hpre).1.2 type rfl
  have hempty : ∀ k ∈ s.dirty.dirtySegmap dirtyPre, k < sm.mainSegments →
      (s'.sit.sentries k).curValidMap = ∅ := fun k hpre hk => by
    have hzero := (hlists.pre k hpre).2
    rw [← h.valid k, (h.counted k hk).valid, Finset.card_eq_zero] at hzero
    exact hzero
  refine ⟨⟨fun type => ?_, fun type => ?_, fun {a b} heq => ?_, h.counted, fun hsp c hc => ?_,
    fun k hk hnot i hi => ?_, h.segmap.ok, fun t => ?_, fun k hk => ?_, fun type hk => ?_,
    fun {a k} ha hk => ?_, ?_⟩, fun type => ⟨?_, fun hlfs i hle hi => ?_⟩, fun k hk _ => ?_⟩
  · rw [h.curseg]
    exact hbooks.logMain type
  · rw [h.curseg, h.free]
    exact ⟨hbooks.logInUse type, hlog type⟩
  · rw [h.curseg] at heq
    exact hbooks.apart heq
  · rw [h.sections, hbooks.sections hsp c hc]
    refine Finset.sum_congr rfl fun k _ => ?_
    rw [h.valid]
  · rw [h.free, not_and_or, not_not] at hnot
    rcases hnot with hnot | hpre
    · exact h.freeAt hk (hbooks.unused k hk hnot i hi)
    · refine ⟨⟨i, hi⟩, rfl, ?_⟩
      rw [h.ckpt k hk, Finset.union_self, hempty k hpre hk]
      exact Finset.notMem_empty _
  · rw [h.lists]
    split
    · exact Finset.empty_subset _
    · exact hbooks.dirtyMain t
  · rw [h.dirtyAll_eq] at hk
    refine (h.free k).mpr ⟨hbooks.dirtyInUse hk, fun hpre => ?_⟩
    exact hbooks.dirtyValid k hk (Option.some_ne_none k) (hlists.pre k hpre).2
  · rw [h.curseg, h.dirtyAll_eq] at hk
    exact hbooks.dirtyLog type hk
  · rw [h.lists] at hk
    split at hk
    · exact absurd hk (Finset.notMem_empty k)
    · rw [h.dirtyAll_eq, h.type_eq]
      exact hbooks.lists ha hk
  · rw [h.victims]
    exact hbooks.victims
  · have hroom := (hbooks.rooms type).room
    unfold SegManager.HasRoom at hroom ⊢
    rw [h.curseg]
    exact h.freeAt (hbooks.logMain type) hroom
  · rw [h.curseg] at hlfs hle ⊢
    exact h.freeAt (hbooks.logMain type) ((hbooks.rooms type).ahead hlfs i hle hi)
  · rw [h.dirtyAll_eq] at hk
    rw [h.valid]
    exact hbooks.dirtyValid k hk (Option.some_ne_none k)

theorem Cleared.toLists (h : Cleared sm s s') (hlists : Lists sm s ∅) : Lists sm s' ∅ := by
  have hnoPre : ∀ k, k ∉ s'.dirty.dirtySegmap dirtyPre := fun k => by
    rw [h.lists, if_pos rfl]
    exact Finset.notMem_empty k
  have hleft : ∀ k, Left s' k ↔ Left s k ∧ k ∉ s.dirty.dirtySegmap dirtyPre := fun k => by
    unfold Left
    rw [h.free, h.isCurseg]
    tauto
  refine ⟨fun k hk hnot => ⟨?_, ?_⟩, fun k hk => absurd hk (hnoPre k),
    fun k hk => absurd hk (hnoPre k), fun k hk => ?_, fun k hk => ?_, fun t => ?_⟩
  · rw [h.dirtyAll_eq, (hlists.listed k hk hnot).dirty, hleft, h.valid]
    constructor
    · rintro ⟨hl, hval, hroom⟩
      exact ⟨⟨hl, fun hpre => hval (hlists.pre k hpre).2⟩, hval, hroom⟩
    · rintro ⟨⟨hl, -⟩, hval, hroom⟩
      exact ⟨hl, hval, hroom⟩
  · rw [hleft, h.valid]
    refine iff_of_false (hnoPre k) ?_
    rintro ⟨⟨hl, hpre⟩, hzero⟩
    exact hpre ((hlists.listed k hk hnot).pre.mpr ⟨hl, hzero⟩)
  · rw [h.dirtyAll_eq] at hk
    have hbyType := hlists.byType k hk
    rw [h.lists, h.type_eq, if_neg]
    · exact hbyType
    · intro hc
      rw [hc] at hbyType
      have hlt := hlists.types k (Finset.mem_range.mp (hlists.preMain hbyType))
      rw [hc] at hlt
      exact absurd hlt (by decide)
  · rw [h.type_eq]
    exact hlists.types k hk
  · rw [h.counts, h.lists]
    split
    · rfl
    · exact hlists.count t

end

/-! ## The checkpoint -/

section

variable {v v' : Mounted α} {cpc : CpControl} {blkzoned : Bool} {fuel : Nat}

/-- What a flush does for a checkpoint. -/
structure FlushedAll (sm : SmInfo) (v : Mounted α) (t : SitState) : Prop where
  table : t.Flushable sm
  sound : t.store.Sound sm
  dirty : t.info.dirtySentriesBitmap = ∅
  type_eq : ∀ k, (t.info.sentries k).type = (v.segs.sit.sentries k).type
  cur : ∀ k, (t.info.sentries k).curValidMap = (v.segs.sit.sentries k).curValidMap
  valid : ∀ k, (t.info.sentries k).validBlocks = (v.segs.sit.sentries k).validBlocks
  ckpt : ∀ k < sm.mainSegments,
    (t.info.sentries k).ckptValidMap = (t.info.sentries k).curValidMap
  counted : ∀ k < sm.mainSegments, (t.info.sentries k).Counted
  sections : t.info.secEntries = v.segs.sit.secEntries

/-- The flush goes through, and the device holds what is in memory. -/
theorem Sound.flush (h : Sound sm v) (cpc : CpControl) (dcc : DiscardCmdControl) :
    ∃ t, flushSitEntries sm cpc ⟨v.segs.sit, v.dev.store, [], dcc⟩ = some t ∧
      FlushedAll sm v t := by
  have htable : SitState.Flushable sm ⟨v.segs.sit, v.dev.store, [], dcc⟩ :=
    ⟨h.table.dirty_lt, h.table.count, h.table.valid, h.table.coherent, h.table.distinct,
      h.table.le, h.table.keys_lt, h.table.blocks⟩
  obtain ⟨t, ht, hflushed⟩ := flushSitEntries_spec cpc htable rfl
  have hrec : Recorded sm ⟨v.segs.sit, v.dev.store, [], dcc⟩ :=
    ⟨h.saved.sound, fun k hk => (h.books.counted k hk).valid, h.table.dirty_lt⟩
  obtain ⟨D, hsub, -, ⟨hsec, -⟩, hD⟩ := hflushed.cleaned
  have hsame : ∀ k, (t.info.sentries k).type = (v.segs.sit.sentries k).type ∧
      (t.info.sentries k).curValidMap = (v.segs.sit.sentries k).curValidMap ∧
      (t.info.sentries k).validBlocks = (v.segs.sit.sentries k).validBlocks := fun k => by
    by_cases hk : k ∈ D
    · rw [(hD k).1 hk]
      exact ⟨rfl, rfl, rfl⟩
    · rw [(hD k).2 hk]
      exact ⟨rfl, rfl, rfl⟩
  refine ⟨t, ht, hflushed.inv, (recorded_flushSitEntries hrec rfl ht).store, hflushed.clean,
    fun k => (hsame k).1, fun k => (hsame k).2.1, fun k => (hsame k).2.2, fun k hk => ?_,
    fun k hk => ?_, hsec⟩
  · by_cases hkD : k ∈ D
    · rw [(hD k).1 hkD]
      rfl
    · rw [(hD k).2 hkD]
      exact h.clean k hk fun hdirty => hkD (hsub hdirty)
  · by_cases hkD : k ∈ D
    · rw [(hD k).1 hkD]
      exact counted_checkpointed (h.books.counted k hk)
    · rw [(hD k).2 hkD]
      exact h.books.counted k hk

theorem FlushedAll.persisted {t : SitState} (h : FlushedAll sm v t) {k : Nat}
    (hk : k < sm.mainSegments) :
    (t.store.persisted sm k).validMap = (v.segs.sit.sentries k).curValidMap ∧
      (t.store.persisted sm k).getType = (v.segs.sit.sentries k).type := by
  have hdirty : k ∉ t.info.dirtySentriesBitmap := by
    rw [h.dirty]
    exact Finset.notMem_empty k
  obtain ⟨-, hcur, htype, -⟩ := h.table.coherent k hk hdirty
  exact ⟨hcur.symm.trans (h.cur k), htype.symm.trans (h.type_eq k)⟩

/-- The device behind a checkpoint can be mounted. -/
theorem Sound.saved_after (h : Sound sm v) {t : SitState} (ht : FlushedAll sm v t)
    (nodeSums trimmed : Bool) :
    Saved sm (⟨v.dev.blocks, v.segs.ssa, t.store, v.segs.curseg, nodeSums, trimmed⟩ :
      Device α) := by
  have hmain := h.books.logMain
  have hfree : ∀ {k : Nat} {i : Nat}, k < sm.mainSegments → (v.segs.sit.sentries k).FreeAt i →
      ∃ offset : Fin blocksPerSeg, offset.val = i ∧
        offset ∉ (t.store.persisted sm k).validMap := by
    rintro k i hk ⟨offset, hoff, hnot⟩
    refine ⟨offset, hoff, fun hc => hnot (Finset.mem_union_right _ ?_)⟩
    rwa [(ht.persisted hk).1] at hc
  refine ⟨ht.sound, ht.table.distinct, ht.table.le, fun k hk => ?_, hmain, h.books.apart,
    fun type => ?_, fun type => ⟨?_, fun hlfs offset hle => ?_⟩, fun type i hi => ?_,
    fun k hk hlogs i hi => ?_⟩
  · rw [(ht.persisted hk).2]
    exact h.lists.types k hk
  · rw [(ht.persisted (hmain type)).2]
    exact h.sums.types type
  · exact hfree (hmain type) (h.books.rooms type).room
  · obtain ⟨j, hj, hnot⟩ := hfree (hmain type)
      ((h.books.rooms type).ahead hlfs offset.val hle offset.isLt)
    rwa [← Fin.ext hj]
  · obtain ⟨hcur, htype⟩ := ht.persisted (hmain type)
    rw [htype]
    rw [hcur] at hi
    have hname := h.sums.named _ (hmain type) i (Finset.mem_union_left _ hi)
    rwa [sumOf_log h.books.toBooks] at hname
  · obtain ⟨hcur, htype⟩ := ht.persisted hk
    rw [htype]
    rw [hcur] at hi
    have hname := h.sums.named k hk i (Finset.mem_union_left _ hi)
    rwa [sumOf_left (isCurseg_false_iff.mpr hlogs)] at hname

/-- The prefree list is drained, within some number of turns. -/
theorem clearPrefree_spec (cpc : CpControl) (blkzoned : Bool) {s : SegManager}
    (hmain : s.dirty.dirtySegmap dirtyPre ⊆ Finset.range sm.mainSegments)
    (hcount : s.dirty.nrDirty dirtyPre = ((s.dirty.dirtySegmap dirtyPre).card : Int))
    (hsec : ¬BySection sm) (dcc : DiscardCmdControl) :
    ∃ discards dcc', (∃ fuel r, clearPrefree sm cpc blkzoned fuel s dcc = some r) ∧
      ∀ fuel r, clearPrefree sm cpc blkzoned fuel s dcc = some r → r =
        ({ s with
            sit := issueDiscards sm s.sit discards
            dirty := { s.dirty with
              dirtySegmap := Function.update s.dirty.dirtySegmap dirtyPre ∅
              nrDirty := Function.update s.dirty.nrDirty dirtyPre 0 } }, dcc') := by
  obtain ⟨fuel₀, d, hrun, hnr, -, -, -, hempty⟩ := clearPrefreeSegments_total s.sit
    (fun type => (s.curseg type).segno) cpc blkzoned dcc
    (fun i hi => Finset.mem_range.mp (hmain hi))
  have hmap : d.prefreeMap = ∅ := hempty.mpr fun _ _ _ hby => absurd hby hsec
  have hzero : d.nrDirty = 0 := by
    rw [hnr, hmap]
    rfl
  refine ⟨d.discards ++ d.small, d.dcc, ⟨fuel₀, Option.isSome_iff_exists.mp ?_⟩,
    fun fuel r hr => ?_⟩
  · unfold clearPrefree
    rw [hcount, hrun]
    rfl
  · unfold clearPrefree at hr
    rw [hcount] at hr
    obtain ⟨d', hd', rfl⟩ := Option.map_eq_some_iff.mp hr
    rw [clearPrefreeSegments_unique hd' hrun, hmap, hzero]

/-- `v'` is `v` behind a checkpoint. -/
structure Checkpointed (sm : SmInfo) (v v' : Mounted α) : Prop where
  sound : Sound sm v'
  blocks : v'.dev.blocks = v.dev.blocks
  valid : ∀ k, (v'.segs.sit.sentries k).curValidMap = (v.segs.sit.sentries k).curValidMap
  saved : ∀ k < sm.mainSegments,
    (v'.dev.store.persisted sm k).validMap = (v.segs.sit.sentries k).curValidMap
  pre : v'.segs.dirty.dirtySegmap dirtyPre = ∅
  free : ∀ k < sm.mainSegments, k ∉ v'.segs.free.freeSegmap ↔
    (v'.segs.sit.sentries k).validBlocks = 0 ∧ v'.segs.isCurseg k = false

/-- The tables behind the flush, the prefree segments free and the list drained. -/
theorem cleared_of_flushed (h : Sound sm v) {t : SitState} (ht : FlushedAll sm v t)
    (discards : List (Nat × Nat)) :
    Cleared sm v.segs
      { setPrefreeAsFreeSegments sm { v.segs with sit := t.info } with
        sit := issueDiscards sm t.info discards
        dirty := { v.segs.dirty with
          dirtySegmap := Function.update v.segs.dirty.dirtySegmap dirtyPre ∅
          nrDirty := Function.update v.segs.dirty.nrDirty dirtyPre 0 } } := by
  have hsit : SameButDiscards (issueDiscards sm t.info discards) t.info :=
    issueDiscards_inv (P := fun a => SameButDiscards a t.info) discards
      (fun addr _ ha => sameButDiscards_discardBlock ha addr) (SameButDiscards.refl _)
  refine ⟨rfl, rfl, fun k => (hsit.type_eq k).trans (ht.type_eq k),
    fun k => (hsit.cur k).trans (ht.cur k), fun k => (hsit.valid k).trans (ht.valid k),
    fun k hk => ?_, fun k hk => ⟨?_, ?_⟩, hsit.sections.trans ht.sections, ?_, ?_, fun a => ?_,
    fun a => ?_, rfl⟩
  · exact (hsit.ckpt k).trans ((ht.ckpt k hk).trans (hsit.cur k).symm)
  · exact (hsit.valid k).trans ((ht.counted k hk).valid.trans (by rw [hsit.cur k]))
  · refine (hsit.ckptValid k).trans ((ht.counted k hk).ckptValid.trans ?_)
    rw [hsit.cur k, hsit.ckpt k]
  · exact mem_setPrefreeAsFreeSegments (s := { v.segs with sit := t.info }) h.lists.preMain
  · exact segmapBooks_setPrefree (s := { v.segs with sit := t.info }) h.segmap
  · exact Function.update_apply ..
  · exact Function.update_apply ..

/-- Behind a checkpoint a segment is free if it has no valid block and is that of no log. -/
theorem Cleared.free_iff {s s' : SegManager} (h : Cleared sm s s')
    (hbooks : SegManager.BooksOk sm s) (hlists : Lists sm s ∅) {k : Nat}
    (hk : k < sm.mainSegments) : k ∉ s'.free.freeSegmap ↔
      (s'.sit.sentries k).validBlocks = 0 ∧ s'.isCurseg k = false := by
  have hlists' := h.toLists hlists
  have hbooks' := h.books hbooks hlists
  constructor
  · intro hfree
    refine ⟨not_not.mp fun hval => hfree (hbooks'.inUse hk hval), ?_⟩
    rw [isCurseg_false_iff]
    rintro type rfl
    exact hfree (hbooks'.logInUse type)
  · rintro ⟨hzero, hlog⟩ hin
    have hpre := (hlists'.listed k hk (Finset.notMem_empty k)).pre.mpr ⟨⟨hin, hlog⟩, hzero⟩
    rw [h.lists, if_pos rfl] at hpre
    exact Finset.notMem_empty k hpre

/-- What holds behind a flush and the draining of the prefree list. -/
theorem Sound.checkpointed (h : Sound sm v) {t : SitState} (ht : FlushedAll sm v t)
    (discards : List (Nat × Nat)) (dcc : DiscardCmdControl) (nodeSums trimmed : Bool) :
    Checkpointed sm v
      { segs :=
          { setPrefreeAsFreeSegments sm { v.segs with sit := t.info } with
            sit := issueDiscards sm t.info discards
            dirty := { v.segs.dirty with
              dirtySegmap := Function.update v.segs.dirty.dirtySegmap dirtyPre ∅
              nrDirty := Function.update v.segs.dirty.nrDirty dirtyPre 0 } }
        dcc := dcc
        dev := ⟨v.dev.blocks, v.segs.ssa, t.store, v.segs.curseg, nodeSums, trimmed⟩ } := by
  have hcleared := cleared_of_flushed h ht discards
  have hsaved := h.saved_after ht nodeSums trimmed
  have hflush : ({ t with info := issueDiscards sm t.info discards } : SitState).Flushable sm :=
    issueDiscards_inv (P := fun a => ({ t with info := a } : SitState).Flushable sm) discards
      (fun addr _ ha => flushable_discardBlock addr ha) ht.table
  refine ⟨⟨hcleared.books h.books h.lists, hcleared.toLists h.lists, hcleared.segmap, ?_,
    fun k hk _ => hcleared.ckpt k hk, fun k hk => ?_, ⟨fun type => ?_, h.sums.footers,
      fun k hk i hi => ?_⟩, hsaved.ssaNames, hsaved⟩, rfl, hcleared.cur,
    fun k hk => (ht.persisted hk).1, ?_, fun k hk => hcleared.free_iff h.books h.lists hk⟩
  · exact ⟨hflush.dirty_lt, hflush.count, hflush.valid, hflush.coherent, hflush.distinct,
      hflush.le, hflush.keys_lt, hflush.blocks⟩
  · show (t.store.persisted sm k).validMap ⊆ _
    rw [(ht.persisted hk).1, hcleared.ckpt k hk, hcleared.cur k]
  · rw [hcleared.type_eq]
    exact h.sums.types type
  · have hmem : i ∈ v.used sm k := by
      refine Finset.mem_union_left _ ((Finset.mem_union.mp hi).elim (fun hc => ?_) fun hc => ?_)
      · rw [← hcleared.cur k]
        exact hc
      · have hpersisted : i ∈ (t.store.persisted sm k).validMap := hc
        rwa [(ht.persisted hk).1] at hpersisted
    rw [hcleared.type_eq]
    exact h.sums.named k hk i hmem
  · show Function.update v.segs.dirty.dirtySegmap dirtyPre ∅ dirtyPre = ∅
    exact Function.update_self ..

/-- A checkpoint always goes through, and the volume is sound behind it. -/
theorem Sound.checkpoint (h : Sound sm v) (hsec : ¬BySection sm) (cpc : CpControl)
    (blkzoned : Bool) :
    (∃ fuel v', writeCheckpoint sm cpc blkzoned fuel v = some v') ∧
      ∀ fuel v', writeCheckpoint sm cpc blkzoned fuel v = some v' → Checkpointed sm v v' := by
  obtain ⟨t, ht, hflushed⟩ := h.flush cpc v.dcc
  obtain ⟨discards, dcc, ⟨fuel, r, hr⟩, hall⟩ := clearPrefree_spec cpc blkzoned
    (s := setPrefreeAsFreeSegments sm { v.segs with sit := t.info }) h.lists.preMain
    (h.lists.count dirtyPre) hsec t.dcc
  refine ⟨⟨fuel, Option.isSome_iff_exists.mp ?_⟩, fun fuel' v' hv => ?_⟩
  · unfold writeCheckpoint
    rw [ht, Option.bind_some]
    dsimp only at hr ⊢
    rw [hr]
    rfl
  · unfold writeCheckpoint at hv
    rw [ht, Option.bind_some] at hv
    obtain ⟨r', hr', rfl⟩ := Option.map_eq_some_iff.mp hv
    rw [hall fuel' r' hr']
    exact h.checkpointed hflushed discards dcc _ _

end

end F2fs.Volume

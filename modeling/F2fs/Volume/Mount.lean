/-
  `build_segment_manager` on the last checkpoint: it always succeeds, and the tables it makes
  agree with each other and with the device.

  Only the SIT, the logs and the SSA are read.  Which segments are free and which are dirty is
  made up again from the counts of valid blocks.
-/
import F2fs.Volume.Sound

namespace F2fs.Volume

open F2fs.Segment F2fs.Gc
open SegManager (mem_locateDirty isCurseg_false_iff)

variable {α : Type} {sm : SmInfo}

/-! ## The SIT -/

/-- What is read from a sound SIT. -/
theorem buildSitEntries_sound (trimmed : Bool) {st : SitStore} (hst : st.Sound sm)
    (hd : st.journal.Distinct) : ∃ sit, buildSitEntries sm trimmed st = some sit ∧
      ∀ k < sm.mainSegments, (sit.sentries k).Agrees (st.persisted sm k) := by
  have hblocks : ∀ k < sm.mainSegments, (st.blockEntry sm k).getVblocks ≤ blocksPerSeg := by
    intro k hk
    rw [hst.blocks k hk]
    exact card_blockMap_le _
  refine buildSitEntries_persisted trimmed hd (fun k hk => ?_) hblocks fun k hk => ?_
  · obtain ⟨r, hr⟩ := Option.ne_none_iff_exists'.mp hk
    obtain ⟨i, hi, hslot⟩ := JournalArray.view_eq_some hr
    have hkey := hst.keys i hi
    rwa [hslot] at hkey
  · unfold SitStore.persisted
    cases hv : st.journal.view k with
    | none => exact hblocks k hk
    | some r =>
        obtain ⟨i, hi, hslot⟩ := JournalArray.view_eq_some hv
        have hrec := hst.records i hi
        rw [hslot] at hrec
        rw [Option.getD_some, hrec]
        exact card_blockMap_le _

/-! ## The free segments -/

theorem initFreeSegment_fold (sit : SitInfo) {n : Nat} (hn : n ≤ sm.mainSegments) :
    let acc := (List.range n).foldl (initFreeSegment sm) (sit, buildFreeSegmap sm)
    acc.1.sentries = sit.sentries ∧ ∀ k, k ∈ acc.2.freeSegmap ↔
      k < sm.mainSegments ∧ (k < n → (sit.sentries k).validBlocks ≠ 0) := by
  induction n with
  | zero =>
      refine ⟨rfl, fun k => ?_⟩
      show k ∈ Finset.range sm.mainSegments ↔ _
      rw [Finset.mem_range]
      exact ⟨fun hk => ⟨hk, fun hc => absurd hc (Nat.not_lt_zero k)⟩, And.left⟩
  | succ n ih =>
      obtain ⟨hsent, hmem⟩ := ih (by omega)
      rw [List.range_succ, List.foldl_append]
      generalize (List.range n).foldl (initFreeSegment sm) (sit, buildFreeSegmap sm) = acc
        at hsent hmem
      obtain ⟨sit', f⟩ := acc
      dsimp only at hsent hmem
      show (initFreeSegment sm (sit', f) n).1.sentries = _ ∧ ∀ k,
        k ∈ (initFreeSegment sm (sit', f) n).2.freeSegmap ↔ _
      unfold initFreeSegment
      simp only [hsent]
      by_cases hzero : (sit.sentries n).validBlocks = 0
      · rw [if_pos hzero]
        refine ⟨hsent, fun k => ?_⟩
        rw [setFree_freeSegmap, Finset.mem_erase, hmem]
        constructor
        · rintro ⟨hne, hk, hval⟩
          exact ⟨hk, fun hlt => hval (by omega)⟩
        · rintro ⟨hk, hval⟩
          exact ⟨fun hc => hval (hc ▸ Nat.lt_succ_self n) (hc ▸ hzero), hk,
            fun hlt => hval (by omega)⟩
      · rw [if_neg hzero]
        refine ⟨rfl, fun k => ?_⟩
        show k ∈ f.freeSegmap ↔ _
        rw [hmem]
        refine ⟨fun h => ⟨h.1, fun hlt => ?_⟩, fun h => ⟨h.1, fun hlt => h.2 (by omega)⟩⟩
        rcases Nat.lt_succ_iff_lt_or_eq.mp hlt with hlt | rfl
        · exact h.2 hlt
        · exact hzero

theorem setTestAndInuse_fold (curseg : CursegType → Nat) (types : List CursegType)
    (f : FreeSegmapInfo) (k : Nat) :
    k ∈ (types.foldl (fun f type => f.setTestAndInuse sm (curseg type)) f).freeSegmap ↔
      k ∈ f.freeSegmap ∨ ∃ t ∈ types, curseg t = k := by
  induction types generalizing f with
  | nil => simp
  | cons t types ih =>
      rw [List.foldl_cons, ih, setTestAndInuse_freeSegmap, Finset.mem_insert]
      constructor
      · rintro ((rfl | hk) | ⟨t', ht', heq⟩)
        · exact Or.inr ⟨t, List.mem_cons_self, rfl⟩
        · exact Or.inl hk
        · exact Or.inr ⟨t', List.mem_cons_of_mem _ ht', heq⟩
      · rintro (hk | ⟨t', ht', heq⟩)
        · exact Or.inl (Or.inr hk)
        · rcases List.mem_cons.mp ht' with rfl | ht'
          · exact Or.inl (Or.inl heq.symm)
          · exact Or.inr ⟨t', ht', heq⟩

/-- A segment is in use after a mount if it has a valid block or is that of a log. -/
theorem mem_initFreeSegmap (sit : SitInfo) (curseg : CursegType → Nat) {k : Nat}
    (hk : k < sm.mainSegments) :
    k ∈ (initFreeSegmap sm sit (buildFreeSegmap sm) curseg).2.freeSegmap ↔
      (sit.sentries k).validBlocks ≠ 0 ∨ ∃ t, curseg t = k := by
  obtain ⟨-, hmem⟩ := @initFreeSegment_fold sm sit _ le_rfl
  unfold initFreeSegmap
  dsimp only
  rw [setTestAndInuse_fold, hmem]
  constructor
  · rintro (⟨-, hval⟩ | ⟨t, -, heq⟩)
    · exact Or.inl (hval hk)
    · exact Or.inr ⟨t, heq⟩
  · rintro (hval | ⟨t, heq⟩)
    · exact Or.inl ⟨hk, fun _ => hval⟩
    · exact Or.inr ⟨t, CursegType.mem_all t, heq⟩

/-! ## The dirty segments -/

/-- Where `init_dirty_segmap` puts a segment. -/
def PutDirty (s : SegManager) (t k : Nat) : Prop :=
  s.isCurseg k = false ∧ (s.sit.sentries k).validBlocks ≠ 0 ∧
    (s.sit.sentries k).validBlocks < blocksPerSeg ∧
    (t = dirtyAll ∨ t = (s.sit.sentries k).type.val)

/-- `init_dirty_segmap` has been through the segments of `l`. -/
structure DirtyFrom (s s' : SegManager) (l : List Nat) : Prop where
  curseg : s'.curseg = s.curseg
  sit : s'.sit = s.sit
  ssa : s'.ssa = s.ssa
  free : s'.free = s.free
  victims : s'.dirty.victimSecmap = s.dirty.victimSecmap
  mem : ∀ t k, k ∈ s'.dirty.dirtySegmap t ↔
    k ∈ s.dirty.dirtySegmap t ∨ (k ∈ l ∧ PutDirty s t k)
  count : (∀ t, s.dirty.nrDirty t = ((s.dirty.dirtySegmap t).card : Int)) →
    ∀ t, s'.dirty.nrDirty t = ((s'.dirty.dirtySegmap t).card : Int)

theorem DirtyFrom.nil (s : SegManager) : DirtyFrom s s [] :=
  ⟨rfl, rfl, rfl, rfl, rfl, fun _ _ => by simp, id⟩

/-- One segment more. -/
theorem initDirtySegment_from {s s' : SegManager} {l : List Nat} (h : DirtyFrom s s' l) {n : Nat}
    (htype : (s.sit.sentries n).type.val < dirtyAll) :
    DirtyFrom s (initDirtySegment sm s' n) (l ++ [n]) := by
  have hcur : s'.isCurseg n = s.isCurseg n := by
    unfold SegManager.isCurseg
    rw [h.curseg]
  have hskip : (∀ t, ¬PutDirty s t n) → DirtyFrom s s' (l ++ [n]) := fun hnot =>
    ⟨h.curseg, h.sit, h.ssa, h.free, h.victims, fun t k => by
      rw [h.mem, List.mem_append, List.mem_singleton]
      refine or_congr_right ⟨fun hk => ⟨Or.inl hk.1, hk.2⟩, ?_⟩
      rintro ⟨hk | rfl, hput⟩
      · exact ⟨hk, hput⟩
      · exact absurd hput (hnot t), h.count⟩
  unfold initDirtySegment
  simp only [SegManager.getValidBlocks_seg, h.sit]
  split
  case isTrue hend =>
    refine hskip fun t hput => ?_
    have hne := hput.2.1
    have hlt := hput.2.2.1
    omega
  case isFalse hend =>
    split
    case isTrue hover =>
      refine hskip fun t hput => ?_
      have hlt := hput.2.2.1
      omega
    case isFalse hin =>
      cases hlog : s.isCurseg n with
      | true =>
          rw [SegManager.locateDirty_curseg s' (hcur.trans hlog)]
          exact hskip fun t hput => by
            rw [hput.1] at hlog
            cases hlog
      | false =>
          have heq := SegManager.locateDirty_eq (s := s') n dirtyAll
          refine ⟨?_, ?_, ?_, ?_, ?_, fun t k => ?_, fun hcount => ?_⟩
          · rw [heq]
            exact h.curseg
          · rw [heq]
            exact h.sit
          · rw [heq]
            exact h.ssa
          · rw [heq]
            exact h.free
          · rw [SegManager.locateDirty_victims, h.victims]
          · rw [mem_locateDirty s' (hcur.trans hlog), h.mem, h.sit, List.mem_append,
              List.mem_singleton]
            constructor
            · rintro ((hk | ⟨hk, hput⟩) | ⟨rfl, ht⟩)
              · exact Or.inl hk
              · exact Or.inr ⟨Or.inl hk, hput⟩
              · refine Or.inr ⟨Or.inr rfl, hlog, by omega, by omega, ?_⟩
                exact ht.imp_right fun hc => hc.2.2
            · rintro (hk | ⟨hk | rfl, hput⟩)
              · exact Or.inl (Or.inl hk)
              · exact Or.inl (Or.inr ⟨hk, hput⟩)
              · exact Or.inr ⟨rfl, hput.2.2.2.imp_right fun hc => ⟨rfl, htype, hc⟩⟩
          · exact locateDirty_count (h.count hcount) n dirtyAll

theorem initDirtySegment_fold {s : SegManager} (l : List Nat)
    (htypes : ∀ k ∈ l, (s.sit.sentries k).type.val < dirtyAll) :
    DirtyFrom s (l.foldl (initDirtySegment sm) s) l := by
  induction l using List.reverseRecOn with
  | nil => exact DirtyFrom.nil s
  | append_singleton l n ih =>
      rw [List.foldl_append]
      exact initDirtySegment_from (ih fun k hk => htypes k (List.mem_append_left _ hk))
        (htypes n (List.mem_append_right _ (List.mem_singleton_self n)))

/-- `init_dirty_segmap` on empty lists. -/
structure DirtyInit (sm : SmInfo) (s s' : SegManager) : Prop where
  curseg : s'.curseg = s.curseg
  sit : s'.sit = s.sit
  ssa : s'.ssa = s.ssa
  free : s'.free = s.free
  victims : s'.dirty.victimSecmap = ∅
  mem : ∀ t k, k ∈ s'.dirty.dirtySegmap t ↔
    k < sm.mainSegments ∧ k ∈ s.free.freeSegmap ∧ PutDirty s t k
  count : ∀ t, s'.dirty.nrDirty t = ((s'.dirty.dirtySegmap t).card : Int)

theorem initDirtySegmap_spec {s : SegManager} (hempty : s.dirty = emptyDirty)
    (htypes : ∀ k < sm.mainSegments, (s.sit.sentries k).type.val < dirtyAll) :
    DirtyInit sm s (initDirtySegmap sm s) := by
  have h := @initDirtySegment_fold sm s
    ((List.range sm.mainSegments).filter fun segno => segno ∈ s.free.freeSegmap) fun k hk =>
      htypes k (List.mem_range.mp (List.mem_filter.mp hk).1)
  refine ⟨h.curseg, h.sit, h.ssa, h.free, ?_, fun t k => ?_, h.count fun t => ?_⟩
  · exact h.victims.trans (by rw [hempty]; rfl)
  · refine (h.mem t k).trans ?_
    rw [hempty, List.mem_filter, List.mem_range, decide_eq_true_eq, and_assoc]
    exact or_iff_right (Finset.notMem_empty k)
  · rw [hempty]
    rfl

/-! ## The volume -/

section

variable {dev : Device α}

/-- The log a mount makes is where the last checkpoint left it. -/
theorem Saved.names_log (h : Saved sm dev) (t : CursegType) {i : Fin blocksPerSeg}
    (hi : i ∈ (dev.store.persisted sm (dev.logs t).segno).validMap) :
    Names (restoreLog sm dev t).sumBlk (dev.store.persisted sm (dev.logs t).segno).getType i.val
      (dev.blocks (startBlock sm (dev.logs t).segno + i.val)) := by
  have hname := h.logNames t i hi
  have hkind : (dev.blocks (startBlock sm (dev.logs t).segno + i.val)).node = t.isNodeSeg :=
    hname.kind.symm.trans (isNodeType_idx (h.logTypes t))
  refine ⟨?_, ?_, hname.kind, hname.plain⟩
  · show (if t.isNodeSeg then nodeSummary sm dev t else (dev.logs t).sumBlk.entries) i.val = _
    cases hnode : t.isNodeSeg with
    | false =>
        rw [if_neg Bool.false_ne_true]
        exact hname.entry
    | true =>
        rw [if_pos rfl]
        obtain ⟨hversion, hofs⟩ := hname.plain (hkind.trans hnode)
        unfold nodeSummary
        rw [hname.entry, ite_self]
        generalize (dev.blocks (startBlock sm (dev.logs t).segno + i.val)).sum = sum
          at hversion hofs
        cases sum
        dsimp only at hversion hofs
        rw [hversion, hofs]
  · show sumTypeOf t.isNodeSeg = _
    rw [hkind]

/-- The tables of a mount before `init_dirty_segmap`. -/
structure Restored (sm : SmInfo) (dev : Device α) (s : SegManager) : Prop where
  logs : s.curseg = restoreLog sm dev
  ssa : s.ssa = dev.ssa
  empty : s.dirty = emptyDirty
  cur : ∀ k < sm.mainSegments,
    (s.sit.sentries k).curValidMap = (dev.store.persisted sm k).validMap
  ckpt : ∀ k, (s.sit.sentries k).ckptValidMap = (s.sit.sentries k).curValidMap
  type_eq : ∀ k < sm.mainSegments, (s.sit.sentries k).type = (dev.store.persisted sm k).getType
  counted : ∀ k, (s.sit.sentries k).Counted
  sections : SecCounted sm s.sit
  inUse : ∀ k < sm.mainSegments, k ∈ s.free.freeSegmap ↔
    (s.sit.sentries k).validBlocks ≠ 0 ∨ ∃ type, (dev.logs type).segno = k
  segmap : SegmapBooks sm s.free

theorem Saved.restored (h : Saved sm dev) : ∃ s, Restored sm dev s ∧
    buildSegmentManager sm dev =
      some { segs := initDirtySegmap sm s, dcc := newDiscardCmdControl sm, dev := dev } ∧
    SitState.Flushable sm
      { info := s.sit, store := dev.store, sitEntrySet := [], dcc := newDiscardCmdControl sm } := by
  obtain ⟨sit, hsit, hag⟩ := buildSitEntries_sound dev.trimmed h.sound h.distinct
  have hm := mounting_buildSitEntries h.sound hsit
  have htable := flushable_mount (fun type => (restoreLog sm dev type).segno)
    (newDiscardCmdControl sm) h.sound h.distinct h.le hsit
  have hfree := @initFreeSegmap_sit sm sit (buildFreeSegmap sm)
    fun type => (restoreLog sm dev type).segno
  have hinUse := fun k => @mem_initFreeSegmap sm sit (fun type => (restoreLog sm dev type).segno) k
  have hsegmap : SegmapBooks sm (initFreeSegmap sm sit (buildFreeSegmap sm)
      fun type => (restoreLog sm dev type).segno).2 := initFreeSegmap_books sm sit h.logMain
  have hmount : ∀ t, initFreeSegmap sm sit (buildFreeSegmap sm)
      (fun type => (restoreLog sm dev type).segno) = t → buildSegmentManager sm dev = some
        { segs := initDirtySegmap sm
            { curseg := restoreLog sm dev
              sit := t.1
              ssa := dev.ssa
              free := t.2
              dirty := emptyDirty
              lastVictim := 0 }
          dcc := newDiscardCmdControl sm
          dev := dev } := by
    rintro t rfl
    unfold buildSegmentManager
    rw [hsit]
    rfl
  generalize ht : initFreeSegmap sm sit (buildFreeSegmap sm)
    (fun type => (restoreLog sm dev type).segno) = t at hfree hinUse hsegmap htable
  replace hmount := hmount t ht
  obtain ⟨sit', f⟩ := t
  dsimp only at hfree hinUse hsegmap htable
  have hsent : sit'.sentries = sit.sentries := by rw [hfree]
  have hsecs : sit'.secEntries = sit.secEntries := by rw [hfree]
  refine ⟨⟨restoreLog sm dev, sit', dev.ssa, f, emptyDirty, 0⟩,
    ⟨rfl, rfl, rfl, fun k hk => ?_, fun k => ?_, fun k hk => ?_, fun k => ?_,
      fun hsp secno _ => ?_, fun k hk => ?_, hsegmap⟩, hmount, htable⟩
  · show (sit'.sentries k).curValidMap = _
    rw [hsent]
    exact (hag k hk).2.1
  · show (sit'.sentries k).ckptValidMap = (sit'.sentries k).curValidMap
    rw [hsent]
    exact (hm.clean k).symm
  · show (sit'.sentries k).type = _
    rw [hsent]
    exact (hag k hk).2.2.1
  · show (sit'.sentries k).Counted
    rw [hsent]
    exact hm.entries k
  · show sit'.secEntries secno = ∑ i ∈ _, ((sit'.sentries i).validBlocks : Int)
    rw [hsecs, hsent]
    exact hm.sections hsp secno
  · show k ∈ f.freeSegmap ↔ (sit'.sentries k).validBlocks ≠ 0 ∨ _
    rw [hsent]
    exact hinUse k hk

section

variable {s : SegManager}

/-- A block outside the last checkpoint is free. -/
theorem Restored.freeAt (hr : Restored sm dev s) {k : Nat} (hk : k < sm.mainSegments)
    {offset : Fin blocksPerSeg} (hnot : offset ∉ (dev.store.persisted sm k).validMap) :
    (s.sit.sentries k).FreeAt offset.val := by
  refine ⟨offset, rfl, ?_⟩
  rw [hr.ckpt, Finset.union_self, hr.cur k hk]
  exact hnot

theorem Restored.isCurseg_log (hr : Restored sm dev s) (type : CursegType) :
    s.isCurseg (dev.logs type).segno ≠ false := fun hc => by
  rw [isCurseg_false_iff, hr.logs] at hc
  exact hc type rfl

theorem Restored.types (hr : Restored sm dev s) (h : Saved sm dev) {k : Nat}
    (hk : k < sm.mainSegments) : (s.sit.sentries k).type.val < dirtyAll := by
  rw [hr.type_eq k hk]
  exact h.types k hk

theorem Restored.init (hr : Restored sm dev s) (h : Saved sm dev) :
    DirtyInit sm s (initDirtySegmap sm s) :=
  initDirtySegmap_spec hr.empty fun _ hk => hr.types h hk

theorem Restored.books (hr : Restored sm dev s) (h : Saved sm dev) :
    SegManager.Books sm (initDirtySegmap sm s) := by
  have hinit := hr.init h
  refine ⟨fun type => ?_, fun type => ?_, fun {a b} heq => ?_, fun k _ => ?_, ?_,
    fun k hk hnot i hi => ?_, ?_, fun t k hk => ?_, fun k hk => ?_, fun type hk => ?_,
    fun {a k} ha hk => ?_, ?_⟩
  · rw [hinit.curseg, hr.logs]
    exact h.logMain type
  · rw [hinit.curseg, hinit.free, hr.logs]
    exact (hr.inUse _ (h.logMain type)).mpr (Or.inr ⟨type, rfl⟩)
  · rw [hinit.curseg, hr.logs] at heq
    exact h.apart heq
  · rw [hinit.sit]
    exact hr.counted k
  · rw [hinit.sit]
    exact hr.sections
  · rw [hinit.free, hr.inUse k hk] at hnot
    rw [hinit.sit]
    have hzero : (s.sit.sentries k).validBlocks = 0 := not_not.mp fun hc => hnot (Or.inl hc)
    rw [(hr.counted k).valid, Finset.card_eq_zero, hr.cur k hk] at hzero
    have hnone : (⟨i, hi⟩ : Fin blocksPerSeg) ∉ (dev.store.persisted sm k).validMap := by
      rw [hzero]
      exact Finset.notMem_empty _
    exact hr.freeAt hk hnone
  · rw [hinit.free]
    exact hr.segmap.ok
  · exact Finset.mem_range.mpr ((hinit.mem t k).mp hk).1
  · rw [hinit.free]
    exact ((hinit.mem dirtyAll k).mp hk).2.1
  · rw [hinit.curseg, hr.logs] at hk
    exact hr.isCurseg_log type ((hinit.mem dirtyAll _).mp hk).2.2.1
  · obtain ⟨hmain, huse, hlog, hval, hroom, htype⟩ := (hinit.mem a k).mp hk
    rw [hinit.mem, hinit.sit]
    exact ⟨⟨hmain, huse, hlog, hval, hroom, Or.inl rfl⟩,
      (htype.resolve_left (Nat.ne_of_lt ha)).symm⟩
  · rw [hinit.victims]
    exact Finset.empty_subset _

/-- A segment without valid blocks is free or that of a log, so none is prefree. -/
theorem Restored.lists (hr : Restored sm dev s) (h : Saved sm dev) :
    Lists sm (initDirtySegmap sm s) ∅ := by
  have hinit := hr.init h
  have hleft : ∀ k, Left (initDirtySegmap sm s) k ↔
      k ∈ s.free.freeSegmap ∧ s.isCurseg k = false := fun k => by
    unfold Left SegManager.isCurseg
    rw [hinit.free, hinit.curseg]
  have hnoPre : ∀ k, k ∉ (initDirtySegmap sm s).dirty.dirtySegmap dirtyPre := fun k hk => by
    obtain ⟨hmain, -, -, -, -, hc⟩ := (hinit.mem dirtyPre k).mp hk
    have hlt := hr.types h hmain
    rcases hc with hc | hc
    · exact absurd hc (by decide)
    · rw [← hc] at hlt
      exact absurd hlt (by decide)
  refine ⟨fun k hk _ => ⟨?_, ?_⟩, fun k hk => absurd hk (hnoPre k),
    fun k hk => absurd hk (hnoPre k), fun k hk => ?_, fun k hk => ?_, hinit.count⟩
  · rw [hinit.mem, hleft, hinit.sit]
    constructor
    · rintro ⟨-, huse, hlog, hval, hroom, -⟩
      exact ⟨⟨huse, hlog⟩, hval, hroom⟩
    · rintro ⟨⟨huse, hlog⟩, hval, hroom⟩
      exact ⟨hk, huse, hlog, hval, hroom, Or.inl rfl⟩
  · rw [hleft, hinit.sit]
    refine iff_of_false (hnoPre k) ?_
    rintro ⟨⟨huse, hlog⟩, hzero⟩
    rcases (hr.inUse k hk).mp huse with hval | ⟨type, rfl⟩
    · exact hval hzero
    · exact hr.isCurseg_log type hlog
  · obtain ⟨hmain, huse, hlog, hval, hroom, -⟩ := (hinit.mem dirtyAll k).mp hk
    rw [hinit.mem, hinit.sit]
    exact ⟨hmain, huse, hlog, hval, hroom, Or.inr rfl⟩
  · rw [hinit.sit]
    exact hr.types h hk

theorem Restored.rooms (hr : Restored sm dev s) (h : Saved sm dev) (type : CursegType) :
    (initDirtySegmap sm s).LogRoom type := by
  have hinit := hr.init h
  have hlog : (initDirtySegmap sm s).curseg type = restoreLog sm dev type := by
    rw [hinit.curseg, hr.logs]
  constructor
  · obtain ⟨offset, hoff, hnot⟩ := (h.rooms type).room
    unfold SegManager.HasRoom
    rw [hinit.sit, hlog]
    show (s.sit.sentries (dev.logs type).segno).FreeAt (dev.logs type).nextBlkoff
    rw [← hoff]
    exact hr.freeAt (h.logMain type) hnot
  · intro hlfs i hle hi
    rw [hlog] at hlfs hle
    rw [hinit.sit, hlog]
    exact hr.freeAt (h.logMain type) ((h.rooms type).ahead hlfs ⟨i, hi⟩ hle)

theorem Restored.summed (hr : Restored sm dev s) (h : Saved sm dev) :
    Summed sm (initDirtySegmap sm s) dev.blocks fun k =>
      ((initDirtySegmap sm s).sit.sentries k).curValidMap ∪
        (dev.store.persisted sm k).validMap := by
  have hinit := hr.init h
  refine ⟨fun type => ?_, fun type => ?_, fun k hk i hi => ?_⟩
  · rw [hinit.curseg, hinit.sit, hr.logs]
    show (s.sit.sentries (dev.logs type).segno).type.val = _
    rw [hr.type_eq _ (h.logMain type)]
    exact h.logTypes type
  · rw [hinit.curseg, hr.logs]
    rfl
  · have hsaved : i ∈ (dev.store.persisted sm k).validMap := by
      refine (Finset.mem_union.mp hi).elim (fun hc => ?_) id
      rw [hinit.sit] at hc
      exact hr.cur k hk ▸ hc
    rw [hinit.sit, hr.type_eq k hk]
    rcases log_or_left (initDirtySegmap sm s) k with ⟨type, hlog⟩ | hnone
    · have hsum := sumOf_log (hr.books h) type
      rw [hinit.curseg, hr.logs] at hlog hsum
      rw [← hlog] at hsaved ⊢
      rw [hsum]
      exact h.names_log type hsaved
    · rw [sumOf_left hnone, hinit.ssa, hr.ssa]
      rw [isCurseg_false_iff, hinit.curseg, hr.logs] at hnone
      exact h.ssaNames k hk hnone i hsaved

end

/-- The tables that a mount makes. -/
theorem mount_sound (h : Saved sm dev) : ∃ v, buildSegmentManager sm dev = some v ∧
    Sound sm v ∧ v.dev = dev ∧
    ∀ k < sm.mainSegments, (v.segs.sit.sentries k).curValidMap =
      (dev.store.persisted sm k).validMap := by
  obtain ⟨s, hr, hmount, htable⟩ := h.restored
  have hinit := hr.init h
  refine ⟨_, hmount, ⟨⟨hr.books h, hr.rooms h, fun k hk _ => ?_⟩, hr.lists h, ?_, ?_,
    fun k _ _ => ?_, fun k hk => ?_, hr.summed h, ?_, h⟩, rfl, fun k hk => ?_⟩
  · rw [hinit.sit]
    exact ((hinit.mem dirtyAll k).mp hk).2.2.2.1
  · rw [hinit.free]
    exact hr.segmap
  · unfold Mounted.sitState
    rw [hinit.sit]
    exact htable
  · rw [hinit.sit]
    exact hr.ckpt k
  · rw [hinit.sit, hr.ckpt, hr.cur k hk]
  · rw [hinit.ssa, hr.ssa]
    exact h.ssaNames
  · rw [hinit.sit]
    exact hr.cur k hk

end

end F2fs.Volume

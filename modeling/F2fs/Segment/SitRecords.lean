/-
  The records that a flush writes count their own bitmaps, those it overwrites as well as
  those it leaves; so the next mount takes all of them.
-/
import F2fs.Segment.SitCounters

namespace F2fs.Segment

variable {sm : SmInfo}

/-! ## Records -/

/-- The record counts its bitmap. -/
def RawSit.CountsMap (rs : RawSit) : Prop := rs.getVblocks = rs.validMap.card

theorem countsMap_segInfoToRaw {se : SegEntry} (h : se.validBlocks = se.curValidMap.card) :
    (segInfoToRaw se).CountsMap := by
  have hle : se.validBlocks ≤ blocksPerSeg := by
    rw [h]
    exact card_blockMap_le _
  exact (getVblocks_segInfoToRaw hle).1.trans h

/-- One record is stored, in the journal or in the block of its segment. -/
theorem SitStore.Sound.storeSitEntry {st st' : SitStore} (h : st.Sound sm) {toJournal : Bool}
    {segno : Nat} {rs : RawSit} (hseg : segno < sm.mainSegments) (hrs : rs.CountsMap)
    (heq : storeSitEntry sm toJournal st segno rs = some st') : st'.Sound sm := by
  cases toJournal with
  | true =>
      unfold Segment.storeSitEntry at heq
      rw [if_pos rfl, Option.map_eq_some_iff] at heq
      obtain ⟨⟨i, j⟩, hloc, rfl⟩ := heq
      refine ⟨h.blocks, fun a ha => ?_, fun a ha => ?_⟩
      · show ((j.write i segno rs).slot a).2.CountsMap
        rcases JournalArray.slot_locate_write hloc ha with hnew | ⟨hlt, hold⟩
        · rw [hnew]
          exact hrs
        · rw [hold]
          exact h.records a hlt
      · show ((j.write i segno rs).slot a).1 < sm.mainSegments
        rcases JournalArray.slot_locate_write hloc ha with hnew | ⟨hlt, hold⟩
        · rw [hnew]
          exact hseg
        · rw [hold]
          exact h.keys a hlt
  | false =>
      obtain rfl := Option.some.inj heq
      refine ⟨fun k hk => ?_, h.records, h.keys⟩
      set st' : SitStore := { st with
        pages := (sitArea sm).writeCurrent st.pages st.sitBitmap (sitBlockOffset segno)
          (Function.update (st.pages (st.currentSitAddr sm segno))
            (segno % sitEntryPerBlock) rs) } with hst'
      show (st'.blockEntry sm k).getVblocks = (st'.blockEntry sm k).validMap.card
      rw [blockEntry_eq, hst']
      by_cases hblk : sitBlockOffset k = sitBlockOffset segno
      · rw [hblk, ShadowArea.current_writeCurrent_self, Function.update_apply]
        split
        case isTrue => exact hrs
        case isFalse =>
          have hold := h.blocks k hk
          rw [blockEntry_eq, hblk] at hold
          exact hold
      · rw [ShadowArea.current_writeCurrent_of_ne _ _ _ (sitArea_valid hseg) (sitArea_valid hk)
          hblk]
        exact h.blocks k hk

/-! ## The state of a flush -/

/-- Records and entries count their bitmaps, and only main segments are dirty. -/
structure Recorded (sm : SmInfo) (s : SitState) : Prop where
  store : s.store.Sound sm
  entries : ∀ k < sm.mainSegments,
    (s.info.sentries k).validBlocks = (s.info.sentries k).curValidMap.card
  dirty : ∀ d ∈ s.info.dirtySentriesBitmap, d < sm.mainSegments

/-- A set of entries of one block of the SIT. -/
structure OneBlock (sm : SmInfo) (ses : SitEntrySet) : Prop where
  aligned : startSegnoOf ses.startSegno = ses.startSegno
  lt : ses.startSegno < sm.mainSegments

theorem recorded_flushSitEntry {cpc : CpControl} {toJournal : Bool} {acc acc' : SitState × Int}
    {segno : Nat} (h : Recorded sm acc.1)
    (heq : flushSitEntry sm cpc toJournal acc segno = some acc') : Recorded sm acc'.1 := by
  unfold flushSitEntry at heq
  simp only at heq
  split at heq
  case isTrue => exact Option.some.inj heq ▸ h
  case isFalse hdirty =>
    obtain ⟨st, hst, rfl⟩ := Option.map_eq_some_iff.mp heq
    have hseg := h.dirty segno (not_not.mp hdirty)
    refine ⟨h.store.storeSitEntry hseg (countsMap_segInfoToRaw (h.entries segno hseg)) hst,
      fun k hk => ?_, fun d hd => h.dirty d (Finset.mem_of_mem_erase hd)⟩
    show (Function.update acc.1.info.sentries segno _ k).validBlocks =
      (Function.update acc.1.info.sentries segno _ k).curValidMap.card
    rw [Function.update_apply]
    split
    case isTrue => exact h.entries segno hseg
    case isFalse => exact h.entries k hk

theorem recorded_getNextSitPage {s : SitState} (h : Recorded sm s) {ses : SitEntrySet}
    (hses : OneBlock sm ses) : Recorded sm (getNextSitPage sm s ses.startSegno) := by
  refine ⟨⟨fun k hk => ?_, h.store.records, h.store.keys⟩, h.entries, h.dirty⟩
  rw [blockEntry_getNextSitPage hses.aligned hses.lt hk]
  split
  case isTrue => exact countsMap_segInfoToRaw (h.entries k hk)
  case isFalse => exact h.store.blocks k hk

theorem recorded_flushSitEntrySet {cpc : CpControl} {acc acc' : Bool × SitState}
    {ses : SitEntrySet} (h : Recorded sm acc.2) (hses : OneBlock sm ses)
    (heq : flushSitEntrySet sm cpc acc ses = some acc') : Recorded sm acc'.2 := by
  unfold flushSitEntrySet at heq
  simp only [Option.bind_eq_some_iff] at heq
  obtain ⟨⟨s, cnt⟩, hfold, hcond⟩ := heq
  have hs : Recorded sm s := by
    refine OptionFold.foldlM_inv (P := fun b : SitState × Int => Recorded sm b.1)
      (fun _ _ _ _ hb hstep => recorded_flushSitEntry hb hstep) ?_ hfold
    show Recorded sm (if _ then acc.2 else getNextSitPage sm acc.2 ses.startSegno)
    split
    case isTrue => exact h
    case isFalse => exact recorded_getNextSitPage h hses
  split at hcond
  case isTrue => cases hcond
  case isFalse =>
    rw [← Option.some.inj hcond]
    exact ⟨hs.store, hs.entries, hs.dirty⟩

/-! ## The sets -/

theorem oneBlock_addSitEntry {head : List SitEntrySet} {segno : Nat}
    (h : ∀ ses ∈ head, OneBlock sm ses) (hseg : segno < sm.mainSegments) :
    ∀ ses ∈ addSitEntry head segno, OneBlock sm ses := by
  unfold addSitEntry
  cases hf : findSitEntrySet (startSegnoOf segno) head with
  | none =>
      refine List.forall_mem_cons.mpr ⟨⟨startSegnoOf_idem segno, ?_⟩, h⟩
      show startSegnoOf segno < sm.mainSegments
      unfold startSegnoOf sitBlockOffset sitEntryPerBlock
      omega
  | some l =>
      obtain ⟨ses, rest, hp, -, hp'⟩ := findSitEntrySet_some hf
      intro t ht
      rcases List.mem_cons.mp (hp'.mem_iff.mp ht) with rfl | ht
      · have hold := h ses (hp.mem_iff.mpr List.mem_cons_self)
        exact ⟨hold.aligned, hold.lt⟩
      · exact h t (hp.mem_iff.mpr (List.mem_cons_of_mem _ ht))

/-- What the sets are filled from. -/
structure Filled (sm : SmInfo) (s : SitState) : Prop extends Recorded sm s where
  sets : ∀ ses ∈ s.sitEntrySet, OneBlock sm ses

theorem filled_addSitsInSet {s : SitState} (h : Recorded sm s) (hnil : s.sitEntrySet = []) :
    Filled sm (addSitsInSet sm s) where
  store := h.store
  entries := h.entries
  dirty := h.dirty
  sets := by
    show ∀ ses ∈ List.foldl addSitEntry s.sitEntrySet _, _
    rw [hnil]
    refine List.foldlRecOn (motive := fun head => ∀ ses ∈ head, OneBlock sm ses) _ _
      (fun _ hses => absurd hses List.not_mem_nil) fun head hhead segno hseg => ?_
    exact oneBlock_addSitEntry hhead (List.mem_range.mp (List.mem_filter.mp hseg).1)

theorem filled_removeSitsInJournal {s : SitState} (h : Filled sm s) :
    Filled sm (removeSitsInJournal s) := by
  have hfold : Filled sm ((List.range s.store.journal.n).foldl removeSitInJournal s) ∧
      ((List.range s.store.journal.n).foldl removeSitInJournal s).store = s.store := by
    refine List.foldlRecOn (motive := fun t => Filled sm t ∧ t.store = s.store) _ _ ⟨h, rfl⟩
      fun t ht i hi => ?_
    obtain ⟨hfilled, hstore⟩ := ht
    unfold removeSitInJournal
    simp only
    split
    case isTrue => exact ⟨hfilled, hstore⟩
    case isFalse hdirty =>
      have hkey : (t.store.journal.slot i).1 < sm.mainSegments := by
        rw [hstore]
        exact h.store.keys i (List.mem_range.mp hi)
      have hmark : t.info.markSitEntryDirty (t.store.journal.slot i).1 = { t.info with
          dirtySentriesBitmap := insert (t.store.journal.slot i).1 t.info.dirtySentriesBitmap
          dirtySentries := t.info.dirtySentries + 1 } := if_neg hdirty
      rw [hmark]
      refine ⟨⟨⟨hfilled.store, hfilled.entries, fun d hd => ?_⟩,
        oneBlock_addSitEntry hfilled.sets hkey⟩, hstore⟩
      rcases Finset.mem_insert.mp hd with rfl | hd
      · exact hkey
      · exact hfilled.dirty d hd
  obtain ⟨hfilled, -⟩ := hfold
  exact ⟨⟨⟨hfilled.store.blocks, fun i hi => absurd hi (Nat.not_lt_zero i),
    fun i hi => absurd hi (Nat.not_lt_zero i)⟩, hfilled.entries, hfilled.dirty⟩, hfilled.sets⟩

/-! ## The flush -/

/-- A flush keeps the records sound. -/
theorem recorded_flushSitEntries {cpc : CpControl} {s s' : SitState} (h : Recorded sm s)
    (hnil : s.sitEntrySet = []) (heq : flushSitEntries sm cpc s = some s') : Recorded sm s' := by
  have htrim : ∀ {t : SitState}, Recorded sm t → Recorded sm (addTrimDiscards sm cpc t) := by
    intro t ht
    unfold addTrimDiscards
    split
    · exact ⟨ht.store, ht.entries, ht.dirty⟩
    · exact ht
  unfold flushSitEntries at heq
  obtain ⟨t, ht, rfl⟩ := Option.map_eq_some_iff.mp heq
  refine htrim ?_
  split at ht
  case isTrue => exact Option.some.inj ht ▸ h
  case isFalse =>
    unfold flushSitSets at ht
    simp only [Option.bind_eq_some_iff] at ht
    obtain ⟨⟨tj, s₃⟩, hfold, hcond⟩ := ht
    have hfilled : Filled sm (if hasCursumSpace (addSitsInSet sm s).store.journal
        (addSitsInSet sm s).info.dirtySentries then addSitsInSet sm s
        else removeSitsInJournal (addSitsInSet sm s)) := by
      split
      · exact filled_addSitsInSet h hnil
      · exact filled_removeSitsInJournal (filled_addSitsInSet h hnil)
    have hrec : Recorded sm s₃ :=
      OptionFold.foldlM_inv (P := fun b : Bool × SitState => Recorded sm b.2)
        (fun _ ses _ hses hb hstep => recorded_flushSitEntrySet hb (hfilled.sets ses hses) hstep)
        hfilled.toRecorded hfold
    split at hcond
    case isTrue => cases hcond
    case isFalse => exact Option.some.inj hcond ▸ hrec

end F2fs.Segment

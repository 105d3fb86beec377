/-
  What `flush_sit_entries` persists, and what the next mount reads back.

  The sets always hold exactly the dirty segments.  Flushing one entry makes its
  persisted record agree with the entry; copying a SIT block from memory changes no
  record that already agreed.  A stale journal record could survive only for an entry
  written to its block, and that cannot happen: either the journal was drained first,
  or it has room for every dirty entry.
-/
import F2fs.Lib.OptionFold
import F2fs.Segment.SitFlush

namespace F2fs.Segment

variable {sm : SmInfo}

/-! ## Entry sets -/

theorem startSegnoOf_idem (segno : Nat) :
    startSegnoOf (startSegnoOf segno) = startSegnoOf segno := by
  unfold startSegnoOf sitBlockOffset sitEntryPerBlock
  omega

/-- The sets of a list hold exactly the segments of `D`. -/
structure SetsMatch (head : List SitEntrySet) (D : Finset Nat) : Prop where
  nodup : (head.map SitEntrySet.startSegno).Nodup
  aligned : ∀ ses ∈ head, startSegnoOf ses.startSegno = ses.startSegno
  cnt : ∀ ses ∈ head,
    ses.entryCnt = ((D.filter fun d => startSegnoOf d = ses.startSegno).card : Int)
  pos : ∀ ses ∈ head, 0 < ses.entryCnt
  cover : ∀ d ∈ D, ∃ ses ∈ head, ses.startSegno = startSegnoOf d

theorem setsMatch_nil : SetsMatch [] ∅ :=
  ⟨List.nodup_nil, by simp, by simp, by simp, by simp⟩

theorem SetsMatch.perm {head head' : List SitEntrySet} {D : Finset Nat} (h : SetsMatch head D)
    (hp : head.Perm head') : SetsMatch head' D where
  nodup := ((hp.map _).nodup_iff).mp h.nodup
  aligned := fun ses hs => h.aligned ses (hp.mem_iff.mpr hs)
  cnt := fun ses hs => h.cnt ses (hp.mem_iff.mpr hs)
  pos := fun ses hs => h.pos ses (hp.mem_iff.mpr hs)
  cover := fun d hd => by
    obtain ⟨ses, hs, heq⟩ := h.cover d hd
    exact ⟨ses, hp.mem_iff.mp hs, heq⟩

theorem adjustSitEntrySet_perm (ses : SitEntrySet) (l : List SitEntrySet) :
    (adjustSitEntrySet ses l).Perm (ses :: l) := by
  induction l with
  | nil => exact List.Perm.refl _
  | cons next rest ih =>
      rw [adjustSitEntrySet]
      split
      · exact List.Perm.refl _
      · exact (ih.cons next).trans (List.Perm.swap ses next rest)

/-- A search that fails has met no set of that block. -/
theorem findSitEntrySet_none {start : Nat} {l : List SitEntrySet}
    (h : findSitEntrySet start l = none) : ∀ ses ∈ l, ses.startSegno ≠ start := by
  induction l with
  | nil => simp
  | cons ses rest ih =>
      rw [findSitEntrySet] at h
      by_cases hs : ses.startSegno = start
      · rw [if_pos hs] at h
        cases h
      · rw [if_neg hs, Option.map_eq_none_iff] at h
        intro t ht
        rcases List.mem_cons.mp ht with rfl | ht
        · exact hs
        · exact ih h t ht

/-- A search that succeeds counts one more entry in one set. -/
theorem findSitEntrySet_some {start : Nat} {l l' : List SitEntrySet}
    (h : findSitEntrySet start l = some l') :
    ∃ ses rest, l.Perm (ses :: rest) ∧ ses.startSegno = start ∧
      l'.Perm ({ ses with entryCnt := ses.entryCnt + 1 } :: rest) := by
  induction l generalizing l' with
  | nil => cases h
  | cons ses rest ih =>
      rw [findSitEntrySet] at h
      by_cases hs : ses.startSegno = start
      · rw [if_pos hs, Option.some.injEq] at h
        subst h
        exact ⟨ses, rest, List.Perm.refl _, hs, adjustSitEntrySet_perm _ _⟩
      · rw [if_neg hs, Option.map_eq_some_iff] at h
        obtain ⟨l₁, h₁, rfl⟩ := h
        obtain ⟨t, rest', hp, ht, hp'⟩ := ih h₁
        exact ⟨t, ses :: rest', (hp.cons ses).trans (List.Perm.swap t ses rest'), ht,
          (hp'.cons ses).trans (List.Perm.swap _ ses rest')⟩

theorem card_filter_insert {D : Finset Nat} {d : Nat} (hd : d ∉ D) (start : Nat) :
    (((insert d D).filter fun e => startSegnoOf e = start).card : Int) =
      (D.filter fun e => startSegnoOf e = start).card +
        if startSegnoOf d = start then 1 else 0 := by
  rw [Finset.filter_insert]
  by_cases h : startSegnoOf d = start
  · rw [if_pos h, if_pos h, Finset.card_insert_of_notMem (by simp [hd])]
    push_cast
    rfl
  · rw [if_neg h, if_neg h, add_zero]

/-- `add_sit_entry` accounts for one more segment. -/
theorem SetsMatch.addSitEntry {head : List SitEntrySet} {D : Finset Nat} {d : Nat}
    (h : SetsMatch head D) (hd : d ∉ D) : SetsMatch (addSitEntry head d) (insert d D) := by
  unfold F2fs.Segment.addSitEntry
  cases hf : findSitEntrySet (startSegnoOf d) head with
  | none =>
      have hnone := findSitEntrySet_none hf
      rw [Option.getD_none]
      refine ⟨?_, ?_, ?_, ?_, ?_⟩
      · rw [List.map_cons, List.nodup_cons]
        refine ⟨?_, h.nodup⟩
        intro hmem
        obtain ⟨ses, hs, heq⟩ := List.mem_map.mp hmem
        exact hnone ses hs heq
      · intro ses hs
        rcases List.mem_cons.mp hs with rfl | hs
        · exact startSegnoOf_idem d
        · exact h.aligned ses hs
      · intro ses hs
        rw [card_filter_insert hd]
        rcases List.mem_cons.mp hs with rfl | hs
        · have hempty : (D.filter fun e => startSegnoOf e = startSegnoOf d) = ∅ := by
            apply Finset.filter_eq_empty_iff.mpr
            intro e he heq
            obtain ⟨ses, hs', hse⟩ := h.cover e he
            exact hnone ses hs' (hse.trans heq)
          rw [if_pos rfl, hempty]
          rfl
        · rw [if_neg fun heq => hnone ses hs heq.symm, add_zero]
          exact h.cnt ses hs
      · intro ses hs
        rcases List.mem_cons.mp hs with rfl | hs
        · exact Int.one_pos
        · exact h.pos ses hs
      · intro e he
        rcases Finset.mem_insert.mp he with rfl | he
        · exact ⟨_, List.mem_cons_self, rfl⟩
        · obtain ⟨ses, hs, heq⟩ := h.cover e he
          exact ⟨ses, List.mem_cons_of_mem _ hs, heq⟩
  | some l =>
      obtain ⟨ses, rest, hp, hs, hp'⟩ := findSitEntrySet_some hf
      have hm := h.perm hp
      rw [Option.getD_some]
      refine SetsMatch.perm ?_ hp'.symm
      have hother : ∀ t ∈ rest, startSegnoOf d ≠ t.startSegno := by
        intro t ht heq
        have hnd := (List.nodup_cons.mp hm.nodup).1
        exact hnd (List.mem_map.mpr ⟨t, ht, by rw [← heq, hs]⟩)
      refine ⟨hm.nodup, ?_, ?_, ?_, ?_⟩
      · intro t ht
        rcases List.mem_cons.mp ht with rfl | ht
        · exact hm.aligned ses List.mem_cons_self
        · exact hm.aligned t (List.mem_cons_of_mem _ ht)
      · intro t ht
        rw [card_filter_insert hd]
        rcases List.mem_cons.mp ht with rfl | ht
        · have hc := hm.cnt ses List.mem_cons_self
          rw [if_pos hs.symm]
          show ses.entryCnt + 1 = _
          rw [hc]
        · rw [if_neg (hother t ht), add_zero]
          exact hm.cnt t (List.mem_cons_of_mem _ ht)
      · intro t ht
        rcases List.mem_cons.mp ht with rfl | ht
        · have hpos := hm.pos ses List.mem_cons_self
          show 0 < ses.entryCnt + 1
          omega
        · exact hm.pos t (List.mem_cons_of_mem _ ht)
      · intro e he
        rcases Finset.mem_insert.mp he with rfl | he
        · exact ⟨_, List.mem_cons_self, hs⟩
        · obtain ⟨t, ht, heq⟩ := hm.cover e he
          rcases List.mem_cons.mp ht with rfl | ht
          · exact ⟨_, List.mem_cons_self, heq⟩
          · exact ⟨t, List.mem_cons_of_mem _ ht, heq⟩

/-- Adding segments one after the other. -/
theorem SetsMatch.foldl_addSitEntry {head : List SitEntrySet} {D : Finset Nat} (l : List Nat)
    (h : SetsMatch head D) (hnd : l.Nodup) (hl : ∀ d ∈ l, d ∉ D) :
    SetsMatch (l.foldl F2fs.Segment.addSitEntry head) (D ∪ l.toFinset) := by
  induction l generalizing head D with
  | nil => simpa using h
  | cons d l ih =>
      obtain ⟨hdl, hnd⟩ := List.nodup_cons.mp hnd
      have h' := h.addSitEntry (hl d List.mem_cons_self)
      rw [List.foldl_cons, List.toFinset_cons, Finset.union_insert, ← Finset.insert_union]
      apply ih h' hnd
      intro e he
      rw [Finset.mem_insert, not_or]
      exact ⟨fun heq => hdl (heq ▸ he), hl e (List.mem_cons_of_mem _ he)⟩

/-- Removing the first set and its segments. -/
theorem SetsMatch.tail {ses : SitEntrySet} {rest : List SitEntrySet} {D D' : Finset Nat}
    (h : SetsMatch (ses :: rest) D)
    (hD : ∀ d, d ∈ D' ↔ d ∈ D ∧ startSegnoOf d ≠ ses.startSegno) : SetsMatch rest D' := by
  have hnd := List.nodup_cons.mp h.nodup
  have hne : ∀ t ∈ rest, t.startSegno ≠ ses.startSegno := by
    intro t ht heq
    exact hnd.1 (List.mem_map.mpr ⟨t, ht, heq⟩)
  refine ⟨hnd.2, fun t ht => h.aligned t (List.mem_cons_of_mem _ ht), ?_,
    fun t ht => h.pos t (List.mem_cons_of_mem _ ht), ?_⟩
  · intro t ht
    have hfilter : (D'.filter fun d => startSegnoOf d = t.startSegno) =
        D.filter fun d => startSegnoOf d = t.startSegno := by
      ext d
      rw [Finset.mem_filter, Finset.mem_filter, hD]
      constructor
      · rintro ⟨⟨hd, -⟩, heq⟩
        exact ⟨hd, heq⟩
      · rintro ⟨hd, heq⟩
        exact ⟨⟨hd, fun hs => hne t ht (heq.symm.trans hs)⟩, heq⟩
    rw [hfilter]
    exact h.cnt t (List.mem_cons_of_mem _ ht)
  · intro d hd
    obtain ⟨hdD, hds⟩ := (hD d).mp hd
    obtain ⟨t, ht, heq⟩ := h.cover d hdD
    rcases List.mem_cons.mp ht with rfl | ht
    · exact absurd heq.symm hds
    · exact ⟨t, ht, heq⟩

/-! ## Records -/

/-- The record of a segment as the next mount finds it: the journal's, or the block's. -/
def SitStore.persisted (sm : SmInfo) (st : SitStore) (segno : Nat) : RawSit :=
  (st.journal.view segno).getD (st.blockEntry sm segno)

/-- The SIT area as a shadowed area. -/
def sitArea (sm : SmInfo) : ShadowArea where
  addr := sitAddr sm
  valid := fun off => off < sm.sitBlocks
  inj := by
    intro i j b c hi hj h
    unfold sitAddr at h
    cases b <;> cases c <;> simp only [if_true, Bool.false_eq_true, if_false] at h <;>
      first | exact ⟨by omega, rfl⟩ | (exfalso; omega)

theorem blockEntry_eq (st : SitStore) (segno : Nat) : st.blockEntry sm segno =
    (sitArea sm).current st.pages st.sitBitmap (sitBlockOffset segno)
      (segno % sitEntryPerBlock) := rfl

/-- Every main segment's block is one of the area. -/
theorem sitArea_valid {segno : Nat} (h : segno < sm.mainSegments) :
    (sitArea sm).valid (sitBlockOffset segno) := by
  have hge := sm.sitBlocks_ge
  show segno / sitEntryPerBlock < sm.sitBlocks
  unfold sitEntryPerBlock at *
  omega

theorem nextSitAddr_sitAddr {off : Nat} (h : off < sm.sitBlocks) (bit : Bool) :
    nextSitAddr sm (sitAddr sm off bit) = sitAddr sm off (!bit) :=
  ShadowArea.otherHalf_addr h bit

theorem segno_eq_of_block {m n : Nat} (h : sitBlockOffset m = sitBlockOffset n)
    (hm : m % sitEntryPerBlock = n % sitEntryPerBlock) : m = n := by
  unfold sitBlockOffset sitEntryPerBlock at *
  omega

/-- `st'` is `st` after the record `rs` of `segno` was stored. -/
structure Stored (sm : SmInfo) (toJournal : Bool) (st : SitStore) (segno : Nat) (rs : RawSit)
    (st' : SitStore) : Prop where
  self : st'.persisted sm segno = rs
  other : ∀ k < sm.mainSegments, k ≠ segno → st'.persisted sm k = st.persisted sm k
  block : ∀ k < sm.mainSegments,
    st'.blockEntry sm k = st.blockEntry sm k ∨ (k = segno ∧ st'.blockEntry sm k = rs)
  distinct : st'.journal.Distinct
  le : st'.journal.n ≤ sitJournalEntries
  grow : toJournal = true → st'.journal.n ≤ st.journal.n + 1
  viewOther : ∀ k, k ≠ segno → st'.journal.view k = st.journal.view k
  journal : toJournal = false → st'.journal = st.journal

theorem storeSitEntry_spec (toJournal : Bool) {st : SitStore} {segno : Nat} (rs : RawSit)
    (hd : st.journal.Distinct) (hle : st.journal.n ≤ sitJournalEntries)
    (hseg : segno < sm.mainSegments)
    (hroom : toJournal = true → st.journal.view segno = none →
      st.journal.n + 1 ≤ sitJournalEntries)
    (hview : toJournal = false → st.journal.view segno = none) :
    ∃ st', storeSitEntry sm toJournal st segno rs = some st' ∧
      Stored sm toJournal st segno rs st' := by
  cases toJournal with
  | true =>
      obtain ⟨i, j, hloc, hput⟩ := JournalArray.put_spec hd hle segno rs (hroom rfl)
      refine ⟨{ st with journal := j.write i segno rs }, ?_, ?_⟩
      · rw [storeSitEntry, if_pos rfl, hloc]
        rfl
      refine ⟨?_, ?_, fun k _ => Or.inl rfl, hput.distinct, hput.le, fun _ => hput.grow,
        hput.view_other, ?_⟩
      · unfold SitStore.persisted
        rw [show (j.write i segno rs).view segno = some rs from hput.view_self]
        rfl
      · intro k _ hk
        unfold SitStore.persisted
        rw [show (j.write i segno rs).view k = _ from hput.view_other k hk]
        rfl
      · intro h
        cases h
  | false =>
      set st' : SitStore := { st with
        pages := (sitArea sm).writeCurrent st.pages st.sitBitmap (sitBlockOffset segno)
          (Function.update (st.pages (st.currentSitAddr sm segno))
            (segno % sitEntryPerBlock) rs) } with hst'
      refine ⟨st', rfl, ?_⟩
      have hself : st'.blockEntry sm segno = rs := by
        rw [blockEntry_eq, hst', ShadowArea.current_writeCurrent_self, Function.update_self]
      have hother : ∀ k < sm.mainSegments, k ≠ segno →
          st'.blockEntry sm k = st.blockEntry sm k := by
        intro k hk hne
        rw [blockEntry_eq, blockEntry_eq, hst']
        by_cases hblk : sitBlockOffset k = sitBlockOffset segno
        · rw [hblk, ShadowArea.current_writeCurrent_self, Function.update_of_ne]
          · rfl
          · exact fun h => hne (segno_eq_of_block hblk h)
        · rw [ShadowArea.current_writeCurrent_of_ne _ _ _ (sitArea_valid hseg)
            (sitArea_valid hk) hblk]
      refine ⟨?_, ?_, ?_, hd, hle, ?_, fun k _ => rfl, fun _ => rfl⟩
      · unfold SitStore.persisted
        rw [show st'.journal.view segno = none from hview rfl]
        exact hself
      · intro k hk hne
        unfold SitStore.persisted
        rw [hother k hk hne]
      · intro k hk
        by_cases hne : k = segno
        · exact Or.inr ⟨hne, hne ▸ hself⟩
        · exact Or.inl (hother k hk hne)
      · intro h
        cases h

/-! ## States between steps -/

/-- Between two steps of a flush every clean entry agrees with its persisted record. -/
structure SitState.Flushable (sm : SmInfo) (s : SitState) : Prop where
  dirty_lt : ∀ d ∈ s.info.dirtySentriesBitmap, d < sm.mainSegments
  count : s.info.dirtySentries = (s.info.dirtySentriesBitmap.card : Int)
  valid : ∀ segno < sm.mainSegments, (s.info.sentries segno).validBlocks ≤ blocksPerSeg
  coherent : ∀ segno < sm.mainSegments, segno ∉ s.info.dirtySentriesBitmap →
    (s.info.sentries segno).Agrees (s.store.persisted sm segno)
  distinct : s.store.journal.Distinct
  le : s.store.journal.n ≤ sitJournalEntries
  keys_lt : ∀ k, s.store.journal.view k ≠ none → k < sm.mainSegments
  blocks : ∀ segno < sm.mainSegments, (s.store.blockEntry sm segno).getVblocks ≤ blocksPerSeg

/-- No dirty entry has a journal record, or every dirty entry fits into the journal. -/
def SitState.Room (toJournal : Bool) (s : SitState) : Prop :=
  (∀ d ∈ s.info.dirtySentriesBitmap, s.store.journal.view d = none) ∨
    (toJournal = true ∧
      s.store.journal.n + s.info.dirtySentriesBitmap.card ≤ sitJournalEntries)

/-- The counters that a flush leaves alone. -/
def SitInfo.SameCounters (a b : SitInfo) : Prop :=
  a.secEntries = b.secEntries ∧ a.writtenValidBlocks = b.writtenValidBlocks ∧
    a.discardBlks = b.discardBlks ∧ a.maxMtime = b.maxMtime

theorem SitInfo.SameCounters.trans {a b c : SitInfo} (h₁ : a.SameCounters b)
    (h₂ : b.SameCounters c) : a.SameCounters c :=
  ⟨h₁.1.trans h₂.1, h₁.2.1.trans h₂.2.1, h₁.2.2.1.trans h₂.2.2.1, h₁.2.2.2.trans h₂.2.2.2⟩

/-- `a` is `b` after the entries in `D` were written out. -/
def SitInfo.Cleaned (a b : SitInfo) (D : Nat → Prop) : Prop :=
  a.SameCounters b ∧ ∀ d, (D d → a.sentries d = (b.sentries d).checkpointed) ∧
    (¬ D d → a.sentries d = b.sentries d)

/-! ## One entry -/

/-- The entry loop of a set, with the segments `rest` still to come; `s₀` is the state
    before the loop. -/
structure EntryLoop (sm : SmInfo) (toJournal : Bool) (start : Nat) (s₀ : SitState)
    (rest : List Nat) (acc : SitState × Int) : Prop where
  inv : acc.1.Flushable sm
  room : acc.1.Room toJournal
  cnt : acc.2 =
    ((acc.1.info.dirtySentriesBitmap.filter fun d => startSegnoOf d = start).card : Int)
  space : toJournal = true → (acc.1.store.journal.n : Int) + acc.2 ≤ sitJournalEntries
  sets : acc.1.sitEntrySet = s₀.sitEntrySet
  dirty : ∀ d, d ∈ acc.1.info.dirtySentriesBitmap → d ∈ s₀.info.dirtySentriesBitmap
  others : ∀ d ∈ s₀.info.dirtySentriesBitmap, startSegnoOf d ≠ start →
    d ∈ acc.1.info.dirtySentriesBitmap
  todo : ∀ d ∈ acc.1.info.dirtySentriesBitmap, startSegnoOf d = start → d ∈ rest
  rest_ok : ∀ d ∈ rest, startSegnoOf d = start
  cleaned : acc.1.info.Cleaned s₀.info fun d =>
    d ∈ s₀.info.dirtySentriesBitmap ∧ d ∉ acc.1.info.dirtySentriesBitmap

theorem flushSitEntry_spec {cpc : CpControl} {toJournal : Bool} {start segno : Nat}
    {s₀ : SitState} {rest : List Nat} {acc : SitState × Int}
    (h : EntryLoop sm toJournal start s₀ (segno :: rest) acc) :
    ∃ acc', flushSitEntry sm cpc toJournal acc segno = some acc' ∧
      EntryLoop sm toJournal start s₀ rest acc' := by
  obtain ⟨s, cnt⟩ := acc
  have hstart : startSegnoOf segno = start := h.rest_ok segno List.mem_cons_self
  by_cases hdirty : segno ∈ s.info.dirtySentriesBitmap
  swap
  · refine ⟨(s, cnt), by rw [flushSitEntry, if_pos hdirty], h.inv, h.room, h.cnt, h.space, h.sets,
      h.dirty, h.others, ?_, fun d hd => h.rest_ok d (List.mem_cons_of_mem _ hd), h.cleaned⟩
    intro d hd hds
    rcases List.mem_cons.mp (h.todo d hd hds) with rfl | hd'
    · exact absurd hd hdirty
    · exact hd'
  have hseg := h.inv.dirty_lt segno hdirty
  have hcard : (s.info.dirtySentriesBitmap.erase segno).card + 1 =
      s.info.dirtySentriesBitmap.card := Finset.card_erase_add_one hdirty
  have hfilter : ((s.info.dirtySentriesBitmap.erase segno).filter
      fun d => startSegnoOf d = start).card + 1 =
      (s.info.dirtySentriesBitmap.filter fun d => startSegnoOf d = start).card := by
    rw [Finset.filter_erase]
    exact Finset.card_erase_add_one (Finset.mem_filter.mpr ⟨hdirty, hstart⟩)
  have hcnt : cnt = ((s.info.dirtySentriesBitmap.filter
      fun d => startSegnoOf d = start).card : Int) := h.cnt
  have hspace : toJournal = true → (s.store.journal.n : Int) + cnt ≤ sitJournalEntries := h.space
  have hroom : s.Room toJournal := h.room
  obtain ⟨st', hst, hs⟩ := storeSitEntry_spec toJournal
    (segInfoToRaw (s.info.sentries segno)) h.inv.distinct h.inv.le hseg
    (by
      intro htj _
      have hle := hspace htj
      have hpos : 0 < (s.info.dirtySentriesBitmap.filter fun d => startSegnoOf d = start).card :=
        Finset.card_pos.mpr ⟨segno, Finset.mem_filter.mpr ⟨hdirty, hstart⟩⟩
      show s.store.journal.n + 1 ≤ sitJournalEntries
      omega)
    (by
      intro htj
      rcases hroom with hr | ⟨hr, -⟩
      · exact hr segno hdirty
      · rw [htj] at hr
        cases hr)
  have hmem : ∀ d, d ∈ (s.info.cleanSentry segno).dirtySentriesBitmap ↔
      d ≠ segno ∧ d ∈ s.info.dirtySentriesBitmap := fun d => Finset.mem_erase
  have hsentry : ∀ d, (s.info.cleanSentry segno).sentries d =
      if d = segno then (s.info.sentries segno).checkpointed else s.info.sentries d := by
    intro d
    show Function.update s.info.sentries segno _ d = _
    rw [Function.update_apply]
  refine ⟨_, by rw [flushSitEntry, if_neg (not_not.mpr hdirty), hst]; rfl, ?_⟩
  refine ⟨⟨?_, ?_, ?_, ?_, hs.distinct, hs.le, ?_, ?_⟩, ?_, ?_, ?_, h.sets, ?_, ?_, ?_, ?_, ?_⟩
  · intro d hd
    exact h.inv.dirty_lt d ((hmem d).mp hd).2
  · show s.info.dirtySentries - 1 = ((s.info.dirtySentriesBitmap.erase segno).card : Int)
    have hcount : s.info.dirtySentries = (s.info.dirtySentriesBitmap.card : Int) := h.inv.count
    omega
  · intro d hd
    show ((s.info.cleanSentry segno).sentries d).validBlocks ≤ blocksPerSeg
    rw [hsentry]
    split
    · exact h.inv.valid segno hseg
    · exact h.inv.valid d hd
  · intro d hd hnd
    show ((s.info.cleanSentry segno).sentries d).Agrees (st'.persisted sm d)
    rw [hsentry]
    by_cases hds : d = segno
    · subst hds
      rw [if_pos rfl, hs.self, agrees_checkpointed]
      exact agrees_segInfoToRaw (h.inv.valid d hd)
    · rw [if_neg hds, hs.other d hd hds]
      exact h.inv.coherent d hd fun hin => hnd ((hmem d).mpr ⟨hds, hin⟩)
  · intro k hk
    by_cases hks : k = segno
    · exact hks ▸ hseg
    · have hk' : st'.journal.view k ≠ none := hk
      rw [hs.viewOther k hks] at hk'
      exact h.inv.keys_lt k hk'
  · intro k hk
    rcases hs.block k hk with heq | ⟨-, heq⟩
    · exact heq ▸ h.inv.blocks k hk
    · show (st'.blockEntry sm k).getVblocks ≤ blocksPerSeg
      rw [heq, (getVblocks_segInfoToRaw (h.inv.valid segno hseg)).1]
      exact h.inv.valid segno hseg
  · rcases hroom with hr | ⟨htj, hr⟩
    · left
      intro d hd
      obtain ⟨hds, hd'⟩ := (hmem d).mp hd
      exact (hs.viewOther d hds).trans (hr d hd')
    · right
      refine ⟨htj, ?_⟩
      have hgrow : st'.journal.n ≤ s.store.journal.n + 1 := hs.grow htj
      show st'.journal.n + (s.info.dirtySentriesBitmap.erase segno).card ≤ _
      omega
  · show cnt - 1 = (((s.info.dirtySentriesBitmap.erase segno).filter
      fun d => startSegnoOf d = start).card : Int)
    omega
  · intro htj
    have hgrow : st'.journal.n ≤ s.store.journal.n + 1 := hs.grow htj
    have hle := hspace htj
    show (st'.journal.n : Int) + (cnt - 1) ≤ _
    omega
  · intro d hd
    exact h.dirty d ((hmem d).mp hd).2
  · intro d hd hds
    exact (hmem d).mpr ⟨fun heq => hds (heq ▸ hstart), h.others d hd hds⟩
  · intro d hd hds
    obtain ⟨hne, hd'⟩ := (hmem d).mp hd
    rcases List.mem_cons.mp (h.todo d hd' hds) with heq | hin
    · exact absurd heq hne
    · exact hin
  · exact fun d hd => h.rest_ok d (List.mem_cons_of_mem _ hd)
  · refine ⟨h.cleaned.1, fun d => ⟨?_, ?_⟩⟩
    · rintro ⟨hd₀, hnd⟩
      show (s.info.cleanSentry segno).sentries d = _
      rw [hsentry]
      by_cases hds : d = segno
      · subst hds
        rw [if_pos rfl, (h.cleaned.2 d).2 fun hc => hc.2 hdirty]
      · rw [if_neg hds]
        exact (h.cleaned.2 d).1 ⟨hd₀, fun hin => hnd ((hmem d).mpr ⟨hds, hin⟩)⟩
    · intro hnot
      have hds : d ≠ segno := by
        rintro rfl
        exact hnot ⟨h.dirty d hdirty, fun hin => ((hmem d).mp hin).1 rfl⟩
      show (s.info.cleanSentry segno).sentries d = _
      rw [hsentry, if_neg hds]
      exact (h.cleaned.2 d).2 fun hc => hnot ⟨hc.1, fun hin => hc.2 ((hmem d).mp hin).2⟩

/-! ## One set -/

/-- The entries of a block that `get_next_sit_page` makes current come from memory. -/
theorem blockEntry_getNextSitPage {s : SitState} {start k : Nat}
    (hst : startSegnoOf start = start) (hlt : start < sm.mainSegments)
    (hk : k < sm.mainSegments) :
    (getNextSitPage sm s start).store.blockEntry sm k =
      if sitBlockOffset k = sitBlockOffset start then segInfoToRaw (s.info.sentries k)
      else s.store.blockEntry sm k := by
  have hpages : (getNextSitPage sm s start).store.pages =
      (sitArea sm).writeNext s.store.pages s.store.sitBitmap (sitBlockOffset start)
        (segInfoToSitPage sm s.info
          (s.store.pages (nextSitAddr sm (s.store.currentSitAddr sm start))) start) := by
    show Function.update s.store.pages (nextSitAddr sm (s.store.currentSitAddr sm start)) _ = _
    rw [SitStore.currentSitAddr, nextSitAddr_sitAddr (sitArea_valid hlt)]
    rfl
  have hbitmap : (getNextSitPage sm s start).store.sitBitmap =
      ShadowArea.flip s.store.sitBitmap (sitBlockOffset start) := rfl
  rw [blockEntry_eq, blockEntry_eq, hpages, hbitmap]
  by_cases hblk : sitBlockOffset k = sitBlockOffset start
  · rw [if_pos hblk, hblk, ShadowArea.current_writeNext_self, segInfoToSitPage]
    have hk' : start + k % sitEntryPerBlock = k := by
      unfold startSegnoOf at hst
      unfold sitBlockOffset at hblk hst
      unfold sitEntryPerBlock at *
      omega
    have hin : k % sitEntryPerBlock <
        min (start + sitEntryPerBlock) sm.mainSegments - start := by
      have hmod : k % sitEntryPerBlock < sitEntryPerBlock := Nat.mod_lt _ (by decide)
      omega
    show (if k % sitEntryPerBlock < _ then _ else _) = _
    rw [if_pos hin, hk']
  · rw [if_neg hblk, ShadowArea.current_writeNext_of_ne _ _ _ (sitArea_valid hlt)
      (sitArea_valid hk) hblk]

theorem flushable_getNextSitPage {s : SitState} {start : Nat} (h : s.Flushable sm)
    (hst : startSegnoOf start = start) (hlt : start < sm.mainSegments) :
    (getNextSitPage sm s start).Flushable sm where
  dirty_lt := h.dirty_lt
  count := h.count
  valid := h.valid
  distinct := h.distinct
  le := h.le
  keys_lt := h.keys_lt
  coherent := by
    intro k hk hnd
    have hold := h.coherent k hk hnd
    show (s.info.sentries k).Agrees ((s.store.journal.view k).getD
      ((getNextSitPage sm s start).store.blockEntry sm k))
    rw [blockEntry_getNextSitPage hst hlt hk]
    unfold SitStore.persisted at hold
    cases hv : s.store.journal.view k with
    | some r =>
        rw [hv] at hold
        exact hold
    | none =>
        rw [hv] at hold
        rw [Option.getD_none]
        split
        · exact agrees_segInfoToRaw (h.valid k hk)
        · exact hold
  blocks := by
    intro k hk
    rw [blockEntry_getNextSitPage hst hlt hk]
    split
    · rw [(getVblocks_segInfoToRaw (h.valid k hk)).1]
      exact h.valid k hk
    · exact h.blocks k hk

/-- The set loop, with the sets `rest` still to come; `s₀` is the state before the loop. -/
structure SetLoop (sm : SmInfo) (s₀ : SitState) (rest : List SitEntrySet)
    (acc : Bool × SitState) : Prop where
  inv : acc.2.Flushable sm
  room : acc.2.Room acc.1
  sets : acc.2.sitEntrySet = rest
  setsMatch : SetsMatch rest acc.2.info.dirtySentriesBitmap
  dirty : ∀ d, d ∈ acc.2.info.dirtySentriesBitmap → d ∈ s₀.info.dirtySentriesBitmap
  cleaned : acc.2.info.Cleaned s₀.info fun d =>
    d ∈ s₀.info.dirtySentriesBitmap ∧ d ∉ acc.2.info.dirtySentriesBitmap

/-- A set without room in the journal is flushed with no stale journal records about. -/
theorem room_of_space {toJournal : Bool} {s : SitState} {ses : SitEntrySet}
    {rest : List SitEntrySet} (hroom : s.Room toJournal)
    (hm : SetsMatch (ses :: rest) s.info.dirtySentriesBitmap) :
    s.Room (toJournal && hasCursumSpace s.store.journal ses.entryCnt) := by
  rcases hroom with hr | ⟨htj, hr⟩
  · exact Or.inl hr
  · right
    refine ⟨?_, hr⟩
    have hc := hm.cnt ses List.mem_cons_self
    have hle : (s.info.dirtySentriesBitmap.filter
        fun d => startSegnoOf d = ses.startSegno).card ≤ s.info.dirtySentriesBitmap.card :=
      Finset.card_filter_le _ _
    rw [htj, Bool.true_and, hasCursumSpace, decide_eq_true_eq]
    omega

theorem flushSitEntrySet_spec {cpc : CpControl} {s₀ : SitState} (ses : SitEntrySet)
    (rest : List SitEntrySet) (acc : Bool × SitState) (h : SetLoop sm s₀ (ses :: rest) acc) :
    ∃ acc', flushSitEntrySet sm cpc acc ses = some acc' ∧ SetLoop sm s₀ rest acc' := by
  obtain ⟨tj, s⟩ := acc
  have hinv : s.Flushable sm := h.inv
  have hm : SetsMatch (ses :: rest) s.info.dirtySentriesBitmap := h.setsMatch
  have halign := hm.aligned ses List.mem_cons_self
  have hcnt := hm.cnt ses List.mem_cons_self
  obtain ⟨d₀, hd₀⟩ : (s.info.dirtySentriesBitmap.filter
      fun d => startSegnoOf d = ses.startSegno).Nonempty := by
    rw [← Finset.card_pos]
    have hpos := hm.pos ses List.mem_cons_self
    omega
  obtain ⟨hd₀, hs₀⟩ := Finset.mem_filter.mp hd₀
  have hlt : ses.startSegno < sm.mainSegments := by
    have hd := hinv.dirty_lt d₀ hd₀
    unfold startSegnoOf sitBlockOffset sitEntryPerBlock at hs₀
    omega
  set toJournal := tj && hasCursumSpace s.store.journal ses.entryCnt with htj
  set s₁ := if toJournal then s else getNextSitPage sm s ses.startSegno with hs₁
  have hinv₁ : s₁.Flushable sm := by
    rw [hs₁]
    split
    · exact hinv
    · exact flushable_getNextSitPage hinv halign hlt
  have hinfo : s₁.info = s.info ∧ s₁.store.journal = s.store.journal ∧
      s₁.sitEntrySet = s.sitEntrySet := by
    rw [hs₁]
    split <;> exact ⟨rfl, rfl, rfl⟩
  have hroom : s.Room toJournal := room_of_space h.room hm
  set segnos := List.range' ses.startSegno
    (min (ses.startSegno + sitEntryPerBlock) sm.mainSegments - ses.startSegno) with hsegnos
  have hloop₀ : EntryLoop sm toJournal ses.startSegno s₁ segnos (s₁, ses.entryCnt) := by
    refine ⟨hinv₁, ?_, ?_, ?_, rfl, fun _ hd => hd, fun _ hd _ => hd, ?_, ?_,
      ⟨rfl, rfl, rfl, rfl⟩, fun d => ⟨fun hd => absurd hd.1 hd.2, fun _ => rfl⟩⟩
    · unfold SitState.Room
      rw [hinfo.1, hinfo.2.1]
      exact hroom
    · show ses.entryCnt = _
      rw [hcnt, hinfo.1]
    · intro htrue
      rw [htj, Bool.and_eq_true, hasCursumSpace, decide_eq_true_eq] at htrue
      show (s₁.store.journal.n : Int) + ses.entryCnt ≤ _
      rw [hinfo.2.1]
      omega
    · intro d hd hds
      have hdlt := hinv₁.dirty_lt d hd
      rw [hsegnos, List.mem_range'_1]
      unfold startSegnoOf sitBlockOffset at hds
      unfold sitEntryPerBlock at *
      omega
    · intro d hd
      rw [hsegnos, List.mem_range'_1] at hd
      unfold startSegnoOf sitBlockOffset at *
      unfold sitEntryPerBlock at *
      omega
  obtain ⟨⟨s₂, cnt⟩, hfold, hloop⟩ := OptionFold.foldlM_total
    (f := flushSitEntry sm cpc toJournal) (fun _ _ _ => flushSitEntry_spec) hloop₀
  have hclean : ∀ d ∈ s₂.info.dirtySentriesBitmap, startSegnoOf d ≠ ses.startSegno := by
    intro d hd hds
    exact absurd (hloop.todo d hd hds) List.not_mem_nil
  have hcnt₂ : cnt = 0 := by
    have hc : cnt = ((s₂.info.dirtySentriesBitmap.filter
      fun d => startSegnoOf d = ses.startSegno).card : Int) := hloop.cnt
    rw [hc, Finset.filter_eq_empty_iff.mpr fun d hd => hclean d hd]
    rfl
  have hdirty₂ : ∀ d, d ∈ s₂.info.dirtySentriesBitmap ↔
      d ∈ s.info.dirtySentriesBitmap ∧ startSegnoOf d ≠ ses.startSegno := by
    intro d
    constructor
    · intro hd
      have hin := hloop.dirty d hd
      rw [hinfo.1] at hin
      exact ⟨hin, hclean d hd⟩
    · rintro ⟨hd, hds⟩
      apply hloop.others d _ hds
      rw [hinfo.1]
      exact hd
  refine ⟨(toJournal, { s₂ with sitEntrySet := s₂.sitEntrySet.tail }), ?_, ?_⟩
  · show ((segnos.foldlM (flushSitEntry sm cpc toJournal) (s₁, ses.entryCnt)).bind _) = _
    rw [hfold, Option.bind_some]
    exact if_neg (not_not.mpr hcnt₂)
  · refine ⟨⟨hloop.inv.dirty_lt, hloop.inv.count, hloop.inv.valid, hloop.inv.coherent,
      hloop.inv.distinct, hloop.inv.le, hloop.inv.keys_lt, hloop.inv.blocks⟩, hloop.room, ?_,
      hm.tail hdirty₂, fun d hd => h.dirty d ((hdirty₂ d).mp hd).1, ?_⟩
    · show s₂.sitEntrySet.tail = rest
      have hsets : s₂.sitEntrySet = s₁.sitEntrySet := hloop.sets
      have hsets₀ : s.sitEntrySet = ses :: rest := h.sets
      rw [hsets, hinfo.2.2, hsets₀]
      rfl
    · have hcl := hloop.cleaned
      rw [hinfo.1] at hcl
      refine ⟨hcl.1.trans h.cleaned.1, fun d => ⟨?_, ?_⟩⟩
      · rintro ⟨hd, hnd⟩
        by_cases hds : d ∈ s.info.dirtySentriesBitmap
        · rw [(hcl.2 d).1 ⟨hds, hnd⟩, (h.cleaned.2 d).2 fun hc => hc.2 hds]
        · rw [(hcl.2 d).2 fun hc => hds hc.1]
          exact (h.cleaned.2 d).1 ⟨hd, hds⟩
      · intro hnot
        by_cases hds : d ∈ s.info.dirtySentriesBitmap
        · have hin : d ∈ s₂.info.dirtySentriesBitmap := by
            by_contra hnd
            exact hnot ⟨h.dirty d hds, hnd⟩
          rw [(hcl.2 d).2 fun hc => hc.2 hin]
          exact (h.cleaned.2 d).2 fun hc => hc.2 hds
        · rw [(hcl.2 d).2 fun hc => hds hc.1]
          exact (h.cleaned.2 d).2 fun hc =>
            hnot ⟨hc.1, fun hin => hds ((hdirty₂ d).mp hin).1⟩

/-! ## Filling the sets -/

theorem setsMatch_addSitsInSet {s : SitState} (h : s.Flushable sm) (hnil : s.sitEntrySet = []) :
    SetsMatch (addSitsInSet sm s).sitEntrySet s.info.dirtySentriesBitmap := by
  set l := (List.range sm.mainSegments).filter
    fun segno => segno ∈ s.info.dirtySentriesBitmap with hl
  have hfin : ∅ ∪ l.toFinset = s.info.dirtySentriesBitmap := by
    ext d
    simp only [hl, Finset.empty_union, List.mem_toFinset, List.mem_filter, List.mem_range,
      decide_eq_true_eq, and_iff_right_iff_imp]
    exact h.dirty_lt d
  have hset : (addSitsInSet sm s).sitEntrySet = l.foldl addSitEntry [] := by
    show l.foldl addSitEntry s.sitEntrySet = _
    rw [hnil]
  rw [hset, ← hfin]
  exact setsMatch_nil.foldl_addSitEntry l (List.nodup_range.filter _) (by simp)

/-- `remove_sits_in_journal` after `done` records. -/
structure Draining (sm : SmInfo) (s₀ : SitState) (done : Nat) (s : SitState) : Prop where
  inv : s.Flushable sm
  setsMatch : SetsMatch s.sitEntrySet s.info.dirtySentriesBitmap
  store : s.store = s₀.store
  keys : ∀ i < done, (s₀.store.journal.slot i).1 ∈ s.info.dirtySentriesBitmap
  dirty : s₀.info.dirtySentriesBitmap ⊆ s.info.dirtySentriesBitmap
  sentries : s.info.sentries = s₀.info.sentries
  counters : s.info.SameCounters s₀.info

theorem removeSitInJournal_spec {s₀ s : SitState} {i : Nat} (h : Draining sm s₀ i s)
    (hi : i < s₀.store.journal.n) : Draining sm s₀ (i + 1) (removeSitInJournal s i) := by
  have hslot : s.store.journal.slot i = s₀.store.journal.slot i := by rw [h.store]
  set segno := (s.store.journal.slot i).1 with hsegno
  by_cases hdirty : segno ∈ s.info.dirtySentriesBitmap
  · rw [removeSitInJournal, if_pos hdirty]
    refine ⟨h.inv, h.setsMatch, h.store, ?_, h.dirty, h.sentries, h.counters⟩
    intro k hk
    rcases Nat.lt_succ_iff_lt_or_eq.mp hk with hk | rfl
    · exact h.keys k hk
    · rw [← hslot]
      exact hdirty
  · have hmark : s.info.markSitEntryDirty segno = { s.info with
        dirtySentriesBitmap := insert segno s.info.dirtySentriesBitmap
        dirtySentries := s.info.dirtySentries + 1 } := if_neg hdirty
    have hlt : segno < sm.mainSegments := by
      apply h.inv.keys_lt
      have hv := h.inv.distinct.view_slot (i := i) (by rw [h.store]; exact hi)
      rw [hv]
      simp
    rw [removeSitInJournal, if_neg hdirty, ← hsegno, hmark]
    refine ⟨⟨?_, ?_, h.inv.valid, ?_, h.inv.distinct, h.inv.le, h.inv.keys_lt, h.inv.blocks⟩,
      h.setsMatch.addSitEntry hdirty, h.store, ?_,
      h.dirty.trans (Finset.subset_insert _ _), h.sentries, h.counters⟩
    · intro d hd
      rcases Finset.mem_insert.mp hd with rfl | hd
      · exact hlt
      · exact h.inv.dirty_lt d hd
    · show s.info.dirtySentries + 1 = ((insert segno s.info.dirtySentriesBitmap).card : Int)
      have hcount := h.inv.count
      rw [Finset.card_insert_of_notMem hdirty]
      omega
    · intro k hk hnd
      exact h.inv.coherent k hk fun hin => hnd (Finset.mem_insert_of_mem hin)
    · intro k hk
      rcases Nat.lt_succ_iff_lt_or_eq.mp hk with hk | rfl
      · exact Finset.mem_insert_of_mem (h.keys k hk)
      · rw [← hslot]
        exact Finset.mem_insert_self _ _

/-- Draining empties the journal; what it held is dirty afterwards. -/
theorem removeSitsInJournal_spec {s : SitState} (h : s.Flushable sm)
    (hm : SetsMatch s.sitEntrySet s.info.dirtySentriesBitmap) :
    (removeSitsInJournal s).Flushable sm ∧
      SetsMatch (removeSitsInJournal s).sitEntrySet
        (removeSitsInJournal s).info.dirtySentriesBitmap ∧
      (∀ k, (removeSitsInJournal s).store.journal.view k = none) ∧
      s.info.dirtySentriesBitmap ⊆ (removeSitsInJournal s).info.dirtySentriesBitmap ∧
      (removeSitsInJournal s).info.sentries = s.info.sentries ∧
      (removeSitsInJournal s).info.SameCounters s.info := by
  have hfold : ∀ n ≤ s.store.journal.n,
      Draining sm s n ((List.range n).foldl removeSitInJournal s) := by
    intro n
    induction n with
    | zero =>
        intro _
        exact ⟨h, hm, rfl, by simp, subset_rfl, rfl, rfl, rfl, rfl, rfl⟩
    | succ n ih =>
        intro hn
        rw [List.range_succ, List.foldl_append]
        exact removeSitInJournal_spec (ih (by omega)) (by omega)
  obtain ⟨hinv, hm', hstore, hkeys, hsub, hsent, hcnt⟩ := hfold _ le_rfl
  set s' := (List.range s.store.journal.n).foldl removeSitInJournal s with hs'
  have hview : ∀ k, (removeSitsInJournal s).store.journal.view k = none :=
    fun k => JournalArray.view_of_n_zero rfl k
  refine ⟨⟨hinv.dirty_lt, hinv.count, hinv.valid, ?_, ?_, ?_, ?_, hinv.blocks⟩, hm', hview, hsub,
    hsent, hcnt⟩
  · intro k hk hnd
    have hnone : s'.store.journal.view k = none := by
      rw [JournalArray.view_eq_none, hstore]
      rintro i hi rfl
      exact hnd (hkeys i hi)
    have hold := hinv.coherent k hk hnd
    unfold SitStore.persisted at hold ⊢
    rw [hnone] at hold
    rw [hview k]
    exact hold
  · intro a b ha
    exact absurd ha (Nat.not_lt_zero a)
  · exact Nat.zero_le _
  · intro k hk
    exact absurd (hview k) hk

/-! ## The whole flush -/

/-- `s'` is `s` after a flush. -/
structure Flushed (sm : SmInfo) (s s' : SitState) : Prop where
  inv : s'.Flushable sm
  clean : s'.info.dirtySentriesBitmap = ∅
  sets : s'.sitEntrySet = []
  cleaned : ∃ D : Finset Nat, s.info.dirtySentriesBitmap ⊆ D ∧ (∀ d ∈ D, d < sm.mainSegments) ∧
    s'.info.Cleaned s.info (· ∈ D)

theorem flushSitSets_spec (cpc : CpControl) {s : SitState} (h : s.Flushable sm)
    (hnil : s.sitEntrySet = []) :
    ∃ s', flushSitSets sm cpc s = some s' ∧ Flushed sm s s' := by
  set s₁ := addSitsInSet sm s with hs₁
  have hinv₁ : s₁.Flushable sm :=
    ⟨h.dirty_lt, h.count, h.valid, h.coherent, h.distinct, h.le, h.keys_lt, h.blocks⟩
  have hm₁ : SetsMatch s₁.sitEntrySet s₁.info.dirtySentriesBitmap :=
    setsMatch_addSitsInSet h hnil
  set s₂ := if hasCursumSpace s₁.store.journal s₁.info.dirtySentries then s₁
    else removeSitsInJournal s₁ with hs₂
  have hready : s₂.Flushable sm ∧ SetsMatch s₂.sitEntrySet s₂.info.dirtySentriesBitmap ∧
      s₂.Room true ∧ s.info.dirtySentriesBitmap ⊆ s₂.info.dirtySentriesBitmap ∧
      s₂.info.sentries = s.info.sentries ∧ s₂.info.SameCounters s.info := by
    rw [hs₂]
    split
    case isTrue hspace =>
      refine ⟨hinv₁, hm₁, Or.inr ⟨rfl, ?_⟩, subset_rfl, rfl, rfl, rfl, rfl, rfl⟩
      have hcount := hinv₁.count
      rw [hasCursumSpace, decide_eq_true_eq] at hspace
      omega
    case isFalse =>
      obtain ⟨hinv, hm, hview, hsub, hsent, hcnt⟩ := removeSitsInJournal_spec hinv₁ hm₁
      exact ⟨hinv, hm, Or.inl fun d _ => hview d, hsub, hsent, hcnt⟩
  obtain ⟨hinv₂, hm₂, hroom, hsub, hsent, hcnt⟩ := hready
  obtain ⟨⟨tj, s₃⟩, hfold, hloop⟩ := OptionFold.foldlM_total (P := SetLoop sm s₂)
    (f := flushSitEntrySet sm cpc) flushSitEntrySet_spec
    (b := (true, s₂)) (l := s₂.sitEntrySet)
    ⟨hinv₂, hroom, rfl, hm₂, fun _ hd => hd, ⟨rfl, rfl, rfl, rfl⟩,
      fun d => ⟨fun hd => absurd hd.1 hd.2, fun _ => rfl⟩⟩
  have hempty : s₃.info.dirtySentriesBitmap = ∅ := by
    apply Finset.eq_empty_of_forall_notMem
    intro d hd
    obtain ⟨ses, hs, -⟩ := hloop.setsMatch.cover d hd
    exact absurd hs List.not_mem_nil
  have hsets : s₃.sitEntrySet = [] := hloop.sets
  have hzero : s₃.info.dirtySentries = 0 := by
    have hcount := hloop.inv.count
    rw [hempty] at hcount
    exact hcount
  refine ⟨s₃, ?_, hloop.inv, hempty, hsets, s₂.info.dirtySentriesBitmap, hsub,
    hinv₂.dirty_lt, hloop.cleaned.1.trans hcnt, ?_⟩
  · show (s₂.sitEntrySet.foldlM (flushSitEntrySet sm cpc) (true, s₂)).bind _ = _
    rw [hfold, Option.bind_some]
    exact if_neg (by simp [hsets, hzero])
  · intro d
    have hd := hloop.cleaned.2 d
    rw [hempty, hsent] at hd
    exact ⟨fun hin => hd.1 ⟨hin, Finset.notMem_empty d⟩, fun hnin => hd.2 fun hc => hnin hc.1⟩

/-- The flush never hits an assertion and leaves nothing dirty. -/
theorem flushSitEntries_spec (cpc : CpControl) {s : SitState} (h : s.Flushable sm)
    (hnil : s.sitEntrySet = []) :
    ∃ s', flushSitEntries sm cpc s = some s' ∧ Flushed sm s s' := by
  -- collecting discards for a trim changes nothing but the discard list
  have htrim : ∀ {t : SitState}, Flushed sm s t → Flushed sm s (addTrimDiscards sm cpc t) := by
    intro t ht
    unfold addTrimDiscards
    split
    · exact ⟨⟨ht.inv.dirty_lt, ht.inv.count, ht.inv.valid, ht.inv.coherent, ht.inv.distinct,
        ht.inv.le, ht.inv.keys_lt, ht.inv.blocks⟩, ht.clean, ht.sets, ht.cleaned⟩
    · exact ht
  unfold flushSitEntries
  by_cases hzero : s.info.dirtySentries = 0
  · rw [if_pos hzero]
    have hempty : s.info.dirtySentriesBitmap = ∅ := by
      have hcount := h.count
      rw [← Finset.card_eq_zero]
      omega
    refine ⟨_, rfl, htrim ⟨h, hempty, hnil, ∅, ?_, by simp, ⟨rfl, rfl, rfl, rfl⟩, ?_⟩⟩
    · rw [hempty]
    · exact fun d => ⟨fun hd => absurd hd (Finset.notMem_empty d), fun _ => rfl⟩
  · rw [if_neg hzero]
    obtain ⟨s', hs', hflushed⟩ := flushSitSets_spec cpc h hnil
    exact ⟨addTrimDiscards sm cpc s', by rw [hs']; rfl, htrim hflushed⟩

/-! ## Mounting again -/

/-- The discard map is not part of the record. -/
@[simp] theorem agrees_mountDiscardMap (trimmed : Bool) (se : SegEntry) (rs : RawSit) :
    (mountDiscardMap sm trimmed se).Agrees rs ↔ se.Agrees rs := by
  unfold mountDiscardMap
  split <;> rfl

theorem checkBlockCount_of_le {segno : Nat} {rs : RawSit} (hs : segno < sm.mainSegments)
    (hv : rs.getVblocks ≤ blocksPerSeg) : checkBlockCount sm segno rs = true := by
  have hge := sm.segmentCount_ge
  unfold checkBlockCount
  simp only [Bool.not_eq_true', Bool.or_eq_false_iff, decide_eq_false_iff_not]
  omega

/-- A mount reads back the persisted record of every main segment. -/
theorem buildSitEntries_persisted (trimmed : Bool) {st : SitStore}
    (hd : st.journal.Distinct) (hkeys : ∀ k, st.journal.view k ≠ none → k < sm.mainSegments)
    (hblocks : ∀ k < sm.mainSegments, (st.blockEntry sm k).getVblocks ≤ blocksPerSeg)
    (hpers : ∀ k < sm.mainSegments, (st.persisted sm k).getVblocks ≤ blocksPerSeg) :
    ∃ sit, buildSitEntries sm trimmed st = some sit ∧
      ∀ k < sm.mainSegments, (sit.sentries k).Agrees (st.persisted sm k) := by
  have hslot : ∀ i < st.journal.n, st.journal.view (st.journal.slot i).1 =
      some (st.journal.slot i).2 := fun i hi => hd.view_slot hi
  obtain ⟨sit₁, h₁, hP₁⟩ := OptionFold.foldlM_range_total (f := loadBlockEntry sm trimmed st)
    (P := fun n sit => ∀ k < n, (sit.sentries k).Agrees (st.blockEntry sm k)) sm.mainSegments
    (by
      intro i sit hi hP
      refine ⟨_, if_pos (checkBlockCount_of_le hi (hblocks i hi)), ?_⟩
      intro k hk
      show (Function.update sit.sentries i _ k).Agrees _
      rcases Nat.lt_succ_iff_lt_or_eq.mp hk with hk | rfl
      · rw [Function.update_of_ne (by omega)]
        exact hP k hk
      · rw [Function.update_self, agrees_mountDiscardMap]
        exact agrees_segInfoFromRawSit _ _)
    (b := zeroSitInfo) (by simp)
  obtain ⟨sit₂, h₂, hP₂⟩ := OptionFold.foldlM_range_total (f := loadJournalEntry sm trimmed st)
    (P := fun n sit => ∀ k < sm.mainSegments,
      (sit.sentries k).Agrees (if ∃ i < n, (st.journal.slot i).1 = k then st.persisted sm k
        else st.blockEntry sm k)) st.journal.n
    (by
      intro i sit hi hP
      have hv := hslot i hi
      have hk := hkeys (st.journal.slot i).1 (by rw [hv]; simp)
      have hpi : st.persisted sm (st.journal.slot i).1 = (st.journal.slot i).2 := by
        rw [SitStore.persisted, hv, Option.getD_some]
      refine ⟨_, if_pos (checkBlockCount_of_le hk (hpi ▸ hpers _ hk)), ?_⟩
      intro k hkm
      show (Function.update sit.sentries (st.journal.slot i).1 _ k).Agrees _
      by_cases hki : k = (st.journal.slot i).1
      · rw [if_pos ⟨i, by omega, hki.symm⟩, hki, Function.update_self, agrees_mountDiscardMap, hpi]
        exact agrees_segInfoFromRawSit _ _
      · rw [Function.update_of_ne hki]
        have hiff : (∃ j < i + 1, (st.journal.slot j).1 = k) ↔
            ∃ j < i, (st.journal.slot j).1 = k := by
          constructor
          · rintro ⟨j, hj, rfl⟩
            rcases Nat.lt_succ_iff_lt_or_eq.mp hj with hj | rfl
            · exact ⟨j, hj, rfl⟩
            · exact absurd rfl hki
          · rintro ⟨j, hj, hjk⟩
            exact ⟨j, by omega, hjk⟩
        simp only [hiff]
        exact hP k hkm)
    (b := sit₁) (by simpa using hP₁)
  refine ⟨sit₂, ?_, ?_⟩
  · rw [buildSitEntries, h₁, Option.bind_some, h₂]
  · intro k hk
    have hag := hP₂ k hk
    by_cases hin : ∃ i < st.journal.n, (st.journal.slot i).1 = k
    · rwa [if_pos hin] at hag
    · rw [if_neg hin] at hag
      have hnone : st.journal.view k = none :=
        JournalArray.view_eq_none.mpr fun i hi heq => hin ⟨i, hi, heq⟩
      rw [SitStore.persisted, hnone]
      exact hag

/-! ## Flush and mount -/

/-- Two entries with the same record. -/
def SegEntry.SameRecord (a b : SegEntry) : Prop :=
  a.validBlocks = b.validBlocks ∧ a.curValidMap = b.curValidMap ∧ a.type = b.type ∧
    a.mtime = b.mtime

/-- The flush runs through, leaves nothing dirty and a well-formed journal, and the next
    mount reads back every entry. -/
def FlushReloads (sm : SmInfo) (cpc : CpControl) (s : SitState) : Prop :=
  ∃ s', flushSitEntries sm cpc s = some s' ∧
    s'.info.dirtySentries = 0 ∧ s'.sitEntrySet = [] ∧
    s'.store.journal.Distinct ∧ s'.store.journal.n ≤ sitJournalEntries ∧
    ∀ trimmed, ∃ sit, buildSitEntries sm trimmed s'.store = some sit ∧
      ∀ segno < sm.mainSegments, (sit.sentries segno).SameRecord (s.info.sentries segno)

theorem sameRecord_of_agrees {a b : SegEntry} {rs : RawSit} (ha : a.Agrees rs)
    (hb : b.Agrees rs) : a.SameRecord b :=
  ⟨ha.1.trans hb.1.symm, ha.2.1.trans hb.2.1.symm, ha.2.2.1.trans hb.2.2.1.symm,
    ha.2.2.2.trans hb.2.2.2.symm⟩

/-- Writing an entry out does not change its record. -/
theorem sameRecord_of_cleaned {a b : SitInfo} {D : Nat → Prop} (h : a.Cleaned b D) (d : Nat) :
    (a.sentries d).SameRecord (b.sentries d) := by
  by_cases hd : D d
  · rw [(h.2 d).1 hd]
    exact ⟨rfl, rfl, rfl, rfl⟩
  · rw [(h.2 d).2 hd]
    exact ⟨rfl, rfl, rfl, rfl⟩

/-- For every SIT whose dirty bits mark the entries that differ from their records, and
    whose journal holds records of main segments, each once. -/
theorem flushSitEntries_reloads (cpc : CpControl) (s : SitState) (h : s.Flushable sm)
    (hnil : s.sitEntrySet = []) : FlushReloads sm cpc s := by
  obtain ⟨s', hs', hf⟩ := flushSitEntries_spec cpc h hnil
  obtain ⟨D, -, -, hclean⟩ := hf.cleaned
  have hzero : s'.info.dirtySentries = 0 := by
    have hcount := hf.inv.count
    rw [hf.clean] at hcount
    exact hcount
  have hcoh : ∀ k < sm.mainSegments, (s'.info.sentries k).Agrees (s'.store.persisted sm k) := by
    intro k hk
    apply hf.inv.coherent k hk
    rw [hf.clean]
    exact Finset.notMem_empty k
  refine ⟨s', hs', hzero, hf.sets, hf.inv.distinct, hf.inv.le, fun trimmed => ?_⟩
  obtain ⟨sit, hsit, hread⟩ := buildSitEntries_persisted trimmed hf.inv.distinct hf.inv.keys_lt
    hf.inv.blocks fun k hk => (hcoh k hk).1 ▸ hf.inv.valid k hk
  refine ⟨sit, hsit, fun k hk => ?_⟩
  have h₁ := sameRecord_of_agrees (hread k hk) (hcoh k hk)
  have h₂ := sameRecord_of_cleaned hclean k
  exact ⟨h₁.1.trans h₂.1, h₁.2.1.trans h₂.2.1, h₁.2.2.1.trans h₂.2.2.1,
    h₁.2.2.2.trans h₂.2.2.2⟩

def plainCpc : CpControl where
  reason := {}
  trimStart := 0
  trimEnd := 0
  trimMinlen := 0

/-- An empty segment's record with a modification time. -/
def rawAt (mtime : Nat) : RawSit where
  vblocks := 0
  validMap := ∅
  mtime := mtime

/-- Segment 0 was modified at time 9; segment 1 has its newest record in the journal. -/
def touchedState (slots : List (Nat × RawSit)) : SitState where
  info := { zeroSitInfo with
    sentries := fun k => { zeroSegEntry with mtime := if k = 0 then 9 else if k = 1 then 4 else 0 }
    dirtySentriesBitmap := {0}
    dirtySentries := 1 }
  store :=
    { pages := fun _ => fun _ => rawAt 0
      sitBitmap := fun _ => false
      journal := { n := slots.length, slot := fun i => slots.getD i (1, rawAt 4) } }
  sitEntrySet := []
  dcc := { entryList := [], nrDiscards := 0, maxDiscards := 0 }

theorem touchedState_reloads : FlushReloads smallSm plainCpc (touchedState [(1, rawAt 4)]) := by
  refine flushSitEntries_reloads plainCpc _
    ⟨by decide, by decide, ?_, ?_, ?_, by decide, ?_, ?_⟩ rfl
  · intro k _
    exact Nat.zero_le _
  · intro k _ hnd
    have hk : k ≠ 0 := fun h => hnd (Finset.mem_singleton.mpr h)
    by_cases h1 : k = 1
    · subst h1
      decide
    · have hview : (touchedState [(1, rawAt 4)]).store.journal.view k = none := by
        rw [JournalArray.view_eq_none]
        intro i hi
        have hi0 : i = 0 := Nat.lt_one_iff.mp hi
        subst hi0
        exact fun h => h1 h.symm
      rw [SitStore.persisted, hview]
      have htype : (rawAt 0).getType = 0 := by decide
      refine ⟨rfl, rfl, htype.symm, ?_⟩
      show (if k = 0 then 9 else if k = 1 then 4 else 0) = 0
      rw [if_neg hk, if_neg h1]
  · intro a b ha hb _
    have ha0 : a = 0 := Nat.lt_one_iff.mp ha
    have hb0 : b = 0 := Nat.lt_one_iff.mp hb
    omega
  · intro k hk
    by_contra hlt
    apply hk
    rw [JournalArray.view_eq_none]
    intro i hi heq
    have hi0 : i = 0 := Nat.lt_one_iff.mp hi
    subst hi0
    have h1 : (1 : Nat) = k := heq
    rw [← h1] at hlt
    exact hlt (by decide)
  · intro k _
    exact Nat.zero_le _

/-- With two journal records of one segment the flush updates the first and the mount
    believes the second. -/
theorem twoRecords_not_reloads :
    (∀ k < smallSm.mainSegments,
      k ∉ (touchedState [(0, rawAt 3), (0, rawAt 5), (1, rawAt 4)]).info.dirtySentriesBitmap →
      ((touchedState [(0, rawAt 3), (0, rawAt 5), (1, rawAt 4)]).info.sentries k).Agrees
        ((touchedState [(0, rawAt 3), (0, rawAt 5), (1, rawAt 4)]).store.persisted smallSm k)) ∧
    ¬ FlushReloads smallSm plainCpc (touchedState [(0, rawAt 3), (0, rawAt 5), (1, rawAt 4)]) := by
  constructor
  · decide +kernel
  · rintro ⟨s', hs', -, -, -, -, hread⟩
    obtain ⟨sit, hsit, hrec⟩ := hread false
    have hstale : (flushSitEntries smallSm plainCpc
        (touchedState [(0, rawAt 3), (0, rawAt 5), (1, rawAt 4)])).all (fun t =>
          (buildSitEntries smallSm false t.store).all fun sit =>
            decide ((sit.sentries 0).mtime = 5)) = true := by decide +kernel
    rw [hs', Option.all_some, hsit, Option.all_some, decide_eq_true_eq] at hstale
    have h9 : (sit.sentries 0).mtime = 9 := (hrec 0 (by decide)).2.2.2
    rw [hstale] at h9
    exact absurd h9 (by decide)

end F2fs.Segment

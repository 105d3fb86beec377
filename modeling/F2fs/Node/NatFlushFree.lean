/-
  The free nids through a flush.

  The flush writes every flushable nid once and tells the free nids about each
  (`flushNid`); before that, a drain takes the journaled free nids that have no dirty
  entry off `available_nids` (`takenBack`), since their flush will add them again.
  `flushNatEntries_nids` puts this beside what the flush does to the entry, the record and
  the persisted value of each nid.
-/
import F2fs.Node.NatOps
import F2fs.Node.NatLists
import F2fs.Node.FreeNidBooks

namespace F2fs.Node

open F2fs.Checkpoint

section

variable {sbi : SbInfo} {s s' : NatState} {set nid : Nat} {toJournal : Bool}

/-- The free nids after the entry of `nid` in `c` was flushed. -/
def flushOne (c : NatCache) (f : FreeNidInfo) (nid : Nat) : FreeNidInfo :=
  match c.natRoot.lookup nid with
  | some e => flushFreeNid f e.resetFlag nid
  | none => f

theorem flushOne_congr {c c' : NatCache} {L : List Nat}
    (h : ∀ n ∈ L, c'.natRoot.lookup n = c.natRoot.lookup n) (f : FreeNidInfo) :
    L.foldl (flushOne c') f = L.foldl (flushOne c) f := by
  induction L generalizing f with
  | nil => rfl
  | cons n L ih =>
      rw [List.foldl_cons, List.foldl_cons, flushOne, h n List.mem_cons_self]
      exact ih (fun m hm => h m (List.mem_cons_of_mem _ hm)) _

/-- What the flush of the nids `L` does to the free nids and the journal. -/
structure FreeFlushed (s : NatState) (L : List Nat) (s' : NatState) : Prop where
  free : s'.free = L.foldl (flushOne s.cache) s.free
  viewOut : ∀ n, n ∉ L → s'.journal.view n = s.journal.view n

theorem storeEntry_free {raw : RawNat} (h : storeEntry sbi set toJournal s nid raw = some s') :
    s'.cache = s.cache ∧ s'.free = s.free ∧
      ∀ n, n ≠ nid → s'.journal.view n = s.journal.view n := by
  unfold storeEntry at h
  cases toJournal with
  | true =>
      rw [if_pos rfl] at h
      obtain ⟨⟨i, j⟩, hloc, rfl⟩ := Option.map_eq_some_iff.mp h
      exact ⟨rfl, rfl, fun n hn => JournalArray.view_locate_write hloc hn⟩
  | false =>
      rw [if_neg (by decide)] at h
      cases h
      exact ⟨rfl, rfl, fun _ _ => rfl⟩

theorem flushNatEntry_free (h : flushNatEntry sbi set toJournal s nid = some s') :
    FreeFlushed s [nid] s' := by
  unfold flushNatEntry at h
  cases he : s.cache.natRoot.lookup nid with
  | none =>
      rw [he] at h
      cases h
  | some e =>
      rw [he] at h
      dsimp only at h
      split_ifs at h
      obtain ⟨s₁, hstore, rfl⟩ := Option.map_eq_some_iff.mp h
      obtain ⟨-, hfree, hview⟩ := storeEntry_free hstore
      refine ⟨?_, fun n hn => hview n (by simpa using hn)⟩
      show flushFreeNid s₁.free e.resetFlag nid = flushOne s.cache s.free nid
      unfold flushOne
      rw [he, hfree]

theorem flushNatEntry_lookup (h : flushNatEntry sbi set toJournal s nid = some s') {n : Nat}
    (hn : n ≠ nid) : s'.cache.natRoot.lookup n = s.cache.natRoot.lookup n := by
  unfold flushNatEntry at h
  cases he : s.cache.natRoot.lookup nid with
  | none =>
      rw [he] at h
      cases h
  | some e =>
      rw [he] at h
      dsimp only at h
      split_ifs at h
      obtain ⟨s₁, hstore, rfl⟩ := Option.map_eq_some_iff.mp h
      show (cleanEntry s₁.cache set nid).natRoot.lookup n = _
      rw [cleanEntry_lookup, if_neg hn, (storeEntry_free hstore).1]

theorem FreeFlushed.trans {s₁ : NatState} {L L' : List Nat} (h : FreeFlushed s L s₁)
    (hlook : ∀ n ∈ L', s₁.cache.natRoot.lookup n = s.cache.natRoot.lookup n)
    (h' : FreeFlushed s₁ L' s') : FreeFlushed s (L ++ L') s' := by
  refine ⟨?_, fun n hn => ?_⟩
  · rw [h'.free, flushOne_congr hlook, h.free, List.foldl_append]
  · rw [List.mem_append, not_or] at hn
    rw [h'.viewOut n hn.2, h.viewOut n hn.1]

/-- The entry loop of `__flush_nat_entry_set`. -/
theorem flushEntries_free : ∀ (L : List Nat) (s s' : NatState), L.Nodup →
    L.foldlM (flushNatEntry sbi set toJournal) s = some s' → FreeFlushed s L s' := by
  intro L
  induction L with
  | nil =>
      intro s s' _ h
      cases h
      exact ⟨rfl, fun _ _ => rfl⟩
  | cons nid L ih =>
      intro s s' hnodup h
      obtain ⟨hnot, hnodup⟩ := List.nodup_cons.mp hnodup
      rw [List.foldlM_cons, Option.bind_eq_bind, Option.bind_eq_some_iff] at h
      obtain ⟨s₁, hstep, hrest⟩ := h
      refine (flushNatEntry_free hstep).trans (L := [nid]) (fun n hn => ?_)
        (ih s₁ s' hnodup hrest)
      exact flushNatEntry_lookup hstep fun heq => hnot (heq ▸ hn)

/-- `__flush_nat_entry_set`. -/
theorem flushNatEntrySet_free {reason : CpReason} {st : NatEntrySet} (hinv : s.cache.Inv none)
    (hst : s.cache.natSetRoot.lookup set = some st)
    (h : flushNatEntrySet sbi reason s set = some s') : FreeFlushed s st.entryList s' := by
  unfold flushNatEntrySet at h
  rw [hst] at h
  dsimp only at h
  obtain ⟨s₂, hrun, rfl⟩ := Option.map_eq_some_iff.mp h
  have h₂ := flushEntries_free _ _ _ (hinv.listNodup set st hst) hrun
  have hstart : FreeFlushed s st.entryList s₂ := by
    split_ifs at h₂ with htj
    · exact ⟨h₂.free, h₂.viewOut⟩
    · exact ⟨h₂.free, h₂.viewOut⟩
  -- the NAT bits and the drop of an empty set touch neither
  have hbits : ∀ blk, (updateNatBits s₂ st.set blk).free = s₂.free ∧
      (updateNatBits s₂ st.set blk).journal = s₂.journal := by
    intro blk
    unfold updateNatBits
    dsimp only
    split_ifs <;> exact ⟨rfl, rfl⟩
  refine ⟨Eq.trans ?_ hstart.free, fun n hn => Eq.trans ?_ (hstart.viewOut n hn)⟩
  · split_ifs <;> first | rfl | exact (hbits _).1
  · split_ifs <;> first | rfl | exact congrArg (·.view n) (hbits _).2

/-- The loop over the sets. -/
theorem flushSets_free {reason : CpReason} : ∀ (ks : List Nat) (s s' : NatState), ks.Nodup →
    s.cache.Inv none → (∀ k ∈ ks, ∃ st, s.cache.natSetRoot.lookup k = some st) →
    ks.foldlM (flushNatEntrySet sbi reason) s = some s' →
    FreeFlushed s (listed s.cache ks) s' := by
  intro ks
  induction ks with
  | nil =>
      intro s s' _ _ _ h
      cases h
      exact ⟨rfl, fun _ _ => rfl⟩
  | cons k ks ih =>
      intro s s' hnodup hinv hks h
      obtain ⟨hnot, hnodup⟩ := List.nodup_cons.mp hnodup
      obtain ⟨st, hst⟩ := hks k List.mem_cons_self
      obtain ⟨s₁, hstep, h₁, hsets⟩ := flushNatEntrySet_cache sbi reason hinv hst
      rw [List.foldlM_cons, hstep] at h
      have hother : ∀ k' ∈ ks, s₁.cache.natSetRoot.lookup k' = s.cache.natSetRoot.lookup k' :=
        fun k' hk' => hsets k' fun heq => hnot (heq ▸ hk')
      have hlisted : listed s₁.cache ks = listed s.cache ks :=
        List.flatMap_congr fun k' hk' => by rw [hother k' hk']
      have hcons : listed s.cache (k :: ks) = st.entryList ++ listed s.cache ks := by
        rw [listed, List.flatMap_cons, hst]
        rfl
      have hrest := ih s₁ s' hnodup h₁.inv (fun k' hk' => by
        rw [hother k' hk']
        exact hks k' (List.mem_cons_of_mem _ hk')) h
      rw [hlisted] at hrest
      rw [hcons]
      refine (flushNatEntrySet_free hinv hst hstep).trans (fun n hn => ?_) hrest
      refine h₁.lookupOut n fun hn' => ?_
      obtain ⟨k', hk', hmem⟩ := List.mem_flatMap.mp hn
      obtain ⟨st', hst'⟩ := hks k' (List.mem_cons_of_mem _ hk')
      rw [hst'] at hmem
      have hb := hinv.listBlock k st hst n hn'
      have hb' := hinv.listBlock k' st' hst' n hmem
      exact hnot (hb ▸ hb' ▸ hk')

end

/-! ## Draining the journal -/

section

variable {sbi : SbInfo} {s : NatState}

/-- The drain counts the nid of slot `i` off: its record says it is free, and no dirty
    entry says otherwise. -/
def isTakenBack (s : NatState) (i : Nat) : Bool :=
  !s.cache.dirty (s.journal.slot i).1 && decide ((s.journal.slot i).2.blockAddr = nullAddr)

/-- The journal slots of those nids. -/
def takenBack (s : NatState) : Finset Nat :=
  (Finset.range s.journal.n).filter fun i => isTakenBack s i

/-- `available_nids` after `k` nids were counted off. -/
def countOff (k a : Nat) : Nat := (fun a => u32Sub a 1)^[k] a

theorem countOff_succ (k a : Nat) : countOff (k + 1) a = u32Sub (countOff k a) 1 :=
  Function.iterate_succ_apply' _ k a

theorem countOff_add {a : Nat} (ha : a < 2 ^ 32) (k : Nat) :
    countOff k a < 2 ^ 32 ∧ (countOff k a + k) % 2 ^ 32 = a := by
  induction k with
  | zero => exact ⟨ha, Nat.mod_eq_of_lt ha⟩
  | succ k ih =>
      rw [countOff_succ]
      unfold u32Sub
      omega

theorem grabEntry_dirty (c : NatCache) (nid : Nat) (raw : RawNat) :
    (grabEntry c nid raw).dirty nid = c.dirty nid := by
  unfold grabEntry
  cases hl : c.natRoot.lookup nid with
  | some e => rfl
  | none =>
      have hlook := initNatEntry_lookup c (NatEntry.alloc nid) raw nid
      rw [show (NatEntry.alloc nid).nid = nid from rfl, if_pos rfl] at hlook
      dsimp only
      rw [NatCache.dirty_of_lookup hlook, NatCache.dirty, hl]
      rfl

theorem removeNatInJournal_free (s : NatState) (i : Nat) : (removeNatInJournal s i).free =
    if isTakenBack s i then { s.free with availableNids := u32Sub s.free.availableNids 1 }
    else s.free := by
  have hdirty := grabEntry_dirty s.cache (s.journal.slot i).1 (s.journal.slot i).2
  unfold removeNatInJournal isTakenBack
  rw [← hdirty]

/-- The loop of `remove_nats_in_journal`. -/
theorem removeNatsLoop_free (hwf : s.Wf sbi) : ∀ m ≤ s.journal.n,
    ((List.range m).foldl removeNatInJournal s).free =
      { s.free with
        availableNids := countOff ((Finset.range m).filter fun i => isTakenBack s i).card
          s.free.availableNids } := by
  intro m
  induction m with
  | zero => exact fun _ => rfl
  | succ m ih =>
      intro hm
      have hdrained := removeNatsLoop_spec sbi hwf.cache hwf.distinct m (by omega)
      have hfree := ih (by omega)
      -- the nid of slot `m` is none of those before it
      have hsame : isTakenBack ((List.range m).foldl removeNatInJournal s) m =
          isTakenBack s m := by
        unfold isTakenBack NatCache.dirty
        rw [hdrained.journal, hdrained.lookupOut _ fun i hi heq => by
          have := hwf.distinct i m (by omega) hm heq
          omega]
      rw [List.range_succ, List.foldl_append, Finset.range_add_one, Finset.filter_insert]
      show (removeNatInJournal _ m).free = _
      rw [removeNatInJournal_free, hsame, hfree]
      split_ifs with hback
      · rw [Finset.card_insert_of_notMem (by simp), countOff_succ]
      · rfl

theorem removeNatsInJournal_free (hwf : s.Wf sbi) : (removeNatsInJournal s).free =
    { s.free with availableNids := countOff (takenBack s).card s.free.availableNids } :=
  removeNatsLoop_free hwf s.journal.n le_rfl

end

/-! ## The flush, nid by nid -/

section

variable {sbi : SbInfo} {s s' : NatState}

/-- The free nids after a nid whose address is `addr` was flushed. -/
def flushNid (f : FreeNidInfo) (addr nid : Nat) : FreeNidInfo :=
  if addr = nullAddr then (f.addFreeNid none nid false true).2
  else f.updateFreeNidBitmap nid false false

theorem flushFreeNid_eq (f : FreeNidInfo) (ne : NatEntry) (nid : Nat) :
    flushFreeNid f ne nid = flushNid f ne.blkAddr nid := by
  unfold flushFreeNid flushNid FreeNidInfo.addFreeNid
  rfl

/-- A flush from `s` to `s'` that wrote the nids `L`, after it drained the journal if
    `drained`. -/
structure NidsFlushed (sbi : SbInfo) (s : NatState) (drained : Bool) (L : List Nat)
    (s' : NatState) : Prop where
  wf : s'.Wf sbi
  nodup : L.Nodup
  /-- Written are the nids with a dirty entry and those of the drained records, without
      those that have no block yet. -/
  mem : ∀ n, n ∈ L ↔ (s.cache.dirty n = true ∨ (drained = true ∧ s.journal.view n ≠ none)) ∧
    (nodeInfo sbi s n).blockAddr ≠ newAddr
  info : ∀ n, nodeInfo sbi s' n = nodeInfo sbi s n
  clean : ∀ n ∈ L, ∃ e, s'.cache.natRoot.lookup n = some e ∧ e.isDirty = false ∧
    e.isCheckpointed = true
  kept : ∀ n, n ∉ L → (drained = true → s.journal.view n = none) →
    s'.cache.natRoot.lookup n = s.cache.natRoot.lookup n ∧
      s'.journal.view n = s.journal.view n
  /-- The record of a nid without a block is dropped. -/
  stranded : ∀ n, n ∉ L → drained = true → s.journal.view n ≠ none →
    s'.cache.dirty n = true ∧ s'.journal.view n = none
  free : s'.free = L.foldl (fun f n => flushNid f (nodeInfo sbi s n).blockAddr n)
    { s.free with
      availableNids :=
        if drained then countOff (takenBack s).card s.free.availableNids
        else s.free.availableNids }

variable (sbi) in
theorem flushable_iff (n : Nat) : s.cache.Flushable n ↔
    s.cache.dirty n = true ∧ (nodeInfo sbi s n).blockAddr ≠ newAddr := by
  unfold NatCache.Flushable NatCache.dirty nodeInfo
  cases s.cache.natRoot.lookup n with
  | none => simp
  | some e => simp [NatEntry.raw]

/-- `flush_nat_entries`. -/
theorem flushNatEntries_nids (hwf : s.Wf sbi) (reason : CpReason) :
    ∃ drained L s', flushNatEntries sbi reason s = some s' ∧
      NidsFlushed sbi s drained L s' := by
  by_cases hz : s.cache.dirtyNatCnt = 0
  · have hclean := fun n => (not_congr (flushable_iff sbi n)).mp
      (dirtyKeys_eq_empty hwf.cache hz n)
    refine ⟨false, [], s, by rw [flushNatEntries, if_pos hz], hwf, List.nodup_nil,
      fun n => ⟨nofun, fun h => absurd ⟨h.1.resolve_right (by simp), h.2⟩ (hclean n)⟩,
      fun _ => rfl, nofun, fun _ _ _ => ⟨rfl, rfl⟩, nofun, rfl⟩
  obtain ⟨s', hrun, hwf', hinfo, -, -⟩ := flushNatEntries_entry hwf reason
  refine ⟨drainsJournal reason s, ?_⟩
  obtain ⟨s₁, hs₁⟩ : ∃ s₁, s₁ = if drainsJournal reason s then removeNatsInJournal s else s :=
    ⟨_, rfl⟩
  have hflush : (collectSets s₁).foldlM (flushNatEntrySet sbi reason) s₁ = some s' := by
    rw [flushNatEntries, if_neg hz] at hrun
    rw [hs₁]
    exact hrun
  -- the state the sets are flushed from
  have hstart : s₁.cache.Inv none ∧
      (∀ n, (drainsJournal reason s = true → s.journal.view n = none) →
        s₁.cache.natRoot.lookup n = s.cache.natRoot.lookup n ∧
          s₁.journal.view n = s.journal.view n) ∧
      (∀ n, drainsJournal reason s = true → s.journal.view n ≠ none →
        s₁.cache.dirty n = true ∧ s₁.journal.view n = none) ∧
      (∀ n, nodeInfo sbi s₁ n = nodeInfo sbi s n) ∧
      s₁.free = { s.free with
        availableNids :=
          if drainsJournal reason s then countOff (takenBack s).card s.free.availableNids
          else s.free.availableNids } := by
    rw [hs₁]
    split_ifs with hdrain
    · obtain ⟨hinv, hn0, -, -, hout, hin⟩ :=
        removeNatsInJournal_spec sbi hwf.cache hwf.distinct
      have hnone := JournalArray.view_of_n_zero hn0
      refine ⟨hinv, fun n hv => ⟨hout n (hv hdrain), by rw [hnone n, hv hdrain]⟩,
        fun n _ hv => ⟨?_, hnone n⟩, fun n => (removeNatsInJournal_nodeInfo hwf n).1,
        removeNatsInJournal_free hwf⟩
      obtain ⟨r, hr⟩ := Option.ne_none_iff_exists'.mp hv
      obtain ⟨e, he, hd, -⟩ := hin n r hr
      rw [NatCache.dirty_of_lookup he, hd]
    · exact ⟨hwf.cache, fun _ _ => ⟨rfl, rfl⟩, fun _ h => absurd h hdrain, fun _ => rfl, rfl⟩
  obtain ⟨hinv, hsame₁, hdrained₁, hinfo₁, hfree₁⟩ := hstart
  have hdirty₁ : ∀ n, s₁.cache.dirty n = true ↔ s.cache.dirty n = true ∨
      (drainsJournal reason s = true ∧ s.journal.view n ≠ none) := by
    intro n
    by_cases hv : drainsJournal reason s = true ∧ s.journal.view n ≠ none
    · exact ⟨fun _ => Or.inr hv, fun _ => (hdrained₁ n hv.1 hv.2).1⟩
    · have hkept := (hsame₁ n fun hd => not_not.mp fun h => hv ⟨hd, h⟩).1
      rw [or_iff_left hv]
      unfold NatCache.dirty
      rw [hkept]
  obtain ⟨hset, hnodup, hlisted⟩ := listed_collectSets hinv
  obtain ⟨s'', hrun'', -, hout, hin⟩ := flushAll_cache sbi reason hinv
  rw [hflush] at hrun''
  cases hrun''
  have hfree := flushSets_free _ s₁ s' (collectSets_spec s₁).1 hinv hset hflush
  have hrest : ∀ n, n ∉ listed s₁.cache (collectSets s₁) →
      s'.cache.natRoot.lookup n = s₁.cache.natRoot.lookup n := fun n hn =>
    hout n fun hfl => hn ((hlisted n).mpr hfl)
  refine ⟨listed s₁.cache (collectSets s₁), s', hrun, hwf', hnodup, fun n => ?_, hinfo,
    fun n hn => ?_, fun n hn hv => ?_, fun n hn hd hv => ?_, ?_⟩
  · rw [hlisted, flushable_iff sbi, hdirty₁, hinfo₁]
  · have hfl := (hlisted n).mp hn
    obtain ⟨e, he, -, -⟩ := id hfl
    exact ⟨_, hin n e he hfl, rfl, rfl⟩
  · rw [hrest n hn, hfree.viewOut n hn]
    exact hsame₁ n hv
  · rw [NatCache.dirty, hrest n hn, hfree.viewOut n hn]
    exact hdrained₁ n hd hv
  · rw [hfree.free, ← hfree₁]
    refine List.foldl_ext _ _ _ fun f n hn => ?_
    obtain ⟨e, he, -, -⟩ := (hlisted n).mp hn
    rw [flushOne, he, ← hinfo₁, nodeInfo_of_lookup he]
    exact flushFreeNid_eq f e.resetFlag n

end

end F2fs.Node

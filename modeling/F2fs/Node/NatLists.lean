/-
  The lists and counters of the NAT cache over whole runs.

  `NatCache.Inv` is kept by `set_node_addr`, `cache_nat_entry`, `flush_nat_entries` and
  `try_to_free_nats`, whatever the journal holds.  The flush is followed here through the
  cache alone: a set that goes to the journal has room there, and any other set needs none.
-/
import F2fs.Node.NatOps

namespace F2fs.Node

open F2fs.Checkpoint

/-! ## Operations -/

/-- `cache_nat_entry`; with `nomem` the entry is not allocated, or not inserted. -/
def cacheNatEntry (c : NatCache) (nid : Nat) (ne : RawNat) (nomem : Bool) : NatCache :=
  match c.natRoot.lookup nid with
  | some _ => c
  | none => if nomem then c else c.initNatEntry (NatEntry.alloc nid) (some ne)

inductive NatOp where
  | setNodeAddr (ni : NodeInfo) (newBlkaddr : Nat) (fsyncDone : Bool)
  | cacheNatEntry (nid : Nat) (ne : RawNat) (nomem : Bool)
  | flushNatEntries (reason : CpReason)
  | tryToFreeNats (nrShrink : Nat)

/-- One operation under `nat_tree_lock`. -/
def natStep (sbi : SbInfo) (s : NatState) : NatOp → Option NatState
  | .setNodeAddr ni newBlkaddr fsyncDone =>
    some { s with cache := s.cache.setNodeAddr ni newBlkaddr fsyncDone }
  | .cacheNatEntry nid ne nomem => some { s with cache := cacheNatEntry s.cache nid ne nomem }
  | .flushNatEntries reason => flushNatEntries sbi reason s
  | .tryToFreeNats nrShrink => some { s with cache := s.cache.tryToFreeNats nrShrink }

theorem cacheNatEntry_inv {c : NatCache} (h : c.Inv none) (nid : Nat) (ne : RawNat)
    (nomem : Bool) : (cacheNatEntry c nid ne nomem).Inv none := by
  unfold cacheNatEntry
  cases hl : c.natRoot.lookup nid with
  | some e => exact h
  | none =>
      simp only
      split
      · exact h
      · exact h.initNatEntry (some ne) hl

/-! ## The flush, in the cache -/

section

variable (sbi : SbInfo) {s : NatState} {set nid : Nat} {toJournal : Bool} {reason : CpReason}

theorem storeEntry_cache (set nid : Nat) (raw : RawNat)
    (hroom : toJournal = true → s.journal.n + 1 ≤ natJournalEntries) :
    ∃ s', storeEntry sbi set toJournal s nid raw = some s' ∧ s'.cache = s.cache ∧
      s'.journal.n ≤ s.journal.n + 1 := by
  cases toJournal with
  | false => exact ⟨_, rfl, rfl, Nat.le_succ _⟩
  | true =>
      unfold storeEntry JournalArray.locate
      cases s.journal.find nid with
      | some i => exact ⟨_, rfl, rfl, Nat.le_succ _⟩
      | none =>
          simp only [if_pos (hroom rfl)]
          exact ⟨_, rfl, rfl, Nat.le_refl _⟩

/-- What flushing the nids `L` does to the cache. -/
structure CacheFlushed (c : NatCache) (L : List Nat) (c' : NatCache) : Prop where
  inv : c'.Inv none
  lookupOut : ∀ n, n ∉ L → c'.natRoot.lookup n = c.natRoot.lookup n
  lookupIn : ∀ n ∈ L, ∀ e, c.natRoot.lookup n = some e →
    c'.natRoot.lookup n = some { e.resetFlag with isDirty := false }

theorem CacheFlushed.trans {c c₁ c₂ : NatCache} {L L' : List Nat} (h₁ : CacheFlushed c L c₁)
    (h₂ : CacheFlushed c₁ L' c₂) (hd : L.Disjoint L') : CacheFlushed c (L ++ L') c₂ where
  inv := h₂.inv
  lookupOut := by
    intro n hn
    rw [List.mem_append, not_or] at hn
    rw [h₂.lookupOut n hn.2, h₁.lookupOut n hn.1]
  lookupIn := by
    intro n hn e he
    rcases List.mem_append.mp hn with hL | hL
    · rw [h₂.lookupOut n (fun h => hd hL h)]
      exact h₁.lookupIn n hL e he
    · refine h₂.lookupIn n hL e ?_
      rw [h₁.lookupOut n (fun h => hd h hL)]
      exact he

/-- One entry. -/
theorem flushNatEntry_cache {e : NatEntry} (hinv : s.cache.Inv none)
    (he : s.cache.natRoot.lookup nid = some e) (hdirty : e.isDirty = true)
    (hnew : e.blkAddr ≠ newAddr) (hblock : natBlockOffset nid = set)
    (hroom : toJournal = true → s.journal.n + 1 ≤ natJournalEntries) :
    ∃ s', flushNatEntry sbi set toJournal s nid = some s' ∧
      CacheFlushed s.cache [nid] s'.cache ∧ s'.journal.n ≤ s.journal.n + 1 ∧
      ∀ k, k ≠ set → s'.cache.natSetRoot.lookup k = s.cache.natSetRoot.lookup k := by
  obtain ⟨s₁, hstore, hcache, hgrow⟩ := storeEntry_cache sbi set nid e.raw hroom
  refine ⟨{ s₁ with cache := cleanEntry s₁.cache set nid
                    free := flushFreeNid s₁.free e.resetFlag nid }, ?_, ⟨?_, ?_, ?_⟩, hgrow, ?_⟩
  · rw [flushNatEntry, he]
    simp only [if_neg hnew, hstore]
    rfl
  · rw [← hblock, hcache]
    exact cleanEntry_inv hinv he hdirty
  · intro n hn
    rw [List.mem_singleton] at hn
    show (cleanEntry s₁.cache set nid).natRoot.lookup n = _
    rw [cleanEntry_lookup, if_neg hn, hcache]
  · intro n hn e' he'
    rw [List.mem_singleton] at hn
    show (cleanEntry s₁.cache set nid).natRoot.lookup n = _
    rw [cleanEntry_lookup, if_pos hn, hcache, ← hn, he']
    rfl
  · intro k hk
    show (cleanEntry s₁.cache set nid).natSetRoot.lookup k = _
    rw [cleanEntry, clearNatCacheDirty_sets _ hk, hcache]

/-- The entry loop of `__flush_nat_entry_set`. -/
theorem flushEntries_cache (set : Nat) (toJournal : Bool) : ∀ (L : List Nat) (s : NatState),
    L.Nodup → s.cache.Inv none → (∀ n ∈ L, natBlockOffset n = set ∧ s.cache.Flushable n) →
    (toJournal = true → s.journal.n + L.length ≤ natJournalEntries) →
    ∃ s', L.foldlM (flushNatEntry sbi set toJournal) s = some s' ∧
      CacheFlushed s.cache L s'.cache ∧
      ∀ k, k ≠ set → s'.cache.natSetRoot.lookup k = s.cache.natSetRoot.lookup k := by
  intro L
  induction L with
  | nil =>
      intro s _ hinv _ _
      exact ⟨s, rfl, ⟨hinv, fun _ _ => rfl, fun _ h => absurd h List.not_mem_nil⟩, fun _ _ => rfl⟩
  | cons nid L ih =>
      intro s hnodup hinv hL hroom
      obtain ⟨hnot, hnodup⟩ := List.nodup_cons.mp hnodup
      obtain ⟨hblock, e, he, hdirty, hnew⟩ := hL nid List.mem_cons_self
      rw [List.length_cons] at hroom
      obtain ⟨s₁, hstep, h₁, hgrow, hsets⟩ := flushNatEntry_cache sbi hinv he hdirty hnew hblock
        fun ht => by
          have := hroom ht
          omega
      have hL₁ : ∀ n ∈ L, natBlockOffset n = set ∧ s₁.cache.Flushable n := by
        intro n hn
        obtain ⟨hb, hfl⟩ := hL n (List.mem_cons_of_mem _ hn)
        unfold NatCache.Flushable at hfl ⊢
        rw [h₁.lookupOut n (by rintro hmem; exact hnot (List.mem_singleton.mp hmem ▸ hn))]
        exact ⟨hb, hfl⟩
      obtain ⟨s₂, hrest, h₂, hsets₂⟩ := ih s₁ hnodup h₁.inv hL₁ fun ht => by
        have := hroom ht
        omega
      refine ⟨s₂, ?_, h₁.trans h₂ (by simpa using hnot), fun k hk => ?_⟩
      · rw [List.foldlM_cons, hstep]
        exact hrest
      · rw [hsets₂ k hk, hsets k hk]

/-- The nids on the lists of the sets `ks`. -/
def listed (c : NatCache) (ks : List Nat) : List Nat :=
  ks.flatMap fun k => ((c.natSetRoot.lookup k).map (·.entryList)).getD []

variable (reason) in
/-- `__flush_nat_entry_set`. -/
theorem flushNatEntrySet_cache {st : NatEntrySet} (hinv : s.cache.Inv none)
    (hst : s.cache.natSetRoot.lookup set = some st) :
    ∃ s', flushNatEntrySet sbi reason s set = some s' ∧
      CacheFlushed s.cache st.entryList s'.cache ∧
      ∀ k, k ≠ set → s'.cache.natSetRoot.lookup k = s.cache.natSetRoot.lookup k := by
  obtain ⟨toJournal, htj⟩ : ∃ toJournal, toJournal = setToJournal reason s st := ⟨_, rfl⟩
  have hlen := length_entryList_le hinv hst
  obtain ⟨s₁, hs₁⟩ : ∃ s₁, s₁ = if toJournal then s
    else getNextNatPage sbi s (st.set * natEntryPerBlock) := ⟨_, rfl⟩
  have hcache₁ : s₁.cache = s.cache := by rw [hs₁]; split <;> rfl
  have hjournal₁ : s₁.journal = s.journal := by rw [hs₁]; split <;> rfl
  obtain ⟨s₂, hrun, h₂, hsets₂⟩ := flushEntries_cache sbi set toJournal st.entryList s₁
    (hinv.listNodup set st hst) (by rw [hcache₁]; exact hinv)
    (by rw [hcache₁]; exact fun n hn => (hinv.list set st hst n nofun).mp hn)
    (by
      intro ht
      have hroom := room_of_setToJournal (htj ▸ ht)
      rw [hjournal₁]
      omega)
  rw [hcache₁] at h₂ hsets₂
  -- the NAT bits, then the set if it is empty
  obtain ⟨s₃, hs₃⟩ : ∃ s₃, s₃ = if toJournal then s₂
    else updateNatBits s₂ st.set
      (s₂.pages (currentNatAddr sbi s₂ (st.set * natEntryPerBlock))) := ⟨_, rfl⟩
  have hcache₃ : s₃.cache = s₂.cache := by
    rw [hs₃]
    split
    · rfl
    · exact (natBits_updateNatBits _ _ _).1
  have hresult : flushNatEntrySet sbi reason s set =
      some (if (s₃.cache.natSetRoot.lookup set).any (·.entryCnt = 0) then
        { s₃ with cache := { s₃.cache with natSetRoot := s₃.cache.natSetRoot.delete set } }
      else s₃) := by
    rw [flushNatEntrySet, hst, hs₃, htj]
    rw [htj] at hs₁ hrun
    rw [hs₁] at hrun
    show Option.map _ (st.entryList.foldlM (flushNatEntry sbi set (setToJournal reason s st)) _) = _
    erw [hrun]
    rfl
  refine ⟨_, hresult, ?_, ?_⟩
  · split
    · rename_i hany
      obtain ⟨st', hst', hcnt⟩ := (Option.any_eq_true _ _).mp hany
      refine ⟨Inv_deleteSet ?_ hst' (of_decide_eq_true hcnt), ?_, ?_⟩
      · rw [hcache₃]
        exact h₂.inv
      · rw [hcache₃]
        exact h₂.lookupOut
      · rw [hcache₃]
        exact h₂.lookupIn
    · rw [hcache₃]
      exact h₂
  · intro k hk
    rw [← hsets₂ k hk, ← hcache₃]
    split
    · exact RadixTree.lookup_delete_of_ne _ hk
    · rfl

variable (reason) in
/-- The loop over the sets. -/
theorem flushSets_cache : ∀ (ks : List Nat) (s : NatState), ks.Nodup → s.cache.Inv none →
    (∀ k ∈ ks, ∃ st, s.cache.natSetRoot.lookup k = some st) →
    ∃ s', ks.foldlM (flushNatEntrySet sbi reason) s = some s' ∧
      CacheFlushed s.cache (listed s.cache ks) s'.cache := by
  intro ks
  induction ks with
  | nil =>
      intro s _ hinv _
      exact ⟨s, rfl, hinv, fun _ _ => rfl, fun _ h => absurd h List.not_mem_nil⟩
  | cons k ks ih =>
      intro s hnodup hinv hks
      obtain ⟨hnot, hnodup⟩ := List.nodup_cons.mp hnodup
      obtain ⟨st, hst⟩ := hks k List.mem_cons_self
      obtain ⟨s₁, hstep, h₁, hsets⟩ := flushNatEntrySet_cache sbi reason hinv hst
      have hother : ∀ k' ∈ ks, s₁.cache.natSetRoot.lookup k' = s.cache.natSetRoot.lookup k' :=
        fun k' hk' => hsets k' fun heq => hnot (heq ▸ hk')
      obtain ⟨s₂, hrest, h₂⟩ := ih s₁ hnodup h₁.inv fun k' hk' => by
        rw [hother k' hk']
        exact hks k' (List.mem_cons_of_mem _ hk')
      have hlisted : listed s₁.cache ks = listed s.cache ks :=
        List.flatMap_congr fun k' hk' => by rw [hother k' hk']
      have hcons : listed s.cache (k :: ks) = st.entryList ++ listed s.cache ks := by
        rw [listed, List.flatMap_cons, hst]
        rfl
      rw [hlisted] at h₂
      refine ⟨s₂, ?_, ?_⟩
      · rw [List.foldlM_cons, hstep]
        exact hrest
      · rw [hcons]
        refine h₁.trans h₂ fun n hn hn' => ?_
        obtain ⟨k', hk', hmem⟩ := List.mem_flatMap.mp hn'
        obtain ⟨st', hst'⟩ := hks k' (List.mem_cons_of_mem _ hk')
        rw [hst'] at hmem
        have hb := hinv.listBlock k st hst n hn
        have hb' := hinv.listBlock k' st' hst' n hmem
        exact hnot (hb ▸ hb' ▸ hk')

/-- The lists of all sets hold the flushable nids, each once. -/
theorem listed_collectSets {s : NatState} (hinv : s.cache.Inv none) :
    (∀ k ∈ collectSets s, ∃ st, s.cache.natSetRoot.lookup k = some st) ∧
      (listed s.cache (collectSets s)).Nodup ∧
      ∀ n, n ∈ listed s.cache (collectSets s) ↔ s.cache.Flushable n := by
  obtain ⟨hnodup, hmem⟩ := collectSets_spec s
  have hset : ∀ k ∈ collectSets s, ∃ st, s.cache.natSetRoot.lookup k = some st := fun k hk =>
    Option.isSome_iff_exists.mp ((s.cache.natSetRoot.mem_keys k).mp ((hmem k).mp hk))
  refine ⟨hset, List.nodup_flatMap.mpr ⟨fun k hk => ?_, ?_⟩, fun n => ?_⟩
  · obtain ⟨st, hst⟩ := hset k hk
    rw [hst]
    exact hinv.listNodup k st hst
  · refine hnodup.imp_of_mem fun {k k'} hk hk' hne n hn hn' => hne ?_
    obtain ⟨st, hst⟩ := hset k hk
    obtain ⟨st', hst'⟩ := hset k' hk'
    dsimp only at hn hn'
    rw [hst] at hn
    rw [hst'] at hn'
    rw [← hinv.listBlock k st hst n hn, ← hinv.listBlock k' st' hst' n hn']
  · rw [listed, List.mem_flatMap]
    constructor
    · rintro ⟨k, hk, hn⟩
      obtain ⟨st, hst⟩ := hset k hk
      rw [hst] at hn
      exact ((hinv.list k st hst n nofun).mp hn).2
    · intro hfl
      obtain ⟨e, he, hd, -⟩ := id hfl
      obtain ⟨st, hst⟩ := hinv.hasSet n (by rw [NatCache.dirty_of_lookup he, hd])
      refine ⟨natBlockOffset n, (hmem _).mpr (RadixTree.mem_keys_of_lookup hst), ?_⟩
      rw [hst]
      exact (hinv.list _ st hst n nofun).mpr ⟨rfl, hfl⟩

variable (reason) in
/-- All sets: every flushable entry is written and clean afterwards. -/
theorem flushAll_cache (hinv : s.cache.Inv none) :
    ∃ s', (collectSets s).foldlM (flushNatEntrySet sbi reason) s = some s' ∧ s'.cache.Inv none ∧
      (∀ n, ¬s.cache.Flushable n → s'.cache.natRoot.lookup n = s.cache.natRoot.lookup n) ∧
      ∀ n e, s.cache.natRoot.lookup n = some e → s.cache.Flushable n →
        s'.cache.natRoot.lookup n = some { e.resetFlag with isDirty := false } := by
  obtain ⟨hset, -, hlisted⟩ := listed_collectSets hinv
  obtain ⟨s', hrun, h⟩ := flushSets_cache sbi reason _ s (collectSets_spec s).1 hinv hset
  refine ⟨s', hrun, h.inv, fun n hn => h.lookupOut n fun hl => hn ((hlisted n).mp hl),
    fun n e he hfl => h.lookupIn n ((hlisted n).mpr hfl) e he⟩

/-- One journal slot: an entry that is cached is left as it is, but may become dirty. -/
theorem removeNatInJournal_cache (hinv : s.cache.Inv none) (i : Nat) :
    (removeNatInJournal s i).cache.Inv none ∧ ∀ n e, s.cache.natRoot.lookup n = some e →
      ∃ d, (removeNatInJournal s i).cache.natRoot.lookup n = some { e with isDirty := d } ∧
        (e.isDirty = true → d = true) := by
  obtain ⟨⟨nid, raw⟩, hslot⟩ : ∃ p, s.journal.slot i = p := ⟨_, rfl⟩
  have hcache : (removeNatInJournal s i).cache =
      (grabEntry s.cache nid raw).setNatCacheDirty nid := by
    unfold removeNatInJournal
    rw [hslot]
  have hgrab : (grabEntry s.cache nid raw).Inv none ∧
      (∃ e, (grabEntry s.cache nid raw).natRoot.lookup nid = some e ∧ e.nid = nid) ∧
      ∀ n e, s.cache.natRoot.lookup n = some e →
        (grabEntry s.cache nid raw).natRoot.lookup n = some e := by
    unfold grabEntry
    cases hl : s.cache.natRoot.lookup nid with
    | some e => exact ⟨hinv, ⟨e, hl, hinv.key nid e hl⟩, fun _ _ he => he⟩
    | none =>
        have hlook := initNatEntry_lookup s.cache (NatEntry.alloc nid) raw
        refine ⟨hinv.initNatEntry (some raw) hl, ⟨_, (hlook nid).trans (if_pos rfl), rfl⟩, ?_⟩
        intro n e he
        rw [hlook, if_neg]
        · exact he
        · intro hn
          rw [hn, show (NatEntry.alloc nid).nid = nid from rfl, hl] at he
          cases he
  obtain ⟨hinv₁, ⟨e₁, he₁, hkey⟩, hkeep⟩ := hgrab
  rw [hcache]
  refine ⟨(hinv₁.relax (some nid)).setNatCacheDirty he₁, fun n e he => ?_⟩
  rw [NatCache.setNatCacheDirty_lookup he₁ hkey]
  by_cases hn : n = nid
  · subst hn
    rw [hkeep n e he] at he₁
    cases he₁
    rw [if_pos rfl]
    exact ⟨true, rfl, fun _ => rfl⟩
  · rw [if_neg hn, hkeep n e he]
    exact ⟨e.isDirty, rfl, id⟩

/-- Draining the journal keeps the lists, and the address of every cached entry. -/
theorem removeNatsInJournal_cache (hinv : s.cache.Inv none) :
    (removeNatsInJournal s).cache.Inv none ∧ ∀ n e, s.cache.natRoot.lookup n = some e →
      ∃ d, (removeNatsInJournal s).cache.natRoot.lookup n = some { e with isDirty := d } ∧
        (e.isDirty = true → d = true) := by
  have hloop : ∀ m, ((List.range m).foldl removeNatInJournal s).cache.Inv none ∧
      ∀ n e, s.cache.natRoot.lookup n = some e →
        ∃ d, ((List.range m).foldl removeNatInJournal s).cache.natRoot.lookup n =
          some { e with isDirty := d } ∧ (e.isDirty = true → d = true) := by
    intro m
    induction m with
    | zero => exact ⟨hinv, fun n e he => ⟨e.isDirty, he, id⟩⟩
    | succ m ih =>
        rw [List.range_succ, List.foldl_append]
        obtain ⟨hinv₁, hkeep⟩ := ih
        generalize (List.range m).foldl removeNatInJournal s = s₁ at hinv₁ hkeep ⊢
        obtain ⟨hinv₂, hkeep₂⟩ := removeNatInJournal_cache hinv₁ m
        refine ⟨hinv₂, fun n e he => ?_⟩
        obtain ⟨d, hd, hmono⟩ := hkeep n e he
        obtain ⟨d', hd', hmono'⟩ := hkeep₂ n _ hd
        exact ⟨d', hd', fun h => hmono' (hmono h)⟩
  exact hloop s.journal.n

/-- `flush_nat_entries` succeeds, keeps the lists, and every entry that is dirty and has an
    address is clean afterwards. -/
theorem flushNatEntries_cache (hinv : s.cache.Inv none) (reason : CpReason) :
    ∃ s', flushNatEntries sbi reason s = some s' ∧ s'.cache.Inv none ∧
      (∀ n, ¬s'.cache.Flushable n) ∧
      ∀ n e, s.cache.natRoot.lookup n = some e → s.cache.Flushable n →
        s'.cache.natRoot.lookup n = some { e.resetFlag with isDirty := false } := by
  by_cases hz : s.cache.dirtyNatCnt = 0
  · refine ⟨s, by rw [flushNatEntries, if_pos hz], hinv, dirtyKeys_eq_empty hinv hz, ?_⟩
    exact fun n e _ hfl => absurd hfl (dirtyKeys_eq_empty hinv hz n)
  obtain ⟨s₁, hs₁⟩ : ∃ s₁, s₁ = if drainsJournal reason s then removeNatsInJournal s else s :=
    ⟨_, rfl⟩
  have hdrain : s₁.cache.Inv none ∧ ∀ n e, s.cache.natRoot.lookup n = some e →
      ∃ d, s₁.cache.natRoot.lookup n = some { e with isDirty := d } ∧
        (e.isDirty = true → d = true) := by
    rw [hs₁]
    split
    · exact removeNatsInJournal_cache hinv
    · exact ⟨hinv, fun n e he => ⟨e.isDirty, he, id⟩⟩
  obtain ⟨hinv₁, hkeep⟩ := hdrain
  obtain ⟨s', hrun, hinv', hout, hin⟩ := flushAll_cache sbi reason hinv₁
  refine ⟨s', ?_, hinv', ?_, ?_⟩
  · rw [flushNatEntries, if_neg hz]
    simp only [← hs₁]
    exact hrun
  · intro n hfl
    by_cases hfl₁ : s₁.cache.Flushable n
    · obtain ⟨e₁, he₁, -⟩ := id hfl₁
      obtain ⟨e', he', hd', -⟩ := hfl
      rw [hin n e₁ he₁ hfl₁] at he'
      cases he'
      cases hd'
    · unfold NatCache.Flushable at hfl hfl₁
      rw [hout n hfl₁] at hfl
      exact hfl₁ hfl
  · intro n e he hfl
    obtain ⟨e', he', hd', hne⟩ := hfl
    rw [he] at he'
    cases he'
    obtain ⟨d, hd, hmono⟩ := hkeep n e he
    rw [hmono hd'] at hd
    rw [hin n _ hd ⟨_, hd, rfl, hne⟩]
    rfl

end

/-! ## Runs -/

/-- The lists and counters of the cache state exactly what is cached. -/
structure ListsExact (c : NatCache) : Prop where
  natCnt : c.natCnt = c.natRoot.keys.card
  dirtyNatCnt : c.dirtyNatCnt = (c.natRoot.keys.filter fun nid => c.dirty nid).card
  entryCnt : c.dirtyNatCnt =
    ∑ k ∈ c.natSetRoot.keys, ((c.natSetRoot.lookup k).map (·.entryCnt)).getD 0
  natEntries : c.natEntries.Nodup ∧ ∀ nid, nid ∈ c.natEntries ↔ c.Clean nid
  /-- A dirty entry with an address is on the list of the set of its block, once. -/
  entryList : ∀ nid e, c.natRoot.lookup nid = some e → e.isDirty = true → e.blkAddr ≠ newAddr →
    ∃ st, c.natSetRoot.lookup (natBlockOffset nid) = some st ∧ st.entryList.count nid = 1 ∧
      nid ∉ c.natEntries ∧ ∀ k st', c.natSetRoot.lookup k = some st' → k ≠ natBlockOffset nid →
        nid ∉ st'.entryList
  /-- One without is on no list. -/
  noList : ∀ nid e, c.natRoot.lookup nid = some e → e.isDirty = true → e.blkAddr = newAddr →
    nid ∉ c.natEntries ∧ ∀ k st, c.natSetRoot.lookup k = some st → nid ∉ st.entryList

theorem NatCache.Inv.listsExact {s : NatState} (h : s.cache.Inv none) : ListsExact s.cache := by
  have hnotClean : ∀ nid e, s.cache.natRoot.lookup nid = some e → e.isDirty = true →
      nid ∉ s.cache.natEntries := by
    intro nid e he hd hmem
    obtain ⟨e', he', hc⟩ := (h.clean nid nofun).mp hmem
    rw [he] at he'
    cases he'
    rw [hd] at hc
    cases hc
  refine ⟨h.natCnt, h.dirtyCnt, ?_, ⟨h.cleanNodup, fun nid => h.clean nid nofun⟩, ?_, ?_⟩
  · obtain ⟨hnodup, hmem⟩ := collectSets_spec s
    have hset : (collectSets s).toFinset = s.cache.natSetRoot.keys := by
      ext k
      rw [List.mem_toFinset, hmem]
    rw [← sum_setCnt h, ← List.sum_toFinset _ hnodup, hset]
    rfl
  · intro nid e he hd hne
    obtain ⟨st, hst⟩ := h.hasSet nid (by rw [NatCache.dirty_of_lookup he, hd])
    refine ⟨st, hst, ?_, hnotClean nid e he hd, fun k st' hst' hk hmem => ?_⟩
    · refine List.count_eq_one_of_mem (h.listNodup _ st hst) ?_
      exact (h.list _ st hst nid nofun).mpr ⟨rfl, e, he, hd, hne⟩
    · exact hk (h.listBlock k st' hst' nid hmem).symm
  · intro nid e he hd hnew
    refine ⟨hnotClean nid e he hd, fun k st hst hmem => ?_⟩
    obtain ⟨-, e', he', -, hne⟩ := (h.list k st hst nid nofun).mp hmem
    rw [he] at he'
    cases he'
    exact hne hnew

/-- One operation keeps the invariant. -/
theorem natStep_inv (sbi : SbInfo) {s : NatState} (h : s.cache.Inv none) (op : NatOp) :
    ∃ s', natStep sbi s op = some s' ∧ s'.cache.Inv none := by
  cases op with
  | setNodeAddr ni newBlkaddr fsyncDone =>
      exact ⟨_, rfl, (NatCache.setNodeAddr_spec h ni newBlkaddr fsyncDone).1⟩
  | cacheNatEntry nid ne nomem => exact ⟨_, rfl, cacheNatEntry_inv h nid ne nomem⟩
  | flushNatEntries reason =>
      obtain ⟨s', hrun, hinv, -⟩ := flushNatEntries_cache sbi h reason
      exact ⟨s', hrun, hinv⟩
  | tryToFreeNats nrShrink => exact ⟨_, rfl, (NatCache.tryToFreeNats_spec nrShrink h).1⟩

/-- A whole run keeps it. -/
theorem natRun_inv (sbi : SbInfo) : ∀ (ops : List NatOp) {s : NatState}, s.cache.Inv none →
    ∃ s', ops.foldlM (natStep sbi) s = some s' ∧ s'.cache.Inv none := by
  intro ops
  induction ops with
  | nil => exact fun h => ⟨_, rfl, h⟩
  | cons op ops ih =>
      intro s h
      obtain ⟨s₁, hstep, h₁⟩ := natStep_inv sbi h op
      obtain ⟨s', hrun, h'⟩ := ih h₁
      refine ⟨s', ?_, h'⟩
      rw [List.foldlM_cons, hstep]
      exact hrun

/-- In every state a run reaches the lists are exact, the shrinker leaves dirty entries
    alone, and a flush writes every entry that is dirty and has an address. -/
theorem natRun_listsExact (sbi : SbInfo) (s₀ : NatState) (ops : List NatOp) :
    ∃ s, ops.foldlM (natStep sbi) { s₀ with cache := NatCache.init } = some s ∧
      ListsExact s.cache ∧
      (∀ nrShrink nid e, s.cache.natRoot.lookup nid = some e → e.isDirty = true →
        (s.cache.tryToFreeNats nrShrink).natRoot.lookup nid = some e) ∧
      ∀ reason, ∃ s', flushNatEntries sbi reason s = some s' ∧
        (∀ nid, ¬s'.cache.Flushable nid) ∧
        ∀ nid e, s.cache.natRoot.lookup nid = some e → e.isDirty = true →
          e.blkAddr ≠ newAddr →
          s'.cache.natRoot.lookup nid = some { e.resetFlag with isDirty := false } := by
  obtain ⟨s, hrun, hinv⟩ := natRun_inv sbi ops
    (s := { s₀ with cache := NatCache.init }) NatCache.inv_init
  refine ⟨s, hrun, hinv.listsExact, fun nrShrink nid e he hd => ?_, fun reason => ?_⟩
  · rcases (NatCache.tryToFreeNats_spec nrShrink hinv).2 nid with hsame | ⟨-, e', he', hc⟩
    · rw [hsame, he]
    · rw [he] at he'
      cases he'
      rw [hd] at hc
      cases hc
  · obtain ⟨s', hflush, -, hnone, hclean⟩ := flushNatEntries_cache sbi hinv reason
    exact ⟨s', hflush, hnone, fun nid e he hd hne => hclean nid e he ⟨e, he, hd, hne⟩⟩

end F2fs.Node

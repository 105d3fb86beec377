/-
  What `flush_nat_entries` does to the persisted NAT.

  One entry, then one set, then the run over all sets, each with a lemma that says
  which nids changed and to what.  Draining the journal first is described by a
  lemma of its own.  The result is `flushNatEntries_iff`: every nid keeps or gets
  the value it should unless the journal is drained while it holds a record of a
  nid whose address is `NEW_ADDR`: such an entry goes on no set's list, its record
  is dropped with the journal, and the nid falls back to its old NAT block entry.
-/
import F2fs.Node.NatFlush

namespace F2fs.Node

open F2fs.Checkpoint

variable {sbi : SbInfo}

/-! ## States -/

/-- What `get_node_info` returns: cache, then journal, then block. -/
def nodeInfo (sbi : SbInfo) (s : NatState) (nid : Nat) : RawNat :=
  match s.cache.natRoot.lookup nid with
  | some e => e.raw
  | none => persisted sbi s nid

/-- A NAT state between operations. -/
structure NatState.Wf (sbi : SbInfo) (s : NatState) : Prop where
  cache : s.cache.Inv none
  distinct : s.journal.Distinct
  le : s.journal.n ≤ natJournalEntries
  /-- A clean entry is a copy of what is persisted. -/
  coherent : ∀ nid e, s.cache.natRoot.lookup nid = some e → e.isDirty = false →
    e.raw = persisted sbi s nid

theorem blockEntry_eq (s : NatState) (nid : Nat) : blockEntry sbi s nid =
    (natArea sbi).current s.pages s.natBitmap (natBlockOffset nid) (nid % natEntryPerBlock) :=
  rfl

theorem persisted_of_view_none {s : NatState} {nid : Nat} (h : s.journal.view nid = none) :
    persisted sbi s nid = blockEntry sbi s nid := by
  rw [persisted, h]
  rfl

/-- `get_next_nat_page` copies the block, so no entry changes. -/
theorem blockEntry_getNextNatPage (s : NatState) (startNid nid : Nat) :
    blockEntry sbi (getNextNatPage sbi s startNid) nid = blockEntry sbi s nid := by
  have hpages : (getNextNatPage sbi s startNid).pages =
      (natArea sbi).writeNext s.pages s.natBitmap (natBlockOffset startNid)
        ((natArea sbi).current s.pages s.natBitmap (natBlockOffset startNid)) := by
    show Function.update s.pages (nextNatAddr sbi (currentNatAddr sbi s startNid)) _ = _
    rw [currentNatAddr, nextNatAddr_natAddr]
    rfl
  have hbitmap : (getNextNatPage sbi s startNid).natBitmap =
      ShadowArea.flip s.natBitmap (natBlockOffset startNid) := rfl
  rw [blockEntry_eq, blockEntry_eq, hpages, hbitmap]
  by_cases h : natBlockOffset nid = natBlockOffset startNid
  · rw [h, ShadowArea.current_writeNext_self]
  · rw [ShadowArea.current_writeNext_of_ne _ _ _ trivial trivial h]

theorem persisted_getNextNatPage (s : NatState) (startNid nid : Nat) :
    persisted sbi (getNextNatPage sbi s startNid) nid = persisted sbi s nid := by
  unfold persisted
  rw [blockEntry_getNextNatPage]
  rfl

theorem nid_sub_start {set nid : Nat} (h : natBlockOffset nid = set) :
    nid - set * natEntryPerBlock = nid % natEntryPerBlock := by
  subst h
  unfold natBlockOffset natEntryPerBlock
  omega

theorem natBlockOffset_mul (k : Nat) : natBlockOffset (k * natEntryPerBlock) = k := by
  unfold natBlockOffset natEntryPerBlock
  omega

theorem nid_eq_of_block {m n : Nat} (h : natBlockOffset m = natBlockOffset n)
    (hm : m % natEntryPerBlock = n % natEntryPerBlock) : m = n := by
  unfold natBlockOffset natEntryPerBlock at *
  omega

theorem natBits_updateNatBits (s : NatState) (k : Nat) (blk : NatBlock) :
    (updateNatBits s k blk).cache = s.cache ∧ (updateNatBits s k blk).journal = s.journal ∧
      (updateNatBits s k blk).pages = s.pages ∧
      (updateNatBits s k blk).natBitmap = s.natBitmap ∧
      (updateNatBits s k blk).natBitsFlag = s.natBitsFlag := by
  unfold updateNatBits
  split
  · exact ⟨rfl, rfl, rfl, rfl, rfl⟩
  · simp only
    split <;> exact ⟨rfl, rfl, rfl, rfl, rfl⟩

/-! ## Flushing entries -/

/-- `s'` is `s` after the entries of the nids `L` were flushed. -/
structure Flushed (sbi : SbInfo) (set : Nat) (toJournal : Bool) (s : NatState)
    (L : List Nat) (s' : NatState) : Prop where
  inv : s'.cache.Inv none
  distinct : s'.journal.Distinct
  le : s'.journal.n ≤ natJournalEntries
  grow : s'.journal.n ≤ s.journal.n + L.length
  lookupOut : ∀ n, n ∉ L → s'.cache.natRoot.lookup n = s.cache.natRoot.lookup n
  lookupIn : ∀ n ∈ L, ∀ e, s.cache.natRoot.lookup n = some e →
    s'.cache.natRoot.lookup n = some { e.resetFlag with isDirty := false }
  persistedOut : ∀ n, n ∉ L → persisted sbi s' n = persisted sbi s n
  persistedIn : ∀ n ∈ L, ∀ e, s.cache.natRoot.lookup n = some e →
    persisted sbi s' n = e.raw
  viewOut : ∀ n, n ∉ L → s'.journal.view n = s.journal.view n
  journal : toJournal = false → s'.journal = s.journal
  natBitmap : s'.natBitmap = s.natBitmap
  natBitsFlag : s'.natBitsFlag = s.natBitsFlag
  keys : s'.cache.natSetRoot.keys = s.cache.natSetRoot.keys
  otherSets : ∀ k, k ≠ set → s'.cache.natSetRoot.lookup k = s.cache.natSetRoot.lookup k

theorem clearNatCacheDirty_sets (c : NatCache) {set nid k : Nat} (h : k ≠ set) :
    (c.clearNatCacheDirty set nid).natSetRoot.lookup k = c.natSetRoot.lookup k := by
  unfold NatCache.clearNatCacheDirty NatCache.listDel
  simp only [RadixTree.lookup_modify_of_ne _ _ h]

theorem cleanEntry_lookup (c : NatCache) (set nid n : Nat) :
    (cleanEntry c set nid).natRoot.lookup n =
      if n = nid then (c.natRoot.lookup nid).map fun e => { e.resetFlag with isDirty := false }
      else c.natRoot.lookup n := by
  unfold cleanEntry
  rw [NatCache.clearNatCacheDirty_lookup]
  by_cases hn : n = nid
  · rw [if_pos hn, if_pos hn, RadixTree.lookup_modify_self, Option.map_map]
    rfl
  · rw [if_neg hn, if_neg hn, RadixTree.lookup_modify_of_ne _ _ hn]

/-- Resetting the flags of a flushable entry leaves it flushable on the same list. -/
theorem cleanEntry_inv {c : NatCache} {nid : Nat} {e : NatEntry} (h : c.Inv none)
    (he : c.natRoot.lookup nid = some e) (hd : e.isDirty = true) :
    (cleanEntry c (natBlockOffset nid) nid).Inv none := by
  set c' : NatCache := { c with natRoot := c.natRoot.modify nid NatEntry.resetFlag } with hc'
  have hother : ∀ n, n ≠ nid → c'.natRoot.lookup n = c.natRoot.lookup n := fun n hn =>
    RadixTree.lookup_modify_of_ne _ _ hn
  have hself : c'.natRoot.lookup nid = some e.resetFlag := by
    rw [hc', RadixTree.lookup_modify_self, he]
    rfl
  have hinv := h.modify_entry nid (f := NatEntry.resetFlag) (fun _ => rfl) fun _ => rfl
  have hinv' : c'.Inv none := by
    refine { hinv with clean := fun n _ => ?_, list := fun k st hst n _ => ?_ }
    · by_cases hn : n = nid
      · subst hn
        have hcl := h.clean n nofun
        unfold NatCache.Clean at hcl ⊢
        rw [he] at hcl
        rw [hself]
        simpa using hcl
      · exact hinv.clean n (by simpa using hn)
    · by_cases hn : n = nid
      · subst hn
        have hl := h.list k st hst n nofun
        unfold NatCache.Flushable at hl ⊢
        rw [he] at hl
        rw [hself]
        simpa [NatEntry.resetFlag] using hl
      · exact hinv.list k st hst n (by simpa using hn)
  exact hinv'.clearNatCacheDirty hself (by simpa using hd)

/-- Storing an entry changes what is persisted for its nid only. -/
theorem storeEntry_spec (sbi : SbInfo) {s : NatState} {set nid : Nat} {toJournal : Bool}
    (raw : RawNat)
    (hd : s.journal.Distinct) (hle : s.journal.n ≤ natJournalEntries)
    (hblock : natBlockOffset nid = set)
    (hroom : toJournal = true → s.journal.view nid = none → s.journal.n + 1 ≤ natJournalEntries)
    (hview : toJournal = false → s.journal.view nid = none) :
    ∃ s', storeEntry sbi set toJournal s nid raw = some s' ∧ s'.cache = s.cache ∧
      s'.free = s.free ∧ s'.natBitmap = s.natBitmap ∧ s'.natBitsFlag = s.natBitsFlag ∧
      s'.journal.Distinct ∧ s'.journal.n ≤ natJournalEntries ∧
      s'.journal.n ≤ s.journal.n + 1 ∧ (toJournal = false → s'.journal = s.journal) ∧
      (∀ n, n ≠ nid → s'.journal.view n = s.journal.view n) ∧
      persisted sbi s' nid = raw ∧ ∀ n, n ≠ nid → persisted sbi s' n = persisted sbi s n := by
  cases toJournal with
  | true =>
      obtain ⟨i, j, hloc, hput⟩ := JournalArray.put_spec hd hle nid raw (hroom rfl)
      refine ⟨{ s with journal := j.write i nid raw }, ?_, rfl, rfl, rfl, rfl, hput.distinct,
        hput.le, hput.grow, nofun, hput.view_other, ?_, ?_⟩
      · rw [storeEntry, if_pos rfl, hloc]
        rfl
      · rw [persisted]
        simp only [hput.view_self]
        rfl
      · intro n hn
        rw [persisted, persisted]
        simp only [hput.view_other n hn]
        rfl
  | false =>
      let s' : NatState := { s with
        pages := Function.update s.pages (natAddr sbi set (s.natBitmap set))
          (Function.update (s.pages (natAddr sbi set (s.natBitmap set)))
            (nid - set * natEntryPerBlock) raw) }
      refine ⟨s', rfl, rfl, rfl, rfl, rfl, hd, hle, Nat.le_succ _, fun _ => rfl, fun _ _ => rfl,
        ?_, ?_⟩
      · rw [persisted_of_view_none (s := s') (hview rfl), blockEntry, currentNatAddr, hblock]
        simp only [s', Function.update_self, nid_sub_start hblock]
      · intro n hn
        unfold persisted
        congr 1
        rw [blockEntry, blockEntry, currentNatAddr, currentNatAddr]
        simp only [s', nid_sub_start hblock]
        by_cases hk : natBlockOffset n = set
        · rw [hk, Function.update_self]
          have hmod : n % natEntryPerBlock ≠ nid % natEntryPerBlock := fun heq =>
            hn (nid_eq_of_block (hk.trans hblock.symm) heq)
          rw [Function.update_of_ne hmod]
        · rw [Function.update_of_ne fun heq => hk (natAddr_inj heq).1]

theorem flushNatEntry_spec (sbi : SbInfo) {s : NatState} {set nid : Nat} {toJournal : Bool}
    {e : NatEntry}
    (hinv : s.cache.Inv none) (hd : s.journal.Distinct) (hle : s.journal.n ≤ natJournalEntries)
    (he : s.cache.natRoot.lookup nid = some e) (hdirty : e.isDirty = true)
    (hnew : e.blkAddr ≠ newAddr) (hblock : natBlockOffset nid = set)
    (hroom : toJournal = true → s.journal.view nid = none → s.journal.n + 1 ≤ natJournalEntries)
    (hview : toJournal = false → s.journal.view nid = none) :
    ∃ s', flushNatEntry sbi set toJournal s nid = some s' ∧
      Flushed sbi set toJournal s [nid] s' := by
  obtain ⟨s₁, hstore, hcache, hfree, hbitmap, hflag, hd₁, hle₁, hgrow, hj, hview₁, hself, hother⟩ :=
    storeEntry_spec sbi e.raw hd hle hblock hroom hview
  refine ⟨{ s₁ with cache := cleanEntry s₁.cache set nid
                    free := flushFreeNid s₁.free e.resetFlag nid }, ?_, ?_⟩
  · rw [flushNatEntry, he]
    simp only [if_neg hnew, hstore]
    rfl
  · have hlook : ∀ n, (cleanEntry s₁.cache set nid).natRoot.lookup n =
        if n = nid then some { e.resetFlag with isDirty := false }
        else s.cache.natRoot.lookup n := by
      intro n
      rw [cleanEntry_lookup, hcache, he]
      rfl
    have hinv₁ : (cleanEntry s₁.cache set nid).Inv none := by
      rw [hcache, ← hblock]
      exact cleanEntry_inv hinv he hdirty
    have hsets : ∀ k, k ≠ set → (cleanEntry s₁.cache set nid).natSetRoot.lookup k =
        s.cache.natSetRoot.lookup k := by
      intro k hk
      rw [cleanEntry, clearNatCacheDirty_sets _ hk, hcache]
    refine ⟨hinv₁, hd₁, hle₁, hgrow, ?_, ?_, ?_, ?_, ?_, hj, hbitmap, hflag, ?_, hsets⟩
    · intro n hn
      rw [List.mem_singleton] at hn
      exact (hlook n).trans (if_neg hn)
    · intro n hn e' he'
      obtain rfl := List.mem_singleton.mp hn
      rw [he] at he'
      cases he'
      exact (hlook n).trans (if_pos rfl)
    · intro n hn
      rw [List.mem_singleton] at hn
      exact hother n hn
    · intro n hn e' he'
      obtain rfl := List.mem_singleton.mp hn
      rw [he] at he'
      cases he'
      exact hself
    · intro n hn
      rw [List.mem_singleton] at hn
      exact hview₁ n hn
    · show (cleanEntry s₁.cache set nid).natSetRoot.keys = _
      rw [hcache]
      rfl

theorem Flushed.refl {s : NatState} {set : Nat} {toJournal : Bool} (hinv : s.cache.Inv none)
    (hd : s.journal.Distinct) (hle : s.journal.n ≤ natJournalEntries) :
    Flushed sbi set toJournal s [] s where
  inv := hinv
  distinct := hd
  le := hle
  grow := Nat.le_add_right _ _
  lookupOut := fun _ _ => rfl
  lookupIn := fun _ h => absurd h List.not_mem_nil
  persistedOut := fun _ _ => rfl
  persistedIn := fun _ h => absurd h List.not_mem_nil
  viewOut := fun _ _ => rfl
  journal := fun _ => rfl
  natBitmap := rfl
  natBitsFlag := rfl
  keys := rfl
  otherSets := fun _ _ => rfl

/-- Flushing one entry and then the others, all different. -/
theorem Flushed.cons {s s₁ s₂ : NatState} {set nid : Nat} {toJournal : Bool} {L : List Nat}
    (hnot : nid ∉ L) (h₁ : Flushed sbi set toJournal s [nid] s₁)
    (h₂ : Flushed sbi set toJournal s₁ L s₂) : Flushed sbi set toJournal s (nid :: L) s₂ where
  inv := h₂.inv
  distinct := h₂.distinct
  le := h₂.le
  grow := by
    have a := h₁.grow
    have b := h₂.grow
    simp only [List.length_cons, List.length_nil] at *
    omega
  lookupOut := by
    intro n hn
    rw [List.mem_cons, not_or] at hn
    obtain ⟨hne, hL⟩ := hn
    rw [h₂.lookupOut n hL, h₁.lookupOut n (by simpa using hne)]
  lookupIn := by
    intro n hn e he
    rcases List.mem_cons.mp hn with rfl | hL
    · rw [h₂.lookupOut n hnot]
      exact h₁.lookupIn n (List.mem_singleton_self _) e he
    · have hne : n ≠ nid := fun heq => hnot (heq ▸ hL)
      refine h₂.lookupIn n hL e ?_
      rw [h₁.lookupOut n (by simpa using hne)]
      exact he
  persistedOut := by
    intro n hn
    rw [List.mem_cons, not_or] at hn
    obtain ⟨hne, hL⟩ := hn
    rw [h₂.persistedOut n hL, h₁.persistedOut n (by simpa using hne)]
  persistedIn := by
    intro n hn e he
    rcases List.mem_cons.mp hn with rfl | hL
    · rw [h₂.persistedOut n hnot]
      exact h₁.persistedIn n (List.mem_singleton_self _) e he
    · have hne : n ≠ nid := fun heq => hnot (heq ▸ hL)
      refine h₂.persistedIn n hL e ?_
      rw [h₁.lookupOut n (by simpa using hne)]
      exact he
  viewOut := by
    intro n hn
    rw [List.mem_cons, not_or] at hn
    obtain ⟨hne, hL⟩ := hn
    rw [h₂.viewOut n hL, h₁.viewOut n (by simpa using hne)]
  journal := fun h => (h₂.journal h).trans (h₁.journal h)
  natBitmap := h₂.natBitmap.trans h₁.natBitmap
  natBitsFlag := h₂.natBitsFlag.trans h₁.natBitsFlag
  keys := h₂.keys.trans h₁.keys
  otherSets := fun k hk => (h₂.otherSets k hk).trans (h₁.otherSets k hk)

/-- The entry loop of `__flush_nat_entry_set`. -/
theorem flushEntries_spec (sbi : SbInfo) (set : Nat) (toJournal : Bool) :
    ∀ (L : List Nat) (s : NatState), L.Nodup → s.cache.Inv none → s.journal.Distinct →
      s.journal.n ≤ natJournalEntries →
      (∀ n ∈ L, natBlockOffset n = set ∧ s.cache.Flushable n) →
      (toJournal = true → s.journal.n + L.length ≤ natJournalEntries) →
      (toJournal = false → ∀ n ∈ L, s.journal.view n = none) →
      ∃ s', L.foldlM (flushNatEntry sbi set toJournal) s = some s' ∧
        Flushed sbi set toJournal s L s'
  | [], s, _, hinv, hd, hle, _, _, _ => ⟨s, rfl, Flushed.refl hinv hd hle⟩
  | nid :: L, s, hnodup, hinv, hd, hle, hL, hroom, hview => by
    obtain ⟨hnot, hnodup'⟩ := List.nodup_cons.mp hnodup
    obtain ⟨hblock, e, he, hdirty, hnew⟩ := hL nid List.mem_cons_self
    have hroom₁ : toJournal = true → s.journal.view nid = none →
        s.journal.n + 1 ≤ natJournalEntries := by
      intro ht _
      have := hroom ht
      rw [List.length_cons] at this
      omega
    obtain ⟨s₁, hstep, h₁⟩ := flushNatEntry_spec sbi hinv hd hle he hdirty hnew hblock
      hroom₁ fun hf => hview hf nid List.mem_cons_self
    have hL₁ : ∀ n ∈ L, natBlockOffset n = set ∧ s₁.cache.Flushable n := by
      intro n hn
      obtain ⟨hb, hfl⟩ := hL n (List.mem_cons_of_mem _ hn)
      have hne : n ≠ nid := fun heq => hnot (heq ▸ hn)
      unfold NatCache.Flushable at hfl ⊢
      rw [h₁.lookupOut n (by simpa using hne)]
      exact ⟨hb, hfl⟩
    have hroom₂ : toJournal = true → s₁.journal.n + L.length ≤ natJournalEntries := by
      intro ht
      have := hroom ht
      have hg := h₁.grow
      simp only [List.length_cons, List.length_nil] at this hg
      omega
    have hview₂ : toJournal = false → ∀ n ∈ L, s₁.journal.view n = none := by
      intro hf n hn
      rw [h₁.journal hf]
      exact hview hf n (List.mem_cons_of_mem _ hn)
    obtain ⟨s₂, hrest, h₂⟩ :=
      flushEntries_spec sbi set toJournal L s₁ hnodup' h₁.inv h₁.distinct h₁.le hL₁ hroom₂
      hview₂
    refine ⟨s₂, ?_, h₁.cons hnot h₂⟩
    rw [List.foldlM_cons, hstep]
    exact hrest

/-! ## Flushing sets -/

/-- A set without entries can go. -/
theorem Inv_deleteSet {c : NatCache} {set : Nat} {st : NatEntrySet} (h : c.Inv none)
    (hst : c.natSetRoot.lookup set = some st) (hcnt : st.entryCnt = 0) :
    ({ c with natSetRoot := c.natSetRoot.delete set } : NatCache).Inv none := by
  have hget : ∀ k st', (c.natSetRoot.delete set).lookup k = some st' →
      c.natSetRoot.lookup k = some st' := by
    intro k st' hk
    by_cases hks : k = set
    · subst hks
      rw [RadixTree.lookup_delete_self] at hk
      cases hk
    · rwa [RadixTree.lookup_delete_of_ne _ hks] at hk
  refine { h with
    setNo := fun k st' hk => h.setNo k st' (hget k st' hk)
    listNodup := fun k st' hk => h.listNodup k st' (hget k st' hk)
    list := fun k st' hk => h.list k st' (hget k st' hk)
    listBlock := fun k st' hk => h.listBlock k st' (hget k st' hk)
    entryCnt := fun k st' hk => h.entryCnt k st' (hget k st' hk)
    hasSet := fun n hn => ?_ }
  obtain ⟨st', hst'⟩ := h.hasSet n hn
  by_cases hk : natBlockOffset n = set
  · have hempty := h.entryCnt set st hst
    rw [hcnt] at hempty
    have hmem : n ∈ c.dirtyIn set := NatCache.mem_dirtyIn.mpr ⟨hn, hk⟩
    rw [Finset.card_eq_zero.mp hempty.symm] at hmem
    cases hmem
  · exact ⟨st', (RadixTree.lookup_delete_of_ne _ hk).trans hst'⟩

/-- A set counts at least the entries on its list. -/
theorem length_entryList_le {c : NatCache} {set : Nat} {st : NatEntrySet} (h : c.Inv none)
    (hst : c.natSetRoot.lookup set = some st) : st.entryList.length ≤ st.entryCnt := by
  rw [h.entryCnt set st hst, ← List.toFinset_card_of_nodup (h.listNodup set st hst)]
  refine Finset.card_le_card fun n hn => ?_
  obtain ⟨hk, e, he, hd, -⟩ := (h.list set st hst n nofun).mp (List.mem_toFinset.mp hn)
  exact NatCache.mem_dirtyIn.mpr ⟨by rw [NatCache.dirty_of_lookup he, hd], hk⟩

/-- The entries a set counts (0 for a set that does not exist). -/
def setCnt (s : NatState) (k : Nat) : Nat :=
  ((s.cache.natSetRoot.lookup k).map (·.entryCnt)).getD 0

/-- The nid is one the flush of the sets `ks` writes. -/
def Due (s : NatState) (ks : List Nat) (n : Nat) : Prop :=
  natBlockOffset n ∈ ks ∧ s.cache.Flushable n

/-- `s'` is `s` after the sets `ks` were flushed. -/
structure FlushedSets (sbi : SbInfo) (s : NatState) (ks : List Nat) (s' : NatState) :
    Prop where
  inv : s'.cache.Inv none
  distinct : s'.journal.Distinct
  le : s'.journal.n ≤ natJournalEntries
  grow : s'.journal.n ≤ s.journal.n + (ks.map (setCnt s)).sum
  lookupOut : ∀ n, ¬ Due s ks n → s'.cache.natRoot.lookup n = s.cache.natRoot.lookup n
  lookupIn : ∀ n, Due s ks n → ∀ e, s.cache.natRoot.lookup n = some e →
    s'.cache.natRoot.lookup n = some { e.resetFlag with isDirty := false }
  persistedOut : ∀ n, ¬ Due s ks n → persisted sbi s' n = persisted sbi s n
  persistedIn : ∀ n, Due s ks n → ∀ e, s.cache.natRoot.lookup n = some e →
    persisted sbi s' n = e.raw
  viewOut : ∀ n, natBlockOffset n ∉ ks → s'.journal.view n = s.journal.view n
  natBitsFlag : s'.natBitsFlag = s.natBitsFlag
  otherSets : ∀ k, k ∉ ks → s'.cache.natSetRoot.lookup k = s.cache.natSetRoot.lookup k

/-- Whether `__flush_nat_entry_set` decides for the journal. -/
def setToJournal (reason : CpReason) (s : NatState) (st : NatEntrySet) : Bool :=
  !((reason.umount && s.natBitsFlag) || !hasCursumSpace s.journal st.entryCnt)

theorem room_of_setToJournal {reason : CpReason} {s : NatState} {st : NatEntrySet}
    (h : setToJournal reason s st = true) : s.journal.n + st.entryCnt ≤ natJournalEntries := by
  simp only [setToJournal, hasCursumSpace, Bool.not_eq_true', Bool.or_eq_false_iff,
    Bool.not_eq_false', decide_eq_true_eq] at h
  omega

theorem setToJournal_of_room {reason : CpReason} {s : NatState} {st : NatEntrySet}
    (hbits : (reason.umount && s.natBitsFlag) = false)
    (hroom : s.journal.n + st.entryCnt ≤ natJournalEntries) :
    setToJournal reason s st = true := by
  simp only [setToJournal, hasCursumSpace, hbits, Bool.false_or, Bool.not_not, decide_eq_true_eq]
  omega

/-- `__flush_nat_entry_set`. -/
theorem flushNatEntrySet_spec (sbi : SbInfo) {reason : CpReason} {s : NatState} {set : Nat}
    {st : NatEntrySet}
    (hinv : s.cache.Inv none) (hd : s.journal.Distinct) (hle : s.journal.n ≤ natJournalEntries)
    (hst : s.cache.natSetRoot.lookup set = some st)
    (hview : setToJournal reason s st = false → ∀ n ∈ st.entryList, s.journal.view n = none) :
    ∃ s', flushNatEntrySet sbi reason s set = some s' ∧ FlushedSets sbi s [set] s' := by
  set toJournal := setToJournal reason s st with htj
  have hset := hinv.setNo set st hst
  have hlist := fun n => hinv.list set st hst n nofun
  have hlen := length_entryList_le hinv hst
  -- the page of the set, when the set goes to its block
  set s₁ := if toJournal then s else getNextNatPage sbi s (st.set * natEntryPerBlock) with hs₁
  have hcache₁ : s₁.cache = s.cache := by rw [hs₁]; split <;> rfl
  have hjournal₁ : s₁.journal = s.journal := by rw [hs₁]; split <;> rfl
  have hflag₁ : s₁.natBitsFlag = s.natBitsFlag := by rw [hs₁]; split <;> rfl
  have hpers₁ : ∀ n, persisted sbi s₁ n = persisted sbi s n := by
    intro n
    rw [hs₁]
    split
    · rfl
    · exact persisted_getNextNatPage s _ n
  obtain ⟨s₂, hrun, h₂⟩ := flushEntries_spec sbi set toJournal
    st.entryList s₁ (hinv.listNodup set st hst) (by rw [hcache₁]; exact hinv)
    (by rw [hjournal₁]; exact hd) (by rw [hjournal₁]; exact hle)
    (by rw [hcache₁]; exact fun n hn => (hlist n).mp hn)
    (by
      intro ht
      have hroom := room_of_setToJournal (htj ▸ ht)
      rw [hjournal₁]
      omega)
    (by rw [hjournal₁]; exact hview)
  -- the NAT bits of the block
  set s₃ := if toJournal then s₂
    else updateNatBits s₂ st.set
      (s₂.pages (currentNatAddr sbi s₂ (st.set * natEntryPerBlock))) with hs₃
  have hsame : s₃.cache = s₂.cache ∧ s₃.journal = s₂.journal ∧ s₃.pages = s₂.pages ∧
      s₃.natBitmap = s₂.natBitmap ∧ s₃.natBitsFlag = s₂.natBitsFlag := by
    rw [hs₃]
    split
    · exact ⟨rfl, rfl, rfl, rfl, rfl⟩
    · exact natBits_updateNatBits _ _ _
  obtain ⟨hcache₃, hjournal₃, hpages₃, hbitmap₃, hflag₃⟩ := hsame
  have hpers₃ : ∀ n, persisted sbi s₃ n = persisted sbi s₂ n := by
    intro n
    unfold persisted blockEntry currentNatAddr
    rw [hjournal₃, hpages₃, hbitmap₃]
  set s₄ := if (s₃.cache.natSetRoot.lookup set).any (·.entryCnt = 0) then
      { s₃ with cache := { s₃.cache with natSetRoot := s₃.cache.natSetRoot.delete set } }
    else s₃ with hs₄
  have hresult : flushNatEntrySet sbi reason s set = some s₄ := by
    rw [flushNatEntrySet, hst]
    show Option.map _ (st.entryList.foldlM (flushNatEntry sbi set toJournal) s₁) = _
    rw [hrun]
    rfl
  have hinv₄ : s₄.cache.Inv none := by
    rw [hs₄]
    split
    · rename_i hany
      obtain ⟨st', hst', hcnt⟩ := (Option.any_eq_true _ _).mp hany
      refine Inv_deleteSet ?_ hst' (of_decide_eq_true hcnt)
      rw [hcache₃]
      exact h₂.inv
    · rw [hcache₃]
      exact h₂.inv
  have hroot₄ : s₄.cache.natRoot = s₂.cache.natRoot := by
    rw [hs₄]
    split <;> rw [← hcache₃]
  have hjournal₄ : s₄.journal = s₂.journal := by
    rw [hs₄]
    split <;> rw [← hjournal₃]
  have hpers₄ : ∀ n, persisted sbi s₄ n = persisted sbi s₂ n := by
    intro n
    rw [← hpers₃, hs₄]
    split <;> rfl
  have hdue : ∀ n, Due s [set] n ↔ n ∈ st.entryList := by
    intro n
    rw [hlist n, Due, List.mem_singleton]
  refine ⟨s₄, hresult, hinv₄, by rw [hjournal₄]; exact h₂.distinct,
    by rw [hjournal₄]; exact h₂.le, ?_, ?_, ?_, ?_, ?_, ?_, ?_, ?_⟩
  · have hgrow := h₂.grow
    rw [hjournal₁] at hgrow
    have hcnt : setCnt s set = st.entryCnt := by rw [setCnt, hst]; rfl
    rw [hjournal₄, List.map_singleton, List.sum_singleton, hcnt]
    omega
  · intro n hn
    rw [hroot₄, h₂.lookupOut n (fun h => hn ((hdue n).mpr h)), hcache₁]
  · intro n hn e he
    rw [hroot₄]
    exact h₂.lookupIn n ((hdue n).mp hn) e (by rw [hcache₁]; exact he)
  · intro n hn
    rw [hpers₄, h₂.persistedOut n (fun h => hn ((hdue n).mpr h)), hpers₁]
  · intro n hn e he
    rw [hpers₄]
    exact h₂.persistedIn n ((hdue n).mp hn) e (by rw [hcache₁]; exact he)
  · intro n hn
    rw [hjournal₄, h₂.viewOut n, hjournal₁]
    exact fun h => hn (by rw [List.mem_singleton]; exact hinv.listBlock set st hst n h)
  · have hflag₄ : s₄.natBitsFlag = s₃.natBitsFlag := by rw [hs₄]; split <;> rfl
    rw [hflag₄, hflag₃, h₂.natBitsFlag, hflag₁]
  · intro k hk
    rw [List.mem_singleton] at hk
    have hdel : s₄.cache.natSetRoot.lookup k = s₂.cache.natSetRoot.lookup k := by
      rw [hs₄, ← hcache₃]
      split
      · exact RadixTree.lookup_delete_of_ne _ hk
      · rfl
    rw [hdel, h₂.otherSets k hk, hcache₁]

theorem FlushedSets.refl {s : NatState} (hinv : s.cache.Inv none) (hd : s.journal.Distinct)
    (hle : s.journal.n ≤ natJournalEntries) : FlushedSets sbi s [] s where
  inv := hinv
  distinct := hd
  le := hle
  grow := Nat.le_add_right _ _
  lookupOut := fun _ _ => rfl
  lookupIn := fun _ h => absurd h.1 List.not_mem_nil
  persistedOut := fun _ _ => rfl
  persistedIn := fun _ h => absurd h.1 List.not_mem_nil
  viewOut := fun _ _ => rfl
  natBitsFlag := rfl
  otherSets := fun _ _ => rfl

/-- Flushing a set leaves the entries of the others due. -/
theorem FlushedSets.due_iff {s s₁ : NatState} {k : Nat} {ks : List Nat} (hnot : k ∉ ks)
    (h₁ : FlushedSets sbi s [k] s₁) (n : Nat) : Due s₁ ks n ↔ Due s ks n := by
  unfold Due
  refine and_congr_right fun hn => ?_
  have hne : ¬ Due s [k] n := fun h => hnot (List.mem_singleton.mp h.1 ▸ hn)
  unfold NatCache.Flushable
  rw [h₁.lookupOut n hne]

theorem due_cons {s : NatState} {k : Nat} {ks : List Nat} {n : Nat} :
    Due s (k :: ks) n ↔ Due s [k] n ∨ Due s ks n := by
  unfold Due
  rw [List.mem_cons, List.mem_singleton, or_and_right]

theorem FlushedSets.cons {s s₁ s₂ : NatState} {k : Nat} {ks : List Nat} (hnot : k ∉ ks)
    (h₁ : FlushedSets sbi s [k] s₁) (h₂ : FlushedSets sbi s₁ ks s₂) :
    FlushedSets sbi s (k :: ks) s₂ where
  inv := h₂.inv
  distinct := h₂.distinct
  le := h₂.le
  grow := by
    have a := h₁.grow
    have b := h₂.grow
    have hsum : (ks.map (setCnt s₁)) = ks.map (setCnt s) := by
      refine List.map_congr_left fun k' hk' => ?_
      have hne : k' ≠ k := fun heq => hnot (heq ▸ hk')
      rw [setCnt, setCnt, h₁.otherSets k' (by simpa using hne)]
    rw [hsum] at b
    rw [List.map_singleton, List.sum_singleton] at a
    rw [List.map_cons, List.sum_cons]
    omega
  lookupOut := by
    intro n hn
    rw [due_cons, not_or] at hn
    rw [h₂.lookupOut n (fun h => hn.2 ((h₁.due_iff hnot n).mp h)), h₁.lookupOut n hn.1]
  lookupIn := by
    intro n hn e he
    rcases due_cons.mp hn with hk | hks
    · have hout : ¬ Due s₁ ks n := fun h => hnot (List.mem_singleton.mp hk.1 ▸ h.1)
      rw [h₂.lookupOut n hout]
      exact h₁.lookupIn n hk e he
    · have hout : ¬ Due s [k] n := fun h => hnot (List.mem_singleton.mp h.1 ▸ hks.1)
      refine h₂.lookupIn n ((h₁.due_iff hnot n).mpr hks) e ?_
      rw [h₁.lookupOut n hout]
      exact he
  persistedOut := by
    intro n hn
    rw [due_cons, not_or] at hn
    rw [h₂.persistedOut n (fun h => hn.2 ((h₁.due_iff hnot n).mp h)), h₁.persistedOut n hn.1]
  persistedIn := by
    intro n hn e he
    rcases due_cons.mp hn with hk | hks
    · have hout : ¬ Due s₁ ks n := fun h => hnot (List.mem_singleton.mp hk.1 ▸ h.1)
      rw [h₂.persistedOut n hout]
      exact h₁.persistedIn n hk e he
    · have hout : ¬ Due s [k] n := fun h => hnot (List.mem_singleton.mp h.1 ▸ hks.1)
      refine h₂.persistedIn n ((h₁.due_iff hnot n).mpr hks) e ?_
      rw [h₁.lookupOut n hout]
      exact he
  viewOut := by
    intro n hn
    rw [List.mem_cons, not_or] at hn
    rw [h₂.viewOut n hn.2, h₁.viewOut n (by simpa using hn.1)]
  natBitsFlag := h₂.natBitsFlag.trans h₁.natBitsFlag
  otherSets := by
    intro k' hk'
    rw [List.mem_cons, not_or] at hk'
    rw [h₂.otherSets k' hk'.2, h₁.otherSets k' (by simpa using hk'.1)]

/-- Why every set of `ks` finds room: either all of them fit the journal, or the journal
    holds no record of their blocks. -/
def Ready (reason : CpReason) (s : NatState) (ks : List Nat) : Prop :=
  ((reason.umount && s.natBitsFlag) = false ∧
    s.journal.n + (ks.map (setCnt s)).sum ≤ natJournalEntries) ∨
  ∀ n, natBlockOffset n ∈ ks → s.journal.view n = none

/-- The run over the sets. -/
theorem flushSets_spec (sbi : SbInfo) {reason : CpReason} :
    ∀ (ks : List Nat) (s : NatState), ks.Nodup → s.cache.Inv none → s.journal.Distinct →
      s.journal.n ≤ natJournalEntries →
      (∀ k ∈ ks, ∃ st, s.cache.natSetRoot.lookup k = some st) → Ready reason s ks →
      ∃ s', ks.foldlM (flushNatEntrySet sbi reason) s = some s' ∧ FlushedSets sbi s ks s'
  | [], s, _, hinv, hd, hle, _, _ => ⟨s, rfl, FlushedSets.refl hinv hd hle⟩
  | k :: ks, s, hnodup, hinv, hd, hle, hks, hready => by
    obtain ⟨hnot, hnodup'⟩ := List.nodup_cons.mp hnodup
    obtain ⟨st, hst⟩ := hks k List.mem_cons_self
    have hcnt : setCnt s k = st.entryCnt := by rw [setCnt, hst]; rfl
    have hview : setToJournal reason s st = false →
        ∀ n ∈ st.entryList, s.journal.view n = none := by
      intro hblock n hn
      rcases hready with ⟨hbits, hroom⟩ | hnone
      · rw [List.map_cons, List.sum_cons, hcnt] at hroom
        rw [setToJournal_of_room hbits (by omega)] at hblock
        cases hblock
      · exact hnone n (by rw [hinv.listBlock k st hst n hn]; exact List.mem_cons_self)
    obtain ⟨s₁, hstep, h₁⟩ := flushNatEntrySet_spec sbi hinv hd hle hst hview
    have hother : ∀ k' ∈ ks, s₁.cache.natSetRoot.lookup k' = s.cache.natSetRoot.lookup k' := by
      intro k' hk'
      have hne : k' ≠ k := fun heq => hnot (heq ▸ hk')
      exact h₁.otherSets k' (by simpa using hne)
    have hready₁ : Ready reason s₁ ks := by
      rcases hready with ⟨hbits, hroom⟩ | hnone
      · refine Or.inl ⟨by rw [h₁.natBitsFlag]; exact hbits, ?_⟩
        have hsum : ks.map (setCnt s₁) = ks.map (setCnt s) :=
          List.map_congr_left fun k' hk' => by rw [setCnt, setCnt, hother k' hk']
        have hgrow := h₁.grow
        rw [List.map_singleton, List.sum_singleton] at hgrow
        rw [List.map_cons, List.sum_cons] at hroom
        rw [hsum]
        omega
      · refine Or.inr fun n hn => ?_
        have hne : natBlockOffset n ∉ [k] := fun h => hnot (List.mem_singleton.mp h ▸ hn)
        rw [h₁.viewOut n hne]
        exact hnone n (List.mem_cons_of_mem _ hn)
    obtain ⟨s₂, hrest, h₂⟩ := flushSets_spec sbi ks s₁ hnodup' h₁.inv h₁.distinct h₁.le
      (fun k' hk' => by
        rw [hother k' hk']
        exact hks k' (List.mem_cons_of_mem _ hk')) hready₁
    refine ⟨s₂, ?_, h₁.cons hnot h₂⟩
    rw [List.foldlM_cons, hstep]
    exact hrest

/-! ## The order of the sets -/

theorem insertSet_perm (cnt : Nat → Nat) (nes : Nat) (l : List Nat) :
    (insertSet cnt nes l).Perm (nes :: l) := by
  induction l with
  | nil => rfl
  | cons cur rest ih =>
      rw [insertSet]
      split
      · rfl
      · exact (ih.cons cur).trans (List.Perm.swap nes cur rest)

theorem adjustNatEntrySet_perm (cnt : Nat → Nat) (max : Nat) (head : List Nat) (nes : Nat) :
    (adjustNatEntrySet cnt max head nes).Perm (nes :: head) := by
  unfold adjustNatEntrySet
  split
  · exact List.perm_append_singleton nes head
  · exact insertSet_perm cnt nes head

theorem foldl_adjust_perm (cnt : Nat → Nat) (max : Nat) (l : List Nat) :
    ∀ head : List Nat, (l.foldl (adjustNatEntrySet cnt max) head).Perm (l ++ head) := by
  induction l with
  | nil => exact fun head => List.Perm.refl head
  | cons k l ih =>
      intro head
      refine (ih _).trans ?_
      refine ((adjustNatEntrySet_perm cnt max head k).append_left l).trans ?_
      exact List.perm_middle

theorem collectSets_perm (s : NatState) : (collectSets s).Perm
    (s.cache.natSetRoot.gangLoop setvecSize (s.cache.natSetRoot.keys.card + 1) 0) := by
  have h := foldl_adjust_perm (fun k => ((s.cache.natSetRoot.lookup k).map (·.entryCnt)).getD 0)
    (natJournalEntries - s.journal.n)
    (s.cache.natSetRoot.gangLoop setvecSize (s.cache.natSetRoot.keys.card + 1) 0) []
  rwa [List.append_nil] at h

/-- Every set is flushed, once. -/
theorem collectSets_spec (s : NatState) :
    (collectSets s).Nodup ∧ ∀ k, k ∈ collectSets s ↔ k ∈ s.cache.natSetRoot.keys := by
  have hperm := collectSets_perm s
  refine ⟨hperm.nodup_iff.mpr (RadixTree.nodup_gangLoop _ _ _ _).1, fun k => ?_⟩
  rw [hperm.mem_iff, RadixTree.mem_gangLoop _ (by decide)]
  · simp
  · have := Finset.card_filter_le s.cache.natSetRoot.keys (0 ≤ ·)
    omega

/-- The sets together count the dirty entries. -/
theorem sum_setCnt {s : NatState} (hinv : s.cache.Inv none) :
    ((collectSets s).map (setCnt s)).sum = s.cache.dirtyNatCnt := by
  obtain ⟨hnodup, hmem⟩ := collectSets_spec s
  have hset : (collectSets s).toFinset = s.cache.natSetRoot.keys := by
    ext k
    rw [List.mem_toFinset, hmem]
  have hmaps : Set.MapsTo natBlockOffset (s.cache.dirtyKeys : Set Nat)
      (s.cache.natSetRoot.keys : Set Nat) := by
    intro n hn
    obtain ⟨st, hst⟩ := hinv.hasSet n (NatCache.mem_dirtyKeys.mp hn)
    exact RadixTree.mem_keys_of_lookup hst
  rw [← List.sum_toFinset _ hnodup, hset, hinv.dirtyCnt,
    Finset.card_eq_sum_card_fiberwise hmaps]
  refine Finset.sum_congr rfl fun k hk => ?_
  obtain ⟨st, hst⟩ := Option.isSome_iff_exists.mp ((s.cache.natSetRoot.mem_keys k).mp hk)
  have hcnt : setCnt s k = st.entryCnt := by rw [setCnt, hst]; rfl
  rw [hcnt, hinv.entryCnt k st hst]
  rfl

/-! ## Draining the journal -/

/-- `s'` is `s` after the first `m` journal slots went into the cache. -/
structure Drained (sbi : SbInfo) (s : NatState) (m : Nat) (s' : NatState) : Prop where
  inv : s'.cache.Inv none
  journal : s'.journal = s.journal
  pages : s'.pages = s.pages
  natBitmap : s'.natBitmap = s.natBitmap
  natBitsFlag : s'.natBitsFlag = s.natBitsFlag
  lookupOut : ∀ n, (∀ i < m, (s.journal.slot i).1 ≠ n) →
    s'.cache.natRoot.lookup n = s.cache.natRoot.lookup n
  lookupIn : ∀ i < m, ∃ e, s'.cache.natRoot.lookup (s.journal.slot i).1 = some e ∧
    e.isDirty = true ∧ e.raw = nodeInfo sbi s (s.journal.slot i).1

theorem initNatEntry_lookup (c : NatCache) (ne : NatEntry) (raw : RawNat) (n : Nat) :
    (c.initNatEntry ne (some raw)).natRoot.lookup n =
      if n = ne.nid then some (ne.fillRaw raw) else c.natRoot.lookup n := by
  unfold NatCache.initNatEntry
  by_cases h : n = ne.nid
  · rw [if_pos h, h, RadixTree.lookup_insert_self]
  · rw [if_neg h, RadixTree.lookup_insert_of_ne _ _ h]

/-- One journal slot: its nid ends up cached and dirty with the value it had. -/
theorem removeNatInJournal_spec {s s' : NatState} {m : Nat} (hd : s.journal.Distinct)
    (hm : m < s.journal.n) (h : Drained sbi s m s') :
    Drained sbi s (m + 1) (removeNatInJournal s' m) := by
  set nid := (s.journal.slot m).1 with hnid
  set raw := (s.journal.slot m).2 with hraw
  have hfresh : s'.cache.natRoot.lookup nid = s.cache.natRoot.lookup nid :=
    h.lookupOut nid fun i hi heq => by
      have := hd i m (by omega) hm heq
      omega
  -- the entry of the nid before it is marked dirty
  obtain ⟨c, e, hc, hinv, he, hother, heraw⟩ : ∃ (c : NatCache) (e : NatEntry),
      grabEntry s'.cache nid raw = c ∧ c.Inv none ∧ c.natRoot.lookup nid = some e ∧
      (∀ n, n ≠ nid → c.natRoot.lookup n = s'.cache.natRoot.lookup n) ∧
      e.raw = nodeInfo sbi s nid := by
    unfold grabEntry
    cases hl : s'.cache.natRoot.lookup nid with
    | some e =>
        refine ⟨s'.cache, e, rfl, h.inv, hl, fun _ _ => rfl, ?_⟩
        rw [hfresh] at hl
        rw [nodeInfo, hl]
    | none =>
        refine ⟨_, (NatEntry.alloc nid).fillRaw raw, rfl, h.inv.initNatEntry _ hl, ?_, ?_, ?_⟩
        · rw [initNatEntry_lookup]
          exact if_pos rfl
        · intro n hn
          rw [initNatEntry_lookup]
          exact if_neg hn
        · rw [hfresh] at hl
          have hview := hd.view_slot hm
          rw [nodeInfo, hl, persisted, hview, NatEntry.raw_fillRaw]
          rfl
  have henid : e.nid = nid := hinv.key nid e he
  have hstep : (removeNatInJournal s' m).cache = c.setNatCacheDirty nid := by
    rw [removeNatInJournal, h.journal]
    simp only [← hnid, ← hraw]
    rw [hc]
  have hlook : ∀ n, (removeNatInJournal s' m).cache.natRoot.lookup n =
      if n = nid then some { e with isDirty := true } else s'.cache.natRoot.lookup n := by
    intro n
    rw [hstep, NatCache.setNatCacheDirty_lookup he henid]
    by_cases hn : n = nid
    · rw [if_pos hn, if_pos hn]
    · rw [if_neg hn, if_neg hn, hother n hn]
  refine ⟨?_, h.journal, h.pages, h.natBitmap, h.natBitsFlag, ?_, ?_⟩
  · rw [hstep]
    exact (hinv.relax (some nid)).setNatCacheDirty he
  · intro n hn
    have hne : n ≠ nid := fun heq => hn m (Nat.lt_succ_self m) heq.symm
    rw [hlook, if_neg hne]
    exact h.lookupOut n fun i hi => hn i (by omega)
  · intro i hi
    by_cases him : i = m
    · subst him
      exact ⟨{ e with isDirty := true }, by rw [hlook, if_pos rfl], rfl, heraw⟩
    · obtain ⟨e', he', hd', hr'⟩ := h.lookupIn i (by omega)
      have hne : (s.journal.slot i).1 ≠ nid := fun heq => by
        have := hd i m (by omega) hm heq
        omega
      exact ⟨e', by rw [hlook, if_neg hne]; exact he', hd', hr'⟩

theorem removeNatsLoop_spec (sbi : SbInfo) {s : NatState} (hinv : s.cache.Inv none)
    (hd : s.journal.Distinct) : ∀ m ≤ s.journal.n,
    Drained sbi s m ((List.range m).foldl removeNatInJournal s) := by
  intro m
  induction m with
  | zero =>
      intro _
      exact ⟨hinv, rfl, rfl, rfl, rfl, fun _ _ => rfl, fun i hi => absurd hi (by omega)⟩
  | succ m ih =>
      intro hm
      rw [List.range_succ, List.foldl_append]
      exact removeNatInJournal_spec hd (by omega) (ih (by omega))

/-- After the drain the journal is empty and every nid it held is cached and dirty. -/
theorem removeNatsInJournal_spec (sbi : SbInfo) {s : NatState} (hinv : s.cache.Inv none)
    (hd : s.journal.Distinct) :
    (removeNatsInJournal s).cache.Inv none ∧ (removeNatsInJournal s).journal.n = 0 ∧
    (removeNatsInJournal s).natBitsFlag = s.natBitsFlag ∧
    (∀ n, blockEntry sbi (removeNatsInJournal s) n = blockEntry sbi s n) ∧
    (∀ n, s.journal.view n = none →
      (removeNatsInJournal s).cache.natRoot.lookup n = s.cache.natRoot.lookup n) ∧
    ∀ n r, s.journal.view n = some r →
      ∃ e, (removeNatsInJournal s).cache.natRoot.lookup n = some e ∧ e.isDirty = true ∧
        e.raw = nodeInfo sbi s n := by
  have h := removeNatsLoop_spec sbi hinv hd s.journal.n le_rfl
  refine ⟨h.inv, rfl, h.natBitsFlag, fun n => ?_, fun n hn => ?_, fun n r hn => ?_⟩
  · have hpages : (removeNatsInJournal s).pages = s.pages := h.pages
    have hbitmap : (removeNatsInJournal s).natBitmap = s.natBitmap := h.natBitmap
    rw [blockEntry, blockEntry, currentNatAddr, currentNatAddr, hpages, hbitmap]
  · exact h.lookupOut n (JournalArray.view_eq_none.mp hn)
  · obtain ⟨i, hi, hslot⟩ := JournalArray.view_eq_some hn
    obtain ⟨e, he, hdirty, hraw⟩ := h.lookupIn i hi
    rw [hslot] at he hraw
    exact ⟨e, he, hdirty, hraw⟩

/-! ## The flush -/

/-- The value each nid should have after the flush: the cached one if it is dirty and has
    a block, the persisted one otherwise. -/
def Expected (sbi : SbInfo) (s : NatState) (n : Nat) (r : RawNat) : Prop :=
  (s.cache.Flushable n → r = nodeInfo sbi s n) ∧
    (¬ s.cache.Flushable n → r = persisted sbi s n)

/-- The flush succeeds, keeps the journal well formed, and gives every nid the value it
    should have. -/
def FlushPersists (sbi : SbInfo) (reason : CpReason) (s : NatState) : Prop :=
  ∃ s', flushNatEntries sbi reason s = some s' ∧ s'.journal.Distinct ∧
    s'.journal.n ≤ natJournalEntries ∧ ∀ n, Expected sbi s n (persisted sbi s' n)

/-- The drained journal held no record that its block lacks for a nid whose address is
    `NEW_ADDR`. -/
def NoStrandedRecord (sbi : SbInfo) (s : NatState) : Prop :=
  ∀ n r, s.journal.view n = some r → (nodeInfo sbi s n).blockAddr = newAddr →
    blockEntry sbi s n = r

theorem dirtyKeys_eq_empty {c : NatCache} (h : c.Inv none) (hz : c.dirtyNatCnt = 0) (n : Nat) :
    ¬ c.Flushable n := by
  rintro ⟨e, he, hd, -⟩
  have hmem : n ∈ c.dirtyKeys := NatCache.mem_dirtyKeys.mpr (by
    rw [NatCache.dirty_of_lookup he, hd])
  rw [h.dirtyCnt] at hz
  rw [Finset.card_eq_zero.mp hz] at hmem
  cases hmem

/-- The sets the flush collects hold every flushable nid. -/
theorem due_collectSets {s : NatState} (hinv : s.cache.Inv none) (n : Nat) :
    Due s (collectSets s) n ↔ s.cache.Flushable n := by
  refine ⟨fun hdue => hdue.2, fun hfl => ⟨?_, hfl⟩⟩
  obtain ⟨e, he, hdirty, -⟩ := hfl
  obtain ⟨st, hst⟩ := hinv.hasSet n (by rw [NatCache.dirty_of_lookup he, hdirty])
  exact ((collectSets_spec s).2 _).mpr (RadixTree.mem_keys_of_lookup hst)

/-- The run over all sets, from any state whose sets all find room. -/
theorem flushAll_spec (sbi : SbInfo) {reason : CpReason} {s : NatState} (hinv : s.cache.Inv none)
    (hd : s.journal.Distinct) (hle : s.journal.n ≤ natJournalEntries)
    (hready : Ready reason s (collectSets s)) :
    ∃ s', (collectSets s).foldlM (flushNatEntrySet sbi reason) s = some s' ∧
      FlushedSets sbi s (collectSets s) s' ∧
      (∀ n, Due s (collectSets s) n ↔ s.cache.Flushable n) := by
  obtain ⟨hnodup, hmem⟩ := collectSets_spec s
  obtain ⟨s', hrun, h⟩ := flushSets_spec sbi (collectSets s) s hnodup hinv hd hle
    (fun k hk => Option.isSome_iff_exists.mp
      ((s.cache.natSetRoot.mem_keys k).mp ((hmem k).mp hk))) hready
  exact ⟨s', hrun, h, due_collectSets hinv⟩

theorem nodeInfo_of_lookup {s : NatState} {n : Nat} {e : NatEntry}
    (h : s.cache.natRoot.lookup n = some e) : nodeInfo sbi s n = e.raw := by
  rw [nodeInfo, h]

/-- Without draining, every nid gets its value. -/
theorem flush_no_drain {reason : CpReason} {s : NatState} (hwf : s.Wf sbi)
    (hz : s.cache.dirtyNatCnt ≠ 0) (hno : drainsJournal reason s = false) :
    ∃ s', flushNatEntries sbi reason s = some s' ∧
      FlushedSets sbi s (collectSets s) s' ∧ ∀ n, Expected sbi s n (persisted sbi s' n) := by
  simp only [drainsJournal, hasCursumSpace, Bool.or_eq_false_iff, Bool.not_eq_false',
    decide_eq_true_eq] at hno
  obtain ⟨hbits, hspace⟩ := hno
  have hready : Ready reason s (collectSets s) := by
    refine Or.inl ⟨hbits, ?_⟩
    rw [sum_setCnt hwf.cache]
    omega
  obtain ⟨s', hrun, h, hdue⟩ := flushAll_spec sbi hwf.cache hwf.distinct hwf.le hready
  refine ⟨s', ?_, h, fun n => ⟨fun hfl => ?_, fun hfl => ?_⟩⟩
  · rw [flushNatEntries, if_neg hz]
    have hdr : drainsJournal reason s = false := by
      simp only [drainsJournal, hasCursumSpace, Bool.or_eq_false_iff, Bool.not_eq_false',
        decide_eq_true_eq]
      exact ⟨hbits, hspace⟩
    rw [hdr]
    exact hrun
  · obtain ⟨e, he, hd⟩ := hfl
    rw [h.persistedIn n ((hdue n).mpr ⟨e, he, hd⟩) e he, nodeInfo_of_lookup he]
  · exact h.persistedOut n fun hd => hfl ((hdue n).mp hd)

/-- With draining: the values of the nids the journal held none of, of those it held, and
    of those whose record is dropped. -/
theorem flush_drain {reason : CpReason} {s : NatState} (hwf : s.Wf sbi)
    (hz : s.cache.dirtyNatCnt ≠ 0) (hdrain : drainsJournal reason s = true) :
    ∃ s', flushNatEntries sbi reason s = some s' ∧
      FlushedSets sbi (removeNatsInJournal s) (collectSets (removeNatsInJournal s)) s' ∧
      (∀ n, s.journal.view n = none → Expected sbi s n (persisted sbi s' n)) ∧
      (∀ n r, s.journal.view n = some r → (nodeInfo sbi s n).blockAddr ≠ newAddr →
        Expected sbi s n (persisted sbi s' n)) ∧
      ∀ n r, s.journal.view n = some r → (nodeInfo sbi s n).blockAddr = newAddr →
        persisted sbi s' n = blockEntry sbi s n := by
  obtain ⟨hinv, hn0, -, hblock, hout, hin⟩ := removeNatsInJournal_spec sbi hwf.cache
    hwf.distinct
  set s₁ := removeNatsInJournal s with hs₁
  have hnone : ∀ n, s₁.journal.view n = none := JournalArray.view_of_n_zero hn0
  have hpers₁ : ∀ n, persisted sbi s₁ n = blockEntry sbi s n := fun n => by
    rw [persisted_of_view_none (hnone n), hblock]
  obtain ⟨s', hrun, h, hdue⟩ := flushAll_spec sbi hinv
    (fun a _ ha => absurd ha (by rw [hn0]; omega)) (by rw [hn0]; exact Nat.zero_le _)
    (Or.inr fun n _ => hnone n)
  refine ⟨s', ?_, h, fun n hv => ⟨fun hfl => ?_, fun hfl => ?_⟩, fun n r hv hne => ?_,
    fun n r hv heq => ?_⟩
  · rw [flushNatEntries, if_neg hz, if_pos hdrain]
    exact hrun
  · obtain ⟨e, he, hd, hne⟩ := hfl
    have he₁ := (hout n hv).trans he
    rw [h.persistedIn n ((hdue n).mpr ⟨e, he₁, hd, hne⟩) e he₁, nodeInfo_of_lookup he]
  · have hnot : ¬ Due s₁ (collectSets s₁) n := by
      rw [hdue]
      unfold NatCache.Flushable
      rw [hout n hv]
      exact hfl
    rw [h.persistedOut n hnot, hpers₁, persisted_of_view_none hv]
  · -- the record is merged into the nid's set and written with it
    obtain ⟨e, he, hd, hraw⟩ := hin n r hv
    have hval : persisted sbi s' n = nodeInfo sbi s n := by
      have hblk : e.blkAddr ≠ newAddr := by rw [← hraw] at hne; exact hne
      rw [h.persistedIn n ((hdue n).mpr ⟨e, he, hd, hblk⟩) e he, hraw]
    refine ⟨fun _ => hval, fun hfl => ?_⟩
    rw [hval, nodeInfo]
    cases hl : s.cache.natRoot.lookup n with
    | none => rfl
    | some e₀ =>
        refine hwf.coherent n e₀ hl ?_
        rw [nodeInfo_of_lookup hl] at hne
        cases hd₀ : e₀.isDirty with
        | false => rfl
        | true => exact absurd ⟨e₀, hl, hd₀, hne⟩ hfl
  · -- a `NEW_ADDR` entry is on no list, and its record is gone
    obtain ⟨e, he, hd, hraw⟩ := hin n r hv
    have hnot : ¬ Due s₁ (collectSets s₁) n := by
      rw [hdue]
      rintro ⟨e', he', -, hne⟩
      rw [he] at he'
      cases he'
      rw [← hraw] at heq
      exact hne heq
    rw [h.persistedOut n hnot, hpers₁]

/-- When the flush loses a record: the exact condition. -/
theorem flushPersists_iff {reason : CpReason} {s : NatState} (hwf : s.Wf sbi) :
    FlushPersists sbi reason s ↔
      s.cache.dirtyNatCnt = 0 ∨ drainsJournal reason s = false ∨ NoStrandedRecord sbi s := by
  by_cases hz : s.cache.dirtyNatCnt = 0
  · refine ⟨fun _ => Or.inl hz, fun _ => ⟨s, by rw [flushNatEntries, if_pos hz], hwf.distinct,
      hwf.le, fun n => ⟨fun hfl => absurd hfl (dirtyKeys_eq_empty hwf.cache hz n), fun _ => rfl⟩⟩⟩
  · rw [or_iff_right hz]
    cases hdrain : drainsJournal reason s with
    | false =>
        obtain ⟨s', hrun, h, hexp⟩ := flush_no_drain hwf hz hdrain
        exact ⟨fun _ => Or.inl rfl, fun _ => ⟨s', hrun, h.distinct, h.le, hexp⟩⟩
    | true =>
        obtain ⟨s', hrun, h, hfree, hmerged, hlost⟩ := flush_drain hwf hz hdrain
        rw [or_iff_right (by simp)]
        constructor
        · rintro ⟨s'', hrun', -, -, hexp⟩ n r hv heq
          rw [hrun] at hrun'
          cases hrun'
          have hfl : ¬ s.cache.Flushable n := by
            rintro ⟨e, he, -, hne⟩
            rw [nodeInfo_of_lookup he] at heq
            exact hne heq
          rw [← hlost n r hv heq, (hexp n).2 hfl, persisted, hv]
          rfl
        · intro hstr
          refine ⟨s', hrun, h.distinct, h.le, fun n => ?_⟩
          cases hv : s.journal.view n with
          | none => exact hfree n hv
          | some r =>
              by_cases heq : (nodeInfo sbi s n).blockAddr = newAddr
              · have hval : persisted sbi s' n = persisted sbi s n := by
                  rw [hlost n r hv heq, hstr n r hv heq, persisted, hv]
                  rfl
                refine ⟨fun hfl => ?_, fun _ => hval⟩
                obtain ⟨e, he, -, hne⟩ := hfl
                rw [nodeInfo_of_lookup he] at heq
                exact absurd heq hne
              · exact hmerged n r hv heq

/-! ### A full journal -/

/-- The journal of a hot data summary with 38 freed nids, 4 to 41. -/
def freedJournal : JournalArray RawNat where
  n := natJournalEntries
  slot := fun i => (i + 4, { version := 1, ino := i + 4, blockAddr := nullAddr })

theorem freedJournal_distinct : freedJournal.Distinct := by
  intro a b _ _ h
  simp only [freedJournal] at h
  omega

/-- Nid 4, read from that journal into the cache. -/
def readCache : NatCache :=
  NatCache.init.initNatEntry (NatEntry.alloc 4) (some (freedJournal.slot 0).2)

/-- Its address is changed to `blk`. -/
def reallocCache (blk : Nat) : NatCache :=
  { readCache with natRoot := readCache.natRoot.modify 4 fun e => { e with blkAddr := blk } }

/-- The entry of nid 4 after that. -/
def reusedEntry (blk : Nat) : NatEntry :=
  { (NatEntry.alloc 4).fillRaw (freedJournal.slot 0).2 with blkAddr := blk }

/-- The nid is reallocated: its entry is dirty with address `blk`. -/
def reusedCache (blk : Nat) : NatCache := (reallocCache blk).setNatCacheDirty 4

theorem reallocCache_entry (blk : Nat) :
    (reallocCache blk).natRoot.lookup 4 = some (reusedEntry blk) := rfl

theorem reallocCache_other (blk : Nat) {n : Nat} (h : n ≠ 4) :
    (reallocCache blk).natRoot.lookup n = none := by
  unfold reallocCache readCache
  simp only [RadixTree.lookup_modify_of_ne _ _ h, initNatEntry_lookup]
  exact if_neg h

theorem reusedCache_inv (blk : Nat) : (reusedCache blk).Inv none := by
  have hread : readCache.Inv none := NatCache.inv_init.initNatEntry _ rfl
  have hre : (reallocCache blk).Inv (some 4) :=
    hread.modify_entry 4 (fun _ => rfl) fun _ => rfl
  exact hre.setNatCacheDirty (reallocCache_entry blk)

theorem reusedCache_lookup (blk n : Nat) : (reusedCache blk).natRoot.lookup n =
    if n = 4 then some { reusedEntry blk with isDirty := true } else none := by
  rw [reusedCache, NatCache.setNatCacheDirty_lookup (reallocCache_entry blk) rfl]
  by_cases h : n = 4
  · rw [if_pos h, if_pos h]
  · rw [if_neg h, if_neg h, reallocCache_other blk h]

/-- The NAT block still has the address nid 4 had before it was freed. -/
def reusedState (blk : Nat) : NatState where
  cache := reusedCache blk
  free := FreeNidInfo.init 100
  journal := freedJournal
  pages := fun _ i => if i = 4 then { version := 0, ino := 4, blockAddr := 5000 } else {}
  natBitmap := fun _ => false
  natBitsFlag := false
  fullNatBits := fun _ => false
  emptyNatBits := fun _ => false

theorem reusedState_wf (blk : Nat) : (reusedState blk).Wf smallSbi where
  cache := reusedCache_inv blk
  distinct := freedJournal_distinct
  le := le_rfl
  coherent := by
    intro n e he hclean
    have hl : (reusedCache blk).natRoot.lookup n = some e := he
    rw [reusedCache_lookup] at hl
    split at hl
    · rw [← Option.some.inj hl] at hclean
      cases hclean
    · cases hl

theorem reusedState_nodeInfo (blk : Nat) :
    nodeInfo smallSbi (reusedState blk) 4 = { version := 1, ino := 4, blockAddr := blk } :=
  nodeInfo_of_lookup (s := reusedState blk) (reusedCache_lookup blk 4)

theorem reusedState_drains (blk : Nat) : drainsJournal {} (reusedState blk) = true := by
  have hcnt : (reusedState blk).cache.dirtyNatCnt = 1 := by
    refine (reusedCache_inv blk).dirtyCnt.trans (Finset.card_eq_one.mpr ⟨4, ?_⟩)
    ext n
    rw [NatCache.mem_dirtyKeys, Finset.mem_singleton, NatCache.dirty]
    show (match (reusedCache blk).natRoot.lookup n with
      | some e => e.isDirty
      | none => false) = true ↔ _
    rw [reusedCache_lookup]
    by_cases h : n = 4
    · simp [h]
    · simp [h]
  rw [drainsJournal, hcnt]
  rfl

/-- A reallocated nid that has its block: nothing is lost. -/
theorem reusedState_flushPersists : FlushPersists smallSbi {} (reusedState 7000) := by
  refine (flushPersists_iff (reusedState_wf 7000)).mpr (Or.inr (Or.inr fun n r hv heq => ?_))
  by_cases h : n = 4
  · subst h
    rw [reusedState_nodeInfo] at heq
    exact absurd heq (by decide)
  · obtain ⟨i, -, hslot⟩ := JournalArray.view_eq_some hv
    have hl : (reusedState 7000).cache.natRoot.lookup n = none := by
      show (reusedCache 7000).natRoot.lookup n = none
      rw [reusedCache_lookup, if_neg h]
    have hinfo : nodeInfo smallSbi (reusedState 7000) n = r := by
      rw [nodeInfo, hl, persisted, hv]
      rfl
    have hnull : r.blockAddr = nullAddr := by rw [← (Prod.mk.inj hslot).2]
    rw [hinfo, hnull] at heq
    exact absurd heq (by decide)

/-- A reallocated nid still without a block: its journal record is dropped, and the nid is
    back at the block it had before it was freed. -/
theorem reusedState_not_flushPersists : (reusedState newAddr).Wf smallSbi ∧
    ¬ FlushPersists smallSbi {} (reusedState newAddr) := by
  refine ⟨reusedState_wf _, ?_⟩
  rintro ⟨s', hrun, -, -, hexp⟩
  have hz : (reusedState newAddr).cache.dirtyNatCnt ≠ 0 := by decide
  obtain ⟨s'', hrun', -, -, -, hlost⟩ :=
    flush_drain (reusedState_wf newAddr) hz (reusedState_drains newAddr)
  rw [hrun] at hrun'
  cases hrun'
  have hview : (reusedState newAddr).journal.view 4 = some (freedJournal.slot 0).2 :=
    freedJournal_distinct.view_slot (i := 0) (by decide)
  have hafter := hlost 4 _ hview (by rw [reusedState_nodeInfo])
  have hnot : ¬ (reusedState newAddr).cache.Flushable 4 := by
    rintro ⟨e, he, -, hne⟩
    have hl : (reusedCache newAddr).natRoot.lookup 4 = some e := he
    rw [reusedCache_lookup, if_pos rfl] at hl
    rw [← Option.some.inj hl] at hne
    exact hne rfl
  have hbefore := (hexp 4).2 hnot
  rw [hafter, persisted, hview] at hbefore
  exact absurd hbefore (by decide)

end F2fs.Node

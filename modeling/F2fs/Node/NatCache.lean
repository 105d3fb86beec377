/-
  The NAT entry cache of `node.c`: the entries by nid, the list of clean entries,
  and the sets that collect the dirty entries of one NAT block for the flush.

  `struct nat_entry` objects are identified by their nid, so a list of entries is
  a list of nids, and `ne->list` is on at most one list at a time: `listDel`
  removes the nid from the two lists it can be on.
-/
import F2fs.Basic
import F2fs.Lib.RadixTree

namespace F2fs.Node

/-! ## Entries -/

/-- `struct f2fs_nat_entry`, the record on disk and in the journal. -/
structure RawNat where
  version : UInt8 := 0
  ino : Nat := 0
  blockAddr : Nat := 0
  deriving DecidableEq, Repr

/-- `struct nat_entry`: a `node_info` with its flag bits. -/
structure NatEntry where
  nid : Nat
  ino : Nat := 0
  blkAddr : Nat := 0
  version : UInt8 := 0
  isCheckpointed : Bool := false
  hasFsyncedInode : Bool := false
  hasLastFsync : Bool := false
  isDirty : Bool := false
  deriving DecidableEq, Repr

/-- `struct nat_entry_set`. -/
structure NatEntrySet where
  set : Nat
  entryList : List Nat := []
  entryCnt : Nat := 0
  deriving DecidableEq, Repr

namespace NatEntry

/-- `raw_nat_from_node_info`. -/
def raw (e : NatEntry) : RawNat := { version := e.version, ino := e.ino, blockAddr := e.blkAddr }

/-- `node_info_from_raw_nat`. -/
def fillRaw (e : NatEntry) (r : RawNat) : NatEntry :=
  { e with version := r.version, ino := r.ino, blkAddr := r.blockAddr }

/-- `nat_reset_flag`. -/
def resetFlag (e : NatEntry) : NatEntry :=
  { e with isCheckpointed := true, hasFsyncedInode := false, hasLastFsync := true }

/-- `__alloc_nat_entry`. -/
def alloc (nid : Nat) : NatEntry := ({ nid := nid } : NatEntry).resetFlag

@[simp] theorem isDirty_resetFlag (e : NatEntry) : e.resetFlag.isDirty = e.isDirty := rfl

@[simp] theorem raw_fillRaw (e : NatEntry) (r : RawNat) : (e.fillRaw r).raw = r := rfl

end NatEntry

/-- `NAT_BLOCK_OFFSET`. -/
def natBlockOffset (nid : Nat) : Nat := nid / natEntryPerBlock

/-! ## The cache -/

/-- The fields of `struct f2fs_nm_info` that make up the NAT cache. -/
structure NatCache where
  natRoot : RadixTree NatEntry
  natSetRoot : RadixTree NatEntrySet
  natEntries : List Nat
  natCnt : Nat
  dirtyNatCnt : Nat

namespace NatCache

/-- The cache `init_node_manager` sets up. -/
def init : NatCache where
  natRoot := RadixTree.empty
  natSetRoot := RadixTree.empty
  natEntries := []
  natCnt := 0
  dirtyNatCnt := 0

/-- `__init_nat_entry`. -/
def initNatEntry (c : NatCache) (ne : NatEntry) (raw : Option RawNat) : NatCache :=
  { c with
    natRoot := c.natRoot.insert ne.nid (match raw with
      | some r => ne.fillRaw r
      | none => ne)
    natEntries := c.natEntries ++ [ne.nid]
    natCnt := c.natCnt + 1 }

/-- `__del_from_nat_cache`, for an entry on the clean list. -/
def delFromNatCache (c : NatCache) (nid : Nat) : NatCache :=
  { c with
    natEntries := c.natEntries.erase nid
    natRoot := c.natRoot.delete nid
    natCnt := c.natCnt - 1 }

/-- `list_del(&ne->list)`. -/
def listDel (c : NatCache) (set nid : Nat) : NatCache :=
  { c with
    natEntries := c.natEntries.erase nid
    natSetRoot := c.natSetRoot.modify set
      fun st => { st with entryList := st.entryList.erase nid } }

/-- The set lookup at the head of `__set_nat_cache_dirty`, allocating it if missing. -/
def grabSet (c : NatCache) (set : Nat) : NatCache :=
  match c.natSetRoot.lookup set with
  | some _ => c
  | none => { c with natSetRoot := c.natSetRoot.insert set { set := set } }

/-- Count the entry as dirty, unless it is already. -/
def markDirty (c : NatCache) (set : Nat) (ne : NatEntry) : NatCache :=
  if ne.isDirty then c
  else
    { c with
      dirtyNatCnt := c.dirtyNatCnt + 1
      natSetRoot := c.natSetRoot.modify set fun st => { st with entryCnt := st.entryCnt + 1 }
      natRoot := c.natRoot.modify ne.nid fun e => { e with isDirty := true } }

/-- `refresh_list`: an entry whose block is not yet allocated is on no list. -/
def refreshList (c : NatCache) (set : Nat) (ne : NatEntry) : NatCache :=
  if ne.blkAddr = newAddr then c.listDel set ne.nid
  else
    { c.listDel set ne.nid with
      natSetRoot := (c.listDel set ne.nid).natSetRoot.modify set fun st =>
        { st with entryList := st.entryList ++ [ne.nid] } }

/-- `__set_nat_cache_dirty`, for the cached entry of `nid`. -/
def setNatCacheDirty (c : NatCache) (nid : Nat) : NatCache :=
  match c.natRoot.lookup nid with
  | none => c
  | some ne =>
    (((c.grabSet (natBlockOffset ne.nid)).markDirty (natBlockOffset ne.nid) ne).refreshList
      (natBlockOffset ne.nid) ne)

/-- `__clear_nat_cache_dirty`. -/
def clearNatCacheDirty (c : NatCache) (set nid : Nat) : NatCache :=
  let c' := c.listDel set nid
  { c' with
    natEntries := c'.natEntries ++ [nid]
    natRoot := c'.natRoot.modify nid fun e => { e with isDirty := false }
    natSetRoot := c'.natSetRoot.modify set fun st => { st with entryCnt := st.entryCnt - 1 }
    dirtyNatCnt := c'.dirtyNatCnt - 1 }

/-! ## The invariant -/

/-- The nid is cached and dirty. -/
def dirty (c : NatCache) (nid : Nat) : Bool :=
  match c.natRoot.lookup nid with
  | some e => e.isDirty
  | none => false

/-- The nid is cached and clean. -/
def Clean (c : NatCache) (nid : Nat) : Prop :=
  ∃ e, c.natRoot.lookup nid = some e ∧ e.isDirty = false

/-- The nid is dirty and its block has an address: the flush has to write it. -/
def Flushable (c : NatCache) (nid : Nat) : Prop :=
  ∃ e, c.natRoot.lookup nid = some e ∧ e.isDirty = true ∧ e.blkAddr ≠ newAddr

/-- The dirty nids. -/
def dirtyKeys (c : NatCache) : Finset Nat := c.natRoot.keys.filter fun nid => c.dirty nid

/-- The dirty nids of NAT block `k`. -/
def dirtyIn (c : NatCache) (k : Nat) : Finset Nat :=
  c.dirtyKeys.filter fun nid => natBlockOffset nid = k

/-- The lists and counters describe the entries.  `x` is the entry whose fields a
    caller is changing: its list membership is not constrained. -/
structure Inv (c : NatCache) (x : Option Nat) : Prop where
  key : ∀ nid e, c.natRoot.lookup nid = some e → e.nid = nid
  cleanNodup : c.natEntries.Nodup
  clean : ∀ nid, some nid ≠ x → (nid ∈ c.natEntries ↔ c.Clean nid)
  setNo : ∀ k st, c.natSetRoot.lookup k = some st → st.set = k
  listNodup : ∀ k st, c.natSetRoot.lookup k = some st → st.entryList.Nodup
  list : ∀ k st, c.natSetRoot.lookup k = some st → ∀ nid, some nid ≠ x →
    (nid ∈ st.entryList ↔ natBlockOffset nid = k ∧ c.Flushable nid)
  listBlock : ∀ k st, c.natSetRoot.lookup k = some st → ∀ nid ∈ st.entryList,
    natBlockOffset nid = k
  hasSet : ∀ nid, c.dirty nid = true → ∃ st, c.natSetRoot.lookup (natBlockOffset nid) = some st
  entryCnt : ∀ k st, c.natSetRoot.lookup k = some st → st.entryCnt = (c.dirtyIn k).card
  dirtyCnt : c.dirtyNatCnt = c.dirtyKeys.card
  natCnt : c.natCnt = c.natRoot.keys.card

/-! ### Dirty nids -/

@[simp] theorem mem_dirtyKeys {c : NatCache} {nid : Nat} :
    nid ∈ c.dirtyKeys ↔ c.dirty nid = true := by
  unfold dirtyKeys
  rw [Finset.mem_filter, c.natRoot.mem_keys]
  refine ⟨fun h => h.2, fun h => ⟨?_, h⟩⟩
  unfold dirty at h
  split at h
  · rename_i heq
    rw [heq]
    rfl
  · cases h

@[simp] theorem mem_dirtyIn {c : NatCache} {k nid : Nat} :
    nid ∈ c.dirtyIn k ↔ c.dirty nid = true ∧ natBlockOffset nid = k := by
  unfold dirtyIn
  rw [Finset.mem_filter, mem_dirtyKeys]

theorem dirty_of_lookup {c : NatCache} {nid : Nat} {e : NatEntry}
    (h : c.natRoot.lookup nid = some e) : c.dirty nid = e.isDirty := by
  unfold dirty
  rw [h]

/-- Counting when exactly one nid becomes dirty. -/
theorem card_dirty_set {c c' : NatCache} {nid : Nat} (hnew : c.dirty nid = false)
    (h : ∀ n, c'.dirty n = if n = nid then true else c.dirty n) :
    c'.dirtyKeys.card = c.dirtyKeys.card + 1 ∧
      ∀ k, (c'.dirtyIn k).card =
        (c.dirtyIn k).card + if natBlockOffset nid = k then 1 else 0 := by
  have hkeys : c'.dirtyKeys = insert nid c.dirtyKeys := by
    ext n
    rw [Finset.mem_insert, mem_dirtyKeys, mem_dirtyKeys, h]
    split <;> simp_all
  have hnot : nid ∉ c.dirtyKeys := by rw [mem_dirtyKeys, hnew]; exact Bool.false_ne_true
  refine ⟨by rw [hkeys, Finset.card_insert_of_notMem hnot], fun k => ?_⟩
  unfold dirtyIn
  rw [hkeys, Finset.filter_insert]
  split
  · rw [Finset.card_insert_of_notMem]
    exact fun hmem => hnot (Finset.mem_filter.mp hmem).1
  · rfl

/-- Counting when exactly one nid becomes clean. -/
theorem card_dirty_clear {c c' : NatCache} {nid : Nat} (hold : c.dirty nid = true)
    (h : ∀ n, c'.dirty n = if n = nid then false else c.dirty n) :
    c'.dirtyKeys.card = c.dirtyKeys.card - 1 ∧
      ∀ k, (c'.dirtyIn k).card =
        (c.dirtyIn k).card - if natBlockOffset nid = k then 1 else 0 := by
  have hback : ∀ n, c.dirty n = if n = nid then true else c'.dirty n := by
    intro n
    rw [h]
    split
    · rename_i heq
      rw [heq, hold]
    · rfl
  have hcount := card_dirty_set (by rw [h, if_pos rfl] : c'.dirty nid = false) hback
  refine ⟨by omega, fun k => ?_⟩
  have := hcount.2 k
  omega

/-- Nothing about counts changes when no nid becomes dirty or clean. -/
theorem dirtyKeys_congr {c c' : NatCache} (h : ∀ n, c'.dirty n = c.dirty n) :
    c'.dirtyKeys = c.dirtyKeys := by
  ext n
  rw [mem_dirtyKeys, mem_dirtyKeys, h]

theorem dirtyIn_congr {c c' : NatCache} (h : ∀ n, c'.dirty n = c.dirty n) (k : Nat) :
    c'.dirtyIn k = c.dirtyIn k := by
  unfold dirtyIn
  rw [dirtyKeys_congr h]

theorem inv_init : init.Inv none where
  key := nofun
  cleanNodup := List.nodup_nil
  clean := fun _ _ => ⟨nofun, fun ⟨_, h, _⟩ => by cases h⟩
  setNo := nofun
  listNodup := nofun
  list := nofun
  listBlock := nofun
  hasSet := nofun
  entryCnt := nofun
  dirtyCnt := rfl
  natCnt := rfl

/-! ### Steps of the list operations -/

/-- The entry is on no list. -/
def Unlinked (c : NatCache) (nid : Nat) : Prop :=
  nid ∉ c.natEntries ∧ ∀ k st, c.natSetRoot.lookup k = some st → nid ∉ st.entryList

theorem Inv.relax {c : NatCache} (h : c.Inv none) (x : Option Nat) : c.Inv x :=
  { h with
    clean := fun nid _ => h.clean nid nofun
    list := fun k st hk nid _ => h.list k st hk nid nofun }

/-- The set of another key is the one it was. -/
theorem listDel_lookup (c : NatCache) (set nid k : Nat) :
    (c.listDel set nid).natSetRoot.lookup k =
      (c.natSetRoot.lookup k).map fun st =>
        if k = set then { st with entryList := st.entryList.erase nid } else st := by
  unfold listDel
  by_cases hk : k = set
  · subst hk
    simp
  · simp only [hk, if_false]
    rw [RadixTree.lookup_modify_of_ne _ _ hk, Option.map_id']

theorem Inv.listDel {c : NatCache} {nid : Nat} (h : c.Inv (some nid)) :
    (c.listDel (natBlockOffset nid) nid).Inv (some nid) := by
  have hget : ∀ k st, (c.listDel (natBlockOffset nid) nid).natSetRoot.lookup k = some st →
      ∃ st₀, c.natSetRoot.lookup k = some st₀ ∧ st.set = st₀.set ∧ st.entryCnt = st₀.entryCnt ∧
        st.entryList = if k = natBlockOffset nid then st₀.entryList.erase nid
          else st₀.entryList := by
    intro k st hst
    rw [listDel_lookup] at hst
    obtain ⟨st₀, h₀, rfl⟩ := Option.map_eq_some_iff.mp hst
    refine ⟨st₀, h₀, ?_⟩
    split <;> exact ⟨rfl, rfl, rfl⟩
  refine ⟨h.key, h.cleanNodup.erase nid, ?_, ?_, ?_, ?_, ?_, ?_, ?_, h.dirtyCnt, h.natCnt⟩
  · intro n hn
    have hne : n ≠ nid := fun heq => hn (by rw [heq])
    have hcl := h.clean n hn
    rw [← List.mem_erase_of_ne hne] at hcl
    exact hcl
  · intro k st hst
    obtain ⟨st₀, h₀, hset, -, -⟩ := hget k st hst
    rw [hset, h.setNo k st₀ h₀]
  · intro k st hst
    obtain ⟨st₀, h₀, -, -, hl⟩ := hget k st hst
    rw [hl]
    split
    · exact (h.listNodup k st₀ h₀).erase nid
    · exact h.listNodup k st₀ h₀
  · intro k st hst n hn
    have hne : n ≠ nid := fun heq => hn (by rw [heq])
    obtain ⟨st₀, h₀, -, -, hl⟩ := hget k st hst
    have hlist := h.list k st₀ h₀ n hn
    rw [hl]
    split
    · rw [List.mem_erase_of_ne hne]
      exact hlist
    · exact hlist
  · intro k st hst n hn
    obtain ⟨st₀, h₀, -, -, hl⟩ := hget k st hst
    refine h.listBlock k st₀ h₀ n ?_
    rw [hl] at hn
    split at hn
    · exact List.mem_of_mem_erase hn
    · exact hn
  · intro n hn
    obtain ⟨st, hst⟩ := h.hasSet n hn
    refine ⟨if natBlockOffset n = natBlockOffset nid then
      { st with entryList := st.entryList.erase nid } else st, ?_⟩
    rw [listDel_lookup, hst]
    rfl
  · intro k st hst
    obtain ⟨st₀, h₀, -, hcnt, -⟩ := hget k st hst
    rw [hcnt, h.entryCnt k st₀ h₀]
    rfl

theorem Inv.unlinked_listDel {c : NatCache} {nid : Nat} (h : c.Inv (some nid)) :
    (c.listDel (natBlockOffset nid) nid).Unlinked nid := by
  refine ⟨h.cleanNodup.not_mem_erase, fun k st hst hmem => ?_⟩
  rw [listDel_lookup] at hst
  obtain ⟨st₀, h₀, rfl⟩ := Option.map_eq_some_iff.mp hst
  split at hmem
  · exact (h.listNodup k st₀ h₀).not_mem_erase hmem
  · rename_i hne
    exact hne (h.listBlock k st₀ h₀ nid hmem).symm

/-- An unlinked dirty entry without an address is where it belongs. -/
theorem Inv.settle_new {c : NatCache} {nid : Nat} {e : NatEntry} (h : c.Inv (some nid))
    (hu : c.Unlinked nid) (he : c.natRoot.lookup nid = some e) (hd : e.isDirty = true)
    (hnew : e.blkAddr = newAddr) : c.Inv none := by
  refine { h with clean := fun n _ => ?_, list := fun k st hst n _ => ?_ }
  · by_cases hn : n = nid
    · subst hn
      refine ⟨fun hmem => absurd hmem hu.1, fun ⟨e', he', hc⟩ => ?_⟩
      rw [he] at he'
      cases he'
      rw [hd] at hc
      cases hc
    · exact h.clean n (by simpa using hn)
  · by_cases hn : n = nid
    · subst hn
      refine ⟨fun hmem => absurd hmem (hu.2 k st hst), fun ⟨_, e', he', _, hne⟩ => ?_⟩
      rw [he] at he'
      cases he'
      exact absurd hnew hne
    · exact h.list k st hst n (by simpa using hn)

/-- Appending to the entry's set, the entry being dirty with an address. -/
theorem Inv.settle_set {c : NatCache} {nid : Nat} {e : NatEntry} (h : c.Inv (some nid))
    (hu : c.Unlinked nid) (he : c.natRoot.lookup nid = some e) (hd : e.isDirty = true)
    (hne : e.blkAddr ≠ newAddr) :
    ({ c with natSetRoot := c.natSetRoot.modify (natBlockOffset nid) fun st =>
        { st with entryList := st.entryList ++ [nid] } } : NatCache).Inv none := by
  have hget : ∀ k st, (c.natSetRoot.modify (natBlockOffset nid) fun st =>
      { st with entryList := st.entryList ++ [nid] }).lookup k = some st →
      ∃ st₀, c.natSetRoot.lookup k = some st₀ ∧ st.set = st₀.set ∧ st.entryCnt = st₀.entryCnt ∧
        st.entryList = if k = natBlockOffset nid then st₀.entryList ++ [nid]
          else st₀.entryList := by
    intro k st hst
    by_cases hk : k = natBlockOffset nid
    · subst hk
      rw [RadixTree.lookup_modify_self] at hst
      obtain ⟨st₀, h₀, rfl⟩ := Option.map_eq_some_iff.mp hst
      exact ⟨st₀, h₀, rfl, rfl, by rw [if_pos rfl]⟩
    · rw [RadixTree.lookup_modify_of_ne _ _ hk] at hst
      exact ⟨st, hst, rfl, rfl, by rw [if_neg hk]⟩
  refine ⟨h.key, h.cleanNodup, ?_, ?_, ?_, ?_, ?_, ?_, ?_, h.dirtyCnt, h.natCnt⟩
  · intro n _
    by_cases hn : n = nid
    · subst hn
      refine ⟨fun hmem => absurd hmem hu.1, fun ⟨e', he', hc⟩ => ?_⟩
      have he'' : c.natRoot.lookup n = some e' := he'
      rw [he] at he''
      cases he''
      rw [hd] at hc
      cases hc
    · exact h.clean n (by simpa using hn)
  · intro k st hst
    obtain ⟨st₀, h₀, hset, -, -⟩ := hget k st hst
    rw [hset, h.setNo k st₀ h₀]
  · intro k st hst
    obtain ⟨st₀, h₀, -, -, hl⟩ := hget k st hst
    rw [hl]
    split
    · refine List.nodup_append.mpr ⟨h.listNodup k st₀ h₀, List.nodup_singleton _, ?_⟩
      rintro a ha b hb rfl
      rw [List.mem_singleton.mp hb] at ha
      exact hu.2 k st₀ h₀ ha
    · exact h.listNodup k st₀ h₀
  · intro k st hst n _
    obtain ⟨st₀, h₀, -, -, hl⟩ := hget k st hst
    by_cases hn : n = nid
    · subst hn
      rw [hl]
      split
      · rename_i hk
        refine ⟨fun _ => ⟨hk.symm, e, he, hd, hne⟩, fun _ => ?_⟩
        exact List.mem_append_right _ (List.mem_singleton_self _)
      · rename_i hk
        refine ⟨fun hmem => absurd hmem (hu.2 k st₀ h₀), fun ⟨hk', _⟩ => absurd hk'.symm hk⟩
    · have hlist := h.list k st₀ h₀ n (by simpa using hn)
      rw [hl]
      split
      · rw [List.mem_append, List.mem_singleton, or_iff_left hn]
        exact hlist
      · exact hlist
  · intro k st hst n hn
    obtain ⟨st₀, h₀, -, -, hl⟩ := hget k st hst
    rw [hl] at hn
    split at hn
    · rename_i hk
      rcases List.mem_append.mp hn with hn | hn
      · exact h.listBlock k st₀ h₀ n hn
      · rw [List.mem_singleton.mp hn, hk]
    · exact h.listBlock k st₀ h₀ n hn
  · intro n hn
    obtain ⟨st, hst⟩ := h.hasSet n hn
    by_cases hk : natBlockOffset n = natBlockOffset nid
    · refine ⟨{ st with entryList := st.entryList ++ [nid] }, ?_⟩
      rw [hk] at hst ⊢
      simp only [RadixTree.lookup_modify_self, hst]
      rfl
    · exact ⟨st, by simp only [RadixTree.lookup_modify_of_ne _ _ hk, hst]⟩
  · intro k st hst
    obtain ⟨st₀, h₀, -, hcnt, -⟩ := hget k st hst
    rw [hcnt, h.entryCnt k st₀ h₀]
    rfl

/-- Appending to the clean list, the entry being clean. -/
theorem Inv.settle_clean {c : NatCache} {nid : Nat} (h : c.Inv (some nid))
    (hu : c.Unlinked nid) (hc : c.Clean nid) :
    ({ c with natEntries := c.natEntries ++ [nid] } : NatCache).Inv none := by
  refine { h with
    cleanNodup := ?_, clean := fun n _ => ?_, list := fun k st hst n _ => ?_ }
  · refine List.nodup_append.mpr ⟨h.cleanNodup, List.nodup_singleton _, ?_⟩
    rintro a ha b hb rfl
    rw [List.mem_singleton.mp hb] at ha
    exact hu.1 ha
  · rw [List.mem_append, List.mem_singleton]
    by_cases hn : n = nid
    · subst hn
      exact ⟨fun _ => hc, fun _ => Or.inr rfl⟩
    · rw [or_iff_left hn]
      exact h.clean n (by simpa using hn)
  · by_cases hn : n = nid
    · subst hn
      refine ⟨fun hmem => absurd hmem (hu.2 k st hst), fun ⟨_, e, he, hd, _⟩ => ?_⟩
      obtain ⟨e', he', hcl⟩ := hc
      have he'' : c.natRoot.lookup n = some e := he
      rw [he'] at he''
      cases he''
      rw [hcl] at hd
      cases hd
    · exact h.list k st hst n (by simpa using hn)

/-! ### The operations keep the invariant -/

/-- Fields other than the nid and the dirty bit may change while the entry is in flight. -/
theorem Inv.modify_flight {c : NatCache} {nid : Nat} (h : c.Inv (some nid))
    {f : NatEntry → NatEntry}
    (hnid : ∀ e, c.natRoot.lookup nid = some e → (f e).nid = e.nid)
    (hdirty : ∀ e, (f e).isDirty = e.isDirty) :
    ({ c with natRoot := c.natRoot.modify nid f } : NatCache).Inv (some nid) := by
  set c' : NatCache := { c with natRoot := c.natRoot.modify nid f } with hc'
  have hother : ∀ n, n ≠ nid → c'.natRoot.lookup n = c.natRoot.lookup n := fun n hn =>
    RadixTree.lookup_modify_of_ne _ _ hn
  have hself : c'.natRoot.lookup nid = (c.natRoot.lookup nid).map f :=
    RadixTree.lookup_modify_self _ _ _
  have hd : ∀ n, c'.dirty n = c.dirty n := by
    intro n
    unfold dirty
    by_cases hn : n = nid
    · subst hn
      rw [hself]
      cases c.natRoot.lookup n with
      | none => rfl
      | some e => exact hdirty e
    · rw [hother n hn]
  refine ⟨?_, h.cleanNodup, ?_, h.setNo, h.listNodup, ?_, h.listBlock, ?_, ?_, ?_, h.natCnt⟩
  · intro n e he
    by_cases hn : n = nid
    · subst hn
      rw [hself] at he
      obtain ⟨e₀, h₀, rfl⟩ := Option.map_eq_some_iff.mp he
      rw [hnid e₀ h₀]
      exact h.key n e₀ h₀
    · rw [hother n hn] at he
      exact h.key n e he
  · intro n hn
    have hne : n ≠ nid := fun heq => hn (by rw [heq])
    have hcl := h.clean n hn
    unfold Clean at hcl ⊢
    rw [hother n hne]
    exact hcl
  · intro k st hst n hn
    have hne : n ≠ nid := fun heq => hn (by rw [heq])
    have hl := h.list k st hst n hn
    unfold Flushable at hl ⊢
    rw [hother n hne]
    exact hl
  · intro n hn
    rw [hd] at hn
    exact h.hasSet n hn
  · intro k st hst
    rw [dirtyIn_congr hd]
    exact h.entryCnt k st hst
  · rw [dirtyKeys_congr hd]
    exact h.dirtyCnt

theorem Inv.modify_entry {c : NatCache} (h : c.Inv none) (nid : Nat) {f : NatEntry → NatEntry}
    (hnid : ∀ e, (f e).nid = e.nid) (hdirty : ∀ e, (f e).isDirty = e.isDirty) :
    ({ c with natRoot := c.natRoot.modify nid f } : NatCache).Inv (some nid) :=
  (h.relax (some nid)).modify_flight (fun e _ => hnid e) hdirty

/-- Flags that say nothing about lists may change at any time. -/
theorem Inv.modify_flags {c : NatCache} (h : c.Inv none) (nid : Nat) {f : NatEntry → NatEntry}
    (hnid : ∀ e, (f e).nid = e.nid) (hdirty : ∀ e, (f e).isDirty = e.isDirty)
    (hblk : ∀ e, (f e).blkAddr = e.blkAddr) :
    ({ c with natRoot := c.natRoot.modify nid f } : NatCache).Inv none := by
  set c' : NatCache := { c with natRoot := c.natRoot.modify nid f } with hc'
  have hflight : c'.Inv (some nid) := h.modify_entry nid hnid hdirty
  have hself : c'.natRoot.lookup nid = (c.natRoot.lookup nid).map f :=
    RadixTree.lookup_modify_self _ _ _
  refine { hflight with clean := fun n _ => ?_, list := fun k st hst n _ => ?_ }
  · by_cases hn : n = nid
    · subst hn
      show n ∈ c.natEntries ↔ _
      rw [h.clean n nofun, Clean, Clean, hself]
      cases c.natRoot.lookup n with
      | none => simp
      | some e => simp [hdirty]
    · exact hflight.clean n (fun heq => hn (Option.some.inj heq))
  · by_cases hn : n = nid
    · subst hn
      rw [h.list k st hst n nofun, Flushable, Flushable, hself]
      cases c.natRoot.lookup n with
      | none => simp
      | some e => simp [hdirty, hblk]
    · exact hflight.list k st hst n (fun heq => hn (Option.some.inj heq))

theorem Inv.grabSet {c : NatCache} {x : Option Nat} (h : c.Inv x) (set : Nat) :
    (c.grabSet set).Inv x := by
  unfold NatCache.grabSet
  cases hl : c.natSetRoot.lookup set with
  | some st => exact h
  | none =>
      -- no dirty entry of the block: it would have had a set
      have hempty : (c.dirtyIn set).card = 0 := by
        rw [Finset.card_eq_zero, Finset.eq_empty_iff_forall_notMem]
        intro n hn
        obtain ⟨hd, hk⟩ := mem_dirtyIn.mp hn
        obtain ⟨st, hst⟩ := h.hasSet n hd
        rw [hk, hl] at hst
        cases hst
      have hget : ∀ k st, (c.natSetRoot.insert set { set := set }).lookup k = some st →
          (k = set ∧ st = { set := set }) ∨ c.natSetRoot.lookup k = some st := by
        intro k st hst
        by_cases hk : k = set
        · subst hk
          rw [RadixTree.lookup_insert_self] at hst
          exact Or.inl ⟨rfl, (Option.some.inj hst).symm⟩
        · rw [RadixTree.lookup_insert_of_ne _ _ hk] at hst
          exact Or.inr hst
      refine ⟨h.key, h.cleanNodup, h.clean, ?_, ?_, ?_, ?_, ?_, ?_, h.dirtyCnt, h.natCnt⟩
      · intro k st hst
        rcases hget k st hst with ⟨rfl, rfl⟩ | hst
        · rfl
        · exact h.setNo k st hst
      · intro k st hst
        rcases hget k st hst with ⟨rfl, rfl⟩ | hst
        · exact List.nodup_nil
        · exact h.listNodup k st hst
      · intro k st hst n hn
        rcases hget k st hst with ⟨rfl, rfl⟩ | hst
        · refine ⟨fun hmem => absurd hmem List.not_mem_nil, ?_⟩
          rintro ⟨hk, e, he, hd, -⟩
          have hn : n ∈ c.dirtyIn k :=
            mem_dirtyIn.mpr ⟨(dirty_of_lookup (c := c) he).trans hd, hk⟩
          rw [Finset.card_eq_zero.mp hempty] at hn
          cases hn
        · exact h.list k st hst n hn
      · intro k st hst n hn
        rcases hget k st hst with ⟨rfl, rfl⟩ | hst
        · cases hn
        · exact h.listBlock k st hst n hn
      · intro n hn
        obtain ⟨st, hst⟩ := h.hasSet n hn
        refine ⟨st, ?_⟩
        have hne : natBlockOffset n ≠ set := fun heq => by rw [heq, hl] at hst; cases hst
        exact (RadixTree.lookup_insert_of_ne _ _ hne).trans hst
      · intro k st hst
        rcases hget k st hst with ⟨rfl, rfl⟩ | hst
        · exact hempty.symm
        · exact h.entryCnt k st hst

theorem grabSet_lookup (c : NatCache) (set : Nat) :
    ∃ st, (c.grabSet set).natSetRoot.lookup set = some st := by
  unfold NatCache.grabSet
  cases hl : c.natSetRoot.lookup set with
  | some st => exact ⟨st, hl⟩
  | none => exact ⟨{ set := set }, RadixTree.lookup_insert_self _ _ _⟩

theorem grabSet_natRoot (c : NatCache) (set : Nat) : (c.grabSet set).natRoot = c.natRoot := by
  unfold NatCache.grabSet
  split <;> rfl

/-- What `__set_nat_cache_dirty` leaves in the tree for its entry. -/
theorem markDirty_lookup {c : NatCache} (set : Nat) {ne : NatEntry}
    (he : c.natRoot.lookup ne.nid = some ne) (n : Nat) :
    (c.markDirty set ne).natRoot.lookup n =
      if n = ne.nid then some { ne with isDirty := true } else c.natRoot.lookup n := by
  unfold markDirty
  by_cases hd : ne.isDirty = true
  · rw [if_pos hd]
    split
    · rename_i hn
      rw [hn, he, ← hd]
    · rfl
  · rw [if_neg hd]
    by_cases hn : n = ne.nid
    · subst hn
      simp only [RadixTree.lookup_modify_self, he, if_true]
      rfl
    · simp only [RadixTree.lookup_modify_of_ne _ _ hn, if_neg hn]

theorem Inv.markDirty {c : NatCache} {ne : NatEntry} (h : c.Inv (some ne.nid))
    (he : c.natRoot.lookup ne.nid = some ne)
    (hset : ∃ st, c.natSetRoot.lookup (natBlockOffset ne.nid) = some st) :
    (c.markDirty (natBlockOffset ne.nid) ne).Inv (some ne.nid) := by
  by_cases hd : ne.isDirty = true
  · rw [NatCache.markDirty, if_pos hd]
    exact h
  · have hold : c.dirty ne.nid = false := by
      rw [dirty_of_lookup he]
      simpa using hd
    have hlook := markDirty_lookup (natBlockOffset ne.nid) he
    have hdirty : ∀ n, (c.markDirty (natBlockOffset ne.nid) ne).dirty n =
        if n = ne.nid then true else c.dirty n := by
      intro n
      unfold dirty
      rw [hlook]
      by_cases hn : n = ne.nid
      · rw [if_pos hn, if_pos hn]
      · rw [if_neg hn, if_neg hn]
    obtain ⟨hkeys, hin⟩ := card_dirty_set hold hdirty
    have hmark : c.markDirty (natBlockOffset ne.nid) ne =
        { c with
          dirtyNatCnt := c.dirtyNatCnt + 1
          natSetRoot := c.natSetRoot.modify (natBlockOffset ne.nid) fun st =>
            { st with entryCnt := st.entryCnt + 1 }
          natRoot := c.natRoot.modify ne.nid fun e => { e with isDirty := true } } := by
      rw [NatCache.markDirty, if_neg hd]
    set c' := c.markDirty (natBlockOffset ne.nid) ne with hc'
    have hget : ∀ k st, c'.natSetRoot.lookup k = some st →
        ∃ st₀, c.natSetRoot.lookup k = some st₀ ∧ st.set = st₀.set ∧
          st.entryList = st₀.entryList ∧
          st.entryCnt = st₀.entryCnt + if natBlockOffset ne.nid = k then 1 else 0 := by
      intro k st hst
      rw [hmark] at hst
      by_cases hk : k = natBlockOffset ne.nid
      · subst hk
        simp only [RadixTree.lookup_modify_self] at hst
        obtain ⟨st₀, h₀, rfl⟩ := Option.map_eq_some_iff.mp hst
        exact ⟨st₀, h₀, rfl, rfl, by rw [if_pos rfl]⟩
      · simp only [RadixTree.lookup_modify_of_ne _ _ hk] at hst
        exact ⟨st, hst, rfl, rfl, by rw [if_neg (Ne.symm hk)]; rfl⟩
    have hentries : c'.natEntries = c.natEntries := by rw [hmark]
    refine ⟨?_, by rw [hentries]; exact h.cleanNodup, ?_, ?_, ?_, ?_, ?_, ?_, ?_, ?_, ?_⟩
    · intro n e hn
      rw [hlook] at hn
      split at hn
      · rename_i heq
        rw [heq, ← Option.some.inj hn]
      · exact h.key n e hn
    · intro n hn
      have hne : n ≠ ne.nid := fun heq => hn (by rw [heq])
      have hcl := h.clean n hn
      unfold Clean at hcl ⊢
      rw [hlook, if_neg hne, hentries]
      exact hcl
    · intro k st hst
      obtain ⟨st₀, h₀, hs, -, -⟩ := hget k st hst
      rw [hs]
      exact h.setNo k st₀ h₀
    · intro k st hst
      obtain ⟨st₀, h₀, -, hl, -⟩ := hget k st hst
      rw [hl]
      exact h.listNodup k st₀ h₀
    · intro k st hst n hn
      have hne : n ≠ ne.nid := fun heq => hn (by rw [heq])
      obtain ⟨st₀, h₀, -, hl, -⟩ := hget k st hst
      have hlist := h.list k st₀ h₀ n hn
      unfold Flushable at hlist ⊢
      rw [hlook, if_neg hne, hl]
      exact hlist
    · intro k st hst n hn
      obtain ⟨st₀, h₀, -, hl, -⟩ := hget k st hst
      rw [hl] at hn
      exact h.listBlock k st₀ h₀ n hn
    · intro n hn
      have hst : ∃ st, c.natSetRoot.lookup (natBlockOffset n) = some st := by
        rw [hdirty] at hn
        split at hn
        · rename_i heq
          rw [heq]
          exact hset
        · exact h.hasSet n hn
      obtain ⟨st, hst⟩ := hst
      rw [hmark]
      by_cases hk : natBlockOffset n = natBlockOffset ne.nid
      · rw [hk] at hst ⊢
        exact ⟨_, by simp only [RadixTree.lookup_modify_self, hst]; rfl⟩
      · exact ⟨st, by simp only [RadixTree.lookup_modify_of_ne _ _ hk, hst]⟩
    · intro k st hst
      obtain ⟨st₀, h₀, -, -, hcnt⟩ := hget k st hst
      rw [hcnt, hin, h.entryCnt k st₀ h₀]
    · rw [hkeys, ← h.dirtyCnt, hmark]
    · rw [hmark]
      exact h.natCnt

theorem listDel_natRoot (c : NatCache) (set nid : Nat) :
    (c.listDel set nid).natRoot = c.natRoot := rfl

theorem refreshList_natRoot (c : NatCache) (set : Nat) (ne : NatEntry) :
    (c.refreshList set ne).natRoot = c.natRoot := by
  unfold refreshList
  split <;> rfl

theorem setNatCacheDirty_eq {c : NatCache} {nid : Nat} {ne : NatEntry}
    (he : c.natRoot.lookup nid = some ne) : c.setNatCacheDirty nid =
      ((c.grabSet (natBlockOffset ne.nid)).markDirty (natBlockOffset ne.nid) ne).refreshList
        (natBlockOffset ne.nid) ne := by
  unfold NatCache.setNatCacheDirty
  rw [he]

/-- `__set_nat_cache_dirty` puts the entry where its new state belongs. -/
theorem Inv.setNatCacheDirty {c : NatCache} {nid : Nat} {ne : NatEntry}
    (h : c.Inv (some nid)) (he : c.natRoot.lookup nid = some ne) :
    (c.setNatCacheDirty nid).Inv none := by
  obtain rfl : ne.nid = nid := h.key nid ne he
  rw [setNatCacheDirty_eq he]
  have hgrab := h.grabSet (natBlockOffset ne.nid)
  have he' : (c.grabSet (natBlockOffset ne.nid)).natRoot.lookup ne.nid = some ne := by
    rw [grabSet_natRoot]; exact he
  have hmark := hgrab.markDirty he' (grabSet_lookup c _)
  have hlook := markDirty_lookup (natBlockOffset ne.nid) he' ne.nid
  rw [if_pos rfl] at hlook
  set c₁ := (c.grabSet (natBlockOffset ne.nid)).markDirty (natBlockOffset ne.nid) ne
  unfold refreshList
  by_cases hnew : ne.blkAddr = newAddr
  · rw [if_pos hnew]
    exact hmark.listDel.settle_new hmark.unlinked_listDel hlook rfl hnew
  · rw [if_neg hnew]
    exact hmark.listDel.settle_set hmark.unlinked_listDel hlook rfl hnew

theorem setNatCacheDirty_lookup {c : NatCache} {nid : Nat} {ne : NatEntry}
    (he : c.natRoot.lookup nid = some ne) (hnid : ne.nid = nid) (n : Nat) :
    (c.setNatCacheDirty nid).natRoot.lookup n =
      if n = nid then some { ne with isDirty := true } else c.natRoot.lookup n := by
  subst hnid
  have he' : (c.grabSet (natBlockOffset ne.nid)).natRoot.lookup ne.nid = some ne := by
    rw [grabSet_natRoot]; exact he
  have hmark := markDirty_lookup (natBlockOffset ne.nid) he' n
  rw [setNatCacheDirty_eq he, refreshList_natRoot, hmark, grabSet_natRoot]

/-- `__init_nat_entry` with a fresh entry. -/
theorem Inv.initNatEntry {c : NatCache} (h : c.Inv none) {nid : Nat} (raw : Option RawNat)
    (hnone : c.natRoot.lookup nid = none) :
    (c.initNatEntry (NatEntry.alloc nid) raw).Inv none := by
  set e : NatEntry := match raw with
    | some r => (NatEntry.alloc nid).fillRaw r
    | none => NatEntry.alloc nid with hedef
  have henid : e.nid = nid := by rw [hedef]; cases raw <;> rfl
  have heclean : e.isDirty = false := by rw [hedef]; cases raw <;> rfl
  set c' := c.initNatEntry (NatEntry.alloc nid) raw with hc'
  have hself : c'.natRoot.lookup nid = some e := RadixTree.lookup_insert_self _ _ _
  have hother : ∀ n, n ≠ nid → c'.natRoot.lookup n = c.natRoot.lookup n := fun n hn =>
    RadixTree.lookup_insert_of_ne _ _ hn
  have hd : ∀ n, c'.dirty n = c.dirty n := by
    intro n
    unfold dirty
    by_cases hn : n = nid
    · subst hn
      rw [hself, hnone]
      exact heclean
    · rw [hother n hn]
  have hnotin : nid ∉ c.natEntries := by
    rw [h.clean nid nofun]
    rintro ⟨e', he', -⟩
    rw [hnone] at he'
    cases he'
  refine ⟨?_, ?_, ?_, h.setNo, h.listNodup, ?_, h.listBlock, ?_, ?_, ?_, ?_⟩
  · intro n e' he'
    by_cases hn : n = nid
    · subst hn
      rw [hself] at he'
      rw [← Option.some.inj he', henid]
    · rw [hother n hn] at he'
      exact h.key n e' he'
  · refine List.nodup_append.mpr ⟨h.cleanNodup, List.nodup_singleton _, ?_⟩
    rintro a ha b hb rfl
    rw [List.mem_singleton.mp hb] at ha
    exact hnotin ha
  · intro n _
    have hmem : n ∈ c'.natEntries ↔ n ∈ c.natEntries ∨ n = nid := by
      show n ∈ c.natEntries ++ [nid] ↔ _
      rw [List.mem_append, List.mem_singleton]
    rw [hmem]
    by_cases hn : n = nid
    · subst hn
      exact ⟨fun _ => ⟨e, hself, heclean⟩, fun _ => Or.inr rfl⟩
    · rw [or_iff_left hn, h.clean n nofun]
      unfold Clean
      rw [hother n hn]
  · intro k st hst n _
    have hlist := h.list k st hst n nofun
    rw [hlist]
    unfold Flushable
    by_cases hn : n = nid
    · subst hn
      rw [hself, hnone]
      refine and_congr_right fun _ => ⟨?_, ?_⟩
      · rintro ⟨_, he', _⟩
        cases he'
      · rintro ⟨e', he', hdd, _⟩
        rw [← Option.some.inj he', heclean] at hdd
        cases hdd
    · rw [hother n hn]
  · intro n hn
    rw [hd] at hn
    exact h.hasSet n hn
  · intro k st hst
    rw [dirtyIn_congr hd]
    exact h.entryCnt k st hst
  · rw [dirtyKeys_congr hd]
    exact h.dirtyCnt
  · show c.natCnt + 1 = (insert nid c.natRoot.keys).card
    rw [Finset.card_insert_of_notMem, h.natCnt]
    rw [c.natRoot.mem_keys, hnone]
    exact Bool.false_ne_true

/-- `__clear_nat_cache_dirty` on a dirty entry of its set. -/
theorem Inv.clearNatCacheDirty {c : NatCache} {nid : Nat} {e : NatEntry} (h : c.Inv none)
    (he : c.natRoot.lookup nid = some e) (hd : e.isDirty = true) :
    (c.clearNatCacheDirty (natBlockOffset nid) nid).Inv none := by
  have hdel := (h.relax (some nid)).listDel
  have hunl := (h.relax (some nid)).unlinked_listDel
  have hold : (c.listDel (natBlockOffset nid) nid).dirty nid = true :=
    (dirty_of_lookup (c := c.listDel (natBlockOffset nid) nid) he).trans hd
  set c₁ := c.listDel (natBlockOffset nid) nid with hc₁
  set c₂ : NatCache := { c₁ with
    natRoot := c₁.natRoot.modify nid fun e => { e with isDirty := false }
    natSetRoot := c₁.natSetRoot.modify (natBlockOffset nid) fun st =>
      { st with entryCnt := st.entryCnt - 1 }
    dirtyNatCnt := c₁.dirtyNatCnt - 1 } with hc₂
  have hself : c₂.natRoot.lookup nid = some { e with isDirty := false } := by
    rw [hc₂]
    simp only [RadixTree.lookup_modify_self]
    rw [hc₁, listDel_natRoot, he]
    rfl
  have hother : ∀ n, n ≠ nid → c₂.natRoot.lookup n = c₁.natRoot.lookup n := fun n hn =>
    RadixTree.lookup_modify_of_ne _ _ hn
  have hdirty : ∀ n, c₂.dirty n = if n = nid then false else c₁.dirty n := by
    intro n
    unfold dirty
    by_cases hn : n = nid
    · rw [if_pos hn, hn, hself]
    · rw [if_neg hn, hother n hn]
  obtain ⟨hkeys, hin⟩ := card_dirty_clear hold hdirty
  have hget : ∀ k st, c₂.natSetRoot.lookup k = some st →
      ∃ st₀, c₁.natSetRoot.lookup k = some st₀ ∧ st.set = st₀.set ∧
        st.entryList = st₀.entryList ∧
        st.entryCnt = st₀.entryCnt - if natBlockOffset nid = k then 1 else 0 := by
    intro k st hst
    rw [hc₂] at hst
    by_cases hk : k = natBlockOffset nid
    · subst hk
      simp only [RadixTree.lookup_modify_self] at hst
      obtain ⟨st₀, h₀, rfl⟩ := Option.map_eq_some_iff.mp hst
      exact ⟨st₀, h₀, rfl, rfl, by rw [if_pos rfl]⟩
    · simp only [RadixTree.lookup_modify_of_ne _ _ hk] at hst
      exact ⟨st, hst, rfl, rfl, by rw [if_neg (Ne.symm hk)]; rfl⟩
  have hinv : c₂.Inv (some nid) := by
    refine ⟨?_, hdel.cleanNodup, ?_, ?_, ?_, ?_, ?_, ?_, ?_, ?_, hdel.natCnt⟩
    · intro n e' he'
      by_cases hn : n = nid
      · subst hn
        rw [hself] at he'
        rw [← Option.some.inj he']
        exact h.key n e he
      · rw [hother n hn] at he'
        exact hdel.key n e' he'
    · intro n hn
      have hne : n ≠ nid := fun heq => hn (by rw [heq])
      have hcl := hdel.clean n hn
      unfold Clean at hcl ⊢
      rw [hother n hne]
      exact hcl
    · intro k st hst
      obtain ⟨st₀, h₀, hs, -, -⟩ := hget k st hst
      rw [hs]
      exact hdel.setNo k st₀ h₀
    · intro k st hst
      obtain ⟨st₀, h₀, -, hl, -⟩ := hget k st hst
      rw [hl]
      exact hdel.listNodup k st₀ h₀
    · intro k st hst n hn
      have hne : n ≠ nid := fun heq => hn (by rw [heq])
      obtain ⟨st₀, h₀, -, hl, -⟩ := hget k st hst
      have hlist := hdel.list k st₀ h₀ n hn
      unfold Flushable at hlist ⊢
      rw [hother n hne, hl]
      exact hlist
    · intro k st hst n hn
      obtain ⟨st₀, h₀, -, hl, -⟩ := hget k st hst
      rw [hl] at hn
      exact hdel.listBlock k st₀ h₀ n hn
    · intro n hn
      rw [hdirty] at hn
      split at hn
      · cases hn
      · obtain ⟨st, hst⟩ := hdel.hasSet n hn
        by_cases hk : natBlockOffset n = natBlockOffset nid
        · rw [hk] at hst ⊢
          exact ⟨_, by rw [hc₂]; simp only [RadixTree.lookup_modify_self, hst]; rfl⟩
        · exact ⟨st, by rw [hc₂]; simp only [RadixTree.lookup_modify_of_ne _ _ hk, hst]⟩
    · intro k st hst
      obtain ⟨st₀, h₀, -, -, hcnt⟩ := hget k st hst
      rw [hcnt, hin, hdel.entryCnt k st₀ h₀]
    · rw [hkeys, ← hdel.dirtyCnt]
  have hunl₂ : c₂.Unlinked nid := by
    refine ⟨hunl.1, fun k st hst => ?_⟩
    obtain ⟨st₀, h₀, -, hl, -⟩ := hget k st hst
    rw [hl]
    exact hunl.2 k st₀ h₀
  exact hinv.settle_clean hunl₂ ⟨_, hself, rfl⟩

theorem clearNatCacheDirty_lookup (c : NatCache) (set nid n : Nat) :
    (c.clearNatCacheDirty set nid).natRoot.lookup n =
      if n = nid then (c.natRoot.lookup nid).map fun e => { e with isDirty := false }
      else c.natRoot.lookup n := by
  unfold NatCache.clearNatCacheDirty
  simp only
  split
  · rename_i hn
    rw [hn, RadixTree.lookup_modify_self]
    rfl
  · rename_i hn
    rw [RadixTree.lookup_modify_of_ne _ _ hn]
    rfl

end NatCache

end F2fs.Node

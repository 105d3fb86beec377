/-
  The NAT operations between two flushes: `get_node_info`, `set_node_addr`, the
  shrinker, and the three predicates that read the flags of an entry.

  Each operation comes with what it does to the entry of any nid.  Only the flags
  are not determined by `nodeInfo`: an entry that leaves the cache comes back with
  the flags of `nat_reset_flag`, and so does one that a flush writes.
  `flushNatEntries_entry` says which entries a flush treats so.
-/
import F2fs.Node.NatFlushSpec

namespace F2fs.Node

open F2fs.Checkpoint

variable {sbi : SbInfo}

/-! ## Operations -/

/-- `struct node_info`. -/
structure NodeInfo where
  nid : Nat
  ino : Nat
  blkAddr : Nat
  version : UInt8
  deriving DecidableEq, Repr

/-- `node_info_from_raw_nat`. -/
def NodeInfo.ofRaw (nid : Nat) (r : RawNat) : NodeInfo where
  nid := nid
  ino := r.ino
  blkAddr := r.blockAddr
  version := r.version

/-- `copy_node_info`: the flags are not copied. -/
def NatEntry.copyNodeInfo (e : NatEntry) (ni : NodeInfo) : NatEntry :=
  { e with nid := ni.nid, ino := ni.ino, blkAddr := ni.blkAddr, version := ni.version }

/-- The middle of `set_node_addr`: the version, the address and `IS_CHECKPOINTED`. -/
def NatEntry.changeAddr (e : NatEntry) (newBlkaddr : Nat) : NatEntry :=
  { e with
    version := if e.blkAddr ≠ newAddr ∧ newBlkaddr = nullAddr then e.version + 1 else e.version
    blkAddr := newBlkaddr
    isCheckpointed :=
      if newBlkaddr = newAddr ∨ newBlkaddr = nullAddr then false else e.isCheckpointed }

/-- The end of `set_node_addr`, on the entry of the inode; `inode` when it is the inode
    itself that was written. -/
def NatEntry.fsyncMark (e : NatEntry) (inode fsyncDone : Bool) : NatEntry :=
  { e with
    hasFsyncedInode := e.hasFsyncedInode || (fsyncDone && inode)
    hasLastFsync := fsyncDone }

namespace NatCache

/-- The entry `set_node_addr` works on: a new one, one reinitialised because its nid is
    reallocated, or the cached one as it is. -/
def grabNode (c : NatCache) (ni : NodeInfo) (newBlkaddr : Nat) : NatCache :=
  match c.natRoot.lookup ni.nid with
  | none =>
    let c' := c.initNatEntry (NatEntry.alloc ni.nid) none
    { c' with natRoot := c'.natRoot.modify ni.nid (·.copyNodeInfo ni) }
  | some _ =>
    if newBlkaddr = newAddr then
      { c with natRoot := c.natRoot.modify ni.nid (·.copyNodeInfo ni) }
    else c

/-- `set_node_addr`. -/
def setNodeAddr (c : NatCache) (ni : NodeInfo) (newBlkaddr : Nat) (fsyncDone : Bool) :
    NatCache :=
  let c₁ := c.grabNode ni newBlkaddr
  let c₂ : NatCache := { c₁ with natRoot := c₁.natRoot.modify ni.nid (·.changeAddr newBlkaddr) }
  let c₃ := c₂.setNatCacheDirty ni.nid
  { c₃ with
    natRoot := c₃.natRoot.modify ni.ino (·.fsyncMark (decide (ni.nid = ni.ino)) fsyncDone) }

/-- `try_to_free_nats`. -/
def tryToFreeNats (c : NatCache) : Nat → NatCache
  | 0 => c
  | nrShrink + 1 =>
    match c.natEntries with
    | [] => c
    | nid :: _ => (c.delFromNatCache nid).tryToFreeNats nrShrink

/-- `need_dentry_mark`. -/
def needDentryMark (c : NatCache) (nid : Nat) : Bool :=
  match c.natRoot.lookup nid with
  | some e => !e.isCheckpointed && !e.hasFsyncedInode
  | none => false

/-- `is_checkpointed_node`. -/
def isCheckpointedNode (c : NatCache) (nid : Nat) : Bool :=
  match c.natRoot.lookup nid with
  | some e => e.isCheckpointed
  | none => true

/-- `need_inode_block_update`. -/
def needInodeBlockUpdate (c : NatCache) (ino : Nat) : Bool :=
  match c.natRoot.lookup ino with
  | some e => !(e.hasLastFsync && (e.isCheckpointed || e.hasFsyncedInode))
  | none => true

end NatCache

/-- `get_node_info`; with `nomem` the entry cannot be allocated, and is not cached. -/
def getNodeInfo (sbi : SbInfo) (s : NatState) (nid : Nat) (nomem : Bool) :
    NodeInfo × NatState :=
  match s.cache.natRoot.lookup nid with
  | some e => (NodeInfo.ofRaw nid e.raw, s)
  | none =>
    let ne := persisted sbi s nid
    (NodeInfo.ofRaw nid ne,
      if nomem then s
      else { s with cache := s.cache.initNatEntry (NatEntry.alloc nid) (some ne) })

theorem getNodeInfo_fst (s : NatState) (nid : Nat) (nomem : Bool) :
    (getNodeInfo sbi s nid nomem).1 = NodeInfo.ofRaw nid (nodeInfo sbi s nid) := by
  unfold getNodeInfo nodeInfo
  cases s.cache.natRoot.lookup nid <;> rfl

/-! ## The cache invariant -/

namespace NatCache

/-- A clean entry leaves the cache. -/
theorem Inv.delFromNatCache {c : NatCache} {nid : Nat} (h : c.Inv none)
    (hmem : nid ∈ c.natEntries) : (c.delFromNatCache nid).Inv none := by
  set c' := c.delFromNatCache nid with hc'
  have hnone : ∀ n : Nat, some n ≠ none := Option.some_ne_none
  obtain ⟨e, he, hclean⟩ := (h.clean nid (hnone nid)).mp hmem
  have hself : c'.natRoot.lookup nid = none := RadixTree.lookup_delete_self _ _
  have hother : ∀ n, n ≠ nid → c'.natRoot.lookup n = c.natRoot.lookup n := fun n hn =>
    RadixTree.lookup_delete_of_ne _ hn
  have hd : ∀ n, c'.dirty n = c.dirty n := by
    intro n
    unfold dirty
    by_cases hn : n = nid
    · subst hn
      rw [hself, he]
      exact hclean.symm
    · rw [hother n hn]
  refine ⟨?_, h.cleanNodup.erase nid, ?_, h.setNo, h.listNodup, ?_, h.listBlock, ?_, ?_, ?_, ?_⟩
  · intro n e' he'
    by_cases hn : n = nid
    · subst hn
      rw [hself] at he'
      cases he'
    · rw [hother n hn] at he'
      exact h.key n e' he'
  · intro n _
    show n ∈ c.natEntries.erase nid ↔ _
    by_cases hn : n = nid
    · subst hn
      constructor
      · exact fun hin => absurd hin h.cleanNodup.not_mem_erase
      · rintro ⟨e', he', -⟩
        rw [hself] at he'
        cases he'
    · rw [List.mem_erase_of_ne hn, h.clean n (hnone n), Clean, Clean, hother n hn]
  · intro k st hst n _
    rw [h.list k st hst n (hnone n)]
    refine and_congr_right fun _ => ?_
    unfold Flushable
    by_cases hn : n = nid
    · subst hn
      rw [hself, he]
      constructor
      · rintro ⟨e', he', hdirty, -⟩
        rw [← Option.some.inj he', hclean] at hdirty
        cases hdirty
      · rintro ⟨e', he', -⟩
        cases he'
    · rw [hother n hn]
  · intro n hn
    rw [hd] at hn
    exact h.hasSet n hn
  · intro k st hst
    rw [dirtyIn_congr hd]
    exact h.entryCnt k st hst
  · rw [dirtyKeys_congr hd]
    exact h.dirtyCnt
  · show c.natCnt - 1 = (c.natRoot.keys.erase nid).card
    rw [Finset.card_erase_of_mem (RadixTree.mem_keys_of_lookup he), h.natCnt]

theorem delFromNatCache_lookup (c : NatCache) (nid n : Nat) :
    (c.delFromNatCache nid).natRoot.lookup n =
      if n = nid then none else c.natRoot.lookup n := by
  unfold NatCache.delFromNatCache
  split
  · rename_i hn
    rw [hn]
    exact RadixTree.lookup_delete_self _ _
  · rename_i hn
    exact RadixTree.lookup_delete_of_ne _ hn

/-- The shrinker drops clean entries only. -/
theorem tryToFreeNats_spec (nrShrink : Nat) : ∀ {c : NatCache}, c.Inv none →
    (c.tryToFreeNats nrShrink).Inv none ∧ ∀ n,
      (c.tryToFreeNats nrShrink).natRoot.lookup n = c.natRoot.lookup n ∨
      ((c.tryToFreeNats nrShrink).natRoot.lookup n = none ∧ c.Clean n) := by
  induction nrShrink with
  | zero => exact fun h => ⟨h, fun _ => Or.inl rfl⟩
  | succ nrShrink ih =>
      intro c h
      unfold tryToFreeNats
      split
      · exact ⟨h, fun _ => Or.inl rfl⟩
      · rename_i nid rest hlist
        have hmem : nid ∈ c.natEntries := by rw [hlist]; exact List.mem_cons_self
        obtain ⟨hinv, hlook⟩ := ih (h.delFromNatCache hmem)
        refine ⟨hinv, fun n => ?_⟩
        by_cases hn : n = nid
        · subst hn
          have hgone : (c.delFromNatCache n).natRoot.lookup n = none := by
            rw [delFromNatCache_lookup, if_pos rfl]
          refine Or.inr ⟨?_, (h.clean n nofun).mp hmem⟩
          rcases hlook n with hsame | ⟨hnone, -⟩
          · rw [hsame, hgone]
          · exact hnone
        · have hstep := delFromNatCache_lookup c nid n
          rw [if_neg hn] at hstep
          unfold Clean at hlook ⊢
          rw [← hstep]
          exact hlook n

/-- The entry `grabNode` puts in place. -/
def nodeEntry (c : NatCache) (ni : NodeInfo) (newBlkaddr : Nat) : NatEntry :=
  match c.natRoot.lookup ni.nid with
  | none => (NatEntry.alloc ni.nid).copyNodeInfo ni
  | some e => if newBlkaddr = newAddr then e.copyNodeInfo ni else e

theorem grabNode_spec {c : NatCache} (h : c.Inv none) (ni : NodeInfo) (newBlkaddr : Nat) :
    (c.grabNode ni newBlkaddr).Inv (some ni.nid) ∧
      ∀ n, (c.grabNode ni newBlkaddr).natRoot.lookup n =
        if n = ni.nid then some (c.nodeEntry ni newBlkaddr) else c.natRoot.lookup n := by
  unfold grabNode nodeEntry
  cases hl : c.natRoot.lookup ni.nid with
  | none =>
      set c' := c.initNatEntry (NatEntry.alloc ni.nid) none with hc'
      have hself : c'.natRoot.lookup ni.nid = some (NatEntry.alloc ni.nid) :=
        RadixTree.lookup_insert_self _ _ _
      refine ⟨((h.initNatEntry none hl).relax _).modify_flight (fun e he => ?_) fun _ => rfl,
        fun n => ?_⟩
      · rw [hself] at he
        rw [← Option.some.inj he]
        rfl
      · by_cases hn : n = ni.nid
        · rw [if_pos hn, hn]
          exact (RadixTree.lookup_modify_self _ _ _).trans (by rw [hself]; rfl)
        · rw [if_neg hn]
          exact (RadixTree.lookup_modify_of_ne _ _ hn).trans
            (RadixTree.lookup_insert_of_ne _ _ hn)
  | some e =>
      simp only
      split
      · refine ⟨(h.relax _).modify_flight (fun e' he' => (h.key _ e' he').symm)
          fun _ => rfl, fun n => ?_⟩
        by_cases hn : n = ni.nid
        · rw [if_pos hn, hn]
          exact (RadixTree.lookup_modify_self _ _ _).trans (by rw [hl]; rfl)
        · rw [if_neg hn]
          exact RadixTree.lookup_modify_of_ne _ _ hn
      · refine ⟨h.relax _, fun n => ?_⟩
        by_cases hn : n = ni.nid
        · rw [if_pos hn, hn, hl]
        · rw [if_neg hn]

theorem nodeEntry_nid {c : NatCache} (h : c.Inv none) (ni : NodeInfo) (newBlkaddr : Nat) :
    (c.nodeEntry ni newBlkaddr).nid = ni.nid := by
  unfold nodeEntry
  cases hl : c.natRoot.lookup ni.nid with
  | none => rfl
  | some e =>
      simp only
      split
      · rfl
      · exact h.key _ e hl

/-- The entry of the written nid before the fsync flags. -/
def writtenEntry (c : NatCache) (ni : NodeInfo) (newBlkaddr : Nat) : NatEntry :=
  { (c.nodeEntry ni newBlkaddr).changeAddr newBlkaddr with isDirty := true }

/-- `set_node_addr`: the entry of the nid is dirty and has the new address, the entry of
    the inode has the fsync flags, and no other entry changes. -/
theorem setNodeAddr_spec {c : NatCache} (h : c.Inv none) (ni : NodeInfo) (newBlkaddr : Nat)
    (fsyncDone : Bool) :
    (c.setNodeAddr ni newBlkaddr fsyncDone).Inv none ∧
      ∀ n, (c.setNodeAddr ni newBlkaddr fsyncDone).natRoot.lookup n =
        (if n = ni.nid then some (c.writtenEntry ni newBlkaddr)
          else c.natRoot.lookup n).map fun e =>
            if n = ni.ino then e.fsyncMark (decide (ni.nid = ni.ino)) fsyncDone else e := by
  obtain ⟨hinv₁, hlook₁⟩ := grabNode_spec h ni newBlkaddr
  set c₁ := c.grabNode ni newBlkaddr with hc₁
  set c₂ : NatCache :=
    { c₁ with natRoot := c₁.natRoot.modify ni.nid (·.changeAddr newBlkaddr) } with hc₂
  have hnid := nodeEntry_nid h ni newBlkaddr
  have hinv₂ : c₂.Inv (some ni.nid) := hinv₁.modify_flight (fun _ _ => rfl) fun _ => rfl
  have hself₂ : c₂.natRoot.lookup ni.nid =
      some ((c.nodeEntry ni newBlkaddr).changeAddr newBlkaddr) :=
    (RadixTree.lookup_modify_self _ _ _).trans (by rw [hlook₁, if_pos rfl]; rfl)
  have hother₂ : ∀ n, n ≠ ni.nid → c₂.natRoot.lookup n = c.natRoot.lookup n := fun n hn =>
    (RadixTree.lookup_modify_of_ne _ _ hn).trans (by rw [hlook₁, if_neg hn])
  have hinv₃ := hinv₂.setNatCacheDirty hself₂
  have hlook₃ : ∀ n, (c₂.setNatCacheDirty ni.nid).natRoot.lookup n =
      if n = ni.nid then some (c.writtenEntry ni newBlkaddr) else c.natRoot.lookup n := by
    intro n
    rw [setNatCacheDirty_lookup hself₂ hnid]
    by_cases hn : n = ni.nid
    · rw [if_pos hn, if_pos hn]
      rfl
    · rw [if_neg hn, if_neg hn, hother₂ n hn]
  refine ⟨hinv₃.modify_flags _ (fun _ => rfl) (fun _ => rfl) fun _ => rfl, fun n => ?_⟩
  rw [← hlook₃]
  by_cases hn : n = ni.ino
  · subst hn
    simp only [if_true]
    exact RadixTree.lookup_modify_self _ _ _
  · simp only [hn, if_false, Option.map_id']
    exact RadixTree.lookup_modify_of_ne _ _ hn

end NatCache

/-! ## What the file system reads -/

/-- Another cache over the same journal and blocks. -/
theorem NatState.Wf.withCache {s : NatState} (hwf : s.Wf sbi) {c : NatCache}
    (hinv : c.Inv none)
    (hclean : ∀ n e, c.natRoot.lookup n = some e → e.isDirty = false →
      e.raw = persisted sbi s n) : ({ s with cache := c } : NatState).Wf sbi where
  cache := hinv
  distinct := hwf.distinct
  le := hwf.le
  coherent := hclean

/-- `get_node_info` caches what it reads, with reset flags, and changes no value. -/
theorem getNodeInfo_spec {s : NatState} (hwf : s.Wf sbi) (nid : Nat) (nomem : Bool) :
    (getNodeInfo sbi s nid nomem).2.Wf sbi ∧
      (∀ n, nodeInfo sbi (getNodeInfo sbi s nid nomem).2 n = nodeInfo sbi s n) ∧
      (∀ n, n ≠ nid → (getNodeInfo sbi s nid nomem).2.cache.natRoot.lookup n =
        s.cache.natRoot.lookup n) ∧
      ∀ e, s.cache.natRoot.lookup nid = some e →
        (getNodeInfo sbi s nid nomem).2.cache.natRoot.lookup nid = some e := by
  unfold getNodeInfo
  cases hl : s.cache.natRoot.lookup nid with
  | some e => exact ⟨hwf, fun _ => rfl, fun _ _ => rfl, fun _ he => by rw [← he]; exact hl⟩
  | none =>
      cases nomem with
      | true => exact ⟨hwf, fun _ => rfl, fun _ _ => rfl, nofun⟩
      | false =>
          simp only [Bool.false_eq_true, if_false]
          have hlook := initNatEntry_lookup s.cache (NatEntry.alloc nid) (persisted sbi s nid)
          have hnid : (NatEntry.alloc nid).nid = nid := rfl
          rw [hnid] at hlook
          refine ⟨hwf.withCache (hwf.cache.initNatEntry _ hl) fun n e he hclean => ?_,
            fun n => ?_, fun n hn => by rw [hlook, if_neg hn], nofun⟩
          · rw [hlook] at he
            split at he
            · rename_i hn
              rw [← Option.some.inj he, NatEntry.raw_fillRaw, hn]
            · exact hwf.coherent n e he hclean
          · unfold nodeInfo
            rw [hlook]
            by_cases hn : n = nid
            · rw [if_pos hn, hn, hl]
              rfl
            · rw [if_neg hn]
              rfl

/-- A changed address is read back; no other value changes. -/
theorem setNodeAddr_nodeInfo {s : NatState} (hwf : s.Wf sbi) (ni : NodeInfo)
    (newBlkaddr : Nat) (fsyncDone : Bool) :
    ({ s with cache := s.cache.setNodeAddr ni newBlkaddr fsyncDone } : NatState).Wf sbi ∧
      ∀ n, nodeInfo sbi { s with cache := s.cache.setNodeAddr ni newBlkaddr fsyncDone } n =
        if n = ni.nid then (s.cache.writtenEntry ni newBlkaddr).raw else nodeInfo sbi s n := by
  obtain ⟨hinv, hlook⟩ := NatCache.setNodeAddr_spec hwf.cache ni newBlkaddr fsyncDone
  have hmark : ∀ (n : Nat) (e : NatEntry),
      (if n = ni.ino then e.fsyncMark (decide (ni.nid = ni.ino)) fsyncDone else e).raw = e.raw ∧
      (if n = ni.ino then e.fsyncMark (decide (ni.nid = ni.ino)) fsyncDone else e).isDirty =
        e.isDirty := fun n e => by split <;> exact ⟨rfl, rfl⟩
  refine ⟨hwf.withCache hinv fun n e he hclean => ?_, fun n => ?_⟩
  · rw [hlook] at he
    obtain ⟨e₀, h₀, rfl⟩ := Option.map_eq_some_iff.mp he
    rw [(hmark n e₀).2] at hclean
    rw [(hmark n e₀).1]
    split at h₀
    · rw [← Option.some.inj h₀] at hclean
      cases hclean
    · exact hwf.coherent n e₀ h₀ hclean
  · by_cases hn : n = ni.nid
    · rw [if_pos hn]
      refine (nodeInfo_of_lookup
        (s := { s with cache := s.cache.setNodeAddr ni newBlkaddr fsyncDone })
        ((hlook n).trans (by rw [if_pos hn]; rfl))).trans (hmark n _).1
    · rw [if_neg hn]
      unfold nodeInfo
      simp only [hlook, if_neg hn]
      cases s.cache.natRoot.lookup n with
      | none => rfl
      | some e => exact (hmark n e).1

/-- The shrinker changes no value. -/
theorem tryToFreeNats_nodeInfo {s : NatState} (hwf : s.Wf sbi) (nrShrink : Nat) :
    ({ s with cache := s.cache.tryToFreeNats nrShrink } : NatState).Wf sbi ∧
      ∀ n, nodeInfo sbi { s with cache := s.cache.tryToFreeNats nrShrink } n =
        nodeInfo sbi s n := by
  obtain ⟨hinv, hlook⟩ := NatCache.tryToFreeNats_spec nrShrink hwf.cache
  refine ⟨hwf.withCache hinv fun n e he hclean => ?_, fun n => ?_⟩
  · rcases hlook n with hsame | ⟨hnone, -⟩
    · rw [hsame] at he
      exact hwf.coherent n e he hclean
    · rw [hnone] at he
      cases he
  · unfold nodeInfo
    rcases hlook n with hsame | ⟨hnone, e, he, hclean⟩
    · simp only [hsame]
      rfl
    · simp only [hnone, he]
      exact (hwf.coherent n e he hclean).symm

/-! ## The flush -/

/-- The flush writes the entry of the nid, or finds its record in the journal it drains:
    either way the entry then has the flags of `nat_reset_flag`. -/
def FlushRenews (reason : CpReason) (s : NatState) (nid : Nat) : Prop :=
  s.cache.Flushable nid ∨
    (drainsJournal reason s = true ∧ s.journal.view nid ≠ none ∧
      ∀ e, s.cache.natRoot.lookup nid = some e → e.blkAddr ≠ newAddr)

/-- Draining the journal touches only the dirty bit of an entry that is cached. -/
theorem removeNatInJournal_lookup {s : NatState} (hinv : s.cache.Inv none) (i : Nat)
    {n : Nat} {e : NatEntry} (he : s.cache.natRoot.lookup n = some e) :
    ∃ d, (removeNatInJournal s i).cache.natRoot.lookup n = some { e with isDirty := d } := by
  set nid := (s.journal.slot i).1 with hnid
  set raw := (s.journal.slot i).2 with hraw
  have hcache : (removeNatInJournal s i).cache =
      (grabEntry s.cache nid raw).setNatCacheDirty nid := rfl
  rw [hcache]
  cases hl : s.cache.natRoot.lookup nid with
  | some e' =>
      have hgrab : grabEntry s.cache nid raw = s.cache := by unfold grabEntry; rw [hl]
      rw [hgrab, NatCache.setNatCacheDirty_lookup hl (hinv.key nid e' hl)]
      by_cases hn : n = nid
      · subst hn
        rw [hl] at he
        rw [if_pos rfl, Option.some.inj he]
        exact ⟨true, rfl⟩
      · rw [if_neg hn, he]
        exact ⟨e.isDirty, rfl⟩
  | none =>
      have hgrab : grabEntry s.cache nid raw =
          s.cache.initNatEntry (NatEntry.alloc nid) (some raw) := by unfold grabEntry; rw [hl]
      have hlook := initNatEntry_lookup s.cache (NatEntry.alloc nid) raw
      have hself := hlook nid
      rw [show (NatEntry.alloc nid).nid = nid from rfl, if_pos rfl] at hself
      have hne : n ≠ nid := fun heq => by rw [heq, hl] at he; cases he
      rw [hgrab, NatCache.setNatCacheDirty_lookup hself rfl, if_neg hne, hlook,
        show (NatEntry.alloc nid).nid = nid from rfl, if_neg hne, he]
      exact ⟨e.isDirty, rfl⟩

theorem removeNatsInJournal_lookup {s : NatState} (hwf : s.Wf sbi) {n : Nat} {e : NatEntry}
    (he : s.cache.natRoot.lookup n = some e) :
    ∃ d, (removeNatsInJournal s).cache.natRoot.lookup n = some { e with isDirty := d } := by
  have hloop : ∀ m ≤ s.journal.n, ∃ d,
      ((List.range m).foldl removeNatInJournal s).cache.natRoot.lookup n =
        some { e with isDirty := d } := by
    intro m
    induction m with
    | zero => exact fun _ => ⟨e.isDirty, he⟩
    | succ m ih =>
        intro hm
        obtain ⟨d, hd⟩ := ih (by omega)
        have hinv := (removeNatsLoop_spec sbi hwf.cache hwf.distinct m (by omega)).inv
        rw [List.range_succ, List.foldl_append]
        obtain ⟨d', hd'⟩ := removeNatInJournal_lookup hinv m hd
        exact ⟨d', hd'⟩
  exact hloop s.journal.n le_rfl

/-- `s'` has `HAS_FSYNCED_INODE` only where `s` has it. -/
def FsyncedFrom (s s' : NatState) : Prop :=
  ∀ n e', s'.cache.natRoot.lookup n = some e' → e'.hasFsyncedInode = true →
    ∃ e, s.cache.natRoot.lookup n = some e ∧ e.hasFsyncedInode = true

theorem FsyncedFrom.trans {s₁ s₂ s₃ : NatState} (h₁ : FsyncedFrom s₁ s₂)
    (h₂ : FsyncedFrom s₂ s₃) : FsyncedFrom s₁ s₃ := fun n e' he' hf => by
  obtain ⟨e, he, hfe⟩ := h₂ n e' he' hf
  exact h₁ n e he hfe

theorem removeNatInJournal_fsynced {s : NatState} (hinv : s.cache.Inv none) (i : Nat) :
    FsyncedFrom s (removeNatInJournal s i) := by
  set nid := (s.journal.slot i).1 with hnid
  set raw := (s.journal.slot i).2 with hraw
  have hcache : (removeNatInJournal s i).cache =
      (grabEntry s.cache nid raw).setNatCacheDirty nid := rfl
  intro n e' he' hf
  cases hl : s.cache.natRoot.lookup n with
  | some e =>
      obtain ⟨d, hd⟩ := removeNatInJournal_lookup hinv i hl
      rw [hd] at he'
      rw [← Option.some.inj he'] at hf
      exact ⟨e, rfl, hf⟩
  | none =>
      -- the entry is new, with no flag of an fsync
      exfalso
      rw [hcache] at he'
      by_cases hn : n = nid
      · subst hn
        have hgrab : grabEntry s.cache nid raw =
            s.cache.initNatEntry (NatEntry.alloc nid) (some raw) := by unfold grabEntry; rw [hl]
        have hself := initNatEntry_lookup s.cache (NatEntry.alloc nid) raw nid
        rw [if_pos (show nid = (NatEntry.alloc nid).nid from rfl)] at hself
        rw [hgrab, NatCache.setNatCacheDirty_lookup hself rfl, if_pos rfl] at he'
        rw [← Option.some.inj he'] at hf
        cases hf
      · have hgrab : ∃ e, (grabEntry s.cache nid raw).natRoot.lookup nid = some e ∧
            e.nid = nid ∧ (grabEntry s.cache nid raw).natRoot.lookup n = none := by
          unfold grabEntry
          cases hl' : s.cache.natRoot.lookup nid with
          | some e => exact ⟨e, hl', hinv.key nid e hl', hl⟩
          | none =>
              have hlook := initNatEntry_lookup s.cache (NatEntry.alloc nid) raw
              refine ⟨_, (hlook nid).trans (if_pos rfl), rfl, ?_⟩
              exact (hlook n).trans ((if_neg hn).trans hl)
        obtain ⟨e, he, hkey, hnone⟩ := hgrab
        rw [NatCache.setNatCacheDirty_lookup he hkey, if_neg hn, hnone] at he'
        cases he'

theorem removeNatsInJournal_fsynced {s : NatState} (hwf : s.Wf sbi) :
    FsyncedFrom s (removeNatsInJournal s) := by
  have hloop : ∀ m ≤ s.journal.n,
      FsyncedFrom s ((List.range m).foldl removeNatInJournal s) := by
    intro m
    induction m with
    | zero => exact fun _ _ e' he' hf => ⟨e', he', hf⟩
    | succ m ih =>
        intro hm
        have hinv := (removeNatsLoop_spec sbi hwf.cache hwf.distinct m (by omega)).inv
        rw [List.range_succ, List.foldl_append]
        exact (ih (by omega)).trans (removeNatInJournal_fsynced hinv m)
  exact hloop s.journal.n le_rfl

/-- A nid whose sets are flushed keeps its value, and its entry its flags unless it is
    flushable. -/
theorem FlushedSets.entry {s s' : NatState} {ks : List Nat} (h : FlushedSets sbi s ks s')
    (hdue : ∀ n, Due s ks n ↔ s.cache.Flushable n) (n : Nat) :
    nodeInfo sbi s' n = nodeInfo sbi s n ∧
      (¬ s.cache.Flushable n → s'.cache.natRoot.lookup n = s.cache.natRoot.lookup n) := by
  by_cases hfl : s.cache.Flushable n
  · refine ⟨?_, fun hnot => absurd hfl hnot⟩
    obtain ⟨e, he, hd⟩ := hfl
    rw [nodeInfo_of_lookup he,
      nodeInfo_of_lookup (h.lookupIn n ((hdue n).mpr ⟨e, he, hd⟩) e he)]
    rfl
  · have hnot : ¬ Due s ks n := fun hd => hfl ((hdue n).mp hd)
    refine ⟨?_, fun _ => h.lookupOut n hnot⟩
    unfold nodeInfo
    rw [h.lookupOut n hnot, h.persistedOut n hnot]

theorem FlushedSets.fsynced {s s' : NatState} {ks : List Nat} (h : FlushedSets sbi s ks s')
    (hdue : ∀ n, Due s ks n ↔ s.cache.Flushable n) : FsyncedFrom s s' := by
  intro n e' he' hf
  by_cases hfl : s.cache.Flushable n
  · have hd := (hdue n).mpr hfl
    obtain ⟨e, he, -, -⟩ := hfl
    rw [h.lookupIn n hd e he] at he'
    rw [← Option.some.inj he'] at hf
    cases hf
  · rw [(h.entry hdue n).2 hfl] at he'
    exact ⟨e', he', hf⟩

/-- Flushing the sets keeps clean entries equal to what is persisted. -/
theorem FlushedSets.wf {s s' : NatState} {ks : List Nat} (h : FlushedSets sbi s ks s')
    (hdue : ∀ n, Due s ks n ↔ s.cache.Flushable n)
    (hcoh : ∀ n e, s.cache.natRoot.lookup n = some e → e.isDirty = false →
      e.raw = persisted sbi s n) : s'.Wf sbi where
  cache := h.inv
  distinct := h.distinct
  le := h.le
  coherent := by
    intro n e he hclean
    by_cases hfl : s.cache.Flushable n
    · have hd := (hdue n).mpr hfl
      obtain ⟨e₀, h₀, -, -⟩ := hfl
      rw [h.lookupIn n hd e₀ h₀] at he
      rw [h.persistedIn n hd e₀ h₀, ← Option.some.inj he]
      rfl
    · have hnot : ¬ Due s ks n := fun hd => hfl ((hdue n).mp hd)
      rw [h.lookupOut n hnot] at he
      rw [h.persistedOut n hnot]
      exact hcoh n e he hclean

/-- The drain changes no value that is read, and persists what the blocks hold. -/
theorem removeNatsInJournal_nodeInfo {s : NatState} (hwf : s.Wf sbi) (n : Nat) :
    nodeInfo sbi (removeNatsInJournal s) n = nodeInfo sbi s n ∧
      (s.journal.view n = none →
        persisted sbi (removeNatsInJournal s) n = persisted sbi s n) := by
  obtain ⟨-, hn0, -, hblock, hout, hin⟩ := removeNatsInJournal_spec sbi hwf.cache hwf.distinct
  have hpers : s.journal.view n = none →
      persisted sbi (removeNatsInJournal s) n = persisted sbi s n := by
    intro hv
    rw [persisted_of_view_none (JournalArray.view_of_n_zero hn0 n), hblock,
      persisted_of_view_none hv]
  refine ⟨?_, hpers⟩
  cases hv : s.journal.view n with
  | none => unfold nodeInfo; rw [hout n hv, hpers hv]
  | some r =>
      obtain ⟨e, he, -, hraw⟩ := hin n r hv
      rw [nodeInfo_of_lookup he, hraw]

/-- `flush_nat_entries` succeeds and changes no value.  The entry of a nid it does not
    renew keeps all fields but, at most, its dirty bit. -/
theorem flushNatEntries_entry {s : NatState} (hwf : s.Wf sbi) (reason : CpReason) :
    ∃ s', flushNatEntries sbi reason s = some s' ∧ s'.Wf sbi ∧
      (∀ n, nodeInfo sbi s' n = nodeInfo sbi s n) ∧
      (∀ n, ¬ FlushRenews reason s n →
        s'.cache.natRoot.lookup n = s.cache.natRoot.lookup n ∨
        ∃ e, s.cache.natRoot.lookup n = some e ∧ e.blkAddr = newAddr ∧
          s'.cache.natRoot.lookup n = some { e with isDirty := true }) ∧
      FsyncedFrom s s' := by
  by_cases hz : s.cache.dirtyNatCnt = 0
  · exact ⟨s, by rw [flushNatEntries, if_pos hz], hwf, fun _ => rfl, fun _ _ => Or.inl rfl,
      fun _ e' he' hf => ⟨e', he', hf⟩⟩
  cases hdrain : drainsJournal reason s with
  | false =>
      obtain ⟨s', hrun, h, -⟩ := flush_no_drain hwf hz hdrain
      have hdue : ∀ n, Due s (collectSets s) n ↔ s.cache.Flushable n := due_collectSets hwf.cache
      refine ⟨s', hrun, h.wf hdue hwf.coherent, fun n => (h.entry hdue n).1, fun n hn => ?_,
        h.fsynced hdue⟩
      exact Or.inl ((h.entry hdue n).2 fun hfl => hn (Or.inl hfl))
  | true =>
      obtain ⟨s', hrun, h, -⟩ := flush_drain hwf hz hdrain
      obtain ⟨hinv₁, hn0, -, hblock, hout, hin⟩ :=
        removeNatsInJournal_spec sbi hwf.cache hwf.distinct
      have hkeep := fun n e he => removeNatsInJournal_lookup (n := n) (e := e) hwf he
      have hfs₁ := removeNatsInJournal_fsynced hwf
      set s₁ := removeNatsInJournal s with hs₁
      have hdue : ∀ n, Due s₁ (collectSets s₁) n ↔ s₁.cache.Flushable n :=
        due_collectSets hinv₁
      have hpers₁ := fun n => (removeNatsInJournal_nodeInfo hwf n).2
      have hinfo₁ := fun n => (removeNatsInJournal_nodeInfo hwf n).1
      rw [← hs₁] at hpers₁ hinfo₁
      refine ⟨s', hrun, h.wf hdue fun n e he hclean => ?_,
        fun n => ((h.entry hdue n).1).trans (hinfo₁ n), fun n hn => ?_,
        hfs₁.trans (h.fsynced hdue)⟩
      · cases hv : s.journal.view n with
        | none =>
            rw [hout n hv] at he
            rw [hpers₁ n hv]
            exact hwf.coherent n e he hclean
        | some r =>
            obtain ⟨e', he', hdirty, -⟩ := hin n r hv
            rw [he] at he'
            rw [Option.some.inj he', hdirty] at hclean
            cases hclean
      · cases hv : s.journal.view n with
        | none =>
            have hsame := hout n hv
            left
            rw [← hsame]
            refine (h.entry hdue n).2 fun hfl => hn (Or.inl ?_)
            unfold NatCache.Flushable at hfl ⊢
            rw [← hsame]
            exact hfl
        | some r =>
            -- by the hypothesis its entry has no block yet
            have hnew : ∃ e, s.cache.natRoot.lookup n = some e ∧ e.blkAddr = newAddr := by
              by_contra hno
              exact hn (Or.inr ⟨hdrain, by rw [hv]; exact Option.some_ne_none r,
                fun e he hblk => hno ⟨e, he, hblk⟩⟩)
            obtain ⟨e, he, hblk⟩ := hnew
            obtain ⟨d, hd⟩ := hkeep n e he
            obtain ⟨e', he', hdirty, -⟩ := hin n r hv
            rw [hd] at he'
            rw [← Option.some.inj he'] at hdirty
            rw [show d = true from hdirty] at hd
            refine Or.inr ⟨e, he, hblk, ?_⟩
            rw [(h.entry hdue n).2, hd]
            rintro ⟨e₁, h₁, -, hne⟩
            rw [hd] at h₁
            rw [← Option.some.inj h₁] at hne
            exact hne hblk

end F2fs.Node

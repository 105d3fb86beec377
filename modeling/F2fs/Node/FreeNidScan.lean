/-
  What `build_free_nids` does, nid by nid, when nothing runs beside it.

  `FreeNid` is the nid a user could be given: its persisted address is `NULL_ADDR` and no
  dirty NAT entry says otherwise.  The scans offer nids on the word of a NAT block or of a
  bit, which a journal record may overrule; `Scanned` is what holds in between, and the
  walk through the journal at the end (`scanCursegCache_view`) settles it.
-/
import F2fs.Node.FreeNidView
import F2fs.Node.NatBitsMount

namespace F2fs.Node

/-! ## Free nids -/

/-- The nids a user can have. -/
def usableNids (sbi : SbInfo) : Finset Nat := Finset.Ico 1 (maxNid sbi)

theorem mem_usableNids {sbi : SbInfo} {n : Nat} :
    n ∈ usableNids sbi ↔ n ≠ 0 ∧ n < maxNid sbi := by
  unfold usableNids
  rw [Finset.mem_Ico]
  omega

/-- The persisted address is `NULL_ADDR`, and no change of it is under way. -/
def FreeNid (sbi : SbInfo) (s : NatState) (n : Nat) : Prop :=
  (persisted sbi s n).blockAddr = nullAddr ∧ s.cache.dirty n = false

/-- `IS_CHECKPOINTED` of a clean entry, and of a dirty one that was freed. -/
structure CacheFlags (c : NatCache) : Prop where
  clean : ∀ n e, c.natRoot.lookup n = some e → e.isDirty = false → e.isCheckpointed = true
  freed : ∀ n e, c.natRoot.lookup n = some e → e.isDirty = true → e.blkAddr = nullAddr →
    e.isCheckpointed = false

theorem cacheFlags_init : CacheFlags NatCache.init := ⟨nofun, nofun⟩

section

variable {sbi : SbInfo} {s : NatState} {n : Nat}

/-- A dirty entry is busy. -/
theorem CacheFlags.dirty_of_not_busy (h : CacheFlags s.cache)
    (hbusy : FreeNidInfo.natBusy (s.cache.natRoot.lookup n) = false) : s.cache.dirty n = false := by
  unfold NatCache.dirty
  cases he : s.cache.natRoot.lookup n with
  | none => rfl
  | some e =>
      rw [he] at hbusy
      simp only [FreeNidInfo.natBusy, Bool.or_eq_false_iff, Bool.not_eq_false',
        decide_eq_false_iff_not,
        ne_eq, not_not] at hbusy
      cases hd : e.isDirty with
      | false => exact hd
      | true =>
          rw [h.freed n e he hd hbusy.2] at hbusy
          exact absurd hbusy.1 (by decide)

theorem FreeNid.not_busy (h : FreeNid sbi s n) (hwf : s.Wf sbi) (hflags : CacheFlags s.cache) :
    FreeNidInfo.natBusy (s.cache.natRoot.lookup n) = false := by
  obtain ⟨hnull, hclean⟩ := h
  unfold NatCache.dirty at hclean
  cases he : s.cache.natRoot.lookup n with
  | none => rfl
  | some e =>
      rw [he] at hclean
      have hraw : e.blkAddr = nullAddr := by
        rw [← hwf.coherent n e he hclean] at hnull
        exact hnull
      rw [FreeNidInfo.natBusy, hflags.clean n e he hclean, hraw]
      rfl

theorem FreeNid.nodeInfo (h : FreeNid sbi s n) (hwf : s.Wf sbi) :
    (nodeInfo sbi s n).blockAddr = nullAddr := by
  obtain ⟨hnull, hclean⟩ := h
  unfold Node.nodeInfo
  unfold NatCache.dirty at hclean
  cases he : s.cache.natRoot.lookup n with
  | none => exact hnull
  | some e =>
      rw [he] at hclean
      dsimp only
      rw [hwf.coherent n e he hclean, hnull]

/-- Conversely, unless a change is under way. -/
theorem freeNid_of_nodeInfo (hwf : s.Wf sbi) (hclean : s.cache.dirty n = false)
    (hnull : (nodeInfo sbi s n).blockAddr = nullAddr) : FreeNid sbi s n := by
  refine ⟨?_, hclean⟩
  unfold Node.nodeInfo at hnull
  unfold NatCache.dirty at hclean
  cases he : s.cache.natRoot.lookup n with
  | none => rwa [he] at hnull
  | some e =>
      rw [he] at hnull hclean
      rw [← hwf.coherent n e he hclean]
      exact hnull

end

/-! ## The scans -/

namespace FreeNidInfo

/-- `f'` has the books of `f`, and its `available_nids`. -/
structure SameBooks (f f' : FreeNidInfo) : Prop where
  list : ListBooks f → ListBooks f'
  avail : f'.availableNids = f.availableNids

theorem SameBooks.refl (f : FreeNidInfo) : SameBooks f f := ⟨id, rfl⟩

theorem SameBooks.trans {f f' f'' : FreeNidInfo} (h : SameBooks f f') (h' : SameBooks f' f'') :
    SameBooks f f'' :=
  ⟨fun hf => h'.list (h.list hf), h'.avail.trans h.avail⟩

theorem SameBooks.foldl {α : Type} {g : FreeNidInfo → α → FreeNidInfo}
    (step : ∀ f a, SameBooks f (g f a)) : ∀ (l : List α) (f : FreeNidInfo),
    SameBooks f (l.foldl g f)
  | [], f => SameBooks.refl f
  | a :: l, f => (step f a).trans (SameBooks.foldl step l (g f a))

section

variable {f : FreeNidInfo} {nid : Nat}

theorem update_sameBooks (f : FreeNidInfo) (nid : Nat) (set build : Bool) :
    SameBooks f (f.updateFreeNidBitmap nid set build) := by
  refine ⟨fun h => h.bitmap nid set build, ?_⟩
  unfold updateFreeNidBitmap
  dsimp only
  split_ifs <;> rfl

theorem insert_sameBooks (f : FreeNidInfo) (nid : Nat) : SameBooks f (f.insertFreeNid nid) := by
  refine ⟨fun h => (h.insertFreeNid nid).1, ?_⟩
  unfold insertFreeNid
  cases f.freeNidRoot.lookup nid <;> rfl

theorem addFree_sameBooks (f : FreeNidInfo) (ne : Option NatEntry) (nid : Nat) :
    SameBooks f (f.addFreeNid ne nid true false).2 := by
  by_cases hnid : nid = 0
  · rw [hnid, addFreeNid_zero]
    exact SameBooks.refl f
  · rw [addFreeNid_build ne hnid]
    dsimp only
    rw [if_neg (by decide)]
    split_ifs
    · exact SameBooks.refl f
    · exact insert_sameBooks f nid

theorem scanNid_sameBooks (f : FreeNidInfo) (ne : Option NatEntry) (addr nid : Nat) :
    SameBooks f (f.scanNid ne addr nid) := by
  cases hc : f.scanClears ne addr nid with
  | true =>
      rw [scanNid_of_clears hc]
      exact update_sameBooks f nid false true
  | false =>
      rw [scanNid_of_not_clears hc]
      split_ifs
      · exact SameBooks.refl f
      · exact (insert_sameBooks f nid).trans (update_sameBooks _ nid true true)

theorem removeFreeNid_sameBooks (f : FreeNidInfo) (nid : Nat) :
    SameBooks f (f.removeFreeNid nid) := by
  refine ⟨fun h => (removeFreeNid_kept h nid).list, ?_⟩
  unfold removeFreeNid
  split_ifs <;> rfl

theorem scanCursegEntry_sameBooks (cache : NatCache) (journal : JournalArray RawNat)
    (f : FreeNidInfo) (i : Nat) : SameBooks f (f.scanCursegEntry cache journal i) := by
  unfold scanCursegEntry
  dsimp only
  split_ifs
  · exact addFree_sameBooks f _ _
  · exact removeFreeNid_sameBooks f _

theorem markBlock_sameBooks (f : FreeNidInfo) (b : Nat) : SameBooks f (f.markBlock b) :=
  ⟨fun h => h.congr rfl rfl rfl, rfl⟩

end

/-! ### A NAT block -/

theorem scanNids_eq (sbi : SbInfo) (startNid : Nat) : scanNids sbi startNid =
    List.range' startNid (min (natEntryPerBlock - startNid % natEntryPerBlock)
      (maxNid sbi - startNid)) := by
  unfold scanNids
  generalize natEntryPerBlock - startNid % natEntryPerBlock = k
  induction k generalizing startNid with
  | zero => rw [Nat.zero_min]; rfl
  | succ k ih =>
      rw [List.range'_succ]
      by_cases hlt : startNid < maxNid sbi
      · rw [List.takeWhile_cons_of_pos (by simpa using hlt), ih,
          show min (k + 1) (maxNid sbi - startNid) = min k (maxNid sbi - (startNid + 1)) + 1 by
            omega, List.range'_succ]
      · rw [List.takeWhile_cons_of_neg (by simpa using hlt),
          show min (k + 1) (maxNid sbi - startNid) = 0 by omega]
        rfl

theorem scanNids_nodup (sbi : SbInfo) (startNid : Nat) : (scanNids sbi startNid).Nodup := by
  rw [scanNids_eq]
  exact List.nodup_range'

/-- The scan visits the rest of the block. -/
theorem mem_scanNids {sbi : SbInfo} {startNid n : Nat} : n ∈ scanNids sbi startNid ↔
    startNid ≤ n ∧ natBlockOffset n = natBlockOffset startNid ∧ n < maxNid sbi := by
  rw [scanNids_eq, List.mem_range'_1]
  unfold natBlockOffset natEntryPerBlock
  omega

theorem scanNatPage_view (sbi : SbInfo) (cache : NatCache) (blk : NatBlock) (startNid : Nat)
    (f : FreeNidInfo) (n : Nat) :
    (f.scanNatPage sbi cache blk startNid).view n =
      let v := (f.markBlock (natBlockOffset startNid)).view n
      let addr := (blk (n % natEntryPerBlock)).blockAddr
      if n ∈ scanNids sbi startNid then
        if n = 0 ∧ addr = nullAddr then v else v.scan (natBusy (cache.natRoot.lookup n)) addr
      else v :=
  FoldView.foldl_view view (scanNatEntry cache blk)
    (h := fun k v =>
      if k = 0 ∧ (blk (k % natEntryPerBlock)).blockAddr = nullAddr then v
      else v.scan (natBusy (cache.natRoot.lookup k)) (blk (k % natEntryPerBlock)).blockAddr)
    (fun f nid m => scanNid_view f (cache.natRoot.lookup nid)
      (blk (nid % natEntryPerBlock)).blockAddr nid m) _ n
    (scanNids_nodup sbi startNid)

theorem scanNatPage_sameBooks (sbi : SbInfo) (cache : NatCache) (blk : NatBlock)
    (startNid : Nat) (f : FreeNidInfo) : SameBooks f (f.scanNatPage sbi cache blk startNid) :=
  (markBlock_sameBooks f _).trans
    (SameBooks.foldl (fun f nid => scanNid_sameBooks f (cache.natRoot.lookup nid) _ nid) _ _)

/-- A scan of nids without a bit keeps the bit books. -/
theorem scanNids_bits (cache : NatCache) (blk : NatBlock) : ∀ {l : List Nat} {f : FreeNidInfo},
    l.Nodup → BitBooks f → (∀ n ∈ l, (f.view n).bit = false) →
    BitBooks (l.foldl (scanNatEntry cache blk) f)
  | [], _, _, hf, _ => hf
  | nid :: l, f, hnodup, hf, hbits => by
      obtain ⟨hnot, hl⟩ := List.nodup_cons.mp hnodup
      rw [List.foldl_cons]
      refine scanNids_bits cache blk hl (scanNid_bits hf fun _ => hbits nid List.mem_cons_self)
        fun n hn => ?_
      unfold scanNatEntry
      rw [scanNid_view, if_neg fun h : n = nid => hnot (h ▸ hn)]
      exact hbits n (List.mem_cons_of_mem _ hn)

/-- So does the scan of a block that is not marked. -/
theorem scanNatPage_bits (sbi : SbInfo) (cache : NatCache) (blk : NatBlock) {startNid : Nat}
    {f : FreeNidInfo} (hf : BitBooks f)
    (hmark : f.natBlockBitmap (natBlockOffset startNid) = false) :
    BitBooks (f.scanNatPage sbi cache blk startNid) := by
  refine scanNids_bits cache blk (scanNids_nodup sbi startNid) (hf.markBlock _) fun n hn => ?_
  have hrow := hf.unmarked _ hmark
  rw [markBlock_view]
  show f.freeNidBitmap (natBlockOffset n) (n % natEntryPerBlock) = false
  rw [(mem_scanNids.mp hn).2.1, hrow]

/-! ### The journal -/

/-- What the journal makes of a nid. -/
def journalView (cache : NatCache) (journal : JournalArray RawNat) (n : Nat) (v : NidView) :
    NidView :=
  match journal.view n with
  | none => v
  | some raw =>
    if raw.blockAddr = nullAddr then
      if n = 0 then v else v.offer (natBusy (cache.natRoot.lookup n))
    else v.unlist

theorem scanCursegCache_view (cache : NatCache) {journal : JournalArray RawNat}
    (hd : journal.Distinct) (f : FreeNidInfo) (n : Nat) :
    (f.scanCursegCache cache journal).view n = journalView cache journal n (f.view n) := by
  -- the walk over the slots as a walk over their nids
  let op := fun (f : FreeNidInfo) (nid : Nat) =>
    match journal.view nid with
    | none => f
    | some raw =>
      if raw.blockAddr = nullAddr then (f.addFreeNid (cache.natRoot.lookup nid) nid true false).2
      else f.removeFreeNid nid
  have hop : ∀ f nid m, (op f nid).view m =
      if m = nid then journalView cache journal nid (f.view nid) else f.view m := by
    intro f nid m
    unfold journalView
    show (match journal.view nid with
      | none => f
      | some raw => _).view m = _
    cases journal.view nid with
    | none => exact view_only rfl (fun _ _ => rfl) m
    | some raw =>
        dsimp only
        by_cases hnull : raw.blockAddr = nullAddr
        · rw [if_pos hnull, if_pos hnull]
          exact addFree_view f (cache.natRoot.lookup nid) nid m
        · rw [if_neg hnull, if_neg hnull]
          exact removeFreeNid_view f nid m
  have hwalk : f.scanCursegCache cache journal =
      ((List.range journal.n).map fun i => (journal.slot i).1).foldl op f := by
    rw [List.foldl_map]
    refine List.foldl_ext _ _ _ fun f i hi => ?_
    show scanCursegEntry cache journal f i = match journal.view (journal.slot i).1 with
      | none => f
      | some raw => _
    rw [hd.view_slot (List.mem_range.mp hi)]
    rfl
  have hnodup : ((List.range journal.n).map fun i => (journal.slot i).1).Nodup :=
    List.nodup_range.map_on fun i hi j hj => hd i j (List.mem_range.mp hi) (List.mem_range.mp hj)
  rw [hwalk, FoldView.foldl_view view op (h := journalView cache journal) hop f n hnodup]
  split_ifs with hn
  · rfl
  · have hnone : journal.view n = none := JournalArray.view_eq_none.mpr fun i hi heq =>
      hn (List.mem_map.mpr ⟨i, List.mem_range.mpr hi, heq⟩)
    unfold journalView
    rw [hnone]

theorem scanCursegCache_sameBooks (cache : NatCache) (journal : JournalArray RawNat)
    (f : FreeNidInfo) : SameBooks f (f.scanCursegCache cache journal) :=
  SameBooks.foldl (scanCursegEntry_sameBooks cache journal) _ f

theorem scanCursegCache_bits (cache : NatCache) (journal : JournalArray RawNat)
    {f : FreeNidInfo} (h : BitBooks f) : BitBooks (f.scanCursegCache cache journal) := by
  unfold scanCursegCache
  refine List.foldlRecOn (motive := BitBooks) _ _ h fun f hf i _ => ?_
  unfold scanCursegEntry
  dsimp only
  split_ifs
  · exact addFree_bits hf _ _
  · exact removeFreeNid_bits hf _

/-! ### The bitmaps -/

theorem mem_freeNidBits {f : FreeNidInfo} {natBlocks n : Nat} :
    n ∈ f.freeNidBits natBlocks ↔ natBlockOffset n < natBlocks ∧ (f.view n).marked = true ∧
      f.freeNidCount (natBlockOffset n) ≠ 0 ∧ (f.view n).bit = true := by
  unfold freeNidBits view
  simp only [List.mem_flatMap, List.mem_filter, List.mem_range, List.mem_map, Bool.and_eq_true,
    bne_iff_ne, ne_eq]
  constructor
  · rintro ⟨b, ⟨hb, hmark, hcount⟩, i, ⟨hi, hbit⟩, rfl⟩
    have hofs : natBlockOffset (b * natEntryPerBlock + i) = b := by
      unfold natBlockOffset natEntryPerBlock at *
      omega
    rw [hofs, blockNid_mod hi]
    exact ⟨hb, hmark, hcount, hbit⟩
  · rintro ⟨hb, hmark, hcount, hbit⟩
    refine ⟨natBlockOffset n, ⟨hb, hmark, hcount⟩, n % natEntryPerBlock,
      ⟨nid_mod_lt n, hbit⟩, ?_⟩
    unfold natBlockOffset natEntryPerBlock
    omega

/-- The loop over the bits went through all of them, or has found enough nids. -/
theorem addFreeNidBits_prefix (cache : NatCache) : ∀ (nids : List Nat) (f : FreeNidInfo),
    ∃ pre post, nids = pre ++ post ∧
      addFreeNidBits cache nids f =
        pre.foldl (fun f nid => (f.addFreeNid (cache.natRoot.lookup nid) nid true false).2) f ∧
      (post = [] ∨ maxFreeNids ≤ (addFreeNidBits cache nids f).nidCnt .freeNid)
  | [], f => ⟨[], [], rfl, rfl, Or.inl rfl⟩
  | nid :: nids, f => by
      unfold addFreeNidBits
      dsimp only
      split_ifs with hmax
      · exact ⟨[nid], nids, rfl, rfl, Or.inr hmax⟩
      · obtain ⟨pre, post, hnids, hfold, hpost⟩ := addFreeNidBits_prefix cache nids
          (f.addFreeNid (cache.natRoot.lookup nid) nid true false).2
        exact ⟨nid :: pre, post, by rw [hnids]; rfl, hfold, hpost⟩

end FreeNidInfo

end F2fs.Node

/-
  The books of the free nids, and what each operation under `nid_list_lock` does to them.

  Two sets of books that no operation ties together: the radix tree with its list and the
  two counters (`ListBooks`), and the free-nid bitmap of each NAT block with its count
  (`BitBooks`).  The first survives everything.  The second survives everything but one
  case of `update_free_nid_bitmap`: a clear that comes from a scan leaves the count alone,
  whether or not the bit was set (`count_clear_build`).
-/
import F2fs.Node.BuildFreeNids

namespace F2fs.Node

namespace FreeNidInfo

/-! ## The books -/

/-- The nids in state `PREALLOC_NID`. -/
def preallocs (f : FreeNidInfo) : Finset Nat :=
  f.freeNidRoot.keys.filter fun nid => f.freeNidRoot.lookup nid = some .preallocNid

@[simp] theorem mem_preallocs {f : FreeNidInfo} {nid : Nat} :
    nid ∈ f.preallocs ↔ f.freeNidRoot.lookup nid = some .preallocNid := by
  unfold preallocs
  rw [Finset.mem_filter, and_iff_right_iff_imp]
  exact RadixTree.mem_keys_of_lookup

/-- The tree, the list and the two counters agree. -/
structure ListBooks (f : FreeNidInfo) : Prop where
  nodup : f.freeNidList.Nodup
  mem : ∀ nid, nid ∈ f.freeNidList ↔ f.freeNidRoot.lookup nid = some .freeNid
  free : f.nidCnt .freeNid = f.freeNidList.length
  prealloc : f.nidCnt .preallocNid = f.preallocs.card

/-- The set bits of block `b`. -/
def bitSet (f : FreeNidInfo) (b : Nat) : Finset Nat :=
  (Finset.range natEntryPerBlock).filter fun i => f.freeNidBitmap b i = true

/-- The bitmap of every block and its count agree, and an unmarked block has no bit. -/
structure BitBooks (f : FreeNidInfo) : Prop where
  unmarked : ∀ b, f.natBlockBitmap b = false → f.freeNidBitmap b = fun _ => false
  count : ∀ b, f.freeNidCount b = (f.bitSet b).card

theorem listBooks_init (availableNids : Nat) : ListBooks (init availableNids) where
  nodup := List.nodup_nil
  mem nid := by simp [init]
  free := rfl
  prealloc := rfl

theorem bitBooks_init (availableNids : Nat) : BitBooks (init availableNids) where
  unmarked _ _ := rfl
  count _ := by simp [init, bitSet]

/-! ## The bitmaps -/

section Bits

variable {f : FreeNidInfo} {nid : Nat}

@[simp] theorem updateFreeNidBitmap_root (f : FreeNidInfo) (nid : Nat) (set build : Bool) :
    (f.updateFreeNidBitmap nid set build).freeNidRoot = f.freeNidRoot := by
  unfold updateFreeNidBitmap
  dsimp only
  split_ifs <;> rfl

@[simp] theorem updateFreeNidBitmap_list (f : FreeNidInfo) (nid : Nat) (set build : Bool) :
    (f.updateFreeNidBitmap nid set build).freeNidList = f.freeNidList := by
  unfold updateFreeNidBitmap
  dsimp only
  split_ifs <;> rfl

@[simp] theorem updateFreeNidBitmap_cnt (f : FreeNidInfo) (nid : Nat) (set build : Bool) :
    (f.updateFreeNidBitmap nid set build).nidCnt = f.nidCnt := by
  unfold updateFreeNidBitmap
  dsimp only
  split_ifs <;> rfl

@[simp] theorem updateFreeNidBitmap_marks (f : FreeNidInfo) (nid : Nat) (set build : Bool) :
    (f.updateFreeNidBitmap nid set build).natBlockBitmap = f.natBlockBitmap := by
  unfold updateFreeNidBitmap
  dsimp only
  split_ifs <;> rfl

/-- Clearing a clear bit. -/
theorem updateFreeNidBitmap_clear {build : Bool}
    (h : f.freeNidBitmap (natBlockOffset nid) (nid % natEntryPerBlock) = false) :
    f.updateFreeNidBitmap nid false build = f := by
  unfold updateFreeNidBitmap
  simp only [h, Bool.false_eq_true, if_false, Bool.not_false, if_true, ite_self]

theorem nid_mod_lt (nid : Nat) : nid % natEntryPerBlock < natEntryPerBlock :=
  Nat.mod_lt _ (by decide)

/-- One bit of a block set, the other blocks as they were. -/
theorem bitSet_set {f' : FreeNidInfo}
    (h : f'.freeNidBitmap = Function.update f.freeNidBitmap (natBlockOffset nid)
      (Function.update (f.freeNidBitmap (natBlockOffset nid)) (nid % natEntryPerBlock) true))
    (b : Nat) : f'.bitSet b =
      if b = natBlockOffset nid then insert (nid % natEntryPerBlock) (f.bitSet b)
      else f.bitSet b := by
  unfold bitSet
  rw [h]
  split_ifs with hb
  · subst hb
    rw [Function.update_self]
    ext i
    by_cases hi : i = nid % natEntryPerBlock
    · simp [hi, nid_mod_lt]
    · simp [hi]
  · rw [Function.update_of_ne hb]

/-- One bit of a block cleared. -/
theorem bitSet_clear {f' : FreeNidInfo}
    (h : f'.freeNidBitmap = Function.update f.freeNidBitmap (natBlockOffset nid)
      (Function.update (f.freeNidBitmap (natBlockOffset nid)) (nid % natEntryPerBlock) false))
    (b : Nat) : f'.bitSet b =
      if b = natBlockOffset nid then (f.bitSet b).erase (nid % natEntryPerBlock)
      else f.bitSet b := by
  unfold bitSet
  rw [h]
  split_ifs with hb
  · subst hb
    rw [Function.update_self]
    ext i
    by_cases hi : i = nid % natEntryPerBlock
    · simp [hi]
    · simp [hi]
  · rw [Function.update_of_ne hb]

theorem mem_bitSet {b i : Nat} :
    i ∈ f.bitSet b ↔ i < natEntryPerBlock ∧ f.freeNidBitmap b i = true := by
  simp [bitSet]

theorem card_bitSet_le (f : FreeNidInfo) (b : Nat) : (f.bitSet b).card ≤ natEntryPerBlock := by
  have h := Finset.card_filter_le (Finset.range natEntryPerBlock)
    fun i => f.freeNidBitmap b i = true
  rwa [Finset.card_range] at h

/-- A set from anywhere. -/
theorem BitBooks.setBit (h : BitBooks f) (nid : Nat) (build : Bool) :
    BitBooks (f.updateFreeNidBitmap nid true build) := by
  by_cases hmark : f.natBlockBitmap (natBlockOffset nid) = true
  swap
  · have hsame : f.updateFreeNidBitmap nid true build = f := by
      unfold updateFreeNidBitmap
      simp [hmark]
    rwa [hsame]
  by_cases hbit : f.freeNidBitmap (natBlockOffset nid) (nid % natEntryPerBlock) = true
  · have hsame : f.updateFreeNidBitmap nid true build = f := by
      unfold updateFreeNidBitmap
      simp [hbit]
    rwa [hsame]
  obtain ⟨f', hf'⟩ : ∃ f', f' = f.updateFreeNidBitmap nid true build := ⟨_, rfl⟩
  rw [← hf']
  have heq := hf'
  unfold updateFreeNidBitmap at heq
  simp only [hmark, Bool.not_true, Bool.false_eq_true, if_false, if_true, hbit] at heq
  have hbits : ∀ b, f'.bitSet b = if b = natBlockOffset nid then
      insert (nid % natEntryPerBlock) (f.bitSet b) else f.bitSet b := bitSet_set (by rw [heq])
  refine ⟨fun b hb => ?_, fun b => ?_⟩
  · rw [hf', updateFreeNidBitmap_marks] at hb
    have hne : b ≠ natBlockOffset nid := fun h => by rw [h, hmark] at hb; cases hb
    rw [heq]
    exact (Function.update_of_ne hne _ _).trans (h.unmarked b hb)
  · rw [hbits b]
    by_cases hb : b = natBlockOffset nid
    · subst hb
      have hnot : nid % natEntryPerBlock ∉ f.bitSet (natBlockOffset nid) :=
        fun hm => hbit (mem_bitSet.mp hm).2
      have hcard := Finset.card_insert_of_notMem hnot
      have hle := card_bitSet_le f (natBlockOffset nid)
      rw [if_pos rfl, hcard, heq]
      dsimp only
      rw [Function.update_self, h.count, Nat.mod_eq_of_lt]
      unfold natEntryPerBlock at hle
      omega
    · rw [if_neg hb, heq]
      exact (Function.update_of_ne hb _ _).trans (h.count b)

/-- What a clear of a set bit leaves, in either mode. -/
theorem clear_eq (build : Bool) (hmark : f.natBlockBitmap (natBlockOffset nid) = true)
    (hbit : f.freeNidBitmap (natBlockOffset nid) (nid % natEntryPerBlock) = true) :
    f.updateFreeNidBitmap nid false build =
      { f with
        freeNidBitmap := Function.update f.freeNidBitmap (natBlockOffset nid)
          (Function.update (f.freeNidBitmap (natBlockOffset nid)) (nid % natEntryPerBlock) false)
        freeNidCount :=
          if build then f.freeNidCount
          else Function.update f.freeNidCount (natBlockOffset nid)
            ((f.freeNidCount (natBlockOffset nid) + (2 ^ 16 - 1)) % 2 ^ 16) } := by
  unfold updateFreeNidBitmap
  simp [hmark, hbit]

/-- A set bit belongs to a marked block. -/
theorem BitBooks.marked (h : BitBooks f) {b i : Nat} (hbit : f.freeNidBitmap b i = true) :
    f.natBlockBitmap b = true := by
  by_contra hmark
  rw [h.unmarked b (Bool.eq_false_iff.mpr hmark)] at hbit
  cases hbit

/-- A clear from anywhere but a scan. -/
theorem BitBooks.clearBit (h : BitBooks f) (nid : Nat) :
    BitBooks (f.updateFreeNidBitmap nid false false) := by
  by_cases hbit : f.freeNidBitmap (natBlockOffset nid) (nid % natEntryPerBlock) = true
  swap
  · rwa [updateFreeNidBitmap_clear (Bool.eq_false_iff.mpr hbit)]
  have hmark := h.marked hbit
  have heq := clear_eq false hmark hbit
  have hbits : ∀ b, (f.updateFreeNidBitmap nid false false).bitSet b =
      if b = natBlockOffset nid then (f.bitSet b).erase (nid % natEntryPerBlock)
      else f.bitSet b := bitSet_clear (by rw [heq])
  refine ⟨fun b hb => ?_, fun b => ?_⟩
  · rw [updateFreeNidBitmap_marks] at hb
    have hne : b ≠ natBlockOffset nid := fun h => by rw [h, hmark] at hb; cases hb
    rw [heq]
    exact (Function.update_of_ne hne _ _).trans (h.unmarked b hb)
  · rw [hbits b, heq]
    by_cases hb : b = natBlockOffset nid
    · subst hb
      have hmem : nid % natEntryPerBlock ∈ f.bitSet (natBlockOffset nid) :=
        mem_bitSet.mpr ⟨nid_mod_lt nid, hbit⟩
      have hcard := Finset.card_erase_add_one hmem
      have hle := card_bitSet_le f (natBlockOffset nid)
      rw [if_pos rfl]
      dsimp only
      rw [if_neg (by decide), Function.update_self, h.count]
      unfold natEntryPerBlock at hle
      omega
    · rw [if_neg hb]
      exact (Function.update_of_ne hb _ _).trans (h.count b)

/-- A clear of a set bit from a scan leaves the count one too high. -/
theorem count_clear_build (h : BitBooks f)
    (hbit : f.freeNidBitmap (natBlockOffset nid) (nid % natEntryPerBlock) = true) :
    (f.updateFreeNidBitmap nid false true).freeNidCount (natBlockOffset nid) =
      ((f.updateFreeNidBitmap nid false true).bitSet (natBlockOffset nid)).card + 1 := by
  have heq := clear_eq true (h.marked hbit) hbit
  have hbits : (f.updateFreeNidBitmap nid false true).bitSet (natBlockOffset nid) =
      if natBlockOffset nid = natBlockOffset nid then
        (f.bitSet (natBlockOffset nid)).erase (nid % natEntryPerBlock)
      else f.bitSet (natBlockOffset nid) := bitSet_clear (by rw [heq]) _
  have hmem : nid % natEntryPerBlock ∈ f.bitSet (natBlockOffset nid) :=
    mem_bitSet.mpr ⟨nid_mod_lt nid, hbit⟩
  rw [if_pos rfl] at hbits
  rw [hbits, Finset.card_erase_add_one hmem, ← h.count, heq]
  rfl

theorem BitBooks.congr {f' : FreeNidInfo} (h : BitBooks f)
    (hmark : f'.natBlockBitmap = f.natBlockBitmap) (hbits : f'.freeNidBitmap = f.freeNidBitmap)
    (hcount : f'.freeNidCount = f.freeNidCount) : BitBooks f' := by
  refine ⟨fun b hb => ?_, fun b => ?_⟩
  · rw [hbits]
    rw [hmark] at hb
    exact h.unmarked b hb
  · unfold bitSet
    rw [hcount, hbits]
    exact h.count b

end Bits

/-! ## The tree and the list -/

section List

variable {f f' : FreeNidInfo} {nid : Nat}

theorem ListBooks.congr (h : ListBooks f) (hroot : f'.freeNidRoot = f.freeNidRoot)
    (hlist : f'.freeNidList = f.freeNidList) (hcnt : f'.nidCnt = f.nidCnt) : ListBooks f' where
  nodup := by rw [hlist]; exact h.nodup
  mem n := by rw [hlist, hroot]; exact h.mem n
  free := by rw [hcnt, hlist]; exact h.free
  prealloc := by
    unfold preallocs
    rw [hcnt, hroot]
    exact h.prealloc

theorem ListBooks.bitmap (h : ListBooks f) (nid : Nat) (set build : Bool) :
    ListBooks (f.updateFreeNidBitmap nid set build) :=
  h.congr (updateFreeNidBitmap_root f nid set build) (updateFreeNidBitmap_list f nid set build)
    (updateFreeNidBitmap_cnt f nid set build)

@[simp] theorem cntInc_self (f : FreeNidInfo) (state : NidState) :
    (f.cntInc state).nidCnt state = f.nidCnt state + 1 :=
  Function.update_self _ _ _

theorem cntInc_of_ne (f : FreeNidInfo) (s t : NidState) (h : t ≠ s) :
    (f.cntInc s).nidCnt t = f.nidCnt t :=
  Function.update_of_ne h _ _

@[simp] theorem cntDec_self (f : FreeNidInfo) (state : NidState) :
    (f.cntDec state).nidCnt state = f.nidCnt state - 1 :=
  Function.update_self _ _ _

theorem cntDec_of_ne (f : FreeNidInfo) (s t : NidState) (h : t ≠ s) :
    (f.cntDec s).nidCnt t = f.nidCnt t :=
  Function.update_of_ne h _ _

/-- The `PREALLOC_NID`s after the tree changed at one nid. -/
theorem preallocs_of_lookup {s : Option NidState}
    (hself : f'.freeNidRoot.lookup nid = s)
    (hother : ∀ n, n ≠ nid → f'.freeNidRoot.lookup n = f.freeNidRoot.lookup n) :
    f'.preallocs = if s = some .preallocNid then insert nid f.preallocs
      else f.preallocs.erase nid := by
  ext n
  rw [mem_preallocs]
  by_cases hn : n = nid
  · subst hn
    rw [hself]
    split_ifs with hs
    · simp [hs]
    · simp [hs]
  · rw [hother n hn]
    split_ifs
    · simp [hn]
    · simp [hn]

theorem insertFreeNid_of_some {e : NidState} (h : f.freeNidRoot.lookup nid = some e) :
    f.insertFreeNid nid = f := by
  unfold insertFreeNid
  rw [h]

theorem insertFreeNid_of_none (h : f.freeNidRoot.lookup nid = none) :
    f.insertFreeNid nid =
      { f.cntInc .freeNid with
        freeNidRoot := f.freeNidRoot.insert nid .freeNid
        freeNidList := f.freeNidList ++ [nid] } := by
  unfold insertFreeNid
  rw [h]

theorem insertFreeNid_lookup (f : FreeNidInfo) (nid n : Nat) :
    (f.insertFreeNid nid).freeNidRoot.lookup n =
      if n = nid then some ((f.freeNidRoot.lookup nid).getD .freeNid)
      else f.freeNidRoot.lookup n := by
  by_cases hn : n = nid
  · subst hn
    rw [if_pos rfl]
    cases he : f.freeNidRoot.lookup n with
    | some e => rw [insertFreeNid_of_some he, he]; rfl
    | none => rw [insertFreeNid_of_none he]; exact RadixTree.lookup_insert_self _ _ _
  · rw [if_neg hn]
    cases he : f.freeNidRoot.lookup nid with
    | some e => rw [insertFreeNid_of_some he]
    | none => rw [insertFreeNid_of_none he]; exact RadixTree.lookup_insert_of_ne _ _ hn

/-- `__insert_free_nid`. -/
theorem ListBooks.insertFreeNid (h : ListBooks f) (nid : Nat) :
    ListBooks (f.insertFreeNid nid) ∧ (f.insertFreeNid nid).preallocs = f.preallocs := by
  cases he : f.freeNidRoot.lookup nid with
  | some e =>
      rw [insertFreeNid_of_some he]
      exact ⟨h, rfl⟩
  | none =>
      have hlook := insertFreeNid_lookup f nid
      have hpre : (f.insertFreeNid nid).preallocs = f.preallocs := by
        ext n
        rw [mem_preallocs, mem_preallocs, hlook n]
        split_ifs with hn
        · subst hn
          simp [he]
        · rfl
      have hnot : nid ∉ f.freeNidList := fun hm => by
        rw [h.mem nid, he] at hm
        cases hm
      refine ⟨⟨?_, fun n => ?_, ?_, ?_⟩, hpre⟩
      · rw [insertFreeNid_of_none he]
        exact h.nodup.append (List.nodup_singleton nid) (by simpa using hnot)
      · rw [hlook n, insertFreeNid_of_none he]
        show n ∈ f.freeNidList ++ [nid] ↔ _
        rw [List.mem_append, h.mem n, List.mem_singleton]
        split_ifs with hn
        · subst hn
          simp [he]
        · simp [hn]
      · rw [insertFreeNid_of_none he]
        show (f.cntInc .freeNid).nidCnt .freeNid = (f.freeNidList ++ [nid]).length
        rw [cntInc_self, h.free, List.length_append]
        rfl
      · rw [hpre, ← h.prealloc, insertFreeNid_of_none he]
        exact f.cntInc_of_ne .freeNid .preallocNid nofun

/-- `__remove_free_nid` of a `FREE_NID`. -/
theorem ListBooks.removeFree (h : ListBooks f)
    (he : f.freeNidRoot.lookup nid = some .freeNid) :
    ListBooks (f.removeFreeNidEntry nid .freeNid) ∧
      (f.removeFreeNidEntry nid .freeNid).preallocs = f.preallocs := by
  have hself : (f.removeFreeNidEntry nid .freeNid).freeNidRoot.lookup nid = none :=
    RadixTree.lookup_delete_self _ _
  have hother : ∀ n, n ≠ nid → (f.removeFreeNidEntry nid .freeNid).freeNidRoot.lookup n =
      f.freeNidRoot.lookup n := fun n hn => RadixTree.lookup_delete_of_ne _ hn
  have hmem : nid ∈ f.freeNidList := (h.mem nid).mpr he
  have hpre : (f.removeFreeNidEntry nid .freeNid).preallocs = f.preallocs := by
    rw [preallocs_of_lookup hself hother, if_neg (by decide)]
    exact Finset.erase_eq_of_notMem (by simp [he])
  refine ⟨⟨?_, fun n => ?_, ?_, ?_⟩, hpre⟩
  · exact h.nodup.erase nid
  · show n ∈ f.freeNidList.erase nid ↔ _
    rw [h.nodup.mem_erase_iff, h.mem n]
    by_cases hn : n = nid
    · subst hn
      rw [hself]
      simp
    · rw [hother n hn]
      simp [hn]
  · show (f.cntDec .freeNid).nidCnt .freeNid = (f.freeNidList.erase nid).length
    rw [cntDec_self, h.free, List.length_erase_of_mem hmem]
  · rw [hpre, ← h.prealloc]
    exact f.cntDec_of_ne .freeNid .preallocNid nofun

/-- `__remove_free_nid` of a `PREALLOC_NID`. -/
theorem ListBooks.removePrealloc (h : ListBooks f)
    (he : f.freeNidRoot.lookup nid = some .preallocNid) :
    ListBooks (f.removeFreeNidEntry nid .preallocNid) ∧
      (f.removeFreeNidEntry nid .preallocNid).preallocs = f.preallocs.erase nid := by
  have hself : (f.removeFreeNidEntry nid .preallocNid).freeNidRoot.lookup nid = none :=
    RadixTree.lookup_delete_self _ _
  have hother : ∀ n, n ≠ nid → (f.removeFreeNidEntry nid .preallocNid).freeNidRoot.lookup n =
      f.freeNidRoot.lookup n := fun n hn => RadixTree.lookup_delete_of_ne _ hn
  have hpre : (f.removeFreeNidEntry nid .preallocNid).preallocs = f.preallocs.erase nid := by
    rw [preallocs_of_lookup hself hother, if_neg (by decide)]
  refine ⟨⟨h.nodup, fun n => ?_, ?_, ?_⟩, hpre⟩
  · show n ∈ f.freeNidList ↔ _
    rw [h.mem n]
    by_cases hn : n = nid
    · subst hn
      rw [hself, he]
      decide
    · rw [hother n hn]
  · rw [show (f.removeFreeNidEntry nid .preallocNid).freeNidList = f.freeNidList from rfl,
      ← h.free]
    exact f.cntDec_of_ne .preallocNid .freeNid nofun
  · show (f.cntDec .preallocNid).nidCnt .preallocNid = _
    rw [cntDec_self, h.prealloc, hpre, Finset.card_erase_of_mem (mem_preallocs.mpr he)]

/-- `__move_free_nid` of the nid `alloc_nid` hands out. -/
theorem ListBooks.moveToPrealloc (h : ListBooks f)
    (he : f.freeNidRoot.lookup nid = some .freeNid) :
    ListBooks (f.moveFreeNid nid .freeNid .preallocNid) ∧
      (f.moveFreeNid nid .freeNid .preallocNid).preallocs = insert nid f.preallocs := by
  have hself : (f.moveFreeNid nid .freeNid .preallocNid).freeNidRoot.lookup nid =
      some .preallocNid := by
    show (f.freeNidRoot.modify nid fun _ => NidState.preallocNid).lookup nid = _
    rw [RadixTree.lookup_modify_self, he]
    rfl
  have hother : ∀ n, n ≠ nid → (f.moveFreeNid nid .freeNid .preallocNid).freeNidRoot.lookup n =
      f.freeNidRoot.lookup n := fun n hn => RadixTree.lookup_modify_of_ne _ _ hn
  have hmem : nid ∈ f.freeNidList := (h.mem nid).mpr he
  have hpre : (f.moveFreeNid nid .freeNid .preallocNid).preallocs = insert nid f.preallocs := by
    rw [preallocs_of_lookup hself hother, if_pos rfl]
  refine ⟨⟨?_, fun n => ?_, ?_, ?_⟩, hpre⟩
  · exact h.nodup.erase nid
  · show n ∈ f.freeNidList.erase nid ↔ _
    rw [h.nodup.mem_erase_iff, h.mem n]
    by_cases hn : n = nid
    · subst hn
      rw [hself]
      simp
    · rw [hother n hn]
      simp [hn]
  · show ((f.cntDec .freeNid).cntInc .preallocNid).nidCnt .freeNid =
      (f.freeNidList.erase nid).length
    rw [cntInc_of_ne _ .preallocNid .freeNid nofun, cntDec_self, List.length_erase_of_mem hmem,
      ← h.free]
  · show ((f.cntDec .freeNid).cntInc .preallocNid).nidCnt .preallocNid = _
    rw [cntInc_self, cntDec_of_ne _ .freeNid .preallocNid nofun, hpre,
      Finset.card_insert_of_notMem (by simp [he]),
      ← h.prealloc]

/-- `__move_free_nid` of a nid that `alloc_nid_failed` gives back. -/
theorem ListBooks.moveToFree (h : ListBooks f)
    (he : f.freeNidRoot.lookup nid = some .preallocNid) :
    ListBooks (f.moveFreeNid nid .preallocNid .freeNid) ∧
      (f.moveFreeNid nid .preallocNid .freeNid).preallocs = f.preallocs.erase nid := by
  have hself : (f.moveFreeNid nid .preallocNid .freeNid).freeNidRoot.lookup nid =
      some .freeNid := by
    show (f.freeNidRoot.modify nid fun _ => NidState.freeNid).lookup nid = _
    rw [RadixTree.lookup_modify_self, he]
    rfl
  have hother : ∀ n, n ≠ nid → (f.moveFreeNid nid .preallocNid .freeNid).freeNidRoot.lookup n =
      f.freeNidRoot.lookup n := fun n hn => RadixTree.lookup_modify_of_ne _ _ hn
  have hnot : nid ∉ f.freeNidList := fun hm => by
    rw [h.mem nid, he] at hm
    cases hm
  have hpre : (f.moveFreeNid nid .preallocNid .freeNid).preallocs = f.preallocs.erase nid := by
    rw [preallocs_of_lookup hself hother, if_neg (by decide)]
  refine ⟨⟨?_, fun n => ?_, ?_, ?_⟩, hpre⟩
  · exact h.nodup.append (List.nodup_singleton nid) (by simpa using hnot)
  · show n ∈ f.freeNidList ++ [nid] ↔ _
    rw [List.mem_append, h.mem n, List.mem_singleton]
    by_cases hn : n = nid
    · subst hn
      rw [hself]
      simp
    · rw [hother n hn]
      simp [hn]
  · show ((f.cntDec .preallocNid).cntInc .freeNid).nidCnt .freeNid =
      (f.freeNidList ++ [nid]).length
    rw [cntInc_self, cntDec_of_ne _ .preallocNid .freeNid nofun, List.length_append, ← h.free]
    rfl
  · show ((f.cntDec .preallocNid).cntInc .freeNid).nidCnt .preallocNid = _
    rw [cntInc_of_ne _ .freeNid .preallocNid nofun, cntDec_self, hpre,
      Finset.card_erase_of_mem (mem_preallocs.mpr he), ← h.prealloc]

end List

/-! ## The operations -/

section Ops

variable {f : FreeNidInfo} {nid : Nat}

/-- Whether a scan's `add_free_nid` turns a nid down: the NAT cache knows better, or it has
    been handed out. -/
def turnsDown (f : FreeNidInfo) (ne : Option NatEntry) (nid : Nat) : Bool :=
  natBusy ne || decide (f.freeNidRoot.lookup nid = some .preallocNid)

/-- `add_free_nid` from a scan. -/
theorem addFreeNid_build (ne : Option NatEntry) (hnid : nid ≠ 0) (update : Bool) :
    f.addFreeNid ne nid true update =
      let f' := if f.turnsDown ne nid then f else f.insertFreeNid nid
      (!f.turnsDown ne nid,
        if update then f'.updateFreeNidBitmap nid (!f.turnsDown ne nid) true else f') := by
  unfold addFreeNid turnsDown
  rw [if_neg hnid]
  cases natBusy ne with
  | true => cases update <;> rfl
  | false =>
      cases he : f.freeNidRoot.lookup nid with
      | none => cases update <;> simp
      | some e =>
          rw [insertFreeNid_of_some he]
          cases e with
          | freeNid => cases update <;> simp
          | preallocNid => cases update <;> rfl

/-- `add_free_nid` from a flush. -/
theorem addFreeNid_flush (ne : Option NatEntry) (hnid : nid ≠ 0) :
    (f.addFreeNid ne nid false true).2 =
      { (f.insertFreeNid nid).updateFreeNidBitmap nid true false with
        availableNids := u32 (((f.insertFreeNid nid).updateFreeNidBitmap nid true
          false).availableNids + 1) } := by
  unfold addFreeNid
  rw [if_neg hnid]
  rfl

@[simp] theorem addFreeNid_zero (f : FreeNidInfo) (ne : Option NatEntry) (build update : Bool) :
    f.addFreeNid ne 0 build update = (false, f) := by
  unfold addFreeNid
  rw [if_pos rfl]

/-- Whether a scan clears the bit of a nid whose entry has address `addr`. -/
def scanClears (f : FreeNidInfo) (ne : Option NatEntry) (addr nid : Nat) : Bool :=
  decide (addr ≠ nullAddr) || (decide (nid ≠ 0) && f.turnsDown ne nid)

theorem scanNid_of_clears {ne : Option NatEntry} {addr : Nat}
    (h : f.scanClears ne addr nid = true) :
    f.scanNid ne addr nid = f.updateFreeNidBitmap nid false true := by
  unfold scanNid
  unfold scanClears at h
  split_ifs with haddr
  · simp only [haddr, ne_eq, not_true_eq_false, decide_false, Bool.false_or, Bool.and_eq_true,
      decide_eq_true_eq] at h
    rw [addFreeNid_build ne h.1, h.2]
    rfl
  · rfl

theorem scanNid_of_not_clears {ne : Option NatEntry} {addr : Nat}
    (h : f.scanClears ne addr nid = false) :
    f.scanNid ne addr nid =
      if nid = 0 then f else (f.insertFreeNid nid).updateFreeNidBitmap nid true true := by
  unfold scanNid
  unfold scanClears at h
  simp only [Bool.or_eq_false_iff, decide_eq_false_iff_not, ne_eq, not_not] at h
  rw [if_pos h.1]
  by_cases hnid : nid = 0
  · rw [if_pos hnid, hnid, addFreeNid_zero]
  · rw [decide_eq_true hnid, Bool.true_and] at h
    rw [if_neg hnid, addFreeNid_build ne hnid, h.2]
    rfl

theorem insertFreeNid_bits (f : FreeNidInfo) (nid : Nat) :
    (f.insertFreeNid nid).natBlockBitmap = f.natBlockBitmap ∧
      (f.insertFreeNid nid).freeNidBitmap = f.freeNidBitmap ∧
      (f.insertFreeNid nid).freeNidCount = f.freeNidCount := by
  unfold insertFreeNid
  cases f.freeNidRoot.lookup nid <;> exact ⟨rfl, rfl, rfl⟩

theorem BitBooks.insertFreeNid (h : BitBooks f) (nid : Nat) : BitBooks (f.insertFreeNid nid) :=
  h.congr (insertFreeNid_bits f nid).1 (insertFreeNid_bits f nid).2.1
    (insertFreeNid_bits f nid).2.2

/-- What is kept by an operation that hands nothing out and takes nothing back. -/
structure Kept (f f' : FreeNidInfo) : Prop where
  list : ListBooks f'
  preallocs : f'.preallocs = f.preallocs

theorem ListBooks.kept_insert (h : ListBooks f) (nid : Nat) : Kept f (f.insertFreeNid nid) :=
  ⟨(h.insertFreeNid nid).1, (h.insertFreeNid nid).2⟩

theorem Kept.bitmap {f' : FreeNidInfo} (h : Kept f f') (nid : Nat) (set build : Bool) :
    Kept f (f'.updateFreeNidBitmap nid set build) := by
  refine ⟨h.list.bitmap nid set build, ?_⟩
  unfold FreeNidInfo.preallocs
  rw [updateFreeNidBitmap_root]
  exact h.preallocs

/-- Nothing here speaks of `available_nids`. -/
theorem Kept.avail {f' : FreeNidInfo} (h : Kept f f') (n : Nat) :
    Kept f { f' with availableNids := n } :=
  ⟨h.list.congr rfl rfl rfl, h.preallocs⟩

theorem BitBooks.avail (h : BitBooks f) (n : Nat) : BitBooks { f with availableNids := n } :=
  h.congr rfl rfl rfl

/-- A step of `scan_free_nid_bits` or of `scan_curseg_cache`. -/
theorem addFree_kept (h : ListBooks f) (ne : Option NatEntry) (nid : Nat) :
    Kept f (f.addFreeNid ne nid true false).2 := by
  by_cases hnid : nid = 0
  · rw [hnid, addFreeNid_zero]
    exact ⟨h, rfl⟩
  · rw [addFreeNid_build ne hnid]
    dsimp only
    rw [if_neg (by decide)]
    split_ifs
    · exact ⟨h, rfl⟩
    · exact h.kept_insert nid

theorem addFree_bits (h : BitBooks f) (ne : Option NatEntry) (nid : Nat) :
    BitBooks (f.addFreeNid ne nid true false).2 := by
  by_cases hnid : nid = 0
  · rwa [hnid, addFreeNid_zero]
  · rw [addFreeNid_build ne hnid]
    dsimp only
    rw [if_neg (by decide)]
    split_ifs
    · exact h
    · exact h.insertFreeNid nid

/-- A step of `scan_nat_page`. -/
theorem scanNid_kept (h : ListBooks f) (ne : Option NatEntry) (addr nid : Nat) :
    Kept f (f.scanNid ne addr nid) := by
  cases hc : f.scanClears ne addr nid with
  | true =>
      rw [scanNid_of_clears hc]
      exact Kept.bitmap ⟨h, rfl⟩ nid false true
  | false =>
      rw [scanNid_of_not_clears hc]
      split_ifs
      · exact ⟨h, rfl⟩
      · exact (h.kept_insert nid).bitmap nid true true

/-- It keeps the bit books when it clears no set bit. -/
theorem scanNid_bits (h : BitBooks f) {ne : Option NatEntry} {addr : Nat}
    (hclear : f.scanClears ne addr nid = true →
      f.freeNidBitmap (natBlockOffset nid) (nid % natEntryPerBlock) = false) :
    BitBooks (f.scanNid ne addr nid) := by
  cases hc : f.scanClears ne addr nid with
  | true => rwa [scanNid_of_clears hc, updateFreeNidBitmap_clear (hclear hc)]
  | false =>
      rw [scanNid_of_not_clears hc]
      split_ifs
      · exact h
      · exact (h.insertFreeNid nid).setBit nid true

/-- `remove_free_nid`. -/
theorem removeFreeNid_kept (h : ListBooks f) (nid : Nat) : Kept f (f.removeFreeNid nid) := by
  unfold removeFreeNid
  split_ifs with he
  · exact ⟨(h.removeFree he).1, (h.removeFree he).2⟩
  · exact ⟨h, rfl⟩

theorem removeFreeNid_bits (h : BitBooks f) (nid : Nat) : BitBooks (f.removeFreeNid nid) := by
  unfold removeFreeNid
  split_ifs
  · exact h.congr rfl rfl rfl
  · exact h

/-- The free-nid side of flushing an entry. -/
theorem flushFreeNid_kept (h : ListBooks f) (ne : NatEntry) (nid : Nat) :
    Kept f (flushFreeNid f ne nid) := by
  unfold flushFreeNid
  split_ifs
  · by_cases hnid : nid = 0
    · rw [hnid, addFreeNid_zero]
      exact ⟨h, rfl⟩
    · rw [addFreeNid_flush _ hnid]
      exact ((h.kept_insert nid).bitmap nid true false).avail _
  · exact Kept.bitmap ⟨h, rfl⟩ nid false false

theorem flushFreeNid_bits (h : BitBooks f) (ne : NatEntry) (nid : Nat) :
    BitBooks (flushFreeNid f ne nid) := by
  unfold flushFreeNid
  split_ifs
  · by_cases hnid : nid = 0
    · rwa [hnid, addFreeNid_zero]
    · rw [addFreeNid_flush _ hnid]
      exact ((h.insertFreeNid nid).setBit nid false).avail _
  · exact h.clearBit nid

/-- `try_to_free_nids`. -/
theorem shrinkFreeNids_kept (nrShrink : Nat) : ∀ {f : FreeNidInfo}, ListBooks f →
    Kept f (shrinkFreeNids nrShrink f) := by
  induction nrShrink with
  | zero => exact fun h => ⟨h, rfl⟩
  | succ n ih =>
      intro f h
      unfold shrinkFreeNids
      cases hl : f.freeNidList with
      | nil => exact ⟨h, rfl⟩
      | cons nid rest =>
          dsimp only
          split_ifs
          · exact ⟨h, rfl⟩
          · have he := (h.mem nid).mp (by rw [hl]; exact List.mem_cons_self)
            obtain ⟨hlist, hpre⟩ := h.removeFree he
            have hk := ih hlist
            exact ⟨hk.list, hk.preallocs.trans hpre⟩

theorem shrinkFreeNids_bits (nrShrink : Nat) : ∀ {f : FreeNidInfo}, BitBooks f →
    BitBooks (shrinkFreeNids nrShrink f) := by
  induction nrShrink with
  | zero => exact id
  | succ n ih =>
      intro f h
      unfold shrinkFreeNids
      cases f.freeNidList with
      | nil => exact h
      | cons nid rest =>
          dsimp only
          split_ifs
          · exact h
          · exact ih (h.congr rfl rfl rfl)

/-- The section of `alloc_nid`. -/
theorem takeFreeNid_books (h : ListBooks f) (he : f.freeNidRoot.lookup nid = some .freeNid) :
    ListBooks (f.takeFreeNid nid) ∧ (f.takeFreeNid nid).preallocs = insert nid f.preallocs := by
  obtain ⟨hlist, hpre⟩ := h.moveToPrealloc he
  have hk : Kept (f.moveFreeNid nid .freeNid .preallocNid) (f.takeFreeNid nid) := by
    unfold takeFreeNid
    exact (Kept.avail ⟨hlist, rfl⟩ _).bitmap nid false false
  exact ⟨hk.list, hk.preallocs.trans hpre⟩

theorem takeFreeNid_bits (h : BitBooks f) (nid : Nat) : BitBooks (f.takeFreeNid nid) := by
  have hmove : BitBooks (f.moveFreeNid nid .freeNid .preallocNid) := h.congr rfl rfl rfl
  unfold takeFreeNid
  exact (hmove.avail _).clearBit nid

/-- `alloc_nid_done`. -/
theorem allocNidDone_books (h : ListBooks f)
    (he : f.freeNidRoot.lookup nid = some .preallocNid) :
    ListBooks (f.allocNidDone nid) ∧ (f.allocNidDone nid).preallocs = f.preallocs.erase nid := by
  unfold allocNidDone
  rw [he]
  exact h.removePrealloc he

theorem allocNidDone_bits (h : BitBooks f) (nid : Nat) : BitBooks (f.allocNidDone nid) := by
  unfold allocNidDone
  cases f.freeNidRoot.lookup nid with
  | none => exact h
  | some e => exact h.congr rfl rfl rfl

/-- `alloc_nid_failed`. -/
theorem allocNidFailed_books (h : ListBooks f)
    (he : f.freeNidRoot.lookup nid = some .preallocNid) (hnid : nid ≠ 0) (mem : Bool) :
    ListBooks (f.allocNidFailed nid mem) ∧
      (f.allocNidFailed nid mem).preallocs = f.preallocs.erase nid := by
  unfold allocNidFailed
  rw [if_neg hnid, he]
  dsimp only
  cases mem with
  | true =>
      obtain ⟨hlist, hpre⟩ := h.moveToFree he
      rw [if_pos rfl]
      have hk := (Kept.avail ⟨hlist, rfl⟩
        (u32 ((f.moveFreeNid nid .preallocNid .freeNid).availableNids + 1))).bitmap nid true false
      exact ⟨hk.list, hk.preallocs.trans hpre⟩
  | false =>
      obtain ⟨hlist, hpre⟩ := h.removePrealloc he
      rw [if_neg (by decide)]
      have hk := (Kept.avail ⟨hlist, rfl⟩
        (u32 ((f.removeFreeNidEntry nid .preallocNid).availableNids + 1))).bitmap nid true false
      exact ⟨hk.list, hk.preallocs.trans hpre⟩

theorem allocNidFailed_bits (h : BitBooks f) (nid : Nat) (mem : Bool) :
    BitBooks (f.allocNidFailed nid mem) := by
  unfold allocNidFailed
  by_cases hnid : nid = 0
  · rwa [if_pos hnid]
  · rw [if_neg hnid]
    cases f.freeNidRoot.lookup nid with
    | none => exact h
    | some e =>
        have hback : BitBooks (if mem then f.moveFreeNid nid .preallocNid .freeNid
            else f.removeFreeNidEntry nid .preallocNid) := by
          split_ifs
          · exact h.congr rfl rfl rfl
          · exact h.congr rfl rfl rfl
        exact (hback.avail _).setBit nid false

/-- A block is marked. -/
theorem BitBooks.markBlock (h : BitBooks f) (b : Nat) : BitBooks (f.markBlock b) := by
  refine ⟨fun b' hb' => h.unmarked b' ?_, h.count⟩
  by_cases hb : b' = b
  · subst hb
    rw [show (f.markBlock b').natBlockBitmap b' = true from Function.update_self _ _ _] at hb'
    cases hb'
  · rwa [show (f.markBlock b).natBlockBitmap b' = f.natBlockBitmap b' from
      Function.update_of_ne hb _ _] at hb'

end Ops

end FreeNidInfo

end F2fs.Node

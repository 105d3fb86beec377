/-
  The NAT bits: `full_nat_bits` and `empty_nat_bits` as a summary of the NAT blocks,
  through flushes, an umount checkpoint and the next mount.

  The bits speak of the blocks alone, not of the journal, so a flush to the journal has
  nothing to update, and neither has a flush that finds nothing dirty.  Nid 0 counts as
  allocated: `__update_nat_bits` starts block 0 with one valid entry and the scan never
  adds nid 0 (`natUsed`).

  `BitsDescribe` is the invariant; `natEvents_bits` carries it over a run and
  `natBits_fastPath` over the checkpoint and the mount, where a block loaded from the bits
  gets the bitmap and count of a scan (`LoadedAsScanned`).
-/
import F2fs.Checkpoint.Pack
import F2fs.Lib.OptionFold
import F2fs.Node.BuildFreeNids
import F2fs.Node.NatLists

namespace F2fs.Node

open F2fs.Checkpoint

/-! ## What the bits say -/

/-- Whether an entry of block `b` counts as allocated. -/
def natUsed (b : Nat) (blk : NatBlock) (i : Nat) : Bool :=
  (b == 0 && i == 0) || decide ((blk i).blockAddr ≠ nullAddr)

/-- The two bits of block `b` describe its current copy. -/
structure BitsAt (sbi : SbInfo) (s : NatState) (b : Nat) : Prop where
  full : s.fullNatBits b = true ↔
    ∀ i < natEntryPerBlock, natUsed b (currentBlock sbi s b) i = true
  empty : s.emptyNatBits b = true ↔
    ∀ i < natEntryPerBlock, natUsed b (currentBlock sbi s b) i = false

/-- The bits describe the NAT blocks. -/
def BitsDescribe (sbi : SbInfo) (s : NatState) : Prop := ∀ b < sbi.natBlocks, BitsAt sbi s b

/-- `valid` of `__update_nat_bits` is the number of entries that count as allocated. -/
theorem validEntries_eq (b : Nat) (blk : NatBlock) :
    validEntries b blk = ((List.range natEntryPerBlock).filter (natUsed b blk)).length := by
  unfold validEntries natUsed natEntryPerBlock
  dsimp only
  by_cases hb : b = 0
  · -- the loop starts behind nid 0, which is valid from the outset
    subst hb
    rw [List.range_succ_eq_map, List.filter_cons_of_neg (by simp),
      List.filter_cons_of_pos (by simp), List.filter_map, List.filter_map, List.length_cons,
      List.length_map, List.length_map, if_pos rfl]
    congr 2
  · have hbeq : (b == 0) = false := beq_eq_false_iff_ne.mpr hb
    simp [hb, hbeq]

theorem validEntries_eq_zero (b : Nat) (blk : NatBlock) :
    validEntries b blk = 0 ↔ ∀ i < natEntryPerBlock, natUsed b blk i = false := by
  rw [validEntries_eq, List.length_eq_zero_iff, List.filter_eq_nil_iff]
  simp

theorem validEntries_eq_all (b : Nat) (blk : NatBlock) :
    validEntries b blk = natEntryPerBlock ↔ ∀ i < natEntryPerBlock, natUsed b blk i = true := by
  have h := List.length_filter_eq_length_iff (p := natUsed b blk)
    (l := List.range natEntryPerBlock)
  rw [List.length_range] at h
  rw [validEntries_eq, h]
  simp

/-- `__update_nat_bits` on the current copy. -/
theorem updateNatBits_bitsAt {sbi : SbInfo} {s : NatState} {k : Nat}
    (hflag : s.natBitsFlag = true) :
    BitsAt sbi (updateNatBits s k (currentBlock sbi s k)) k := by
  have hzero := validEntries_eq_zero k (currentBlock sbi s k)
  have hall := validEntries_eq_all k (currentBlock sbi s k)
  unfold updateNatBits
  rw [hflag, if_neg (by decide)]
  dsimp only
  split_ifs with hv
  · refine ⟨?_, ?_⟩
    · show Function.update s.fullNatBits k false k = true ↔
        ∀ i < natEntryPerBlock, natUsed k (currentBlock sbi s k) i = true
      rw [Function.update_self, ← hall, hv]
      simp [natEntryPerBlock]
    · show Function.update s.emptyNatBits k true k = true ↔
        ∀ i < natEntryPerBlock, natUsed k (currentBlock sbi s k) i = false
      rw [Function.update_self, ← hzero]
      simp [hv]
  · refine ⟨?_, ?_⟩
    · show Function.update s.fullNatBits k (decide _) k = true ↔
        ∀ i < natEntryPerBlock, natUsed k (currentBlock sbi s k) i = true
      rw [Function.update_self, decide_eq_true_iff, hall]
    · show Function.update s.emptyNatBits k false k = true ↔
        ∀ i < natEntryPerBlock, natUsed k (currentBlock sbi s k) i = false
      rw [Function.update_self, ← hzero]
      simp [hv]

/-! ## The flush -/

section Flush

variable {sbi : SbInfo} {s s' s'' : NatState} {set b : Nat}

/-- A step that changes no bit, no version and no current block outside `P`. -/
structure Keeps (sbi : SbInfo) (P : Nat → Prop) (s s' : NatState) : Prop where
  flag : s'.natBitsFlag = s.natBitsFlag
  full : ∀ b, ¬P b → s'.fullNatBits b = s.fullNatBits b
  empty : ∀ b, ¬P b → s'.emptyNatBits b = s.emptyNatBits b
  natBitmap : ∀ b, ¬P b → s'.natBitmap b = s.natBitmap b
  block : ∀ b, ¬P b → currentBlock sbi s' b = currentBlock sbi s b

variable {P : Nat → Prop}

theorem Keeps.refl (s : NatState) : Keeps sbi P s s :=
  ⟨rfl, fun _ _ => rfl, fun _ _ => rfl, fun _ _ => rfl, fun _ _ => rfl⟩

theorem Keeps.trans (h : Keeps sbi P s s') (h' : Keeps sbi P s' s'') : Keeps sbi P s s'' where
  flag := h'.flag.trans h.flag
  full b hb := (h'.full b hb).trans (h.full b hb)
  empty b hb := (h'.empty b hb).trans (h.empty b hb)
  natBitmap b hb := (h'.natBitmap b hb).trans (h.natBitmap b hb)
  block b hb := (h'.block b hb).trans (h.block b hb)

theorem Keeps.bitsAt (h : Keeps sbi P s s') (hb : ¬P b) (hbits : BitsAt sbi s b) :
    BitsAt sbi s' b := by
  refine ⟨?_, ?_⟩
  · rw [h.full b hb, h.block b hb]
    exact hbits.full
  · rw [h.empty b hb, h.block b hb]
    exact hbits.empty

/-- Nothing the bits speak of lives in the cache, the free nids or the journal. -/
theorem Keeps.of_parts (c : NatCache) (f : FreeNidInfo) (j : JournalArray RawNat) :
    Keeps sbi P s { s with cache := c, free := f, journal := j } :=
  ⟨rfl, fun _ _ => rfl, fun _ _ => rfl, fun _ _ => rfl, fun _ _ => rfl⟩

/-- Writing the current copy of one block leaves the others. -/
theorem Keeps.of_pages (addr : Nat) (blk : NatBlock) (bitmap : Nat → Bool)
    (hbitmap : ∀ b, ¬P b → bitmap b = s.natBitmap b)
    (haddr : ∀ b, ¬P b → natAddr sbi b (s.natBitmap b) ≠ addr) :
    Keeps sbi P s { s with pages := Function.update s.pages addr blk, natBitmap := bitmap } where
  flag := rfl
  full _ _ := rfl
  empty _ _ := rfl
  natBitmap := hbitmap
  block b hb := by
    show Function.update s.pages addr blk (natAddr sbi b (bitmap b)) = _
    rw [hbitmap b hb, Function.update_of_ne (haddr b hb)]
    rfl

theorem getNextNatPage_keeps : Keeps sbi (· = set) s
    (getNextNatPage sbi s (set * natEntryPerBlock)) := by
  unfold getNextNatPage currentNatAddr
  dsimp only
  rw [natBlockOffset_mul, nextNatAddr_natAddr]
  refine Keeps.of_pages _ _ _ (fun b hb => Function.update_of_ne hb _ _) fun b hb h => ?_
  exact hb (natAddr_inj h).1

/-- Where an entry may go: nowhere but the journal, or the set's own block. -/
def entryTarget (set : Nat) (toJournal : Bool) (b : Nat) : Prop := toJournal = false ∧ b = set

theorem storeEntry_keeps {toJournal : Bool} {nid : Nat} {raw : RawNat}
    (h : storeEntry sbi set toJournal s nid raw = some s') :
    Keeps sbi (entryTarget set toJournal) s s' := by
  unfold storeEntry at h
  cases toJournal with
  | true =>
      rw [if_pos rfl, Option.map_eq_some_iff] at h
      obtain ⟨⟨offset, j⟩, -, rfl⟩ := h
      exact Keeps.of_parts s.cache s.free _
  | false =>
      rw [if_neg (by decide)] at h
      cases h
      refine Keeps.of_pages _ _ s.natBitmap (fun _ _ => rfl) fun b hb h => ?_
      exact hb ⟨rfl, (natAddr_inj h).1⟩

theorem flushNatEntry_keeps {toJournal : Bool} {nid : Nat}
    (h : flushNatEntry sbi set toJournal s nid = some s') :
    Keeps sbi (entryTarget set toJournal) s s' := by
  unfold flushNatEntry at h
  cases he : s.cache.natRoot.lookup nid with
  | none =>
      rw [he] at h
      cases h
  | some e =>
      rw [he] at h
      dsimp only at h
      split_ifs at h
      obtain ⟨s₁, hstore, rfl⟩ := Option.map_eq_some_iff.mp h
      exact (storeEntry_keeps hstore).trans (Keeps.of_parts _ _ s₁.journal)

theorem flushEntries_keeps {toJournal : Bool} {L : List Nat}
    (h : L.foldlM (flushNatEntry sbi set toJournal) s = some s') :
    Keeps sbi (entryTarget set toJournal) s s' :=
  OptionFold.foldlM_inv (P := Keeps sbi (entryTarget set toJournal) s)
    (fun _ _ _ _ hkeep hstep => hkeep.trans (flushNatEntry_keeps hstep)) (Keeps.refl s) h

/-- Dropping an emptied set. -/
theorem dropSet_keeps (set : Nat) : Keeps sbi P s
    (if (s.cache.natSetRoot.lookup set).any (·.entryCnt = 0) then
      { s with cache := { s.cache with natSetRoot := s.cache.natSetRoot.delete set } }
    else s) := by
  split_ifs
  · exact Keeps.of_parts _ s.free s.journal
  · exact Keeps.refl s

theorem updateNatBits_keeps (blk : NatBlock) :
    Keeps sbi (· = set) s (updateNatBits s set blk) := by
  unfold updateNatBits
  dsimp only
  split_ifs
  · exact Keeps.refl s
  · exact ⟨rfl, fun b hb => Function.update_of_ne hb _ _,
      fun b hb => Function.update_of_ne hb _ _, fun _ _ => rfl, fun _ _ => rfl⟩
  · exact ⟨rfl, fun b hb => Function.update_of_ne hb _ _,
      fun b hb => Function.update_of_ne hb _ _, fun _ _ => rfl, fun _ _ => rfl⟩

/-- A step after which the flag is as before and, while it is set, every block that the
    bits described is still described. -/
structure KeepsBits (sbi : SbInfo) (s s' : NatState) : Prop where
  flag : s'.natBitsFlag = s.natBitsFlag
  bits : s.natBitsFlag = true → ∀ b, BitsAt sbi s b → BitsAt sbi s' b

theorem KeepsBits.trans (h : KeepsBits sbi s s') (h' : KeepsBits sbi s' s'') :
    KeepsBits sbi s s'' :=
  ⟨h'.flag.trans h.flag, fun hf b hb => h'.bits (h.flag.trans hf) b (h.bits hf b hb)⟩

theorem Keeps.keepsBits (h : Keeps sbi (fun _ => False) s s') : KeepsBits sbi s s' :=
  ⟨h.flag, fun _ _ hb => h.bitsAt id hb⟩

/-- `__flush_nat_entry_set`: a set that goes to its block gets its bits renewed. -/
theorem flushNatEntrySet_keepsBits {reason : CpReason} (hinv : s.cache.Inv none)
    (h : flushNatEntrySet sbi reason s set = some s') : KeepsBits sbi s s' := by
  unfold flushNatEntrySet at h
  cases hst : s.cache.natSetRoot.lookup set with
  | none =>
      rw [hst] at h
      cases h
  | some st =>
      rw [hst] at h
      have hset : st.set = set := hinv.setNo set st hst
      dsimp only at h
      obtain ⟨toJournal, htj⟩ : ∃ t, t = !((reason.umount && s.natBitsFlag) ||
        !hasCursumSpace s.journal st.entryCnt) := ⟨_, rfl⟩
      rw [hset, ← htj, Option.map_eq_some_iff] at h
      obtain ⟨s₂, hfold, rfl⟩ := h
      have hentries := flushEntries_keeps hfold
      cases toJournal with
      | true =>
          refine Keeps.keepsBits (Keeps.trans ?_ (dropSet_keeps set))
          exact ⟨hentries.flag, fun b _ => hentries.full b nofun,
            fun b _ => hentries.empty b nofun, fun b _ => hentries.natBitmap b nofun,
            fun b _ => hentries.block b nofun⟩
      | false =>
          have hout : Keeps sbi (· = set) (getNextNatPage sbi s (set * natEntryPerBlock)) s₂ :=
            ⟨hentries.flag, fun b hb => hentries.full b fun h => hb h.2,
              fun b hb => hentries.empty b fun h => hb h.2,
              fun b hb => hentries.natBitmap b fun h => hb h.2,
              fun b hb => hentries.block b fun h => hb h.2⟩
          have hkeep := getNextNatPage_keeps.trans hout
          have hblk : s₂.pages (currentNatAddr sbi s₂ (set * natEntryPerBlock)) =
              currentBlock sbi s₂ set := by
            rw [currentNatAddr, natBlockOffset_mul, currentBlock]
          simp only [Bool.false_eq_true, if_false, hblk]
          have hall := hkeep.trans (updateNatBits_keeps (currentBlock sbi s₂ set))
          obtain ⟨s₃, hs₃⟩ : ∃ s₃, s₃ = updateNatBits s₂ set (currentBlock sbi s₂ set) := ⟨_, rfl⟩
          rw [← hs₃] at hall ⊢
          have hdrop := @dropSet_keeps sbi s₃ (fun _ => False) set
          refine ⟨hdrop.flag.trans hall.flag, fun hflag b hb => hdrop.bitsAt id ?_⟩
          by_cases hbs : b = set
          · subst hbs
            rw [hs₃]
            exact updateNatBits_bitsAt (hkeep.flag.trans hflag)
          · exact hall.bitsAt hbs hb

/-- `remove_nats_in_journal` changes no block. -/
theorem removeNatsInJournal_keepsBits (s : NatState) :
    KeepsBits sbi s (removeNatsInJournal s) := by
  have hloop : ∀ (l : List Nat) (s : NatState),
      Keeps sbi (fun _ => False) s (l.foldl removeNatInJournal s) := by
    intro l
    induction l with
    | nil => exact fun s => Keeps.refl s
    | cons i l ih =>
        intro s
        rw [List.foldl_cons]
        exact (Keeps.of_parts _ _ s.journal).trans (ih (removeNatInJournal s i))
  exact ((hloop _ s).trans (Keeps.of_parts _ _ _)).keepsBits

/-- `flush_nat_entries`. -/
theorem flushNatEntries_keepsBits {reason : CpReason} (hinv : s.cache.Inv none)
    (h : flushNatEntries sbi reason s = some s') : KeepsBits sbi s s' := by
  unfold flushNatEntries at h
  by_cases hclean : s.cache.dirtyNatCnt = 0
  · rw [if_pos hclean] at h
    cases h
    exact (Keeps.refl s).keepsBits
  · rw [if_neg hclean] at h
    dsimp only at h
    obtain ⟨s₁, hs₁⟩ : ∃ s₁, s₁ = if drainsJournal reason s then removeNatsInJournal s else s :=
      ⟨_, rfl⟩
    rw [← hs₁] at h
    have h₁ : KeepsBits sbi s s₁ ∧ s₁.cache.Inv none := by
      rw [hs₁]
      split_ifs
      · exact ⟨removeNatsInJournal_keepsBits s, (removeNatsInJournal_cache hinv).1⟩
      · exact ⟨(Keeps.refl s).keepsBits, hinv⟩
    refine (OptionFold.foldlM_inv (P := fun t => KeepsBits sbi s t ∧ t.cache.Inv none)
      (fun t k t' _ ht hstep => ?_) h₁ h).1
    cases hst : t.cache.natSetRoot.lookup k with
    | none =>
        unfold flushNatEntrySet at hstep
        rw [hst] at hstep
        cases hstep
    | some st =>
        obtain ⟨t₁, ht₁, hflushed, -⟩ := flushNatEntrySet_cache sbi reason ht.2 hst
        rw [hstep] at ht₁
        cases ht₁
        exact ⟨ht.1.trans (flushNatEntrySet_keepsBits ht.2 hstep), hflushed.inv⟩

end Flush

/-! ## Runs -/

/-- What happens to the node manager between two mounts, as far as the bits can tell. -/
inductive NatEvent where
  /-- An operation on the NAT: a lookup, `set_node_addr`, a flush, the shrinker. -/
  | nat (op : NatOp)
  /-- `alloc_nid`, `build_free_nids` and their kind leave `free` behind. -/
  | freeNids (free : FreeNidInfo)
  /-- `disable_nat_bits`. -/
  | disableNatBits

/-- One event. -/
def natEventStep (sbi : SbInfo) (s : NatState) : NatEvent → Option NatState
  | .nat op => natStep sbi s op
  | .freeNids free => some { s with free := free }
  | .disableNatBits => some { s with natBitsFlag := false }

/-- The bits describe the blocks as long as the flag is set. -/
structure BitsInv (sbi : SbInfo) (s : NatState) : Prop where
  cache : s.cache.Inv none
  bits : s.natBitsFlag = true → BitsDescribe sbi s

theorem BitsInv.keep {sbi : SbInfo} {s s' : NatState} (h : BitsInv sbi s)
    (hkeep : KeepsBits sbi s s') (hcache : s'.cache.Inv none) : BitsInv sbi s' := by
  refine ⟨hcache, fun hflag b hb => ?_⟩
  rw [hkeep.flag] at hflag
  exact hkeep.bits hflag b (h.bits hflag b hb)

/-- One event keeps the invariant. -/
theorem natEventStep_inv (sbi : SbInfo) {s : NatState} (h : BitsInv sbi s) (ev : NatEvent) :
    ∃ s', natEventStep sbi s ev = some s' ∧ BitsInv sbi s' := by
  cases ev with
  | freeNids free =>
      exact ⟨_, rfl, h.keep (Keeps.of_parts s.cache free s.journal).keepsBits h.cache⟩
  | disableNatBits => exact ⟨_, rfl, h.cache, nofun⟩
  | nat op =>
      obtain ⟨s', hstep, hcache⟩ := natStep_inv sbi h.cache op
      refine ⟨s', hstep, h.keep ?_ hcache⟩
      cases op with
      | setNodeAddr ni newBlkaddr fsyncDone =>
          cases hstep
          exact (Keeps.of_parts _ s.free s.journal).keepsBits
      | cacheNatEntry nid ne nomem =>
          cases hstep
          exact (Keeps.of_parts _ s.free s.journal).keepsBits
      | flushNatEntries reason => exact flushNatEntries_keepsBits h.cache hstep
      | tryToFreeNats nrShrink =>
          cases hstep
          exact (Keeps.of_parts _ s.free s.journal).keepsBits

/-- A whole run keeps it. -/
theorem natEvents_bits (sbi : SbInfo) (evs : List NatEvent) (s₀ : NatState)
    (h : BitsInv sbi s₀) : ∃ s, evs.foldlM (natEventStep sbi) s₀ = some s ∧ BitsInv sbi s :=
  OptionFold.foldlM_total (P := fun _ s => BitsInv sbi s)
    (fun ev _ _ hs => natEventStep_inv sbi hs ev) h

end F2fs.Node

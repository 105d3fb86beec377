/-
  The nids at mount: `build_node_manager` after `init_node_manager`.

  The NAT bits hand over whole blocks; `loadFreeNidBitmap_view` is their effect on one nid.
  From an image whose journal names usable nids only and whose NAT bits describe its blocks,
  the mount leads into `NidsInv`.
-/
import F2fs.Node.NidMoves

namespace F2fs.Node

open FreeNidInfo

/-! ## Loading the bits -/

namespace NidView

/-- A nid of a block the bits call empty. -/
def loadEmpty (v : NidView) : NidView := { v with bit := true, marked := true }

/-- A nid of a block the bits call full. -/
def mark (v : NidView) : NidView := { v with marked := true }

end NidView

theorem mem_blockNids {b n : Nat} : n ∈ blockNids b ↔ natBlockOffset n = b := by
  unfold blockNids natBlockOffset natEntryPerBlock
  rw [List.mem_range'_1]
  omega

theorem blockNids_nodup (b : Nat) : (blockNids b).Nodup := List.nodup_range'

theorem loadEmptyBlock_view (f : FreeNidInfo) (b n : Nat) : (loadEmptyBlock f b).view n =
    if natBlockOffset n = b then (f.view n).loadEmpty else f.view n := by
  have hfold := FoldView.foldl_view FreeNidInfo.view
    (fun f nid => f.updateFreeNidBitmap nid true true) (h := fun _ v => v.setBit true)
    (fun f nid m => updateFreeNidBitmap_view f nid true true m) (f.markBlock b) n
    (blockNids_nodup b)
  unfold loadEmptyBlock
  rw [hfold, markBlock_view]
  by_cases hn : natBlockOffset n = b
  · rw [if_pos (mem_blockNids.mpr hn), if_pos hn]
    unfold NidView.setBit NidView.loadEmpty
    simp [hn]
  · rw [if_neg fun h => hn (mem_blockNids.mp h), if_neg hn, decide_eq_false hn, Bool.false_or]

theorem loadEmptyBlocks_view : ∀ (bs : List Nat) (f : FreeNidInfo) (n : Nat),
    (bs.foldl loadEmptyBlock f).view n =
      if natBlockOffset n ∈ bs then (f.view n).loadEmpty else f.view n
  | [], f, n => by rw [if_neg List.not_mem_nil]; rfl
  | b :: bs, f, n => by
      rw [List.foldl_cons, loadEmptyBlocks_view bs, loadEmptyBlock_view]
      by_cases hb : natBlockOffset n = b
      · rw [if_pos hb, if_pos (List.mem_cons.mpr (Or.inl hb))]
        split_ifs <;> rfl
      · rw [if_neg hb]
        simp only [List.mem_cons, hb, false_or]

theorem markBlocks_view : ∀ (bs : List Nat) (f : FreeNidInfo) (n : Nat),
    (bs.foldl markBlock f).view n =
      if natBlockOffset n ∈ bs then (f.view n).mark else f.view n
  | [], f, n => by rw [if_neg List.not_mem_nil]; rfl
  | b :: bs, f, n => by
      rw [List.foldl_cons, markBlocks_view bs, markBlock_view]
      by_cases hb : natBlockOffset n = b
      · rw [if_pos (List.mem_cons.mpr (Or.inl hb)), decide_eq_true hb, Bool.true_or]
        split_ifs <;> rfl
      · rw [decide_eq_false hb, Bool.false_or]
        simp only [List.mem_cons, hb, false_or]

/-- What the mount knows of a nid from the NAT bits. -/
theorem loadFreeNidBitmap_view (sbi : SbInfo) (s : NatState) (n : Nat) :
    (loadFreeNidBitmap sbi s).view n =
      let b := natBlockOffset n
      let v := if s.natBitsFlag = true ∧ b < sbi.natBlocks ∧ s.emptyNatBits b = true
        then (s.free.view n).loadEmpty else s.free.view n
      if s.natBitsFlag = true ∧ b < sbi.natBlocks ∧ s.fullNatBits b = true then v.mark
      else v := by
  unfold loadFreeNidBitmap
  cases hflag : s.natBitsFlag with
  | false => simp
  | true =>
      simp only [Bool.not_true, Bool.false_eq_true, if_false, true_and]
      rw [markBlocks_view, loadEmptyBlocks_view]
      simp only [List.mem_filter, List.mem_range]

theorem loadFreeNidBitmap_kept (sbi : SbInfo) (s : NatState) :
    SameBooks s.free (loadFreeNidBitmap sbi s) ∧
      (s.free.BitBooks → (loadFreeNidBitmap sbi s).BitBooks) := by
  unfold loadFreeNidBitmap
  split_ifs
  · exact ⟨SameBooks.refl _, id⟩
  · have hblock : ∀ (f : FreeNidInfo) (b : Nat), SameBooks f (loadEmptyBlock f b) ∧
        (f.BitBooks → (loadEmptyBlock f b).BitBooks) := by
      intro f b
      refine ⟨(markBlock_sameBooks f b).trans
        (SameBooks.foldl (fun f nid => update_sameBooks f nid true true) _ _), fun h => ?_⟩
      exact List.foldlRecOn (motive := BitBooks) _ _ (h.markBlock b)
        fun f hf nid _ => hf.setBit nid true
    refine ⟨(SameBooks.foldl (fun f b => (hblock f b).1) _ _).trans
      (SameBooks.foldl (fun f b => markBlock_sameBooks f b) _ _), fun h => ?_⟩
    refine List.foldlRecOn (motive := BitBooks) _ _ ?_ fun f hf b _ => hf.markBlock b
    exact List.foldlRecOn (motive := BitBooks) _ _ h fun f hf b _ => (hblock f b).2 hf

/-! ## Mount -/

/-- `build_node_manager` behind `init_node_manager`, which has left `s` and `nextScanNid`. -/
def buildNodeManager (sbi : SbInfo) (s : NatState) (nextScanNid : Nat) (mem : Bool) :
    NodeManager :=
  buildFreeNids sbi true true mem
    { nat := { s with free := loadFreeNidBitmap sbi s }, nextScanNid := nextScanNid }

/-- What `init_node_manager` makes of a sound image. -/
structure MountedNat (sbi : SbInfo) (s : NatState) : Prop where
  cache : s.cache = NatCache.init
  free : ∃ availableNids, s.free = FreeNidInfo.init availableNids
  distinct : s.journal.Distinct
  le : s.journal.n ≤ natJournalEntries
  journal : ∀ n, s.journal.view n ≠ none → n ∈ usableNids sbi
  bits : s.natBitsFlag = true → BitsDescribe sbi s

section

variable {sbi : SbInfo} {s : NatState}

theorem MountedNat.readable (h : MountedNat sbi s) : Readable sbi s where
  wf :=
    { cache := h.cache ▸ NatCache.inv_init
      distinct := h.distinct
      le := h.le
      coherent := by rw [h.cache]; exact nofun }
  flags := h.cache ▸ cacheFlags_init
  journal := h.journal

theorem natUsed_eq_false {b : Nat} {blk : NatBlock} {i : Nat} (h : natUsed b blk i = false) :
    (blk i).blockAddr = nullAddr := by
  unfold natUsed at h
  simp only [Bool.or_eq_false_iff, decide_eq_false_iff_not, ne_eq, not_not] at h
  exact h.2

theorem MountedNat.loaded (h : MountedNat sbi s) :
    NidsInv sbi { s with free := loadFreeNidBitmap sbi s } := by
  obtain ⟨availableNids, hfree⟩ := h.free
  have hview := loadFreeNidBitmap_view sbi s
  have hnone : ∀ n, s.free.view n = ⟨none, false, false⟩ := fun n => by rw [hfree]; rfl
  have hstate : ∀ n, ((loadFreeNidBitmap sbi s).view n).state = none := by
    intro n
    rw [hview, hnone]
    dsimp only
    split_ifs <;> rfl
  have hinit : NidsInv sbi s :=
    { h.readable with
      dirty := by rw [h.cache]; exact nofun
      list := hfree ▸ listBooks_init availableNids
      bits := hfree ▸ bitBooks_init availableNids
      bit := fun n hn => by rw [hnone] at hn; cases hn
      free := fun n hn => by rw [hnone] at hn; cases hn
      prealloc := fun n hn => by rw [hnone] at hn; cases hn }
  obtain ⟨hbooks, hbits⟩ := loadFreeNidBitmap_kept sbi s
  refine hinit.withFree (hbooks.list hinit.list) (hbits hinit.bits) (fun n hn => ?_)
    (fun n hn => ?_) fun n hn => ?_
  · -- a loaded bit: the block is empty
    rw [hview, hnone] at hn
    dsimp only at hn
    have hempty : s.natBitsFlag = true ∧ natBlockOffset n < sbi.natBlocks ∧
        s.emptyNatBits (natBlockOffset n) = true := by
      by_contra hno
      rw [if_neg hno] at hn
      split_ifs at hn
      cases hn
    obtain ⟨hflag, hlt, hbit⟩ := hempty
    refine ⟨?_, fun hj _ => ?_⟩
    · unfold maxNid
      rw [Nat.mul_comm]
      exact (Nat.div_lt_iff_lt_mul (by decide)).mp hlt
    · have hunused := (h.bits hflag _ hlt).empty.mp hbit _ (nid_mod_lt n)
      rw [persisted_of_view_none hj]
      show (currentBlock sbi s (natBlockOffset n) (n % natEntryPerBlock)).blockAddr = nullAddr
      exact natUsed_eq_false hunused
  · rw [hstate] at hn
    cases hn
  · rw [hstate] at hn
    cases hn

/-- The node manager after the mount. -/
theorem MountedNat.built (h : MountedNat sbi s) (nextScanNid : Nat) (mem : Bool) :
    NidsInv sbi (buildNodeManager sbi s nextScanNid mem).nat := by
  have hloaded := h.loaded
  obtain ⟨f, next, hbuild, hf⟩ := buildFreeNids_settled
    (m := { nat := { s with free := loadFreeNidBitmap sbi s }, nextScanNid := nextScanNid })
    hloaded.toReadable hloaded.settled true true mem
  unfold buildNodeManager
  rw [hbuild]
  exact hloaded.ofSettled hf

end

end F2fs.Node

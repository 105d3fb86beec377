/-
  The NAT bits across a checkpoint and a mount: what `do_checkpoint` writes,
  `__get_nat_bitmaps` accepts and `load_free_nid_bitmap` makes of it.

  A block that the bits call empty or full is marked as scanned without being read.
  `loadFreeNidBitmap_scanned` says that its bitmap and count are then those of a scan of
  the whole block from the same state; nid 0 is never added by the scan, and the bits never
  call block 0 empty.
-/
import F2fs.Node.FreeNidBooks
import F2fs.Node.NatBits

namespace F2fs.Node

open F2fs.Checkpoint

/-! ## Checkpoint and mount -/

/-- The NAT bits blocks at the end of a pack: the version they belong to and the bits. -/
structure NatBitsBlocks where
  cpVer : Nat
  full : Nat → Bool
  empty : Nat → Bool

/-- What a mount reads of the NAT: the checkpoint of the current pack with its checksum and
    its copy of the version bitmap, the journal, the NAT blocks, and the NAT bits by the
    address of their first block. -/
structure NatImage where
  pack : CpPack
  ckpt : Ckpt
  crc : Nat
  natBitmap : Nat → Bool
  journal : JournalArray RawNat
  pages : Nat → NatBlock
  natBits : Nat → NatBitsBlocks

/-- `cp_ver |= (u64)crc << 32`. -/
def natBitsVer (ckpt : Ckpt) (crc : Nat) : Nat := (ckpt.checkpointVer ||| crc <<< 32) % 2 ^ 64

/-- Where the NAT bits of the pack at `startBlk` are. -/
def natBitsAddr (sbi : SbInfo) (startBlk : Nat) : Nat :=
  u32Sub (startBlk + blocksPerSeg) (natBitsBlocks sbi)

/-- The checkpoint block: its `CP_NAT_BITS_FLAG` is the one the NAT code tests. -/
def checkpointBlock (sbi : SbInfo) (c : CpInput) (s : NatState) : Ckpt :=
  let flags := { c.ckpt.flags with natBits := s.natBitsFlag }
  { c with ckpt := { c.ckpt with flags := flags } }.filled sbi

/-- The NAT side of `do_checkpoint`, which writes the other pack; `crc32` is the checksum it
    computes and `old` the medium before. -/
def doCheckpoint (sbi : SbInfo) (c : CpInput) (crc32 : Nat) (old : NatImage) (s : NatState) :
    NatImage :=
  let ckpt := checkpointBlock sbi c s
  { pack := old.pack.next
    ckpt := ckpt
    crc := crc32
    natBitmap := s.natBitmap
    journal := s.journal
    pages := s.pages
    natBits :=
      if enabledNatBits ckpt.flags c.reason then
        Function.update old.natBits (natBitsAddr sbi (startCpNextAddr sbi old.pack))
          ⟨natBitsVer ckpt crc32, s.fullNatBits, s.emptyNatBits⟩
      else old.natBits }

/-- `init_node_manager` with `__get_nat_bitmaps`: bits of another version are refused, and
    the flag is cleared. -/
def initNodeManager (sbi : SbInfo) (d : NatImage) (availableNids : Nat) : NatState :=
  let bits := d.natBits (natBitsAddr sbi (startCpAddr sbi d.pack))
  let accepted := d.ckpt.flags.natBits && decide (natBitsVer d.ckpt d.crc = bits.cpVer)
  { cache := NatCache.init
    free := FreeNidInfo.init availableNids
    journal := d.journal
    pages := d.pages
    natBitmap := d.natBitmap
    natBitsFlag := accepted
    fullNatBits := if accepted then bits.full else fun _ => false
    emptyNatBits := if accepted then bits.empty else fun _ => false }

/-- After an umount checkpoint that kept the flag, a mount accepts the bits and finds them as
    they were, beside the blocks they describe. -/
theorem initNodeManager_doCheckpoint {sbi : SbInfo} {c : CpInput} {s : NatState}
    (humount : c.reason.umount = true) (hflag : (checkpointBlock sbi c s).flags.natBits = true)
    (crc32 : Nat) (old : NatImage) (availableNids : Nat) :
    let m := initNodeManager sbi (doCheckpoint sbi c crc32 old s) availableNids
    m.natBitsFlag = true ∧ m.fullNatBits = s.fullNatBits ∧ m.emptyNatBits = s.emptyNatBits := by
  have henabled : enabledNatBits (checkpointBlock sbi c s).flags c.reason = true := by
    rw [enabledNatBits, humount, hflag]
    rfl
  have hbits : (doCheckpoint sbi c crc32 old s).natBits
      (natBitsAddr sbi (startCpAddr sbi (doCheckpoint sbi c crc32 old s).pack)) =
        ⟨natBitsVer (checkpointBlock sbi c s) crc32, s.fullNatBits, s.emptyNatBits⟩ := by
    unfold doCheckpoint
    dsimp only
    rw [if_pos henabled, startCpAddr_next, Function.update_self]
  have haccepted : ((checkpointBlock sbi c s).flags.natBits &&
      decide (natBitsVer (checkpointBlock sbi c s) crc32 =
        natBitsVer (checkpointBlock sbi c s) crc32)) = true := by
    rw [hflag, decide_eq_true rfl]
    rfl
  unfold initNodeManager
  dsimp only
  rw [hbits]
  refine ⟨haccepted, ?_, ?_⟩
  · exact if_pos haccepted
  · exact if_pos haccepted

/-- `update_ckpt_flags` only ever clears the flag. -/
theorem flag_of_checkpointBlock {sbi : SbInfo} {c : CpInput} {s : NatState}
    (h : (checkpointBlock sbi c s).flags.natBits = true) : s.natBitsFlag = true := by
  have hand : (s.natBitsFlag && !_) = true := h
  exact (Bool.and_eq_true_iff.mp hand).1

/-! ## Loading against scanning -/

/-- The first `k` entries of block `b` are recorded as free, and nothing else of it. -/
structure FreeUpto (f : FreeNidInfo) (b k : Nat) : Prop where
  marked : f.natBlockBitmap b = true
  bits : f.freeNidBitmap b = fun i => decide (i < k)
  count : f.freeNidCount b = k

namespace FreeNidInfo

theorem updateFreeNidBitmap_set {f : FreeNidInfo} {b k : Nat} (h : FreeUpto f b k)
    (hk : k < natEntryPerBlock) :
    FreeUpto (f.updateFreeNidBitmap (b * natEntryPerBlock + k) true true) b (k + 1) := by
  have hofs : natBlockOffset (b * natEntryPerBlock + k) = b := by
    unfold natBlockOffset natEntryPerBlock at *
    omega
  have hidx : (b * natEntryPerBlock + k) % natEntryPerBlock = k := by
    unfold natEntryPerBlock at *
    omega
  unfold updateFreeNidBitmap
  dsimp only
  rw [hofs, hidx, h.marked, h.bits, h.count]
  rw [if_neg (by decide), if_pos rfl, if_neg (by simp)]
  refine ⟨h.marked, ?_, ?_⟩
  · funext i
    dsimp only
    rw [Function.update_self]
    by_cases hi : i = k
    · subst hi
      rw [Function.update_self]
      simp
    · rw [Function.update_of_ne hi]
      exact decide_eq_decide.mpr (by omega)
  · dsimp only
    rw [Function.update_self]
    unfold natEntryPerBlock at hk
    omega

/-- What one block holds of the free-nid bitmaps. -/
structure SameBlock (b : Nat) (f f' : FreeNidInfo) : Prop where
  marked : f'.natBlockBitmap b = f.natBlockBitmap b
  bits : f'.freeNidBitmap b = f.freeNidBitmap b
  count : f'.freeNidCount b = f.freeNidCount b

theorem SameBlock.refl (b : Nat) (f : FreeNidInfo) : SameBlock b f f := ⟨rfl, rfl, rfl⟩

theorem SameBlock.trans {b : Nat} {f f' f'' : FreeNidInfo} (h : SameBlock b f f')
    (h' : SameBlock b f' f'') : SameBlock b f f'' :=
  ⟨h'.marked.trans h.marked, h'.bits.trans h.bits, h'.count.trans h.count⟩

theorem updateFreeNidBitmap_other (f : FreeNidInfo) {nid b : Nat} (set build : Bool)
    (h : natBlockOffset nid ≠ b) : SameBlock b f (f.updateFreeNidBitmap nid set build) := by
  unfold updateFreeNidBitmap
  dsimp only
  split_ifs
  · exact SameBlock.refl b f
  · exact SameBlock.refl b f
  · exact ⟨rfl, Function.update_of_ne h.symm _ _, Function.update_of_ne h.symm _ _⟩
  · exact SameBlock.refl b f
  · exact ⟨rfl, Function.update_of_ne h.symm _ _, rfl⟩
  · exact ⟨rfl, Function.update_of_ne h.symm _ _, Function.update_of_ne h.symm _ _⟩

theorem foldl_other {g : FreeNidInfo → Nat → FreeNidInfo} {b : Nat} {L : List Nat}
    (h : ∀ f, ∀ x ∈ L, SameBlock b f (g f x)) (f : FreeNidInfo) :
    SameBlock b f (L.foldl g f) := by
  induction L generalizing f with
  | nil => exact SameBlock.refl b f
  | cons x L ih =>
      rw [List.foldl_cons]
      exact (h f x List.mem_cons_self).trans
        (ih (fun f y hy => h f y (List.mem_cons_of_mem x hy)) _)

/-- A loop over the nids of a block, one entry after the other. -/
theorem foldl_blockNids {g : FreeNidInfo → Nat → FreeNidInfo} {b : Nat}
    {P : Nat → FreeNidInfo → Prop}
    (step : ∀ k f, k < natEntryPerBlock → P k f → P (k + 1) (g f (b * natEntryPerBlock + k)))
    {f : FreeNidInfo} (h : P 0 f) : P natEntryPerBlock ((blockNids b).foldl g f) := by
  have hloop : ∀ n ≤ natEntryPerBlock,
      P n ((List.range' (b * natEntryPerBlock) n).foldl g f) := by
    intro n
    induction n with
    | zero => exact fun _ => h
    | succ n ih =>
        intro hn
        rw [List.range'_1_concat, List.foldl_append]
        exact step n _ (by omega) (ih (by omega))
  exact hloop natEntryPerBlock le_rfl

theorem natBlockOffset_blockNids {b nid : Nat} (h : nid ∈ blockNids b) :
    natBlockOffset nid = b := by
  have hr := List.mem_range'_1.mp h
  unfold natBlockOffset natEntryPerBlock at *
  omega

/-- Block `b` holds no free-nid bit. -/
structure NoBits (f : FreeNidInfo) (b : Nat) : Prop where
  bits : f.freeNidBitmap b = fun _ => false
  count : f.freeNidCount b = 0

theorem NoBits.mark {f : FreeNidInfo} {b : Nat} (h : NoBits f b) :
    FreeUpto (f.markBlock b) b 0 :=
  ⟨Function.update_self _ _ _, h.bits.trans (by simp), h.count⟩

theorem loadEmptyBlock_self {f : FreeNidInfo} {b : Nat} (h : NoBits f b) :
    FreeUpto (loadEmptyBlock f b) b natEntryPerBlock :=
  foldl_blockNids (P := fun k f => FreeUpto f b k)
    (fun _ _ hk hf => updateFreeNidBitmap_set hf hk) h.mark

theorem markBlock_other (f : FreeNidInfo) {b b' : Nat} (h : b' ≠ b) :
    SameBlock b f (f.markBlock b') :=
  ⟨Function.update_of_ne h.symm _ _, rfl, rfl⟩

theorem loadEmptyBlock_other (f : FreeNidInfo) {b b' : Nat} (h : b' ≠ b) :
    SameBlock b f (loadEmptyBlock f b') :=
  (markBlock_other f h).trans (foldl_other (fun f _ hnid =>
    updateFreeNidBitmap_other f true true fun heq =>
      h ((natBlockOffset_blockNids hnid).symm.trans heq)) _)

/-- The first loop of `load_free_nid_bitmap`. -/
theorem loadEmptyBlocks {L : List Nat} (hL : L.Nodup) {f : FreeNidInfo} {b : Nat}
    (h : NoBits f b) :
    (b ∈ L → FreeUpto (L.foldl loadEmptyBlock f) b natEntryPerBlock) ∧
      (b ∉ L → SameBlock b f (L.foldl loadEmptyBlock f)) := by
  refine ⟨fun hb => ?_, fun hb => ?_⟩
  · obtain ⟨L₁, L₂, rfl⟩ := List.append_of_mem hb
    have hd := List.nodup_append.mp hL
    have h₁ : b ∉ L₁ := fun hm => hd.2.2 b hm b List.mem_cons_self rfl
    have h₂ : b ∉ L₂ := (List.nodup_cons.mp hd.2.1).1
    have hbefore : SameBlock b f (L₁.foldl loadEmptyBlock f) :=
      foldl_other (fun f _ hx => loadEmptyBlock_other f (ne_of_mem_of_not_mem hx h₁)) f
    have hself := loadEmptyBlock_self
      (show NoBits (L₁.foldl loadEmptyBlock f) b from
        ⟨hbefore.bits.trans h.bits, hbefore.count.trans h.count⟩)
    have hafter := foldl_other (g := loadEmptyBlock) (L := L₂) (b := b)
      (fun f _ hx => loadEmptyBlock_other f (ne_of_mem_of_not_mem hx h₂))
      (loadEmptyBlock (L₁.foldl loadEmptyBlock f) b)
    rw [List.foldl_append, List.foldl_cons]
    exact ⟨hafter.marked.trans hself.marked, hafter.bits.trans hself.bits,
      hafter.count.trans hself.count⟩
  · exact foldl_other (fun f _ hx => loadEmptyBlock_other f (ne_of_mem_of_not_mem hx hb)) f

/-- The second one only marks. -/
theorem markBlocks (L : List Nat) (f : FreeNidInfo) (b : Nat) :
    ((L.foldl markBlock f).natBlockBitmap b = true ↔ b ∈ L ∨ f.natBlockBitmap b = true) ∧
      (L.foldl markBlock f).freeNidBitmap = f.freeNidBitmap ∧
      (L.foldl markBlock f).freeNidCount = f.freeNidCount := by
  induction L generalizing f with
  | nil => simp
  | cons x L ih =>
      obtain ⟨hmark, hbits, hcount⟩ := ih (f.markBlock x)
      rw [List.foldl_cons]
      refine ⟨?_, hbits, hcount⟩
      rw [hmark, List.mem_cons]
      by_cases hx : b = x
      · subst hx
        simp [markBlock]
      · have : (f.markBlock x).natBlockBitmap b = f.natBlockBitmap b := Function.update_of_ne hx _ _
        rw [this]
        simp [hx]

/-! ### The scan -/

/-- The scan of a whole block visits its nids. -/
theorem scanNids_block {sbi : SbInfo} {b : Nat} (hb : b < sbi.natBlocks) :
    scanNids sbi (b * natEntryPerBlock) = blockNids b := by
  unfold scanNids blockNids
  rw [Nat.mul_mod_left, Nat.sub_zero, List.takeWhile_eq_self_iff]
  intro nid hnid
  have hr := List.mem_range'_1.mp hnid
  have hle : (b + 1) * natEntryPerBlock ≤ sbi.natBlocks * natEntryPerBlock :=
    Nat.mul_le_mul_right _ hb
  rw [decide_eq_true_iff, maxNid, Nat.mul_comm natEntryPerBlock]
  rw [Nat.succ_mul] at hle
  omega

theorem blockNid_mem (b : Nat) {k : Nat} (hk : k < natEntryPerBlock) :
    b * natEntryPerBlock + k ∈ blockNids b :=
  List.mem_range'_1.mpr ⟨Nat.le_add_right _ _, by omega⟩

theorem blockNid_mod {b k : Nat} (hk : k < natEntryPerBlock) :
    (b * natEntryPerBlock + k) % natEntryPerBlock = k := by
  rw [Nat.add_comm, Nat.add_mul_mod_self_right, Nat.mod_eq_of_lt hk]

/-- The scan of a block without an allocated entry, with nothing cached. -/
theorem scanNatPage_empty {sbi : SbInfo} {b : Nat} (hb : b < sbi.natBlocks) {blk : NatBlock}
    (hblk : ∀ i < natEntryPerBlock, natUsed b blk i = false) (availableNids : Nat) :
    FreeUpto ((init availableNids).scanNatPage sbi NatCache.init blk (b * natEntryPerBlock))
      b natEntryPerBlock := by
  have hpos : b ≠ 0 := by
    intro h0
    have := hblk 0 (by decide)
    rw [h0] at this
    cases this
  unfold scanNatPage
  rw [scanNids_block hb, natBlockOffset_mul]
  refine (foldl_blockNids (P := fun k f => FreeUpto f b k ∧
    ∀ nid, b * natEntryPerBlock + k ≤ nid → f.freeNidRoot.lookup nid = none) ?_
    ⟨NoBits.mark ⟨rfl, rfl⟩, fun _ _ => rfl⟩).1
  intro k f hk hf
  have hnull : (blk k).blockAddr = nullAddr := by
    have := hblk k hk
    unfold natUsed at this
    simpa [hpos] using this
  have hnid : b * natEntryPerBlock + k ≠ 0 := by
    have := Nat.mul_pos (Nat.pos_of_ne_zero hpos) (show 0 < natEntryPerBlock by decide)
    omega
  have hlook := hf.2 _ le_rfl
  have hstep : scanNatEntry NatCache.init blk f (b * natEntryPerBlock + k) =
      (f.insertFreeNid (b * natEntryPerBlock + k)).updateFreeNidBitmap
        (b * natEntryPerBlock + k) true true := by
    unfold scanNatEntry scanNid addFreeNid
    rw [blockNid_mod hk, if_pos hnull, if_neg hnid, hlook]
    rfl
  have hins : f.insertFreeNid (b * natEntryPerBlock + k) =
      { f.cntInc .freeNid with
        freeNidRoot := f.freeNidRoot.insert (b * natEntryPerBlock + k) .freeNid
        freeNidList := f.freeNidList ++ [b * natEntryPerBlock + k] } := by
    unfold insertFreeNid
    rw [hlook]
  rw [hstep]
  refine ⟨updateFreeNidBitmap_set ?_ hk, fun nid hle => ?_⟩
  · rw [hins]
    exact ⟨hf.1.marked, hf.1.bits, hf.1.count⟩
  · rw [updateFreeNidBitmap_root, hins]
    exact (RadixTree.lookup_insert_of_ne _ _ (by omega)).trans (hf.2 nid (by omega))

/-- The scan of a block without a free entry. -/
theorem scanNatPage_full {sbi : SbInfo} {b : Nat} (hb : b < sbi.natBlocks) {blk : NatBlock}
    (hblk : ∀ i < natEntryPerBlock, natUsed b blk i = true) (availableNids : Nat) :
    FreeUpto ((init availableNids).scanNatPage sbi NatCache.init blk (b * natEntryPerBlock))
      b 0 := by
  unfold scanNatPage
  rw [scanNids_block hb, natBlockOffset_mul]
  refine foldl_blockNids (P := fun _ f => FreeUpto f b 0) ?_ (NoBits.mark ⟨rfl, rfl⟩)
  intro k f hk hf
  have hused := hblk k hk
  unfold natUsed at hused
  unfold scanNatEntry scanNid
  rw [blockNid_mod hk]
  by_cases hnull : (blk k).blockAddr = nullAddr
  · -- only nid 0 counts as allocated with a NULL entry, and it is never added
    have h0 : b * natEntryPerBlock + k = 0 := by
      rw [hnull] at hused
      simp only [ne_eq, not_true_eq_false, decide_false, Bool.or_false, Bool.and_eq_true,
        beq_iff_eq] at hused
      rw [hused.1, hused.2, Nat.zero_mul]
    rw [if_pos hnull, addFreeNid, if_pos h0]
    exact hf
  · have hclear : f.freeNidBitmap (natBlockOffset (b * natEntryPerBlock + k))
        ((b * natEntryPerBlock + k) % natEntryPerBlock) = false := by
      rw [natBlockOffset_blockNids (blockNid_mem b hk), hf.bits]
      simp
    rw [if_neg hnull, updateFreeNidBitmap_clear hclear]
    exact hf

end FreeNidInfo

/-! ## The fast path -/

/-- Loading `s` from the bits gives every block it marks the bitmap and the count that
    `scan_nat_page` over the whole block gives. -/
def LoadedAsScanned (sbi : SbInfo) (s : NatState) : Prop :=
  ∀ b < sbi.natBlocks, (loadFreeNidBitmap sbi s).natBlockBitmap b = true →
    let scanned := s.free.scanNatPage sbi s.cache (currentBlock sbi s b) (b * natEntryPerBlock)
    (loadFreeNidBitmap sbi s).freeNidBitmap b = scanned.freeNidBitmap b ∧
      (loadFreeNidBitmap sbi s).freeNidCount b = scanned.freeNidCount b

theorem loadFreeNidBitmap_scanned {sbi : SbInfo} {s : NatState} (hflag : s.natBitsFlag = true)
    (hbits : BitsDescribe sbi s) {availableNids : Nat}
    (hfree : s.free = FreeNidInfo.init availableNids) (hcache : s.cache = NatCache.init) :
    LoadedAsScanned sbi s := by
  intro b hb hmarked
  have hnodup : ((List.range sbi.natBlocks).filter s.emptyNatBits).Nodup :=
    List.nodup_range.filter _
  obtain ⟨hin, hout⟩ := FreeNidInfo.loadEmptyBlocks hnodup (f := s.free) (b := b)
    (by rw [hfree]; exact ⟨rfl, rfl⟩)
  unfold loadFreeNidBitmap at hmarked ⊢
  rw [hflag, if_neg (by decide)] at hmarked ⊢
  dsimp only at hmarked ⊢
  obtain ⟨hmark, hbitmap, hcount⟩ := FreeNidInfo.markBlocks
    ((List.range sbi.natBlocks).filter s.fullNatBits)
    (((List.range sbi.natBlocks).filter s.emptyNatBits).foldl loadEmptyBlock s.free) b
  rw [hbitmap, hcount]
  by_cases hempty : b ∈ (List.range sbi.natBlocks).filter s.emptyNatBits
  · have hloaded := hin hempty
    have hscan := FreeNidInfo.scanNatPage_empty hb
      ((hbits b hb).empty.mp (List.mem_filter.mp hempty).2) availableNids
    rw [hfree] at hloaded ⊢
    rw [hcache]
    exact ⟨hloaded.bits.trans hscan.bits.symm, hloaded.count.trans hscan.count.symm⟩
  · have hloaded := hout hempty
    have hfull : b ∈ (List.range sbi.natBlocks).filter s.fullNatBits := by
      refine (hmark.mp hmarked).resolve_right fun h => ?_
      rw [hloaded.marked, hfree] at h
      cases h
    have hscan := FreeNidInfo.scanNatPage_full hb
      ((hbits b hb).full.mp (List.mem_filter.mp hfull).2) availableNids
    rw [hfree] at hloaded ⊢
    rw [hcache]
    refine ⟨hloaded.bits.trans (hscan.bits.trans ?_).symm,
      hloaded.count.trans hscan.count.symm⟩
    simp only [Nat.not_lt_zero, decide_false]
    rfl

/-- From bits that describe the blocks, every run keeps them so while the flag stays set; and
    when an umount checkpoint keeps it too, the mount after it accepts the bits, and they are
    as good as a scan. -/
theorem natBits_fastPath (sbi : SbInfo) (s₀ : NatState) (hbits : BitsDescribe sbi s₀)
    (evs : List NatEvent) :
    ∃ s, evs.foldlM (natEventStep sbi) { s₀ with cache := NatCache.init } = some s ∧
      (s.natBitsFlag = true → BitsDescribe sbi s) ∧
      ∀ (c : CpInput) (crc32 : Nat) (old : NatImage) (availableNids : Nat),
        c.reason.umount = true →
        ∃ s', flushNatEntries sbi c.reason s = some s' ∧
          ((checkpointBlock sbi c s').flags.natBits = true →
            let m := initNodeManager sbi (doCheckpoint sbi c crc32 old s') availableNids
            m.natBitsFlag = true ∧ BitsDescribe sbi m ∧ LoadedAsScanned sbi m) := by
  obtain ⟨s, hrun, h⟩ := natEvents_bits sbi evs { s₀ with cache := NatCache.init }
    ⟨NatCache.inv_init, fun _ b hb => (Keeps.of_parts (P := fun _ => False) NatCache.init
      s₀.free s₀.journal).bitsAt id (hbits b hb)⟩
  refine ⟨s, hrun, h.bits, fun c crc32 old availableNids humount => ?_⟩
  obtain ⟨s', hflush, h'⟩ := natEventStep_inv sbi h (.nat (.flushNatEntries c.reason))
  refine ⟨s', hflush, fun hflag => ?_⟩
  obtain ⟨hm, hfull, hempty⟩ := initNodeManager_doCheckpoint humount hflag crc32 old availableNids
  have hdescribe : BitsDescribe sbi
      (initNodeManager sbi (doCheckpoint sbi c crc32 old s') availableNids) := by
    intro b hb
    have hat := h'.bits (flag_of_checkpointBlock hflag) b hb
    refine ⟨?_, ?_⟩
    · rw [hfull]
      exact hat.full
    · rw [hempty]
      exact hat.empty
  exact ⟨hm, hdescribe, loadFreeNidBitmap_scanned hm hdescribe rfl rfl⟩

/-- An empty NAT with its bits. -/
def emptyNat : NatState where
  cache := NatCache.init
  free := FreeNidInfo.init 0
  journal := ⟨0, fun _ => (0, ⟨0, 0, nullAddr⟩)⟩
  pages := fun _ _ => ⟨0, 0, nullAddr⟩
  natBitmap := fun _ => false
  natBitsFlag := true
  fullNatBits := fun _ => false
  emptyNatBits := fun b => b != 0

theorem emptyNat_described : BitsDescribe smallSbi emptyNat := by
  have hused : ∀ b i, natUsed b (currentBlock smallSbi emptyNat b) i = (b == 0 && i == 0) :=
    fun b i => by
      show (b == 0 && i == 0 || decide (nullAddr ≠ nullAddr)) = _
      simp
  intro b _
  refine ⟨⟨nofun, fun h => ?_⟩, ⟨fun h i _ => ?_, fun h => ?_⟩⟩
  · have := h 1 (by decide)
    rw [hused] at this
    simp at this
  · rw [hused, beq_eq_false_iff_ne.mpr (show b ≠ 0 from bne_iff_ne.mp h), Bool.false_and]
  · have := h 0 (by decide)
    rw [hused] at this
    show (b != 0) = true
    simpa using this

/-- Node 4 is created and written, and the next umount puts it into its NAT block. -/
theorem emptyNat_fastPath :
    ∃ s, [NatEvent.nat (.setNodeAddr ⟨4, 4, nullAddr, 0⟩ newAddr false),
        .nat (.setNodeAddr ⟨4, 4, newAddr, 0⟩ 7000 false)].foldlM (natEventStep smallSbi)
          { emptyNat with cache := NatCache.init } = some s ∧
      (s.natBitsFlag = true → BitsDescribe smallSbi s) ∧
      ∀ (c : CpInput) (crc32 : Nat) (old : NatImage) (availableNids : Nat),
        c.reason.umount = true →
        ∃ s', flushNatEntries smallSbi c.reason s = some s' ∧
          ((checkpointBlock smallSbi c s').flags.natBits = true →
            let m := initNodeManager smallSbi (doCheckpoint smallSbi c crc32 old s') availableNids
            m.natBitsFlag = true ∧ BitsDescribe smallSbi m ∧ LoadedAsScanned smallSbi m) :=
  natBits_fastPath smallSbi emptyNat emptyNat_described _

end F2fs.Node

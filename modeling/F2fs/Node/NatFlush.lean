/-
  `flush_nat_entries`: dirty NAT entries go, set by set, either to the journal of
  the hot data summary or to the shadow copy of their NAT block.

  The state holds the cache, the free-nid bookkeeping, the journal, the NAT blocks
  with their version bitmap, and the NAT bits.  A flush returns `none` when one of
  its assertions fires: no journal slot for an entry it decided to journal
  (`offset < 0`), or an entry without an address on a set's list.
-/
import F2fs.Checkpoint.Ckpt
import F2fs.Lib.JournalArray
import F2fs.Lib.Shadow
import F2fs.Node.FreeNid

namespace F2fs.Node

open F2fs.Checkpoint

/-- A NAT block: its entries by position. -/
abbrev NatBlock := Nat → RawNat

/-! ## NAT block addresses -/

/-- `current_nat_addr` for a block whose version bit is `bit`. -/
def natAddr (sbi : SbInfo) (blockOff : Nat) (bit : Bool) : Nat :=
  sbi.natBlkaddr + 2 * blockOff - blockOff % blocksPerSeg + if bit then blocksPerSeg else 0

/-- `next_nat_addr`. -/
def nextNatAddr (sbi : SbInfo) (blockAddr : Nat) : Nat :=
  ((blockAddr - sbi.natBlkaddr) ^^^ blocksPerSeg) + sbi.natBlkaddr

theorem natAddr_eq (sbi : SbInfo) (blockOff : Nat) (bit : Bool) :
    natAddr sbi blockOff bit = sbi.natBlkaddr +
      (1024 * (blockOff / 512) + blockOff % 512 + if bit then 512 else 0) := by
  unfold natAddr blocksPerSeg
  omega

theorem natAddr_inj {sbi : SbInfo} {i j : Nat} {b c : Bool}
    (h : natAddr sbi i b = natAddr sbi j c) : i = j ∧ b = c := by
  rw [natAddr_eq, natAddr_eq] at h
  cases b <;> cases c <;> simp only [if_true, Bool.false_eq_true, if_false] at h <;>
    first | exact ⟨by omega, rfl⟩ | (exfalso; omega)

/-- The NAT area as a shadowed area. -/
def natArea (sbi : SbInfo) : ShadowArea where
  addr := natAddr sbi
  valid := fun _ => True
  inj := fun _ _ h => natAddr_inj h

/-- Flipping bit 9 of an offset moves between the two copies of its segment. -/
theorem xor_blocksPerSeg (q r : Nat) (hr : r < 512) :
    (1024 * q + r) ^^^ 512 = 1024 * q + r + 512 ∧
      (1024 * q + r + 512) ^^^ 512 = 1024 * q + r := by
  have hbit : ∀ m : Nat, (2 * m) ^^^ 1 = 2 * m + 1 ∧ (2 * m + 1) ^^^ 1 = 2 * m := by
    intro m
    constructor
    · rw [Nat.xor_one_of_even (by exact even_two_mul m)]
    · rw [Nat.xor_one_of_odd (by exact odd_two_mul_add_one m), Nat.add_sub_cancel]
  have hsplit : ∀ n : Nat, n ^^^ 512 = 512 * ((n / 512) ^^^ 1) + n % 512 := by
    intro n
    have hdiv : (n ^^^ 512) / 512 = (n / 512) ^^^ 1 := by
      have := Nat.xor_div_two_pow (a := n) (b := 512) (n := 9)
      simpa using this
    have hmod : (n ^^^ 512) % 512 = n % 512 := by
      have := Nat.xor_mod_two_pow (a := n) (b := 512) (n := 9)
      simpa using this
    have := Nat.div_add_mod (n ^^^ 512) 512
    rw [hdiv, hmod] at this
    exact this.symm
  constructor
  · rw [hsplit, show (1024 * q + r) / 512 = 2 * q by omega, (hbit q).1]
    omega
  · rw [hsplit, show (1024 * q + r + 512) / 512 = 2 * q + 1 by omega, (hbit q).2]
    omega

/-- `next_nat_addr` of the current address is the address of the other copy. -/
theorem nextNatAddr_natAddr (sbi : SbInfo) (blockOff : Nat) (bit : Bool) :
    nextNatAddr sbi (natAddr sbi blockOff bit) = natAddr sbi blockOff (!bit) := by
  have hr : blockOff % 512 < 512 := Nat.mod_lt _ (by decide)
  obtain ⟨h0, h1⟩ := xor_blocksPerSeg (blockOff / 512) (blockOff % 512) hr
  rw [nextNatAddr, natAddr_eq, natAddr_eq, Nat.add_sub_cancel_left, blocksPerSeg]
  cases bit with
  | false =>
      simp only [Bool.false_eq_true, if_false, Bool.not_false, if_true, Nat.add_zero, h0]
      omega
  | true =>
      simp only [if_true, Bool.not_true, Bool.false_eq_true, if_false, Nat.add_zero, h1]
      omega

/-! ## State -/

/-- Everything `flush_nat_entries` reads and writes. -/
structure NatState where
  cache : NatCache
  free : FreeNidInfo
  journal : JournalArray RawNat
  pages : Nat → NatBlock
  natBitmap : Nat → Bool
  natBitsFlag : Bool
  fullNatBits : Nat → Bool
  emptyNatBits : Nat → Bool

/-- `current_nat_addr`. -/
def currentNatAddr (sbi : SbInfo) (s : NatState) (nid : Nat) : Nat :=
  natAddr sbi (natBlockOffset nid) (s.natBitmap (natBlockOffset nid))

/-- The entry of a nid in the current copy of its NAT block. -/
def blockEntry (sbi : SbInfo) (s : NatState) (nid : Nat) : RawNat :=
  s.pages (currentNatAddr sbi s nid) (nid % natEntryPerBlock)

/-- What `get_node_info` reads with an empty cache: the journal first, then the block. -/
def persisted (sbi : SbInfo) (s : NatState) (nid : Nat) : RawNat :=
  (s.journal.view nid).getD (blockEntry sbi s nid)

/-- `__has_cursum_space` for the NAT journal, in `int`. -/
def hasCursumSpace (j : JournalArray RawNat) (size : Nat) : Bool :=
  decide ((size : Int) ≤ (natJournalEntries : Int) - j.n)

/-- `get_next_nat_page` and `set_to_next_nat`. -/
def getNextNatPage (sbi : SbInfo) (s : NatState) (startNid : Nat) : NatState :=
  let srcOff := currentNatAddr sbi s startNid
  let dstOff := nextNatAddr sbi srcOff
  { s with
    pages := Function.update s.pages dstOff (s.pages srcOff)
    natBitmap := ShadowArea.flip s.natBitmap (natBlockOffset startNid) }

/-! ## Draining the journal -/

/-- The cached entry of a journaled nid, made from its record if there is none. -/
def grabEntry (c : NatCache) (nid : Nat) (raw : RawNat) : NatCache :=
  match c.natRoot.lookup nid with
  | some _ => c
  | none => c.initNatEntry (NatEntry.alloc nid) (some raw)

/-- One iteration of `remove_nats_in_journal` (for slot `i`). -/
def removeNatInJournal (s : NatState) (i : Nat) : NatState :=
  let (nid, raw) := s.journal.slot i
  let cache := grabEntry s.cache nid raw
  let free :=
    if !cache.dirty nid && decide (raw.blockAddr = nullAddr) then
      { s.free with availableNids := u32Sub s.free.availableNids 1 }
    else s.free
  { s with cache := cache.setNatCacheDirty nid, free := free }

/-- `remove_nats_in_journal`. -/
def removeNatsInJournal (s : NatState) : NatState :=
  let s' := (List.range s.journal.n).foldl removeNatInJournal s
  { s' with journal := { s'.journal with n := 0 } }

/-! ## Flushing one set -/

/-- Number of allocated entries `__update_nat_bits` counts; nid 0 counts as allocated. -/
def validEntries (natIndex : Nat) (blk : NatBlock) : Nat :=
  let counted := (List.range natEntryPerBlock).filter fun i =>
    !(natIndex == 0 && i == 0) && decide ((blk i).blockAddr ≠ nullAddr)
  counted.length + if natIndex = 0 then 1 else 0

/-- `__update_nat_bits`. -/
def updateNatBits (s : NatState) (natIndex : Nat) (blk : NatBlock) : NatState :=
  if !s.natBitsFlag then s
  else
    let valid := validEntries natIndex blk
    if valid = 0 then
      { s with
        emptyNatBits := Function.update s.emptyNatBits natIndex true
        fullNatBits := Function.update s.fullNatBits natIndex false }
    else
      { s with
        emptyNatBits := Function.update s.emptyNatBits natIndex false
        fullNatBits := Function.update s.fullNatBits natIndex
          (decide (valid = natEntryPerBlock)) }

/-- `set_nat_flag`s and `__clear_nat_cache_dirty` after an entry was stored. -/
def cleanEntry (c : NatCache) (set nid : Nat) : NatCache :=
  ({ c with natRoot := c.natRoot.modify nid NatEntry.resetFlag }).clearNatCacheDirty set nid

/-- The free-nid side of flushing an entry. -/
def flushFreeNid (f : FreeNidInfo) (ne : NatEntry) (nid : Nat) : FreeNidInfo :=
  if ne.blkAddr = nullAddr then (f.addFreeNid (some ne) nid false true).2
  else f.updateFreeNidBitmap nid false false

/-- Where `__flush_nat_entry_set` stores one entry: a journal slot, or the page of the
    set's block, which `get_next_nat_page` has just made current. -/
def storeEntry (sbi : SbInfo) (set : Nat) (toJournal : Bool) (s : NatState) (nid : Nat)
    (raw : RawNat) : Option NatState :=
  if toJournal then
    (s.journal.locate natJournalEntries nid).map fun (offset, j) =>
      { s with journal := j.write offset nid raw }
  else
    let addr := natAddr sbi set (s.natBitmap set)
    some { s with
      pages := Function.update s.pages addr
        (Function.update (s.pages addr) (nid - set * natEntryPerBlock) raw) }

/-- One iteration of the entry loop of `__flush_nat_entry_set`. -/
def flushNatEntry (sbi : SbInfo) (set : Nat) (toJournal : Bool) (s : NatState) (nid : Nat) :
    Option NatState :=
  match s.cache.natRoot.lookup nid with
  | none => none
  | some ne =>
    if ne.blkAddr = newAddr then none
    else
      (storeEntry sbi set toJournal s nid ne.raw).map fun s' =>
        { s' with
          cache := cleanEntry s'.cache set nid
          free := flushFreeNid s'.free ne.resetFlag nid }

/-- `__flush_nat_entry_set`. -/
def flushNatEntrySet (sbi : SbInfo) (reason : CpReason) (s : NatState) (set : Nat) :
    Option NatState :=
  match s.cache.natSetRoot.lookup set with
  | none => none
  | some st =>
    let startNid := st.set * natEntryPerBlock
    let toJournal := !((reason.umount && s.natBitsFlag) || !hasCursumSpace s.journal st.entryCnt)
    let s₁ := if toJournal then s else getNextNatPage sbi s startNid
    (st.entryList.foldlM (flushNatEntry sbi set toJournal) s₁).map fun s₂ =>
      let s₃ := if toJournal then s₂
        else updateNatBits s₂ st.set (s₂.pages (currentNatAddr sbi s₂ startNid))
      if (s₃.cache.natSetRoot.lookup set).any (·.entryCnt = 0) then
        { s₃ with cache := { s₃.cache with natSetRoot := s₃.cache.natSetRoot.delete set } }
      else s₃

/-! ## The flush -/

/-- `__adjust_nat_entry_set`: insert before the first set with at least as many entries. -/
def insertSet (cnt : Nat → Nat) (nes : Nat) : List Nat → List Nat
  | [] => [nes]
  | cur :: rest =>
    if cnt nes ≤ cnt cur then nes :: cur :: rest else cur :: insertSet cnt nes rest

/-- `__adjust_nat_entry_set`. -/
def adjustNatEntrySet (cnt : Nat → Nat) (max : Nat) (head : List Nat) (nes : Nat) : List Nat :=
  if max ≤ cnt nes then head ++ [nes] else insertSet cnt nes head

/-- `SETVEC_SIZE`. -/
def setvecSize : Nat := 32

/-- The sets in the order they are flushed. -/
def collectSets (s : NatState) : List Nat :=
  let root := s.cache.natSetRoot
  let cnt := fun k => ((root.lookup k).map (·.entryCnt)).getD 0
  (root.gangLoop setvecSize (root.keys.card + 1) 0).foldl
    (adjustNatEntrySet cnt (natJournalEntries - s.journal.n)) []

/-- Whether `flush_nat_entries` first drains the journal. -/
def drainsJournal (reason : CpReason) (s : NatState) : Bool :=
  (reason.umount && s.natBitsFlag) || !hasCursumSpace s.journal s.cache.dirtyNatCnt

/-- `flush_nat_entries`. -/
def flushNatEntries (sbi : SbInfo) (reason : CpReason) (s : NatState) : Option NatState :=
  if s.cache.dirtyNatCnt = 0 then some s
  else
    let s₁ := if drainsJournal reason s then removeNatsInJournal s else s
    (collectSets s₁).foldlM (flushNatEntrySet sbi reason) s₁

end F2fs.Node

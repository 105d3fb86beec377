/-
  The two copies of NAT and SIT blocks: `current_nat_addr`, `next_nat_addr`,
  `set_to_next_nat` and their SIT siblings, in the words they are computed in.

  A `pgoff_t` has 64 bits; `current_sit_addr` adds in `block_t`, which has 32.  A version
  bitmap is an array of the size the checkpoint names, and what reaches behind it has no
  result here.  `check_seg_range` only warns.
-/
import F2fs.Lib.Shadow
import F2fs.Mount.Geometry
import F2fs.Node.NatFlush
import F2fs.Segment.RevBits

namespace F2fs.Mount

open F2fs.Segment (f2fsTestBit f2fsTestBit_eq revBit revBit_eq)

/-! ## Version bitmaps -/

/-- `nat_bitmap` or `sit_bitmap`: the bytes that `kmemdup` has copied. -/
abbrev VersionBitmap (size : Nat) := Vector UInt8 size

variable {size : Nat}

def VersionBitmap.byte (bitmap : VersionBitmap size) (i : Nat) : UInt8 := bitmap[i]?.getD 0

/-- `f2fs_test_bit`, inside of the bitmap. -/
def testVersion (nr : UInt32) (bitmap : VersionBitmap size) : Option Bool :=
  if (nr >>> 3).toNat < size then some (f2fsTestBit nr bitmap.byte) else none

/-- `mask` of `f2fs_change_bit`. -/
def changeMask (nr : UInt32) : UInt8 := ((1 : UInt32) <<< (7 - (nr &&& 7))).toUInt8

/-- `f2fs_change_bit`, inside of the bitmap. -/
def f2fsChangeBit (nr : UInt32) (bitmap : VersionBitmap size) : Option (VersionBitmap size) :=
  if h : (nr >>> 3).toNat < size then
    some (bitmap.set (nr >>> 3).toNat (bitmap[(nr >>> 3).toNat] ^^^ changeMask nr))
  else none

/-- The bits of a map by their numbers. -/
def VersionBitmap.bits (bitmap : VersionBitmap size) : Nat → Bool := revBit bitmap.byte

theorem shiftRight_three (nr : UInt32) : (nr >>> 3).toNat = nr.toNat / 8 := by
  rw [UInt32.toNat_shiftRight, Nat.shiftRight_eq_div_pow]
  rfl

theorem byte_lt_iff (nr : UInt32) : (nr >>> 3).toNat < size ↔ nr.toNat < 8 * size := by
  rw [shiftRight_three]
  omega

theorem testVersion_eq {nr : UInt32} (h : nr.toNat < 8 * size) (bitmap : VersionBitmap size) :
    testVersion nr bitmap = some (bitmap.bits nr.toNat) := by
  rw [testVersion, if_pos ((byte_lt_iff nr).mpr h), f2fsTestBit_eq, VersionBitmap.bits]

theorem changeMask_testBit (nr : UInt32) (i : Nat) :
    (changeMask nr).toNat.testBit i = decide (7 - nr.toNat % 8 = i) := by
  have hlow : (nr &&& 7).toNat = nr.toNat % 8 := by
    rw [UInt32.toNat_and]
    exact Nat.and_two_pow_sub_one_eq_mod nr.toNat 3
  have hle : nr &&& 7 ≤ 7 := by
    rw [UInt32.le_iff_toNat_le, hlow, show (7 : UInt32).toNat = 7 from rfl]
    omega
  have hmask : (changeMask nr).toNat = 2 ^ (7 - nr.toNat % 8) := by
    have hlt : 2 ^ (7 - nr.toNat % 8) < 2 ^ 8 := Nat.pow_lt_pow_right (by decide) (by omega)
    have hlt' : 2 ^ (7 - nr.toNat % 8) < 2 ^ 32 := hlt.trans (by decide)
    rw [changeMask, UInt32.toNat_toUInt8, UInt32.toNat_shiftLeft, UInt32.toNat_sub_of_le _ _ hle,
      hlow, show (7 : UInt32).toNat = 7 from rfl, Nat.mod_eq_of_lt (a := 7 - _) (by omega),
      show (1 : UInt32).toNat = 1 from rfl, Nat.one_shiftLeft, Nat.mod_eq_of_lt hlt',
      Nat.mod_eq_of_lt hlt]
  rw [hmask, Nat.testBit_two_pow]

/-- Changing a bit flips it and no other one. -/
theorem f2fsChangeBit_eq {nr : UInt32} (h : nr.toNat < 8 * size) (bitmap : VersionBitmap size) :
    ∃ bitmap', f2fsChangeBit nr bitmap = some bitmap' ∧
      bitmap'.bits = ShadowArea.flip bitmap.bits nr.toNat := by
  have hin := (byte_lt_iff nr).mpr h
  have hold : bitmap[(nr >>> 3).toNat] = bitmap.byte (nr.toNat / 8) := by
    rw [VersionBitmap.byte, ← shiftRight_three, Vector.getElem?_eq_getElem hin, Option.getD_some]
  refine ⟨_, dif_pos hin, funext fun i => ?_⟩
  rw [ShadowArea.flip, VersionBitmap.bits, revBit_eq, VersionBitmap.byte, Vector.getElem?_set, hold,
    shiftRight_three]
  by_cases hi : nr.toNat / 8 = i / 8
  · rw [if_pos hi, Option.getD_some, UInt8.toNat_xor, Nat.testBit_xor, changeMask_testBit]
    by_cases heq : i = nr.toNat
    · subst heq
      rw [Function.update_self, decide_eq_true rfl, Bool.xor_true, VersionBitmap.bits, revBit_eq]
    · rw [Function.update_of_ne heq, decide_eq_false (by omega), Bool.xor_false, hi,
        VersionBitmap.bits, revBit_eq]
  · have hne : i ≠ nr.toNat := fun heq => hi (by rw [heq])
    rw [if_neg hi, Function.update_of_ne hne, VersionBitmap.bits, revBit_eq, VersionBitmap.byte]

/-! ## The addresses -/

variable (raw : F2fsSuperBlock)

/-- `NAT_BLOCK_OFFSET`. -/
def natBlockOff (start : UInt32) : UInt32 := start / 455

/-- `SIT_BLOCK_OFFSET`. -/
def sitBlockOff (start : UInt32) : UInt32 := start / 55

/-- `current_nat_addr`. -/
def currentNatAddr (bitmap : VersionBitmap size) (start : UInt32) : Option UInt64 :=
  let blockOff := (natBlockOff start).toUInt64
  let blockAddr := raw.natBlkaddr.toUInt64 + (blockOff <<< 1) -
    (blockOff &&& ((initSbInfo raw).blocksPerSeg - 1).toUInt64)
  (testVersion blockOff.toUInt32 bitmap).map fun bit =>
    if bit then blockAddr + (initSbInfo raw).blocksPerSeg.toUInt64 else blockAddr

/-- `next_nat_addr`. -/
def nextNatAddr (blockAddr : UInt64) : UInt64 :=
  ((blockAddr - raw.natBlkaddr.toUInt64) ^^^ ((1 : UInt32) <<< raw.logBlocksPerSeg).toUInt64) +
    raw.natBlkaddr.toUInt64

/-- `set_to_next_nat`. -/
def setToNextNat (startNid : UInt32) (bitmap : VersionBitmap size) :
    Option (VersionBitmap size) := f2fsChangeBit (natBlockOff startNid) bitmap

/-- `current_sit_addr`. -/
def currentSitAddr (bitmap : VersionBitmap size) (start : UInt32) : Option UInt64 :=
  let offset := sitBlockOff start
  let blkAddr := raw.sitBlkaddr + offset
  (testVersion offset bitmap).map fun bit =>
    (if bit then blkAddr + sitBlocks raw else blkAddr).toUInt64

/-- `next_sit_addr`. -/
def nextSitAddr (blockAddr : UInt64) : UInt64 :=
  let blockAddr := blockAddr - raw.sitBlkaddr.toUInt64
  (if blockAddr < (sitBlocks raw).toUInt64 then blockAddr + (sitBlocks raw).toUInt64
    else blockAddr - (sitBlocks raw).toUInt64) + raw.sitBlkaddr.toUInt64

/-- `set_to_next_sit`. -/
def setToNextSit (start : UInt32) (bitmap : VersionBitmap size) :
    Option (VersionBitmap size) := f2fsChangeBit (sitBlockOff start) bitmap

/-! ## What they are for -/

/-- The functions of one of the two tables, over a bitmap of `size` bytes. -/
structure ShadowCalls (size : Nat) where
  off : UInt32 → UInt32
  current : VersionBitmap size → UInt32 → Option UInt64
  next : UInt64 → UInt64
  setToNext : UInt32 → VersionBitmap size → Option (VersionBitmap size)

def natCalls (size : Nat) : ShadowCalls size :=
  ⟨natBlockOff, currentNatAddr raw, nextNatAddr raw, setToNextNat⟩

def sitCalls (size : Nat) : ShadowCalls size :=
  ⟨sitBlockOff, currentSitAddr raw, nextSitAddr raw, setToNextSit⟩

/-- For the ids below `limit` and every bitmap: a current address is one of the area and
    belongs to one block and version; setting a block to next flips its bit, moves its current
    address to the next one, and leaves those of the other blocks. -/
structure ShadowCalls.Sound (calls : ShadowCalls size) (area : Area) (limit : Nat) : Prop where
  inArea : ∀ bitmap start, start.toNat < limit →
    ∃ a, calls.current bitmap start = some a ∧ area.start ≤ a.toNat ∧ a.toNat < area.stop
  inj : ∀ bitmap bitmap' start start', start.toNat < limit → start'.toNat < limit →
    calls.current bitmap start = calls.current bitmap' start' →
      calls.off start = calls.off start' ∧
        testVersion (calls.off start) bitmap = testVersion (calls.off start') bitmap'
  setToNext : ∀ bitmap start, start.toNat < limit → ∃ bitmap',
    calls.setToNext start bitmap = some bitmap' ∧
      testVersion (calls.off start) bitmap' = (testVersion (calls.off start) bitmap).map not ∧
      calls.current bitmap' start = (calls.current bitmap start).map calls.next ∧
      ∀ other, other.toNat < limit → calls.off other ≠ calls.off start →
        calls.current bitmap' other = calls.current bitmap other

/-- The functions compute the addresses of `A`, where there is room for its blocks. -/
structure ShadowCalls.Refines (calls : ShadowCalls size) (A : ShadowArea) (area : Area)
    (limit : Nat) : Prop where
  room : ∀ start, start.toNat < limit → (calls.off start).toNat < 8 * size
  valid : ∀ start, start.toNat < limit → A.valid (calls.off start).toNat
  inArea : ∀ start bit, start.toNat < limit → area.start ≤ A.addr (calls.off start).toNat bit ∧
    A.addr (calls.off start).toNat bit < area.stop
  current_eq : ∀ bitmap start, start.toNat < limit → ∃ a, calls.current bitmap start = some a ∧
    a.toNat = A.addr (calls.off start).toNat (bitmap.bits (calls.off start).toNat)
  next_eq : ∀ start bit a, start.toNat < limit → a.toNat = A.addr (calls.off start).toNat bit →
    (calls.next a).toNat = A.addr (calls.off start).toNat (!bit)
  setToNext_eq : ∀ start bitmap,
    calls.setToNext start bitmap = f2fsChangeBit (calls.off start) bitmap

variable {calls : ShadowCalls size} {A : ShadowArea} {area : Area} {limit : Nat}

/-- Two current addresses agree where those of `A` do. -/
theorem ShadowCalls.Refines.current_congr (h : calls.Refines A area limit)
    {bitmap bitmap' : VersionBitmap size} {start start' : UInt32} (hs : start.toNat < limit)
    (hs' : start'.toNat < limit) :
    calls.current bitmap start = calls.current bitmap' start' ↔
      A.addr (calls.off start).toNat (bitmap.bits (calls.off start).toNat) =
        A.addr (calls.off start').toNat (bitmap'.bits (calls.off start').toNat) := by
  obtain ⟨a, ha, haddr⟩ := h.current_eq bitmap start hs
  obtain ⟨a', ha', haddr'⟩ := h.current_eq bitmap' start' hs'
  rw [ha, ha', Option.some_inj, ← haddr, ← haddr', UInt64.toNat_inj]

theorem ShadowCalls.Refines.sound (h : calls.Refines A area limit) : calls.Sound area limit where
  inArea bitmap start hs := by
    obtain ⟨a, ha, haddr⟩ := h.current_eq bitmap start hs
    refine ⟨a, ha, ?_⟩
    rw [haddr]
    exact h.inArea start _ hs
  inj bitmap bitmap' start start' hs hs' heq := by
    obtain ⟨hoff, hbit⟩ := A.inj (h.valid start hs) (h.valid start' hs')
      ((h.current_congr hs hs').mp heq)
    refine ⟨UInt32.toNat_inj.mp hoff, ?_⟩
    rw [testVersion_eq (h.room start hs), testVersion_eq (h.room start' hs'), hbit]
  setToNext bitmap start hs := by
    obtain ⟨bitmap', hchange, hflip⟩ := f2fsChangeBit_eq (h.room start hs) bitmap
    refine ⟨bitmap', (h.setToNext_eq start bitmap).trans hchange, ?_, ?_, fun other ho hne => ?_⟩
    · rw [testVersion_eq (h.room start hs), testVersion_eq (h.room start hs), hflip,
        ShadowArea.flip, Function.update_self, Option.map_some]
    · obtain ⟨a, ha, haddr⟩ := h.current_eq bitmap start hs
      obtain ⟨a', ha', haddr'⟩ := h.current_eq bitmap' start hs
      rw [hflip, ShadowArea.flip, Function.update_self] at haddr'
      rw [ha, ha', Option.map_some, Option.some_inj, ← UInt64.toNat_inj, haddr',
        h.next_eq start _ a hs haddr]
    · have hne' : (calls.off other).toNat ≠ (calls.off start).toNat :=
        fun heq => hne (UInt32.toNat_inj.mp heq)
      rw [h.current_congr ho ho, hflip, ShadowArea.flip, Function.update_of_ne hne']

/-- The version bitmap of a table that has never been written. -/
def freshBitmap (size : Nat) : VersionBitmap size := Vector.replicate size 0

/-- Of functions that are sound the bitmap has a bit for every id. -/
theorem ShadowCalls.Sound.room (h : calls.Sound area limit)
    (hset : ∀ start bitmap,
      calls.setToNext start bitmap = f2fsChangeBit (calls.off start) bitmap)
    {start : UInt32} (hs : start.toNat < limit) : (calls.off start).toNat < 8 * size := by
  obtain ⟨bitmap', hchange, -⟩ := h.setToNext (freshBitmap size) start hs
  rw [hset] at hchange
  by_contra hout
  rw [f2fsChangeBit, dif_neg (mt (byte_lt_iff _).mp hout)] at hchange
  cases hchange

/-! ## NAT -/

/-- What the node manager keeps of the super block. -/
def F2fsSuperBlock.sbInfo : SbInfo where
  cpBlkaddr := raw.cpBlkaddr.toNat
  cpPayload := raw.cpPayload.toNat
  natBlkaddr := raw.natBlkaddr.toNat
  natBlocks := (natBlocks raw).toNat
  ssaBlkaddr := raw.ssaBlkaddr.toNat
  cpPayload_lt := raw.cpPayload.toNat_lt
  natBlocks_lt := (natBlocks raw).toNat_lt

variable {raw}

theorem natBlockOff_toNat (start : UInt32) :
    (natBlockOff start).toNat = start.toNat / natEntryPerBlock := UInt32.toNat_div start 455

theorem natBlockOff_lt (start : UInt32) : (natBlockOff start).toNat < 2 ^ 24 := by
  have hlt := start.toNat_lt
  rw [natBlockOff_toNat, natEntryPerBlock]
  omega

theorem initSbInfo_blocksPerSeg (hlog : raw.logBlocksPerSeg = 9) :
    (initSbInfo raw).blocksPerSeg = 512 := by
  rw [initSbInfo, hlog]
  rfl

/-- The copies of one kind take half of the segments, if the number of blocks does not wrap. -/
theorem pairBlocks_le (hlog : raw.logBlocksPerSeg = 9) (count : UInt32) :
    (raw.blocks (count >>> 1)).toNat ≤ count.toNat / 2 * blocksPerSeg := by
  have hhalf : (count >>> 1).toNat = count.toNat / 2 := by
    rw [UInt32.toNat_shiftRight, Nat.shiftRight_eq_div_pow]
    rfl
  rw [blocks_toNat hlog, hhalf]
  exact Nat.mod_le _ _

/-- The words of `current_nat_addr` do not wrap. -/
theorem currentNatAddr_eq (hlog : raw.logBlocksPerSeg = 9) {start : UInt32}
    (h : (natBlockOff start).toNat < 8 * size) (bitmap : VersionBitmap size) :
    ∃ a, currentNatAddr raw bitmap start = some a ∧
      a.toNat = Node.natAddr raw.sbInfo (natBlockOff start).toNat
        (bitmap.bits (natBlockOff start).toNat) := by
  have hlt := natBlockOff_lt start
  have hnat := raw.natBlkaddr.toNat_lt
  set off := natBlockOff start with hoff
  set base := raw.natBlkaddr.toUInt64 + (off.toUInt64 <<< 1) -
    (off.toUInt64 &&& (512 - 1 : UInt32).toUInt64) with hbase
  have hcurrent : currentNatAddr raw bitmap start =
      some (if bitmap.bits off.toNat then base + 512 else base) := by
    rw [currentNatAddr, initSbInfo_blocksPerSeg hlog, ← hoff, UInt32.toUInt32_toUInt64,
      testVersion_eq h, Option.map_some]
    rfl
  have hshift : (off.toUInt64 <<< 1).toNat = 2 * off.toNat := by
    rw [UInt64.toNat_shiftLeft, UInt32.toNat_toUInt64, show (1 : UInt64).toNat % 64 = 1 from rfl,
      Nat.shiftLeft_eq]
    omega
  have hmask : (off.toUInt64 &&& (512 - 1 : UInt32).toUInt64).toNat = off.toNat % 512 := by
    rw [UInt64.toNat_and, UInt32.toNat_toUInt64]
    exact Nat.and_two_pow_sub_one_eq_mod off.toNat 9
  have hbaseNat : base.toNat = raw.natBlkaddr.toNat + 2 * off.toNat - off.toNat % 512 := by
    rw [hbase, UInt64.toNat_sub, UInt64.toNat_add, hshift, hmask, UInt32.toNat_toUInt64]
    omega
  refine ⟨_, hcurrent, ?_⟩
  rw [Node.natAddr, show blocksPerSeg = 512 from rfl,
    show raw.sbInfo.natBlkaddr = raw.natBlkaddr.toNat from rfl]
  by_cases hbit : bitmap.bits off.toNat = true
  · rw [if_pos hbit, if_pos hbit, UInt64.toNat_add, hbaseNat,
      show (512 : UInt64).toNat = 512 from rfl]
    omega
  · rw [if_neg hbit, if_neg hbit, hbaseNat, Nat.add_zero]

theorem nextNatAddr_eq (hlog : raw.logBlocksPerSeg = 9) {a : UInt64}
    (hle : raw.natBlkaddr.toNat ≤ a.toNat) (hlt : a.toNat < 2 ^ 62) :
    (nextNatAddr raw a).toNat = Node.nextNatAddr raw.sbInfo a.toNat := by
  have hnat := raw.natBlkaddr.toNat_lt
  have hsub : (a - raw.natBlkaddr.toUInt64).toNat = a.toNat - raw.natBlkaddr.toNat := by
    rw [UInt64.toNat_sub, UInt32.toNat_toUInt64]
    omega
  have hxor : (a.toNat - raw.natBlkaddr.toNat) ^^^ 512 < 2 ^ 62 :=
    Nat.xor_lt_two_pow (by omega) (by decide)
  have hbit : ((1 : UInt32) <<< raw.logBlocksPerSeg).toUInt64.toNat = 512 := by
    rw [hlog]
    rfl
  rw [nextNatAddr, UInt64.toNat_add, UInt64.toNat_xor, hsub, hbit, UInt32.toNat_toUInt64,
    Nat.mod_eq_of_lt (by omega)]
  rfl

theorem natCalls_refines (hlog : raw.logBlocksPerSeg = 9)
    (hroom : (maxNid raw).toNat ≤ natEntryPerBlock * (8 * size)) :
    (natCalls raw size).Refines (Node.natArea raw.sbInfo) raw.natArea (maxNid raw).toNat := by
  have hlt : ∀ start : UInt32, start.toNat < (maxNid raw).toNat →
      (natBlockOff start).toNat < 8 * size := by
    intro start hs
    rw [natBlockOff_toNat, Nat.div_lt_iff_lt_mul (by decide), Nat.mul_comm]
    exact lt_of_lt_of_le hs hroom
  have hbound : ∀ start bit, Node.natAddr raw.sbInfo (natBlockOff start).toNat bit < 2 ^ 62 := by
    intro start bit
    have hoff := natBlockOff_lt start
    have hnat := raw.natBlkaddr.toNat_lt
    rw [Node.natAddr_eq, show raw.sbInfo.natBlkaddr = raw.natBlkaddr.toNat from rfl]
    split <;> omega
  exact {
    room := hlt
    valid := fun _ _ => trivial
    inArea := by
      intro start bit hs
      have hblock : (natBlockOff start).toNat < (natBlocks raw).toNat := by
        rw [natBlockOff_toNat, Nat.div_lt_iff_lt_mul (by decide), Nat.mul_comm]
        refine lt_of_lt_of_le hs ?_
        rw [maxNid, UInt32.toNat_mul]
        exact Nat.mod_le _ _
      have hpair : (natBlocks raw).toNat ≤ raw.segmentCountNat.toNat / 2 * blocksPerSeg :=
        pairBlocks_le hlog raw.segmentCountNat
      show raw.natBlkaddr.toNat ≤ Node.natAddr raw.sbInfo (natBlockOff start).toNat bit ∧
        Node.natAddr raw.sbInfo (natBlockOff start).toNat bit <
          raw.natBlkaddr.toNat + raw.segmentCountNat.toNat * blocksPerSeg
      rw [Node.natAddr_eq, show raw.sbInfo.natBlkaddr = raw.natBlkaddr.toNat from rfl]
      unfold blocksPerSeg at *
      split <;> omega
    current_eq := fun bitmap start hs => currentNatAddr_eq hlog (hlt start hs) bitmap
    next_eq := by
      intro start bit a hs ha
      have ha' : a.toNat = Node.natAddr raw.sbInfo (natBlockOff start).toNat bit := ha
      have hle : raw.natBlkaddr.toNat ≤ a.toNat := by
        rw [ha', Node.natAddr_eq]
        exact Nat.le_add_right _ _
      exact (nextNatAddr_eq hlog hle (ha' ▸ hbound start bit)).trans
        (ha' ▸ Node.nextNatAddr_natAddr raw.sbInfo _ bit)
    setToNext_eq := fun _ _ => rfl }

/-- The NAT functions are sound exactly if the bitmap has a bit for every NAT block. -/
theorem natCalls_sound_iff (hlog : raw.logBlocksPerSeg = 9) (size : Nat) :
    (natCalls raw size).Sound raw.natArea (maxNid raw).toNat ↔
      (maxNid raw).toNat ≤ natEntryPerBlock * (8 * size) := by
  constructor
  · intro h
    rcases Nat.eq_zero_or_pos (maxNid raw).toNat with h0 | hpos
    · exact h0 ▸ Nat.zero_le _
    · have hlt := (maxNid raw).toNat_lt
      have hlast : (UInt32.ofNat ((maxNid raw).toNat - 1)).toNat = (maxNid raw).toNat - 1 :=
        UInt32.toNat_ofNat_of_lt' (lt_of_le_of_lt (Nat.sub_le _ _) hlt)
      have hroom : (natBlockOff _).toNat < 8 * size :=
        h.room (fun _ _ => rfl) (hlast ▸ Nat.sub_lt hpos Nat.one_pos)
      rw [natBlockOff_toNat, hlast, Nat.div_lt_iff_lt_mul (by decide), Nat.mul_comm] at hroom
      exact Nat.le_of_pred_lt hroom
  · exact fun hroom => (natCalls_refines hlog hroom).sound

/-! ## SIT -/

theorem sitBlockOff_toNat (start : UInt32) :
    (sitBlockOff start).toNat = start.toNat / sitEntryPerBlock := UInt32.toNat_div start 55

variable (raw) in
/-- `current_sit_addr`, which may wrap. -/
theorem currentSitAddr_eq {start : UInt32} (h : (sitBlockOff start).toNat < 8 * size)
    (bitmap : VersionBitmap size) :
    ∃ a, currentSitAddr raw bitmap start = some a ∧
      a.toNat = (ShadowArea.halves raw.sitBlkaddr.toNat (sitBlocks raw).toNat).addr
        (sitBlockOff start).toNat (bitmap.bits (sitBlockOff start).toNat) % 2 ^ 32 := by
  have hcurrent : currentSitAddr raw bitmap start =
      some (if bitmap.bits (sitBlockOff start).toNat then
        raw.sitBlkaddr + sitBlockOff start + sitBlocks raw
        else raw.sitBlkaddr + sitBlockOff start).toUInt64 := by
    rw [currentSitAddr, testVersion_eq h, Option.map_some]
  refine ⟨_, hcurrent, ?_⟩
  rw [UInt32.toNat_toUInt64, ShadowArea.halves_addr]
  by_cases hbit : bitmap.bits (sitBlockOff start).toNat = true
  · rw [if_pos hbit, if_pos hbit, UInt32.toNat_add, UInt32.toNat_add, Nat.mod_add_mod]
  · rw [if_neg hbit, if_neg hbit, UInt32.toNat_add, Nat.add_zero]

theorem nextSitAddr_eq {a : UInt64} (hle : raw.sitBlkaddr.toNat ≤ a.toNat)
    (hlt : a.toNat < 2 ^ 32) :
    (nextSitAddr raw a).toNat =
      ShadowArea.otherHalf raw.sitBlkaddr.toNat (sitBlocks raw).toNat a.toNat := by
  have hsit := raw.sitBlkaddr.toNat_lt
  have hblocks := (sitBlocks raw).toNat_lt
  have hsub : (a - raw.sitBlkaddr.toUInt64).toNat = a.toNat - raw.sitBlkaddr.toNat := by
    rw [UInt64.toNat_sub, UInt32.toNat_toUInt64]
    omega
  rw [nextSitAddr, ShadowArea.otherHalf]
  simp only [UInt64.lt_iff_toNat_lt, hsub, UInt32.toNat_toUInt64]
  by_cases hhalf : a.toNat - raw.sitBlkaddr.toNat < (sitBlocks raw).toNat
  · rw [if_pos hhalf, if_pos hhalf, UInt64.toNat_add, UInt64.toNat_add, hsub,
      UInt32.toNat_toUInt64, UInt32.toNat_toUInt64]
    omega
  · rw [if_neg hhalf, if_neg hhalf, UInt64.toNat_add, UInt64.toNat_sub, hsub,
      UInt32.toNat_toUInt64, UInt32.toNat_toUInt64]
    omega

/-- The main segments have their SIT blocks in the bitmap and in the first half of the area,
    and no address of a second copy wraps. -/
structure SitFits (raw : F2fsSuperBlock) (size : Nat) : Prop where
  bits : mainSegs raw ≤ sitEntryPerBlock * (8 * size)
  half : mainSegs raw ≤ sitEntryPerBlock * (sitBlocks raw).toNat
  noWrap : raw.sitBlkaddr.toNat + (sitBlocks raw).toNat + (mainSegs raw - 1) / sitEntryPerBlock <
    2 ^ 32

theorem sitCalls_refines (hlog : raw.logBlocksPerSeg = 9) (hfits : SitFits raw size) :
    (sitCalls raw size).Refines
      (ShadowArea.halves raw.sitBlkaddr.toNat (sitBlocks raw).toNat) raw.sitArea
      (mainSegs raw) := by
  have hbelow : ∀ {n : Nat} {start : UInt32}, mainSegs raw ≤ sitEntryPerBlock * n →
      start.toNat < mainSegs raw → (sitBlockOff start).toNat < n := by
    intro n start hle hs
    rw [sitBlockOff_toNat, Nat.div_lt_iff_lt_mul (by decide), Nat.mul_comm]
    exact lt_of_lt_of_le hs hle
  have hword : ∀ (start : UInt32) (bit : Bool), start.toNat < mainSegs raw →
      (ShadowArea.halves raw.sitBlkaddr.toNat (sitBlocks raw).toNat).addr
        (sitBlockOff start).toNat bit < 2 ^ 32 := by
    intro start bit hs
    have hend := hfits.noWrap
    have hlast : (sitBlockOff start).toNat ≤ (mainSegs raw - 1) / sitEntryPerBlock := by
      rw [sitBlockOff_toNat]
      exact Nat.div_le_div_right (Nat.le_pred_of_lt hs)
    rw [ShadowArea.halves_addr]
    split <;> omega
  exact {
    room := fun start hs => hbelow hfits.bits hs
    valid := fun start hs => hbelow hfits.half hs
    inArea := by
      intro start bit hs
      have hblock := hbelow hfits.half hs
      have hpair : (sitBlocks raw).toNat ≤ raw.segmentCountSit.toNat / 2 * blocksPerSeg :=
        pairBlocks_le hlog raw.segmentCountSit
      have hoff : (sitCalls raw size).off start = sitBlockOff start := rfl
      rw [ShadowArea.halves_addr, hoff]
      show raw.sitBlkaddr.toNat ≤ _ ∧
        _ < raw.sitBlkaddr.toNat + raw.segmentCountSit.toNat * blocksPerSeg
      unfold blocksPerSeg at *
      split <;> omega
    current_eq := by
      intro bitmap start hs
      obtain ⟨a, ha, haddr⟩ := currentSitAddr_eq raw (hbelow hfits.bits hs) bitmap
      exact ⟨a, ha, haddr.trans (Nat.mod_eq_of_lt (hword start _ hs))⟩
    next_eq := by
      intro start bit a hs ha
      have hlt : a.toNat < 2 ^ 32 := lt_of_eq_of_lt ha (hword start bit hs)
      have hle : raw.sitBlkaddr.toNat ≤ a.toNat := by
        rw [ha, ShadowArea.halves_addr]
        omega
      exact (nextSitAddr_eq hle hlt).trans
        (ha ▸ ShadowArea.otherHalf_addr (hbelow hfits.half hs) bit)
    setToNext_eq := fun _ _ => rfl }

theorem freshBitmap_bits (size nr : Nat) : (freshBitmap size).bits nr = false := by
  rw [VersionBitmap.bits, revBit_eq, VersionBitmap.byte, freshBitmap]
  have hzero : ((Vector.replicate size (0 : UInt8))[nr / 8]?.getD 0) = 0 := by
    rw [Vector.getElem?_replicate]
    split <;> rfl
  rw [hzero]
  exact Nat.zero_testBit _

/-- The last main segment's block has both its copies in the area, and the second one where
    `next_sit_addr` looks for it, only if the areas fit. -/
theorem sitFits_of_sound (hmain : 0 < mainSegs raw)
    (h : (sitCalls raw size).Sound raw.sitArea (mainSegs raw)) : SitFits raw size := by
  have hmainLt : mainSegs raw < 2 ^ 32 := raw.segmentCountMain.toNat_lt
  set last := UInt32.ofNat (mainSegs raw - 1) with hlastDef
  have hlast : last.toNat = mainSegs raw - 1 :=
    UInt32.toNat_ofNat_of_lt' (lt_of_le_of_lt (Nat.sub_le _ _) hmainLt)
  have hs : last.toNat < mainSegs raw := by omega
  have hroom : (sitBlockOff last).toNat < 8 * size := h.room (fun _ _ => rfl) hs
  have hoff := sitBlockOff_toNat last
  rw [hlast] at hoff
  -- the first copy
  obtain ⟨a, ha, haddr⟩ := currentSitAddr_eq raw hroom (freshBitmap size)
  obtain ⟨_, ha₁, hlo, -⟩ := h.inArea (freshBitmap size) last hs
  cases Option.some.inj (ha.symm.trans ha₁)
  have hlo' : raw.sitBlkaddr.toNat ≤ a.toNat := hlo
  rw [freshBitmap_bits, ShadowArea.halves_addr, hoff, if_neg Bool.false_ne_true,
    Nat.add_zero] at haddr
  have hsit := raw.sitBlkaddr.toNat_lt
  have hsmall : (mainSegs raw - 1) / sitEntryPerBlock < 2 ^ 27 := by
    unfold sitEntryPerBlock
    omega
  have hfirst : a.toNat = raw.sitBlkaddr.toNat + (mainSegs raw - 1) / sitEntryPerBlock := by
    omega
  -- the second copy, after the flip
  obtain ⟨bitmap', -, hbit, hnext, -⟩ := h.setToNext (freshBitmap size) last hs
  obtain ⟨a', ha', haddr'⟩ := currentSitAddr_eq raw hroom bitmap'
  have hcurrent : some a' = (some a).map (nextSitAddr raw) := ha' ▸ ha ▸ hnext
  have hbit' : bitmap'.bits (sitBlockOff last).toNat = true := by
    have heq : some _ = (some _).map not :=
      testVersion_eq hroom (freshBitmap size) ▸ testVersion_eq hroom bitmap' ▸ hbit
    rw [freshBitmap_bits] at heq
    exact Option.some.inj heq
  have hother : ShadowArea.otherHalf raw.sitBlkaddr.toNat (sitBlocks raw).toNat a.toNat =
      (a.toNat + (sitBlocks raw).toNat) % 2 ^ 32 := by
    rw [← nextSitAddr_eq hlo' (haddr ▸ Nat.mod_lt _ (by decide)), ← Option.some.inj hcurrent,
      haddr', hbit', ShadowArea.halves_addr, hoff, if_pos rfl, hfirst]
  rw [ShadowArea.otherHalf, hfirst, Nat.add_sub_cancel_left] at hother
  have hle : (mainSegs raw - 1) / sitEntryPerBlock < (sitBlocks raw).toNat := by
    by_contra hout
    rw [if_neg hout] at hother
    -- only without any block of its own does the second half start at the first one
    have hzero : (sitBlocks raw).toNat = 0 := by omega
    have hsame : a' = a := by
      rw [← UInt64.toNat_inj, haddr', hfirst, hbit', ShadowArea.halves_addr, hoff, if_pos rfl,
        hzero]
      omega
    have hversion := (h.inj (freshBitmap size) bitmap' last last hs hs
      (ha.trans (hsame ▸ ha').symm)).2
    have heq : some _ = some _ :=
      testVersion_eq hroom (freshBitmap size) ▸ testVersion_eq hroom bitmap' ▸ hversion
    rw [freshBitmap_bits, hbit'] at heq
    cases heq
  rw [if_pos hle] at hother
  have hper : sitEntryPerBlock = 55 := rfl
  rw [hoff] at hroom
  rw [hper] at hroom hle hother
  refine ⟨?_, ?_, ?_⟩
  all_goals
    rw [hper]
    omega

theorem sitCalls_sound_iff (hlog : raw.logBlocksPerSeg = 9) (hmain : 0 < mainSegs raw)
    (size : Nat) : (sitCalls raw size).Sound raw.sitArea (mainSegs raw) ↔ SitFits raw size :=
  ⟨sitFits_of_sound hmain, fun hfits => (sitCalls_refines hlog hfits).sound⟩

/-! ## The geometry that was accepted -/

/-- What no check compares: the bitmaps with the blocks they version, and the SIT area with
    the main segments. -/
structure ShadowsFit (raw : F2fsSuperBlock) (ckpt : F2fsCheckpoint) : Prop where
  nat : (maxNid raw).toNat ≤ natEntryPerBlock * (8 * (bitmapSize ckpt .nat).toNat)
  sit : SitFits raw (bitmapSize ckpt .sit).toNat

/-- For an accepted super block and checkpoint, every version bitmap of the checkpoint's
    sizes, every nid below `max_nid` and every main segment, the NAT and SIT addresses shadow
    one another exactly if the areas fit. -/
theorem shadowAddrs_iff (env : SuperEnv) (raw : F2fsSuperBlock) (pageSize : UInt32)
    (r : SuperChecked) (ckpt : F2fsCheckpoint)
    (hsuper : sanityCheckRawSuper env raw pageSize = .ok r)
    (hckpt : sanityCheckCkpt r.raw ckpt = .ok ()) :
    ((natCalls r.raw (bitmapSize ckpt .nat).toNat).Sound r.raw.natArea (maxNid r.raw).toNat ∧
      (sitCalls r.raw (bitmapSize ckpt .sit).toNat).Sound r.raw.sitArea (mainSegs r.raw)) ↔
      ShadowsFit r.raw ckpt := by
  obtain ⟨hchecked, hraw⟩ := sanityCheckRawSuper_ok hsuper
  have hlog : r.raw.logBlocksPerSeg = 9 := by
    rw [hraw]
    exact hchecked.log_eq
  rw [natCalls_sound_iff hlog, sitCalls_sound_iff hlog (mainSegs_pos hlog hckpt)]
  exact ⟨fun h => ⟨h.1, h.2⟩, fun h => ⟨h.nat, h.sit⟩⟩

theorem smallSuper_shadows :
    ((natCalls smallSuper 64).Sound smallSuper.natArea (maxNid smallSuper).toNat ∧
      (sitCalls smallSuper 64).Sound smallSuper.sitArea (mainSegs smallSuper)) ↔
      ShadowsFit smallSuper smallCkpt :=
  shadowAddrs_iff ⟨false, false⟩ smallSuper 4096 ⟨smallSuper, false⟩ smallCkpt (by rfl) (by rfl)

/-- One main segment more than half of the SIT area has entries for. -/
def crowdedSit : F2fsSuperBlock :=
  { smallSuper with segmentCount := 28168, segmentCountMain := 28161 }

def crowdedCkpt : F2fsCheckpoint := { smallCkpt with sitVerBitmapBytesize := 128 }

/-- The next address of the block of the last segment is the current one of the first block. -/
theorem crowdedSit_collides :
    sanityCheckRawSuper ⟨false, false⟩ crowdedSit 4096 = .ok ⟨crowdedSit, false⟩ ∧
      sanityCheckCkpt crowdedSit crowdedCkpt = .ok () ∧
      (currentSitAddr crowdedSit (freshBitmap 128) 28160).map (nextSitAddr crowdedSit) =
        currentSitAddr crowdedSit (freshBitmap 128) 0 ∧
      ¬((natCalls crowdedSit 64).Sound crowdedSit.natArea (maxNid crowdedSit).toNat ∧
        (sitCalls crowdedSit 128).Sound crowdedSit.sitArea (mainSegs crowdedSit)) := by
  refine ⟨by rfl, by rfl, by rfl, fun h => ?_⟩
  have hfits := (sitCalls_sound_iff (by rfl) (by decide) 128).mp h.2
  exact absurd hfits.half (by decide)

end F2fs.Mount

/-
  The super block: `sanity_check_raw_super` and the area boundaries.

  The fields are words of 32 bits and the checks are computed in them, as in the source;
  a shift takes its count modulo 32.  `areasSound_iff` compares the areas of an accepted
  super block with the exact ones.
-/
import F2fs.Basic

namespace F2fs.Mount

/-- The fields of `struct f2fs_super_block` that the mount reads. -/
structure F2fsSuperBlock where
  magic : UInt32
  logSectorsize : UInt32
  logSectorsPerBlock : UInt32
  logBlocksize : UInt32
  logBlocksPerSeg : UInt32
  segsPerSec : UInt32
  secsPerZone : UInt32
  sectionCount : UInt32
  segmentCount : UInt32
  segmentCountCkpt : UInt32
  segmentCountSit : UInt32
  segmentCountNat : UInt32
  segmentCountSsa : UInt32
  segmentCountMain : UInt32
  segment0Blkaddr : UInt32
  cpBlkaddr : UInt32
  sitBlkaddr : UInt32
  natBlkaddr : UInt32
  ssaBlkaddr : UInt32
  mainBlkaddr : UInt32
  rootIno : UInt32
  nodeIno : UInt32
  metaIno : UInt32
  cpPayload : UInt32
  deriving DecidableEq, Repr

def f2fsSuperMagic : UInt32 := 0xF2F52010
def f2fsBlksize : UInt32 := 4096
def f2fsMaxLogSectorSize : UInt32 := 12
def f2fsMinLogSectorSize : UInt32 := 9
def f2fsMaxSegment : UInt32 := 16 * 1024 * 1024 / 2

/-- Why a super block is refused. -/
inductive SuperError where
  | magic | pageCacheSize | blocksize | logBlocksPerSeg | logSectorsize | logSectorsPerBlock
  | metaIno | segmentCount | startAddress | cpBoundary | sitBoundary | natBoundary | ssaBoundary
  | mainBoundary | commit
  deriving DecidableEq, Repr

/-- What the check finds around it: a device that cannot be written, and whether
    `__f2fs_commit_super` fails. -/
structure SuperEnv where
  readonly : Bool
  commitErr : Bool

/-- The super block as the check leaves it, and `SBI_NEED_SB_WRITE`. -/
structure SuperChecked where
  raw : F2fsSuperBlock
  needSbWrite : Bool

variable (env : SuperEnv) (raw : F2fsSuperBlock)

/-! ## The checks -/

/-- The length of an area in blocks. -/
def F2fsSuperBlock.blocks (count : UInt32) : UInt32 := count <<< raw.logBlocksPerSeg

/-- `main_end_blkaddr`, computed in 32 bits. -/
def F2fsSuperBlock.mainEndBlkaddr : UInt64 :=
  (raw.mainBlkaddr + raw.blocks raw.segmentCountMain).toUInt64

/-- `seg_end_blkaddr`, computed in 32 bits. -/
def F2fsSuperBlock.segEndBlkaddr : UInt64 :=
  (raw.segment0Blkaddr + raw.blocks raw.segmentCount).toUInt64

/-- The `segment_count` that ends with the main area. -/
def F2fsSuperBlock.fixedSegmentCount : UInt32 :=
  ((raw.mainEndBlkaddr - raw.segment0Blkaddr.toUInt64) >>> raw.logBlocksPerSeg.toUInt64).toUInt32

/-- `sanity_check_area_boundary`. -/
def sanityCheckAreaBoundary : Except SuperError SuperChecked :=
  if raw.segment0Blkaddr ≠ raw.cpBlkaddr then .error .startAddress
  else if raw.cpBlkaddr + raw.blocks raw.segmentCountCkpt ≠ raw.sitBlkaddr then .error .cpBoundary
  else if raw.sitBlkaddr + raw.blocks raw.segmentCountSit ≠ raw.natBlkaddr then .error .sitBoundary
  else if raw.natBlkaddr + raw.blocks raw.segmentCountNat ≠ raw.ssaBlkaddr then .error .natBoundary
  else if raw.ssaBlkaddr + raw.blocks raw.segmentCountSsa ≠ raw.mainBlkaddr then
    .error .ssaBoundary
  else if raw.mainEndBlkaddr > raw.segEndBlkaddr then .error .mainBoundary
  else if raw.mainEndBlkaddr < raw.segEndBlkaddr then
    -- the in-memory copy is fixed in any case, the one on disk if it can be written
    let fixed := { raw with segmentCount := raw.fixedSegmentCount }
    if env.readonly then .ok ⟨fixed, true⟩
    else if env.commitErr then .error .commit
    else .ok ⟨fixed, false⟩
  else .ok ⟨raw, false⟩

/-- `sanity_check_raw_super`. -/
def sanityCheckRawSuper (pageSize : UInt32) : Except SuperError SuperChecked :=
  if raw.magic ≠ f2fsSuperMagic then .error .magic
  else if f2fsBlksize ≠ pageSize then .error .pageCacheSize
  else if 1 <<< raw.logBlocksize ≠ f2fsBlksize then .error .blocksize
  else if raw.logBlocksPerSeg ≠ 9 then .error .logBlocksPerSeg
  else if raw.logSectorsize > f2fsMaxLogSectorSize ∨ raw.logSectorsize < f2fsMinLogSectorSize then
    .error .logSectorsize
  else if raw.logSectorsPerBlock + raw.logSectorsize ≠ f2fsMaxLogSectorSize then
    .error .logSectorsPerBlock
  else if raw.nodeIno ≠ 1 ∨ raw.metaIno ≠ 2 ∨ raw.rootIno ≠ 3 then .error .metaIno
  else if raw.segmentCount > f2fsMaxSegment then .error .segmentCount
  else sanityCheckAreaBoundary env raw

/-! ## What an accepted super block has -/

/-- What the checks of the areas have found, in words of 32 bits. -/
structure AreasChecked : Prop where
  log_eq : raw.logBlocksPerSeg = 9
  count_le : raw.segmentCount ≤ f2fsMaxSegment
  start_eq : raw.segment0Blkaddr = raw.cpBlkaddr
  sit_eq : raw.cpBlkaddr + raw.blocks raw.segmentCountCkpt = raw.sitBlkaddr
  nat_eq : raw.sitBlkaddr + raw.blocks raw.segmentCountSit = raw.natBlkaddr
  ssa_eq : raw.natBlkaddr + raw.blocks raw.segmentCountNat = raw.ssaBlkaddr
  main_eq : raw.ssaBlkaddr + raw.blocks raw.segmentCountSsa = raw.mainBlkaddr
  end_le : raw.mainEndBlkaddr ≤ raw.segEndBlkaddr

variable {env raw} {pageSize : UInt32} {r : SuperChecked}

theorem sanityCheckAreaBoundary_ok (h : sanityCheckAreaBoundary env raw = .ok r)
    (hlog : raw.logBlocksPerSeg = 9) (hcount : raw.segmentCount ≤ f2fsMaxSegment) :
    AreasChecked raw ∧ r.raw = { raw with segmentCount :=
      if raw.mainEndBlkaddr < raw.segEndBlkaddr then raw.fixedSegmentCount
      else raw.segmentCount } := by
  unfold sanityCheckAreaBoundary at h
  obtain ⟨h1, h⟩ := passed_of_ite h nofun
  obtain ⟨h2, h⟩ := passed_of_ite h nofun
  obtain ⟨h3, h⟩ := passed_of_ite h nofun
  obtain ⟨h4, h⟩ := passed_of_ite h nofun
  obtain ⟨h5, h⟩ := passed_of_ite h nofun
  obtain ⟨h6, h⟩ := passed_of_ite h nofun
  refine ⟨⟨hlog, hcount, not_not.mp h1, not_not.mp h2, not_not.mp h3, not_not.mp h4,
    not_not.mp h5, UInt64.not_lt.mp h6⟩, ?_⟩
  by_cases h7 : raw.mainEndBlkaddr < raw.segEndBlkaddr
  · rw [if_pos h7]
    rw [if_pos h7] at h
    split_ifs at h <;> cases h <;> rfl
  · rw [if_neg h7]
    rw [if_neg h7] at h
    cases h
    rfl

/-- An accepted super block has passed the checks of the areas; only `segment_count` may
    have been fixed. -/
theorem sanityCheckRawSuper_ok (h : sanityCheckRawSuper env raw pageSize = .ok r) :
    AreasChecked raw ∧ r.raw = { raw with segmentCount :=
      if raw.mainEndBlkaddr < raw.segEndBlkaddr then raw.fixedSegmentCount
      else raw.segmentCount } := by
  unfold sanityCheckRawSuper at h
  obtain ⟨-, h⟩ := passed_of_ite h nofun
  obtain ⟨-, h⟩ := passed_of_ite h nofun
  obtain ⟨-, h⟩ := passed_of_ite h nofun
  obtain ⟨hlog, h⟩ := passed_of_ite h nofun
  obtain ⟨-, h⟩ := passed_of_ite h nofun
  obtain ⟨-, h⟩ := passed_of_ite h nofun
  obtain ⟨-, h⟩ := passed_of_ite h nofun
  obtain ⟨hcount, h⟩ := passed_of_ite h nofun
  exact sanityCheckAreaBoundary_ok h (not_not.mp hlog) (UInt32.not_lt.mp hcount)

/-! ## The exact areas -/

/-- An area of the volume, in exact blocks. -/
structure Area where
  start : Nat
  blocks : Nat

/-- The first block behind the area. -/
def Area.stop (a : Area) : Nat := a.start + a.blocks

section

variable (raw : F2fsSuperBlock)

def F2fsSuperBlock.cpArea : Area :=
  ⟨raw.cpBlkaddr.toNat, raw.segmentCountCkpt.toNat * blocksPerSeg⟩

def F2fsSuperBlock.sitArea : Area :=
  ⟨raw.sitBlkaddr.toNat, raw.segmentCountSit.toNat * blocksPerSeg⟩

def F2fsSuperBlock.natArea : Area :=
  ⟨raw.natBlkaddr.toNat, raw.segmentCountNat.toNat * blocksPerSeg⟩

def F2fsSuperBlock.ssaArea : Area :=
  ⟨raw.ssaBlkaddr.toNat, raw.segmentCountSsa.toNat * blocksPerSeg⟩

def F2fsSuperBlock.mainArea : Area :=
  ⟨raw.mainBlkaddr.toNat, raw.segmentCountMain.toNat * blocksPerSeg⟩

/-- All segments of the volume. -/
def F2fsSuperBlock.volume : Area :=
  ⟨raw.segment0Blkaddr.toNat, raw.segmentCount.toNat * blocksPerSeg⟩

/-- The areas follow one another from the start of the volume on, and end inside it. -/
structure AreasSound : Prop where
  cp : raw.cpArea.start = raw.volume.start
  sit : raw.sitArea.start = raw.cpArea.stop
  nat : raw.natArea.start = raw.sitArea.stop
  ssa : raw.ssaArea.start = raw.natArea.stop
  main : raw.mainArea.start = raw.ssaArea.stop
  inside : raw.mainArea.stop ≤ raw.volume.stop

/-- The blocks before the main area. -/
def F2fsSuperBlock.metaBlocks : Nat :=
  (raw.segmentCountCkpt.toNat + raw.segmentCountSit.toNat + raw.segmentCountNat.toNat +
    raw.segmentCountSsa.toNat) * blocksPerSeg

/-- The exact end of the main area, if the areas follow one another. -/
def F2fsSuperBlock.exactEnd : Nat :=
  raw.segment0Blkaddr.toNat + raw.metaBlocks + raw.segmentCountMain.toNat * blocksPerSeg

/-- Nothing wraps before the main area, and its end passes `2 ^ 32` no more often than the
    end of the volume. -/
def NoWrap : Prop :=
  raw.segment0Blkaddr.toNat + raw.metaBlocks < 2 ^ 32 ∧
    raw.exactEnd / 2 ^ 32 ≤ raw.volume.stop / 2 ^ 32

end

/-! ## Words and exact numbers -/

theorem blocks_toNat (hlog : raw.logBlocksPerSeg = 9) (count : UInt32) :
    (raw.blocks count).toNat = count.toNat * blocksPerSeg % 2 ^ 32 := by
  rw [F2fsSuperBlock.blocks, hlog, UInt32.toNat_shiftLeft, Nat.shiftLeft_eq]
  rfl

/-- An area boundary in words, read as numbers. -/
theorem boundary_toNat (hlog : raw.logBlocksPerSeg = 9) {start count stop : UInt32}
    (h : start + raw.blocks count = stop) :
    stop.toNat = (start.toNat + count.toNat * blocksPerSeg) % 2 ^ 32 := by
  rw [← h, UInt32.toNat_add, blocks_toNat hlog, Nat.add_mod_mod]

theorem mainEndBlkaddr_toNat (hlog : raw.logBlocksPerSeg = 9) :
    raw.mainEndBlkaddr.toNat =
      (raw.mainBlkaddr.toNat + raw.segmentCountMain.toNat * blocksPerSeg) % 2 ^ 32 := by
  rw [F2fsSuperBlock.mainEndBlkaddr, UInt32.toNat_toUInt64]
  exact boundary_toNat hlog rfl

theorem segEndBlkaddr_toNat (hlog : raw.logBlocksPerSeg = 9) :
    raw.segEndBlkaddr.toNat =
      (raw.segment0Blkaddr.toNat + raw.segmentCount.toNat * blocksPerSeg) % 2 ^ 32 := by
  rw [F2fsSuperBlock.segEndBlkaddr, UInt32.toNat_toUInt64]
  exact boundary_toNat hlog rfl

theorem fixedSegmentCount_toNat (hlog : raw.logBlocksPerSeg = 9) :
    raw.fixedSegmentCount.toNat =
      (2 ^ 64 - raw.segment0Blkaddr.toNat + raw.mainEndBlkaddr.toNat) % 2 ^ 64 / blocksPerSeg %
        2 ^ 32 := by
  rw [F2fsSuperBlock.fixedSegmentCount, hlog, UInt64.toNat_toUInt32, UInt64.toNat_shiftRight,
    UInt64.toNat_sub, UInt32.toNat_toUInt64, Nat.shiftRight_eq_div_pow]
  rfl

/-- The areas before the main area are where they should be exactly if nothing wraps. -/
theorem AreasChecked.chain_iff (h : AreasChecked raw) :
    (raw.cpArea.start = raw.volume.start ∧ raw.sitArea.start = raw.cpArea.stop ∧
      raw.natArea.start = raw.sitArea.stop ∧ raw.ssaArea.start = raw.natArea.stop ∧
      raw.mainArea.start = raw.ssaArea.stop) ↔
      raw.segment0Blkaddr.toNat + raw.metaBlocks < 2 ^ 32 := by
  have hstart := congrArg UInt32.toNat h.start_eq
  have hsit := boundary_toNat h.log_eq h.sit_eq
  have hnat := boundary_toNat h.log_eq h.nat_eq
  have hssa := boundary_toNat h.log_eq h.ssa_eq
  have hmain := boundary_toNat h.log_eq h.main_eq
  have hlt := raw.mainBlkaddr.toNat_lt
  simp only [F2fsSuperBlock.cpArea, F2fsSuperBlock.sitArea, F2fsSuperBlock.natArea,
    F2fsSuperBlock.ssaArea, F2fsSuperBlock.mainArea, F2fsSuperBlock.volume, Area.stop,
    F2fsSuperBlock.metaBlocks]
  unfold blocksPerSeg at *
  constructor
  · rintro ⟨-, h2, h3, h4, h5⟩
    clear hsit hnat hssa hmain
    omega
  · intro hfit
    rw [Nat.mod_eq_of_lt (by omega)] at hsit
    rw [Nat.mod_eq_of_lt (by omega)] at hnat
    rw [Nat.mod_eq_of_lt (by omega)] at hssa
    rw [Nat.mod_eq_of_lt (by omega)] at hmain
    exact ⟨hstart.symm, hsit, hnat, hssa, hmain⟩

/-- Where nothing wraps before it, the main area ends inside the volume exactly if its end
    passes `2 ^ 32` no more often. -/
theorem AreasChecked.inside_iff (h : AreasChecked raw)
    (hmain : raw.mainBlkaddr.toNat = raw.segment0Blkaddr.toNat + raw.metaBlocks) :
    raw.mainArea.stop ≤ raw.volume.stop ↔
      raw.exactEnd / 2 ^ 32 ≤ raw.volume.stop / 2 ^ 32 := by
  have hend := UInt64.le_iff_toNat_le.mp h.end_le
  rw [mainEndBlkaddr_toNat h.log_eq, segEndBlkaddr_toNat h.log_eq, hmain] at hend
  have hexact : raw.mainArea.stop = raw.exactEnd := by
    rw [Area.stop, F2fsSuperBlock.mainArea, hmain, F2fsSuperBlock.exactEnd]
  have hvolume : raw.volume.stop =
      raw.segment0Blkaddr.toNat + raw.segmentCount.toNat * blocksPerSeg := rfl
  rw [← F2fsSuperBlock.exactEnd, ← hvolume] at hend
  rw [hexact]
  omega

/-- The arithmetic of `fixed_inside`: `m` segments from `s0` on, a volume of `n`. -/
theorem fixed_segments {s0 m n : Nat} (hn : n ≤ 2 ^ 23) (hs0 : s0 < 2 ^ 32)
    (hwrap : (s0 + m * 512) / 2 ^ 32 ≤ (s0 + n * 512) / 2 ^ 32)
    (hlt : (s0 + m * 512) % 2 ^ 32 < (s0 + n * 512) % 2 ^ 32) :
    m ≤ (2 ^ 64 - s0 + (s0 + m * 512) % 2 ^ 32) % 2 ^ 64 / 512 % 2 ^ 32 := by
  have hq : (s0 + n * 512) / 2 ^ 32 < 2 := by
    rw [Nat.div_lt_iff_lt_mul (by decide)]
    omega
  rcases Nat.lt_or_ge (s0 + m * 512) (2 ^ 32) with h | h
  · rw [Nat.mod_eq_of_lt h]
    omega
  · have hmod : (s0 + m * 512) % 2 ^ 32 = s0 + m * 512 - 2 ^ 32 := by omega
    rw [hmod]
    omega

/-- The `segment_count` that the check writes still has room for the main area. -/
theorem AreasChecked.fixed_inside (h : AreasChecked raw)
    (hmain : raw.mainBlkaddr.toNat = raw.segment0Blkaddr.toNat + raw.metaBlocks)
    (hwrap : raw.exactEnd / 2 ^ 32 ≤ raw.volume.stop / 2 ^ 32)
    (hlt : raw.mainEndBlkaddr < raw.segEndBlkaddr) :
    raw.mainArea.stop ≤
      raw.segment0Blkaddr.toNat + raw.fixedSegmentCount.toNat * blocksPerSeg := by
  have hlt' := UInt64.lt_iff_toNat_lt.mp hlt
  have hcount := UInt32.le_iff_toNat_le.mp h.count_le
  rw [show f2fsMaxSegment.toNat = 2 ^ 23 by decide] at hcount
  rw [mainEndBlkaddr_toNat h.log_eq, segEndBlkaddr_toNat h.log_eq, hmain] at hlt'
  set m := raw.segmentCountCkpt.toNat + raw.segmentCountSit.toNat + raw.segmentCountNat.toNat +
    raw.segmentCountSsa.toNat + raw.segmentCountMain.toNat with hm
  have hexact : raw.segment0Blkaddr.toNat + raw.metaBlocks +
      raw.segmentCountMain.toNat * blocksPerSeg = raw.segment0Blkaddr.toNat + m * 512 := by
    rw [F2fsSuperBlock.metaBlocks, hm, blocksPerSeg]
    ring
  have hstop : raw.mainArea.stop = raw.segment0Blkaddr.toNat + m * 512 := by
    rw [← hexact, Area.stop, F2fsSuperBlock.mainArea, hmain]
  rw [F2fsSuperBlock.exactEnd, hexact] at hwrap
  rw [hexact] at hlt'
  have h0 := raw.segment0Blkaddr.toNat_lt
  rw [Area.stop, F2fsSuperBlock.volume] at hwrap
  dsimp only at hwrap
  unfold blocksPerSeg at hwrap hlt'
  have hfixed := fixed_segments hcount h0 hwrap hlt'
  rw [hstop, fixedSegmentCount_toNat h.log_eq, mainEndBlkaddr_toNat h.log_eq, hmain, hexact]
  unfold blocksPerSeg
  omega

/-- The areas of an accepted super block, as read and as left by the check, are sound
    exactly if no sum that locates them wraps. -/
theorem areasSound_iff (env : SuperEnv) (raw : F2fsSuperBlock) (pageSize : UInt32)
    (r : SuperChecked) (h : sanityCheckRawSuper env raw pageSize = .ok r) :
    (AreasSound raw ∧ AreasSound r.raw) ↔ NoWrap raw := by
  obtain ⟨hchecked, hraw⟩ := sanityCheckRawSuper_ok h
  have hchain := hchecked.chain_iff
  have hmain : raw.mainArea.start = raw.ssaArea.stop → raw.ssaArea.start = raw.natArea.stop →
      raw.natArea.start = raw.sitArea.stop → raw.sitArea.start = raw.cpArea.stop →
      raw.cpArea.start = raw.volume.start →
      raw.mainBlkaddr.toNat = raw.segment0Blkaddr.toNat + raw.metaBlocks := by
    intro h1 h2 h3 h4 h5
    simp only [Area.stop, F2fsSuperBlock.mainArea, F2fsSuperBlock.ssaArea, F2fsSuperBlock.natArea,
      F2fsSuperBlock.sitArea, F2fsSuperBlock.cpArea, F2fsSuperBlock.volume] at h1 h2 h3 h4 h5
    rw [F2fsSuperBlock.metaBlocks, h1, h2, h3, h4, h5]
    ring
  constructor
  · rintro ⟨hs, -⟩
    refine ⟨hchain.mp ⟨hs.cp, hs.sit, hs.nat, hs.ssa, hs.main⟩, ?_⟩
    exact (hchecked.inside_iff (hmain hs.main hs.ssa hs.nat hs.sit hs.cp)).mp hs.inside
  · rintro ⟨hfit, hwrap⟩
    obtain ⟨hcp, hsit, hnat, hssa, hmainArea⟩ := hchain.mpr hfit
    have hstart := hmain hmainArea hssa hnat hsit hcp
    have hinside := (hchecked.inside_iff hstart).mpr hwrap
    refine ⟨⟨hcp, hsit, hnat, hssa, hmainArea, hinside⟩, ?_⟩
    rw [hraw]
    refine ⟨hcp, hsit, hnat, hssa, hmainArea, ?_⟩
    by_cases hlt : raw.mainEndBlkaddr < raw.segEndBlkaddr
    · simp only [if_pos hlt]
      exact hchecked.fixed_inside hstart hwrap hlt
    · simp only [if_neg hlt]
      exact hinside

/-- A small volume: two segments each for checkpoint, SIT and NAT, one for the SSA. -/
def smallSuper : F2fsSuperBlock where
  magic := f2fsSuperMagic
  logSectorsize := 9
  logSectorsPerBlock := 3
  logBlocksize := 12
  logBlocksPerSeg := 9
  segsPerSec := 1
  secsPerZone := 1
  sectionCount := 9
  segmentCount := 16
  segmentCountCkpt := 2
  segmentCountSit := 2
  segmentCountNat := 2
  segmentCountSsa := 1
  segmentCountMain := 9
  segment0Blkaddr := 512
  cpBlkaddr := 512
  sitBlkaddr := 1536
  natBlkaddr := 2560
  ssaBlkaddr := 3584
  mainBlkaddr := 4096
  rootIno := 3
  nodeIno := 1
  metaIno := 2
  cpPayload := 0

theorem smallSuper_areas :
    (AreasSound smallSuper ∧ AreasSound smallSuper) ↔ NoWrap smallSuper :=
  areasSound_iff ⟨false, false⟩ smallSuper 4096 ⟨smallSuper, false⟩ (by rfl)

/-- With `2 ^ 23` more main segments the end of the main area comes round to the same word. -/
def hugeMain : F2fsSuperBlock :=
  { smallSuper with segmentCountMain := 9 + 0x800000 }

theorem hugeMain_areas : sanityCheckRawSuper ⟨false, false⟩ hugeMain 4096 =
    .ok ⟨hugeMain, false⟩ ∧ ¬AreasSound hugeMain :=
  ⟨by rfl, fun h => absurd h.inside (by decide)⟩

end F2fs.Mount

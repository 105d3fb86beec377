/-
  What the mount takes from an accepted super block and checkpoint: `sanity_check_ckpt`,
  `init_sb_info`, the version bitmaps, and the divisions and array accesses that follow.

  Nothing checks the sizes of sections and zones, of the SIT and NAT areas, or of the two
  bitmaps; `geometryUsable_iff` names what they must satisfy.
-/
import F2fs.Mount.Superblock

namespace F2fs.Mount

/-! ## The checkpoint -/

/-- The fields of `struct f2fs_checkpoint` that the mount reads.  `cur_node_segno` and
    `cur_data_segno`, and the two `blkoff` arrays, are one function of the log. -/
structure F2fsCheckpoint where
  rsvdSegmentCount : UInt32
  overprovSegmentCount : UInt32
  curSegno : CursegType → UInt32
  curBlkoff : CursegType → UInt16
  sitVerBitmapBytesize : UInt32
  natVerBitmapBytesize : UInt32
  errorFlag : Bool

def f2fsMinSegments : UInt32 := 9

/-- `init_sb_info`: the geometry in `struct f2fs_sb_info`. -/
structure SbGeometry where
  blocksize : UInt32
  blocksPerSeg : UInt32
  segsPerSec : UInt32
  secsPerZone : UInt32
  totalSections : UInt32
  totalNodeCount : UInt32

def initSbInfo (raw : F2fsSuperBlock) : SbGeometry where
  blocksize := (1 : UInt32) <<< raw.logBlocksize
  blocksPerSeg := (1 : UInt32) <<< raw.logBlocksPerSeg
  segsPerSec := raw.segsPerSec
  secsPerZone := raw.secsPerZone
  totalSections := raw.sectionCount
  totalNodeCount := raw.segmentCountNat / 2 * ((1 : UInt32) <<< raw.logBlocksPerSeg) * 455

/-- Why a checkpoint is refused. -/
inductive CkptError where
  | metaSegments | layout | curseg (type : CursegType) | cpError
  deriving DecidableEq, Repr

variable (raw : F2fsSuperBlock) (ckpt : F2fsCheckpoint)

/-- `fsmeta` in `sanity_check_ckpt`. -/
def fsMeta : UInt32 :=
  raw.segmentCountCkpt + raw.segmentCountSit + raw.segmentCountNat + ckpt.rsvdSegmentCount +
    raw.segmentCountSsa

/-- The log starts outside the main area or outside a segment. -/
def badCurseg (type : CursegType) : Bool :=
  decide (raw.segmentCountMain ≤ ckpt.curSegno type) ||
    decide ((initSbInfo raw).blocksPerSeg ≤ (ckpt.curBlkoff type).toUInt32)

/-- `sanity_check_ckpt`: the node logs first, then the data logs. -/
def sanityCheckCkpt : Except CkptError Unit :=
  if fsMeta raw ckpt ≥ raw.segmentCount then .error .metaSegments
  else if fsMeta raw ckpt < f2fsMinSegments ∨ ckpt.overprovSegmentCount = 0 ∨
      ckpt.rsvdSegmentCount = 0 then .error .layout
  else match (CursegType.nodeTypes ++ CursegType.dataTypes).find? (badCurseg raw ckpt) with
    | some type => .error (.curseg type)
    | none => if ckpt.errorFlag then .error .cpError else .ok ()

/-! ## The version bitmaps -/

/-- `NAT_BITMAP` and `SIT_BITMAP`. -/
inductive MetaBitmap where
  | nat | sit
  deriving DecidableEq, Repr

/-- `__bitmap_size`, in bytes. -/
def bitmapSize : MetaBitmap → UInt32
  | .nat => ckpt.natVerBitmapBytesize
  | .sit => ckpt.sitVerBitmapBytesize

/-- The offset of `sit_nat_version_bitmap` in `struct f2fs_checkpoint`. -/
def versionBitmapOffset : Int := 192

/-- `__bitmap_ptr`, in bytes from the start of the checkpoint; its `offset` is an `int`. -/
def bitmapPtr : MetaBitmap → Int
  | .nat =>
    if raw.cpPayload > 0 then versionBitmapOffset
    else versionBitmapOffset + ckpt.sitVerBitmapBytesize.toBitVec.toInt
  | .sit =>
    if raw.cpPayload > 0 then f2fsBlksize.toNat else versionBitmapOffset

/-- `cp_blks` of `get_valid_checkpoint`: the blocks `sbi->ckpt` is allocated for. -/
def cpBlks : UInt32 := 1 + raw.cpPayload

/-- The size of `sbi->ckpt` in bytes. -/
def ckptBytes : Nat := (cpBlks raw).toNat * f2fsBlksize.toNat

/-! ## Sizes -/

/-- `nm_i->nat_blocks`. -/
def natBlocks : UInt32 := (raw.segmentCountNat >>> 1) <<< raw.logBlocksPerSeg

/-- `nm_i->max_nid`. -/
def maxNid : UInt32 := 455 * natBlocks raw

/-- `sit_i->sit_blocks`. -/
def sitBlocks : UInt32 := (raw.segmentCountSit >>> 1) <<< raw.logBlocksPerSeg

/-- `MAIN_SEGS`. -/
def mainSegs : Nat := raw.segmentCountMain.toNat

/-- `MAIN_SECS`. -/
def mainSecs : Nat := (initSbInfo raw).totalSections.toNat

/-- `GET_SEC_FROM_SEG`, where it divides by something. -/
def secFromSeg (segno : Nat) : Nat := segno / (initSbInfo raw).segsPerSec.toNat

/-- `GET_SEG_FROM_SEC`. -/
def segFromSec (secno : Nat) : Nat := secno * (initSbInfo raw).segsPerSec.toNat

/-! ## The accesses of the mount -/

/-- The entry count of a journal, and the id (`nid` or `segno`) of each entry. -/
structure CursumJournal where
  count : UInt16
  id : Nat → UInt32

/-- A division, an array access, or a copy out of the checkpoint. -/
inductive Access where
  | div (divisor : Nat)
  | index (i size : Nat)
  | copy (start : Int) (len size : Nat)

/-- It divides by something, and stays inside. -/
def Access.Ok : Access → Prop
  | div divisor => divisor ≠ 0
  | index i size => i < size
  | copy start len size => 0 ≤ start ∧ start + len ≤ size

/-- The divisions and accesses of the mount whose operands come from the super block, the
    checkpoint and the journals. -/
inductive MountAccess (natJ sitJ : CursumJournal) : Access → Prop
  -- `init_node_manager` and `build_sit_info`
  | versionBitmap (flag : MetaBitmap) :
      MountAccess natJ sitJ (.copy (bitmapPtr raw ckpt flag) (bitmapSize ckpt flag).toNat
        (ckptBytes raw))
  -- `build_free_nids`: the NAT block of a nid, from nid 0 again behind the last one
  | natBitmap (nid : Nat) (h : nid < (maxNid raw).toNat ∨ nid = 0) :
      MountAccess natJ sitJ (.index (nid / natEntryPerBlock) ((bitmapSize ckpt .nat).toNat * 8))
  | natBlockBitmap (nid : Nat) (h : nid < (maxNid raw).toNat ∨ nid = 0) :
      MountAccess natJ sitJ (.index (nid / natEntryPerBlock) (natBlocks raw).toNat)
  -- `scan_curseg_cache`
  | natJournal (i : Nat) (h : i < natJ.count.toNat) :
      MountAccess natJ sitJ (.index i natJournalEntries)
  -- `build_sit_entries`: the SIT blocks, then the journal
  | sentry (segno : Nat) (h : segno < mainSegs raw) :
      MountAccess natJ sitJ (.index segno (mainSegs raw))
  | sitBitmap (segno : Nat) (h : segno < mainSegs raw) :
      MountAccess natJ sitJ (.index (segno / sitEntryPerBlock) ((bitmapSize ckpt .sit).toNat * 8))
  | sitBlock (segno : Nat) (h : segno < mainSegs raw) :
      MountAccess natJ sitJ (.index (segno / sitEntryPerBlock) (sitBlocks raw).toNat)
  | sitEntry (segno : Nat) (h : segno < mainSegs raw) :
      MountAccess natJ sitJ (.index (segno % sitEntryPerBlock) sitEntryPerBlock)
  | secOf (segno : Nat) (h : segno < mainSegs raw) :
      MountAccess natJ sitJ (.div (initSbInfo raw).segsPerSec.toNat)
  | secEntry (segno : Nat) (h : segno < mainSegs raw) :
      MountAccess natJ sitJ (.index (secFromSeg raw segno) (mainSecs raw))
  | sitJournal (i : Nat) (h : i < sitJ.count.toNat) :
      MountAccess natJ sitJ (.index i sitJournalEntries)
  | sitJournalSentry (i : Nat) (h : i < sitJ.count.toNat) :
      MountAccess natJ sitJ (.index (sitJ.id i).toNat (mainSegs raw))
  -- `__set_free` in `init_free_segmap`, which looks through the section of the segment
  | freeSection (segno i : Nat) (h : segno < mainSegs raw)
      (lo : segFromSec raw (secFromSeg raw segno) ≤ i)
      (hi : i < u32 (segFromSec raw (secFromSeg raw segno) + (initSbInfo raw).segsPerSec.toNat)) :
      MountAccess natJ sitJ (.index i (mainSegs raw))
  -- `build_segment_manager`, for `min_ssr_sections`
  | reservedSections : MountAccess natJ sitJ (.div (initSbInfo raw).segsPerSec.toNat)
  -- `reset_curseg` and `__set_test_and_inuse` for the logs
  | curseg (type : CursegType) :
      MountAccess natJ sitJ (.index (ckpt.curSegno type).toNat (mainSegs raw))
  | cursegSec (type : CursegType) :
      MountAccess natJ sitJ (.index (secFromSeg raw (ckpt.curSegno type).toNat) (mainSecs raw))
  | cursegZone (type : CursegType) :
      MountAccess natJ sitJ (.div (initSbInfo raw).secsPerZone.toNat)
  | blkoff (type : CursegType) :
      MountAccess natJ sitJ (.index (ckpt.curBlkoff type).toNat blocksPerSeg)
  -- `init_min_max_mtime`: whole sections
  | sectionMtime (secno i : Nat) (h : segFromSec raw secno < mainSegs raw)
      (hi : i < (initSbInfo raw).segsPerSec.toNat) :
      MountAccess natJ sitJ (.index (u32 (segFromSec raw secno + i)) (mainSegs raw))

/-- The geometry can be used: no macro divides by zero, every main segment has a section, the
    version bitmaps describe their areas and lie in the checkpoint, the logs are in range, and
    every access of the mount is. -/
structure GeometryUsable (natJ sitJ : CursumJournal) : Prop where
  segsPerSec_ne : (initSbInfo raw).segsPerSec ≠ 0
  secsPerZone_ne : (initSbInfo raw).secsPerZone ≠ 0
  section_lt : ∀ segno < mainSegs raw, secFromSeg raw segno < mainSecs raw
  natBits : (natBlocks raw).toNat ≤ (bitmapSize ckpt .nat).toNat * 8
  sitBits : (sitBlocks raw).toNat ≤ (bitmapSize ckpt .sit).toNat * 8
  inside : ∀ flag, 0 ≤ bitmapPtr raw ckpt flag ∧
    bitmapPtr raw ckpt flag + (bitmapSize ckpt flag).toNat ≤ ckptBytes raw
  curseg_lt : ∀ type, ckpt.curSegno type < raw.segmentCountMain
  blkoff_lt : ∀ type, (ckpt.curBlkoff type).toNat < blocksPerSeg
  accesses : ∀ a, MountAccess raw ckpt natJ sitJ a → a.Ok

/-- What nothing checks. -/
structure FieldsFit (natJ sitJ : CursumJournal) : Prop where
  segsPerSec_pos : 0 < raw.segsPerSec.toNat
  secsPerZone_pos : 0 < raw.secsPerZone.toNat
  wholeSections : raw.segsPerSec.toNat ∣ raw.segmentCountMain.toNat
  sections_ge : raw.segmentCountMain.toNat ≤ raw.sectionCount.toNat * raw.segsPerSec.toNat
  nat_pos : 0 < (natBlocks raw).toNat
  nat_le : (natBlocks raw).toNat ≤ ckpt.natVerBitmapBytesize.toNat * 8
  sit_ge : raw.segmentCountMain.toNat ≤ (sitBlocks raw).toNat * sitEntryPerBlock
  sit_le : (sitBlocks raw).toNat ≤ ckpt.sitVerBitmapBytesize.toNat * 8
  noPayload : raw.cpPayload = 0 →
    192 + ckpt.sitVerBitmapBytesize.toNat + ckpt.natVerBitmapBytesize.toNat ≤ 4096
  payload : raw.cpPayload ≠ 0 → raw.cpPayload.toNat < 2 ^ 32 - 1 ∧
    192 + ckpt.natVerBitmapBytesize.toNat ≤ 4096 * (1 + raw.cpPayload.toNat) ∧
    ckpt.sitVerBitmapBytesize.toNat ≤ 4096 * raw.cpPayload.toNat
  natJournal : natJ.count.toNat ≤ natJournalEntries
  sitJournal : sitJ.count.toNat ≤ sitJournalEntries
  sitJournalMain : ∀ i < sitJ.count.toNat, sitJ.id i < raw.segmentCountMain

variable {raw ckpt} {natJ sitJ : CursumJournal}

/-! ## What the checks give -/

theorem badCurseg_false {type : CursegType} (hlog : raw.logBlocksPerSeg = 9)
    (h : badCurseg raw ckpt type = false) :
    ckpt.curSegno type < raw.segmentCountMain ∧ (ckpt.curBlkoff type).toNat < blocksPerSeg := by
  rw [badCurseg, Bool.or_eq_false_iff, decide_eq_false_iff_not, decide_eq_false_iff_not,
    UInt32.not_le, UInt32.not_le, UInt32.lt_iff_toNat_lt (a := (ckpt.curBlkoff type).toUInt32),
    initSbInfo, hlog, UInt16.toNat_toUInt32] at h
  exact h

/-- Of an accepted checkpoint the logs are in range. -/
theorem sanityCheckCkpt_ok (hlog : raw.logBlocksPerSeg = 9)
    (h : sanityCheckCkpt raw ckpt = .ok ()) (type : CursegType) :
    ckpt.curSegno type < raw.segmentCountMain ∧ (ckpt.curBlkoff type).toNat < blocksPerSeg := by
  unfold sanityCheckCkpt at h
  by_cases h1 : fsMeta raw ckpt ≥ raw.segmentCount
  · rw [if_pos h1] at h
    cases h
  rw [if_neg h1] at h
  split at h
  · cases h
  cases hfind : (CursegType.nodeTypes ++ CursegType.dataTypes).find? (badCurseg raw ckpt) with
  | some t =>
    rw [hfind] at h
    cases h
  | none =>
    have hin : type ∈ CursegType.nodeTypes ++ CursegType.dataTypes := by cases type <;> decide
    exact badCurseg_false hlog (eq_false_of_ne_true (List.find?_eq_none.mp hfind type hin))

theorem mainSegs_pos (hlog : raw.logBlocksPerSeg = 9) (h : sanityCheckCkpt raw ckpt = .ok ()) :
    0 < mainSegs raw :=
  Nat.zero_lt_of_lt (UInt32.lt_iff_toNat_lt.mp (sanityCheckCkpt_ok hlog h .hotData).1)

/-! ## The version bitmaps -/

theorem ckptBytes_eq : ckptBytes raw = (1 + raw.cpPayload.toNat) % 2 ^ 32 * 4096 := by
  rw [ckptBytes, cpBlks, UInt32.toNat_add]
  rfl

theorem payload_pos_iff : raw.cpPayload > 0 ↔ raw.cpPayload ≠ 0 := by
  rw [gt_iff_lt, UInt32.lt_iff_toNat_lt, ne_eq, ← UInt32.toNat_inj]
  exact Nat.pos_iff_ne_zero

/-- Both bitmaps lie in the checkpoint exactly if their sizes fit. -/
theorem inside_iff : (∀ flag, 0 ≤ bitmapPtr raw ckpt flag ∧
      bitmapPtr raw ckpt flag + (bitmapSize ckpt flag).toNat ≤ ckptBytes raw) ↔
    (raw.cpPayload = 0 →
      192 + ckpt.sitVerBitmapBytesize.toNat + ckpt.natVerBitmapBytesize.toNat ≤ 4096) ∧
    (raw.cpPayload ≠ 0 → raw.cpPayload.toNat < 2 ^ 32 - 1 ∧
      192 + ckpt.natVerBitmapBytesize.toNat ≤ 4096 * (1 + raw.cpPayload.toNat) ∧
      ckpt.sitVerBitmapBytesize.toNat ≤ 4096 * raw.cpPayload.toNat) := by
  have hall : ∀ P : MetaBitmap → Prop, (∀ flag, P flag) ↔ P .nat ∧ P .sit :=
    fun P => ⟨fun h => ⟨h _, h _⟩, fun h flag => by cases flag <;> [exact h.1; exact h.2]⟩
  have hsit := ckpt.sitVerBitmapBytesize.toNat_lt
  rw [hall, ckptBytes_eq]
  by_cases hp : raw.cpPayload = 0
  · have hno : ¬(0 : UInt32) > 0 := by decide
    simp only [bitmapPtr, bitmapSize, hp, if_neg hno, versionBitmapOffset,
      BitVec.toInt_eq_toNat_cond,
      UInt32.toNat_toBitVec, ne_eq, not_true_eq_false, false_imp_iff, and_true, true_imp_iff,
      UInt32.toNat_zero]
    by_cases hneg : 2 * ckpt.sitVerBitmapBytesize.toNat < 2 ^ 32
    · simp only [if_pos hneg]
      omega
    · simp only [if_neg hneg]
      omega
  · have hlt := raw.cpPayload.toNat_lt
    simp only [bitmapPtr, bitmapSize, if_pos (payload_pos_iff.mpr hp), versionBitmapOffset,
      show f2fsBlksize.toNat = 4096 from rfl, hp, ne_eq, not_false_eq_true, false_imp_iff,
      true_and, true_imp_iff]
    omega

/-! ## Sections -/

theorem secFromSeg_lt_iff (hpos : 0 < raw.segsPerSec.toNat) {segno n : Nat} :
    secFromSeg raw segno < n ↔ segno < n * raw.segsPerSec.toNat :=
  Nat.div_lt_iff_lt_mul hpos

theorem segFromSec_le (segno : Nat) : segFromSec raw (secFromSeg raw segno) ≤ segno :=
  Nat.div_mul_le_self _ _

/-- Where a section is cut off by the end of the main area, the walk over it leaves the
    area. -/
theorem wholeSections_of_accesses
    (h : ∀ a, MountAccess raw ckpt natJ sitJ a → a.Ok) (hpos : 0 < raw.segsPerSec.toNat) :
    raw.segsPerSec.toNat ∣ raw.segmentCountMain.toNat := by
  by_contra hcut
  set main := raw.segmentCountMain.toNat with hmain
  set sps := raw.segsPerSec.toNat with hsps
  have hmod : 0 < main % sps := Nat.pos_of_ne_zero fun h0 => hcut (Nat.dvd_of_mod_eq_zero h0)
  have hdiv := Nat.div_add_mod' main sps
  have hrem := Nat.mod_lt main hpos
  have hlt : main < 2 ^ 32 := raw.segmentCountMain.toNat_lt
  have hstart : segFromSec raw (main / sps) = main / sps * sps := rfl
  have haccess := h _ (MountAccess.sectionMtime (main / sps) (main % sps)
    (by rw [hstart, mainSegs]; omega) hrem)
  rw [hstart, hdiv, u32_of_lt hlt] at haccess
  exact lt_irrefl main haccess

/-- A section that starts in the main area lies in it. -/
theorem section_le (hdvd : raw.segsPerSec.toNat ∣ raw.segmentCountMain.toNat) {secno : Nat}
    (h : segFromSec raw secno < mainSegs raw) :
    segFromSec raw secno + raw.segsPerSec.toNat ≤ mainSegs raw := by
  obtain ⟨k, hk⟩ := hdvd
  have heq : segFromSec raw secno = raw.segsPerSec.toNat * secno := Nat.mul_comm _ _
  rw [heq, mainSegs, hk] at h ⊢
  have hlt : secno < k := Nat.lt_of_mul_lt_mul_left h
  rw [← Nat.mul_succ]
  exact Nat.mul_le_mul_left _ hlt

/-! ## The fields an access needs -/

theorem GeometryUsable.fieldsFit (hmain : 0 < mainSegs raw)
    (h : GeometryUsable raw ckpt natJ sitJ) : FieldsFit raw ckpt natJ sitJ := by
  have hsps : 0 < raw.segsPerSec.toNat :=
    Nat.pos_of_ne_zero fun h0 => h.segsPerSec_ne (UInt32.toNat_inj.mp h0)
  have hpayload := inside_iff.mp h.inside
  exact {
    segsPerSec_pos := hsps
    secsPerZone_pos := Nat.pos_of_ne_zero fun h0 => h.secsPerZone_ne (UInt32.toNat_inj.mp h0)
    wholeSections := wholeSections_of_accesses h.accesses hsps
    sections_ge := by
      have hlast := h.section_lt (mainSegs raw - 1) (by omega)
      rw [secFromSeg_lt_iff hsps] at hlast
      exact Nat.le_of_pred_lt hlast
    nat_pos := h.accesses _ (.natBlockBitmap 0 (.inr rfl))
    nat_le := h.natBits
    sit_ge := by
      have hlast := h.accesses _ (.sitBlock (mainSegs raw - 1) (by omega))
      rw [Access.Ok, Nat.div_lt_iff_lt_mul (by decide)] at hlast
      exact Nat.le_of_pred_lt hlast
    sit_le := h.sitBits
    noPayload := hpayload.1
    payload := hpayload.2
    natJournal := by
      by_contra hmore
      exact lt_irrefl _ (h.accesses _ (.natJournal natJournalEntries (not_le.mp hmore)))
    sitJournal := by
      by_contra hmore
      exact lt_irrefl _ (h.accesses _ (.sitJournal sitJournalEntries (not_le.mp hmore)))
    sitJournalMain := fun i hi =>
      UInt32.lt_iff_toNat_lt.mpr (h.accesses _ (.sitJournalSentry i hi)) }

theorem FieldsFit.section_lt (h : FieldsFit raw ckpt natJ sitJ) {segno : Nat}
    (hseg : segno < mainSegs raw) : secFromSeg raw segno < mainSecs raw := by
  rw [secFromSeg_lt_iff h.segsPerSec_pos]
  exact lt_of_lt_of_le hseg h.sections_ge

/-- The NAT block of a nid that `build_free_nids` comes by. -/
theorem FieldsFit.natBlock_lt (h : FieldsFit raw ckpt natJ sitJ) {nid : Nat}
    (hnid : nid < (maxNid raw).toNat ∨ nid = 0) :
    nid / natEntryPerBlock < (natBlocks raw).toNat := by
  rw [Nat.div_lt_iff_lt_mul (by decide)]
  have hle : (maxNid raw).toNat ≤ (natBlocks raw).toNat * natEntryPerBlock := by
    rw [maxNid, UInt32.toNat_mul, Nat.mul_comm]
    exact Nat.mod_le _ _
  have hpos : 0 < (natBlocks raw).toNat * natEntryPerBlock :=
    Nat.mul_pos h.nat_pos (by decide)
  rcases hnid with hlt | rfl
  · exact lt_of_lt_of_le hlt hle
  · exact hpos

theorem FieldsFit.sitBlock_lt (h : FieldsFit raw ckpt natJ sitJ) {segno : Nat}
    (hseg : segno < mainSegs raw) : segno / sitEntryPerBlock < (sitBlocks raw).toNat := by
  rw [Nat.div_lt_iff_lt_mul (by decide)]
  exact lt_of_lt_of_le hseg h.sit_ge

theorem FieldsFit.access_ok (h : FieldsFit raw ckpt natJ sitJ)
    (hlogs : ∀ type, ckpt.curSegno type < raw.segmentCountMain ∧
      (ckpt.curBlkoff type).toNat < blocksPerSeg)
    {a : Access} (ha : MountAccess raw ckpt natJ sitJ a) : a.Ok := by
  have hsection : ∀ {secno}, segFromSec raw secno < mainSegs raw →
      segFromSec raw secno + raw.segsPerSec.toNat ≤ mainSegs raw ∧
        segFromSec raw secno + raw.segsPerSec.toNat < 2 ^ 32 := fun hlt =>
    have hle := section_le h.wholeSections hlt
    ⟨hle, lt_of_le_of_lt hle raw.segmentCountMain.toNat_lt⟩
  cases ha with
  | versionBitmap flag => exact inside_iff.mpr ⟨h.noPayload, h.payload⟩ flag
  | natBitmap nid hnid => exact lt_of_lt_of_le (h.natBlock_lt hnid) h.nat_le
  | natBlockBitmap nid hnid => exact h.natBlock_lt hnid
  | natJournal i hi => exact lt_of_lt_of_le hi h.natJournal
  | sentry segno hseg => exact hseg
  | sitBitmap segno hseg => exact lt_of_lt_of_le (h.sitBlock_lt hseg) h.sit_le
  | sitBlock segno hseg => exact h.sitBlock_lt hseg
  | sitEntry segno hseg => exact Nat.mod_lt _ (by decide)
  | secOf segno hseg => exact Nat.ne_of_gt h.segsPerSec_pos
  | secEntry segno hseg => exact h.section_lt hseg
  | sitJournal i hi => exact lt_of_lt_of_le hi h.sitJournal
  | sitJournalSentry i hi => exact UInt32.lt_iff_toNat_lt.mp (h.sitJournalMain i hi)
  | freeSection segno i hseg lo hi =>
    obtain ⟨hle, hlt⟩ := hsection (lt_of_le_of_lt (segFromSec_le segno) hseg)
    exact lt_of_lt_of_le (lt_of_lt_of_eq hi (u32_of_lt hlt)) hle
  | reservedSections => exact Nat.ne_of_gt h.segsPerSec_pos
  | curseg type => exact UInt32.lt_iff_toNat_lt.mp (hlogs type).1
  | cursegSec type => exact h.section_lt (UInt32.lt_iff_toNat_lt.mp (hlogs type).1)
  | cursegZone type => exact Nat.ne_of_gt h.secsPerZone_pos
  | blkoff type => exact (hlogs type).2
  | sectionMtime secno i hstart hi =>
    obtain ⟨hle, hlt⟩ := hsection hstart
    have hi' : segFromSec raw secno + i < segFromSec raw secno + raw.segsPerSec.toNat :=
      Nat.add_lt_add_left hi _
    rw [u32_of_lt (hi'.trans hlt)]
    exact lt_of_lt_of_le hi' hle

/-- A checkpoint of the small volume, its logs in the first six main segments. -/
def smallCkpt : F2fsCheckpoint where
  rsvdSegmentCount := 2
  overprovSegmentCount := 3
  curSegno type := UInt32.ofNat type.idx
  curBlkoff := fun _ => 0
  sitVerBitmapBytesize := 64
  natVerBitmapBytesize := 64
  errorFlag := false

def noJournal : CursumJournal := ⟨0, fun _ => 0⟩

end F2fs.Mount

/-
  The segment information table: `struct seg_entry`, its on-disk form, the counters
  of `struct sit_info`, and the functions that change them.

  The model is of the build without `CONFIG_F2FS_CHECK_FS`: there are no mirror
  bitmaps, `f2fs_bug_on` only warns, and `check_block_count` compares the block
  count of a record with the segment size but not with its bitmap.

  The bit-fields of `seg_entry` keep their widths.  The counters `written_valid_blocks`,
  `discard_blks`, `dirty_sentries` and the section counts are `Int`: an underflow
  would show as a negative number.
-/
import F2fs.Basic
import F2fs.Lib.JournalArray

namespace F2fs.Segment

/-! ## Geometry -/

def nullSegno : Nat := 2 ^ 32 - 1

/-- The geometry and the mount options the segment manager reads.  The `Prop` fields
    are how `mkfs` lays out a volume. -/
structure SmInfo where
  seg0Blkaddr : Nat
  mainBlkaddr : Nat
  ssaBlkaddr : Nat
  sitBaseAddr : Nat
  sitBlocks : Nat
  startSegno : Nat
  mainSegments : Nat
  segmentCount : Nat
  segsPerSec : Nat
  secsPerZone : Nat
  totalSections : Nat
  discardEn : Bool
  discardOpt : Bool
  lfsOpt : Bool
  noheapOpt : Bool
  mainBlkaddr_pos : 0 < mainBlkaddr
  mainBlkaddr_eq : mainBlkaddr = seg0Blkaddr + startSegno * blocksPerSeg
  mainEnd_le : mainBlkaddr + mainSegments * blocksPerSeg ≤ newAddr
  segmentCount_ge : startSegno + mainSegments ≤ segmentCount
  segsPerSec_pos : 0 < segsPerSec
  secsPerZone_pos : 0 < secsPerZone
  sections_eq : totalSections * segsPerSec = mainSegments
  sitBlocks_ge : mainSegments ≤ sitBlocks * sitEntryPerBlock

instance : NeZero blocksPerSeg := ⟨by decide⟩

variable (sm : SmInfo)

/-- `START_BLOCK`. -/
def startBlock (segno : Nat) : Nat := sm.seg0Blkaddr + (segno + sm.startSegno) * blocksPerSeg

/-- `GET_SEGNO`. -/
def getSegno (addr : Nat) : Nat :=
  if addr = nullAddr ∨ addr = newAddr then nullSegno
  else (addr - sm.seg0Blkaddr) / blocksPerSeg - sm.startSegno

/-- `GET_BLKOFF_FROM_SEG0`. -/
def getBlkoff (addr : Nat) : Fin blocksPerSeg := Fin.ofNat blocksPerSeg (addr - sm.seg0Blkaddr)

/-- `GET_SEC_FROM_SEG`. -/
def getSec (segno : Nat) : Nat := segno / sm.segsPerSec

/-- Addresses of blocks in the main area. -/
def InMain (addr : Nat) : Prop :=
  sm.mainBlkaddr ≤ addr ∧ addr < sm.mainBlkaddr + sm.mainSegments * blocksPerSeg

variable {sm}

theorem InMain.ne {addr : Nat} (h : InMain sm addr) : ¬(addr = nullAddr ∨ addr = newAddr) := by
  have h0 := sm.mainBlkaddr_pos
  have h1 := sm.mainEnd_le
  unfold InMain at h
  unfold nullAddr
  omega

theorem getSegno_lt {addr : Nat} (h : InMain sm addr) : getSegno sm addr < sm.mainSegments := by
  have hne := h.ne
  have heq := sm.mainBlkaddr_eq
  obtain ⟨hlo, hhi⟩ := h
  rw [getSegno, if_neg hne]
  unfold blocksPerSeg at *
  omega

/-- An address is its segment's start plus its offset. -/
theorem startBlock_getSegno {addr : Nat} (h : InMain sm addr) :
    startBlock sm (getSegno sm addr) + (getBlkoff sm addr).val = addr := by
  have hne := h.ne
  have heq := sm.mainBlkaddr_eq
  obtain ⟨hlo, hhi⟩ := h
  rw [getSegno, if_neg hne, startBlock, getBlkoff, Fin.val_ofNat]
  unfold blocksPerSeg at *
  omega

theorem inMain_startBlock {segno off : Nat} (hs : segno < sm.mainSegments)
    (ho : off < blocksPerSeg) : InMain sm (startBlock sm segno + off) := by
  have heq := sm.mainBlkaddr_eq
  unfold InMain startBlock
  unfold blocksPerSeg at *
  omega

theorem getSegno_startBlock {segno off : Nat} (hs : segno < sm.mainSegments)
    (ho : off < blocksPerSeg) : getSegno sm (startBlock sm segno + off) = segno := by
  rw [getSegno, if_neg (inMain_startBlock hs ho).ne, startBlock]
  unfold blocksPerSeg at *
  omega

theorem getBlkoff_startBlock {segno off : Nat} (ho : off < blocksPerSeg) :
    (getBlkoff sm (startBlock sm segno + off)).val = off := by
  rw [getBlkoff, Fin.val_ofNat, startBlock]
  unfold blocksPerSeg at *
  omega

theorem getSegno_null : getSegno sm nullAddr = nullSegno := if_pos (Or.inl rfl)

theorem getSegno_new : getSegno sm newAddr = nullSegno := if_pos (Or.inr rfl)

theorem mainSegments_lt_nullSegno (sm : SmInfo) : sm.mainSegments < nullSegno := by
  have h := sm.mainEnd_le
  have h0 := sm.mainBlkaddr_pos
  unfold newAddr blocksPerSeg at h
  unfold nullSegno
  omega

theorem getSegno_ne_null {addr : Nat} (h : InMain sm addr) : getSegno sm addr ≠ nullSegno := by
  have h1 := getSegno_lt h
  have h2 := mainSegments_lt_nullSegno sm
  omega

theorem getSec_lt {segno : Nat} (h : segno < sm.mainSegments) :
    getSec sm segno < sm.totalSections := by
  rw [getSec, Nat.div_lt_iff_lt_mul sm.segsPerSec_pos, sm.sections_eq]
  exact h

/-- A volume of eight main segments. -/
def smallSm : SmInfo where
  seg0Blkaddr := 512
  mainBlkaddr := 5632
  ssaBlkaddr := 5120
  sitBaseAddr := 1536
  sitBlocks := 512
  startSegno := 10
  mainSegments := 8
  segmentCount := 18
  segsPerSec := 1
  secsPerZone := 1
  totalSections := 8
  discardEn := false
  discardOpt := false
  lfsOpt := false
  noheapOpt := false
  mainBlkaddr_pos := by decide
  mainBlkaddr_eq := by decide
  mainEnd_le := by decide
  segmentCount_ge := by decide
  segsPerSec_pos := by decide
  secsPerZone_pos := by decide
  sections_eq := by decide
  sitBlocks_ge := by decide

/-! ## Entries -/

/-- A 512-bit validity map (`SIT_VBLOCK_MAP_SIZE` bytes). -/
abbrev BlockMap := Finset (Fin blocksPerSeg)

/-- The number of valid blocks of a map never exceeds the segment. -/
theorem card_blockMap_le (m : BlockMap) : m.card ≤ blocksPerSeg := by
  simpa using Finset.card_le_univ m

/-- `struct seg_entry`. -/
structure SegEntry where
  type : Fin 64
  validBlocks : Nat
  ckptValidBlocks : Nat
  curValidMap : BlockMap
  ckptValidMap : BlockMap
  discardMap : BlockMap
  mtime : Nat
  deriving DecidableEq

/-- An assignment to one of the 10-bit block counts. -/
def bits10 (n : Int) : Nat := (n % 1024).toNat

/-- `struct f2fs_sit_entry`. -/
structure RawSit where
  vblocks : Nat
  validMap : BlockMap
  mtime : Nat
  deriving DecidableEq

def sitVblocksShift : Nat := 10

/-- `GET_SIT_VBLOCKS`. -/
def RawSit.getVblocks (rs : RawSit) : Nat := rs.vblocks % 2 ^ sitVblocksShift

/-- `GET_SIT_TYPE`. -/
def RawSit.getType (rs : RawSit) : Fin 64 := Fin.ofNat 64 (rs.vblocks >>> sitVblocksShift)

/-- `seg_info_from_raw_sit`. -/
def segInfoFromRawSit (se : SegEntry) (rs : RawSit) : SegEntry :=
  { se with
    validBlocks := rs.getVblocks
    ckptValidBlocks := rs.getVblocks
    curValidMap := rs.validMap
    ckptValidMap := rs.validMap
    type := rs.getType
    mtime := rs.mtime }

/-- `__seg_info_to_raw_sit`. -/
def segInfoToRaw (se : SegEntry) : RawSit where
  vblocks := (se.type.val <<< sitVblocksShift ||| se.validBlocks) % 2 ^ 16
  validMap := se.curValidMap
  mtime := se.mtime

/-- What `seg_info_to_raw_sit` does to the entry, besides storing `__seg_info_to_raw_sit`. -/
def SegEntry.checkpointed (se : SegEntry) : SegEntry :=
  { se with ckptValidMap := se.curValidMap, ckptValidBlocks := se.validBlocks }

/-- The part of an entry that its record holds. -/
def SegEntry.Agrees (se : SegEntry) (rs : RawSit) : Prop :=
  se.validBlocks = rs.getVblocks ∧ se.curValidMap = rs.validMap ∧ se.type = rs.getType ∧
    se.mtime = rs.mtime

instance (se : SegEntry) (rs : RawSit) : Decidable (se.Agrees rs) := by
  unfold SegEntry.Agrees
  infer_instance

/-- Packing the type and the block count into 16 bits loses nothing. -/
theorem getVblocks_segInfoToRaw {se : SegEntry} (h : se.validBlocks ≤ blocksPerSeg) :
    (segInfoToRaw se).getVblocks = se.validBlocks ∧ (segInfoToRaw se).getType = se.type := by
  have hlt : se.validBlocks < 2 ^ 10 := by
    unfold blocksPerSeg at h
    omega
  have ht := se.type.isLt
  have hor : se.type.val <<< 10 ||| se.validBlocks = se.type.val * 2 ^ 10 + se.validBlocks := by
    rw [← Nat.shiftLeft_add_eq_or_of_lt hlt, Nat.shiftLeft_eq]
  have hv : (segInfoToRaw se).vblocks = se.type.val * 2 ^ 10 + se.validBlocks := by
    show (se.type.val <<< 10 ||| se.validBlocks) % 2 ^ 16 = _
    rw [hor]
    omega
  constructor
  · rw [RawSit.getVblocks, hv, sitVblocksShift]
    omega
  · apply Fin.ext
    rw [RawSit.getType, hv, Fin.val_ofNat, sitVblocksShift, Nat.shiftRight_eq_div_pow]
    omega

theorem agrees_segInfoToRaw {se : SegEntry} (h : se.validBlocks ≤ blocksPerSeg) :
    se.Agrees (segInfoToRaw se) := by
  obtain ⟨h1, h2⟩ := getVblocks_segInfoToRaw h
  exact ⟨h1.symm, rfl, h2.symm, rfl⟩

/-- Reading a record back gives an entry that agrees with it. -/
theorem agrees_segInfoFromRawSit (se : SegEntry) (rs : RawSit) :
    (segInfoFromRawSit se rs).Agrees rs := ⟨rfl, rfl, rfl, rfl⟩

@[simp] theorem agrees_checkpointed (se : SegEntry) (rs : RawSit) :
    se.checkpointed.Agrees rs ↔ se.Agrees rs := Iff.rfl

/-! ## `struct sit_info` -/

/-- The in-memory SIT and its counters; `discardBlks` is `sbi->discard_blks`. -/
structure SitInfo where
  sentries : Nat → SegEntry
  secEntries : Nat → Int
  dirtySentriesBitmap : Finset Nat
  dirtySentries : Int
  writtenValidBlocks : Int
  discardBlks : Int
  maxMtime : Nat

/-- `get_valid_blocks`. -/
def getValidBlocks (sm : SmInfo) (sit : SitInfo) (segno : Nat) (useSection : Bool) : Int :=
  if useSection ∧ sm.segsPerSec > 1 then sit.secEntries (getSec sm segno)
  else (sit.sentries segno).validBlocks

/-- Assignment to the entry of a segment. -/
def SitInfo.setSentry (sit : SitInfo) (segno : Nat) (se : SegEntry) : SitInfo :=
  { sit with sentries := Function.update sit.sentries segno se }

/-- `__mark_sit_entry_dirty`, without its result, which is `segno ∈ dirtySentriesBitmap`. -/
def SitInfo.markSitEntryDirty (sit : SitInfo) (segno : Nat) : SitInfo :=
  if segno ∈ sit.dirtySentriesBitmap then sit
  else
    { sit with
      dirtySentriesBitmap := insert segno sit.dirtySentriesBitmap
      dirtySentries := sit.dirtySentries + 1 }

/-- `__set_sit_entry_type`. -/
def SitInfo.setSitEntryType (sit : SitInfo) (type : CursegType) (segno : Nat)
    (modified : Bool) : SitInfo :=
  let sit' := sit.setSentry segno { sit.sentries segno with type := Fin.ofNat 64 type.idx }
  if modified then sit'.markSitEntryDirty segno else sit'

/-- The branch of `update_sit_entry` for `del > 0`: the entry, `del` after the check, and
    what is added to `discard_blks`. -/
def setBlock (sm : SmInfo) (se : SegEntry) (offset : Fin blocksPerSeg) :
    SegEntry × Int × Int :=
  let exist := offset ∈ se.curValidMap
  -- don't overwrite by SSR to keep node chain
  let warm := se.type.val = CursegType.warmNode.idx
  ({ se with
      curValidMap := insert offset se.curValidMap
      -- "Bitmap was wrongly set"
      validBlocks := if exist then bits10 (se.validBlocks - 1) else se.validBlocks
      discardMap := if sm.discardEn then insert offset se.discardMap else se.discardMap
      ckptValidMap := if warm then insert offset se.ckptValidMap else se.ckptValidMap
      ckptValidBlocks :=
        if warm ∧ offset ∉ se.ckptValidMap then bits10 (se.ckptValidBlocks + 1)
        else se.ckptValidBlocks },
    if exist then 0 else 1,
    if sm.discardEn ∧ offset ∉ se.discardMap then -1 else 0)

/-- The branch for `del <= 0`. -/
def clearBlock (sm : SmInfo) (se : SegEntry) (offset : Fin blocksPerSeg) :
    SegEntry × Int × Int :=
  let exist := offset ∈ se.curValidMap
  ({ se with
      curValidMap := se.curValidMap.erase offset
      -- "Bitmap was wrongly cleared"
      validBlocks := if exist then se.validBlocks else bits10 (se.validBlocks + 1)
      discardMap := if sm.discardEn then se.discardMap.erase offset else se.discardMap },
    if exist then -1 else 0,
    if sm.discardEn ∧ offset ∈ se.discardMap then 1 else 0)

/-- What `update_sit_entry` does to the entry; `set` is `del > 0`.  Also the value of `del`
    after the checks, and what is added to `discard_blks`. -/
def SegEntry.update (sm : SmInfo) (now : Nat) (se : SegEntry) (offset : Fin blocksPerSeg)
    (set : Bool) : SegEntry × Int × Int :=
  let newVblocks : Int := se.validBlocks + if set then 1 else -1
  let se := { se with validBlocks := bits10 newVblocks, mtime := now }
  let b := if set then setBlock sm se offset else clearBlock sm se offset
  ({ b.1 with
      ckptValidBlocks :=
        if offset ∈ b.1.ckptValidMap then b.1.ckptValidBlocks
        else bits10 (b.1.ckptValidBlocks + b.2.1) },
    b.2.1, b.2.2)

/-- `update_sit_entry` at the time `now` (`get_mtime`). -/
def SitInfo.updateSitEntry (sm : SmInfo) (now : Nat) (sit : SitInfo) (blkaddr : Nat)
    (set : Bool) : SitInfo :=
  let segno := getSegno sm blkaddr
  let u := (sit.sentries segno).update sm now (getBlkoff sm blkaddr) set
  let sit := { sit.setSentry segno u.1 with
    maxMtime := now
    discardBlks := sit.discardBlks + u.2.2 }
  let sit := sit.markSitEntryDirty segno
  { sit with
    writtenValidBlocks := sit.writtenValidBlocks + u.2.1
    secEntries :=
      if sm.segsPerSec > 1 then
        Function.update sit.secEntries (getSec sm segno)
          (sit.secEntries (getSec sm segno) + u.2.1)
      else sit.secEntries }

/-- Marking one block of `f2fs_issue_discard` as discarded. -/
def SitInfo.discardBlock (sm : SmInfo) (sit : SitInfo) (blkaddr : Nat) : SitInfo :=
  let segno := getSegno sm blkaddr
  let offset := getBlkoff sm blkaddr
  let se := sit.sentries segno
  if offset ∈ se.discardMap then sit
  else
    { sit.setSentry segno { se with discardMap := insert offset se.discardMap } with
      discardBlks := sit.discardBlks - 1 }

/-- The block loop of `f2fs_issue_discard`.  A failing `__issue_discard_async` ends it
    early, as a smaller `blklen` does. -/
def SitInfo.issueDiscard (sm : SmInfo) (sit : SitInfo) (blkstart blklen : Nat) : SitInfo :=
  (List.range' blkstart blklen).foldl (SitInfo.discardBlock sm) sit

/-! ## Mount -/

/-- A SIT block: its entries by position. -/
abbrev SitBlock := Nat → RawSit

/-- The SIT as it is on disk once a checkpoint is complete: the SIT blocks, the version
    bitmap and the journal of the cold data summary. -/
structure SitStore where
  pages : Nat → SitBlock
  sitBitmap : Nat → Bool
  journal : JournalArray RawSit

/-- `SIT_BLOCK_OFFSET`. -/
def sitBlockOffset (segno : Nat) : Nat := segno / sitEntryPerBlock

/-- `current_sit_addr` of the block number `off`, for version bit `bit`. -/
def sitAddr (sm : SmInfo) (off : Nat) (bit : Bool) : Nat :=
  sm.sitBaseAddr + off + if bit then sm.sitBlocks else 0

/-- `current_sit_addr`. -/
def SitStore.currentSitAddr (sm : SmInfo) (st : SitStore) (segno : Nat) : Nat :=
  sitAddr sm (sitBlockOffset segno) (st.sitBitmap (sitBlockOffset segno))

/-- The entry of a segment in the current copy of its SIT block. -/
def SitStore.blockEntry (sm : SmInfo) (st : SitStore) (segno : Nat) : RawSit :=
  st.pages (st.currentSitAddr sm segno) (segno % sitEntryPerBlock)

/-- `check_block_count` returns 0. -/
def checkBlockCount (sm : SmInfo) (segno : Nat) (rs : RawSit) : Bool :=
  !(decide (rs.getVblocks > blocksPerSeg) || decide (segno > sm.segmentCount - 1))

/-- The discard map `build_sit_entries` makes for an entry it has just read. -/
def mountDiscardMap (sm : SmInfo) (trimmed : Bool) (se : SegEntry) : SegEntry :=
  if sm.discardEn then
    { se with discardMap := if trimmed then Finset.univ else se.curValidMap }
  else se

/-- What reading a record changes: the entry, its discard map, and `discard_blks` and the
    section's count by the given amounts. -/
def SitInfo.loadSentry (sm : SmInfo) (trimmed : Bool) (sit : SitInfo) (segno : Nat)
    (rs : RawSit) (discard sec : Int) : SitInfo :=
  { sit.setSentry segno
    (mountDiscardMap sm trimmed (segInfoFromRawSit (sit.sentries segno) rs)) with
    discardBlks := sit.discardBlks + if sm.discardEn ∧ ¬ trimmed then discard else 0
    secEntries :=
      if sm.segsPerSec > 1 then
        Function.update sit.secEntries (getSec sm segno) (sit.secEntries (getSec sm segno) + sec)
      else sit.secEntries }

/-- One segment in the first loop of `build_sit_entries`; `none` is `-EINVAL`. -/
def loadBlockEntry (sm : SmInfo) (trimmed : Bool) (st : SitStore) (sit : SitInfo)
    (start : Nat) : Option SitInfo :=
  let rs := st.blockEntry sm start
  if checkBlockCount sm start rs then
    some (sit.loadSentry sm trimmed start rs ((blocksPerSeg : Int) - rs.getVblocks)
      rs.getVblocks)
  else none

/-- One journal record in the second loop of `build_sit_entries`. -/
def loadJournalEntry (sm : SmInfo) (trimmed : Bool) (st : SitStore) (sit : SitInfo)
    (i : Nat) : Option SitInfo :=
  let start := (st.journal.slot i).1
  let rs := (st.journal.slot i).2
  let oldValidBlocks : Int := (sit.sentries start).validBlocks
  if checkBlockCount sm start rs then
    some (sit.loadSentry sm trimmed start rs (oldValidBlocks - rs.getVblocks)
      (rs.getVblocks - oldValidBlocks))
  else none

def zeroSegEntry : SegEntry where
  type := 0
  validBlocks := 0
  ckptValidBlocks := 0
  curValidMap := ∅
  ckptValidMap := ∅
  discardMap := ∅
  mtime := 0

/-- `sit_info` as `build_sit_info` allocates it. -/
def zeroSitInfo : SitInfo where
  sentries := fun _ => zeroSegEntry
  secEntries := fun _ => 0
  dirtySentriesBitmap := ∅
  dirtySentries := 0
  writtenValidBlocks := 0
  discardBlks := 0
  maxMtime := 0

/-- `build_sit_entries`; `trimmed` is `CP_TRIMMED_FLAG`. -/
def buildSitEntries (sm : SmInfo) (trimmed : Bool) (st : SitStore) : Option SitInfo :=
  ((List.range sm.mainSegments).foldlM (loadBlockEntry sm trimmed st) zeroSitInfo).bind
    fun sit => (List.range st.journal.n).foldlM (loadJournalEntry sm trimmed st) sit

end F2fs.Segment

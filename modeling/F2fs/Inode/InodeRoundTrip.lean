/-
  What `do_read_inode` makes of the block that `update_inode` has written.

  `Writable` is what f2fs keeps true of its inodes in memory: an inode without extra
  attributes has no room for them and none is in use where every inode has to have them; no
  field of the extra attributes is cut off in the middle; inline data that is not said to
  exist is zero, and only files that are no devices have any.  Each clause has an inode that
  breaks it and does not come back (`unwritable_lost`).
-/
import F2fs.Inode.InodeBlock

namespace F2fs.InodeBlock

open Node

/-! ## What is written and comes back -/

/-- The words of inline xattrs, which inline data ends in front of. -/
def storedXattrSize (sb : SuperBlock) (inode : InodeInfo) : Nat :=
  if sb.flexibleInlineXattr then inode.iInlineXattrSize
  else if inode.flags.inlineXattr || inode.flags.inlineDentry then defaultInlineXattrAddrs
  else 0

/-- The inode can be written to the page. -/
structure Writable (sb : SuperBlock) (inode : InodeInfo) (ri : RawInode) : Prop where
  flexible : sb.flexibleInlineXattr = true → inode.flags.extraAttr = true
  plain : inode.flags.extraAttr = false → inode.iExtraIsize = 0
  /-- the extra attributes have room for the two sizes, and for the nanoseconds if they have
      room for the seconds -/
  extra : inode.flags.extraAttr = true → 4 ≤ inode.iExtraIsize ∧
    (sb.inodeCrtime = true → crtimeEnd ≤ inode.iExtraIsize → 24 ≤ inode.iExtraIsize)
  extraIsize_lt : inode.iExtraIsize < 2 ^ 16
  xattrSize_lt : inode.iInlineXattrSize < 2 ^ 16
  sectors : inode.iBlocks.toNat % 8 = 0
  iFlags_lt : inode.iFlags < 2 ^ 32
  nsec_lt : ∀ time ∈ [inode.iAtime, inode.iCtime, inode.iMtime, inode.iCrtime],
    time.tvNsec < 2 ^ 32
  noData : inode.flags.inlineData = true → inode.flags.dataExist = false →
    inode.isDevice = false ∧
      ∀ i ∈ inlineWords inode.iExtraIsize (storedXattrSize sb inode), ri.iAddr i = 0

/-- Everything that is stored has come back. -/
structure Restored (sb : SuperBlock) (env : ReadEnv) (inode inode' : InodeInfo) : Prop where
  iMode : inode'.iMode = inode.iMode
  iUid : inode'.iUid = inode.iUid
  iGid : inode'.iGid = inode.iGid
  iNlink : inode'.iNlink = inode.iNlink
  iSize : inode'.iSize = inode.iSize
  iBlocks : inode'.iBlocks = inode.iBlocks
  iAtime : inode'.iAtime = inode.iAtime
  iCtime : inode'.iCtime = inode.iCtime
  iMtime : inode'.iMtime = inode.iMtime
  iGeneration : inode'.iGeneration = inode.iGeneration
  iCurrentDepth : inode'.iCurrentDepth = inode.iCurrentDepth
  iXattrNid : inode'.iXattrNid = inode.iXattrNid
  iFlags : inode'.iFlags = inode.iFlags
  iAdvise : inode'.iAdvise = inode.iAdvise
  iPino : inode'.iPino = inode.iPino
  iDirLevel : inode'.iDirLevel = inode.iDirLevel
  flags : inode'.flags = inode.flags
  iExtraIsize : inode'.iExtraIsize = inode.iExtraIsize
  iInlineXattrSize : sb.flexibleInlineXattr = true →
    inode'.iInlineXattrSize = inode.iInlineXattrSize
  iRdev : inode.isDevice = true → inode'.iRdev = inode.iRdev
  iProjid : inode.flags.extraAttr = true → sb.projectQuota = true →
    projidEnd ≤ inode.iExtraIsize → inode'.iProjid = inode.iProjid
  iCrtime : inode.flags.extraAttr = true → sb.inodeCrtime = true →
    crtimeEnd ≤ inode.iExtraIsize → inode'.iCrtime = inode.iCrtime
  /-- the extent of a file that may have an extent tree, if a node can be allocated and no
      other tree was kept -/
  iExt : (sb.extentCache && sIsReg inode.iMode) = true → env.alloc = true → env.kept = none →
    ∀ ei, inode.extentTree = some ei → ei.len ≠ 0 → inode'.extentTree = some ei
  /-- an extent of length 0 is none -/
  noExt : (sb.extentCache && sIsReg inode.iMode) = true → env.kept = none →
    (∀ ei, inode.extentTree = some ei → ei.len = 0) → inode'.extentTree = some ⟨0, 0, 0⟩

/-! ## Words -/

theorem getInlineInfo_setRawInline (flags : InlineFlags) :
    getInlineInfo (setRawInline flags) = flags := by
  obtain ⟨b₁, b₂, b₃, b₄, b₅, b₆, b₇⟩ := flags
  revert b₁ b₂ b₃ b₄ b₅ b₆ b₇
  decide +kernel

theorem toNat_ofNat32 {n : Nat} (h : n < 2 ^ 32) : (UInt32.ofNat n).toNat = n :=
  UInt32.toNat_ofNat_of_lt' h

/-- Sectors in blocks and back; the inode block counts as one. -/
theorem sectors_roundTrip {n : UInt64} (h : n.toNat % 8 = 0) : (n / 8 + 1 - 1) * 8 = n := by
  rw [UInt64.add_sub_cancel]
  apply UInt64.toNat_inj.mp
  rw [UInt64.toNat_mul, UInt64.toNat_div]
  have hlt := n.toNat_lt
  have h8 : (8 : UInt64).toNat = 8 := rfl
  rw [h8]
  omega

namespace AddrArea

variable {a : AddrArea} {i j : Nat} {w : UInt32}

theorem set_self (a : AddrArea) (i : Nat) (w : UInt32) : a.set i w i = w := by
  unfold set
  exact Function.update_self i w a

theorem set_ne (a : AddrArea) {i j : Nat} (h : j ≠ i) (w : UInt32) : a.set i w j = a j := by
  rw [set, Function.update_of_ne h]

theorem inlineXattrSize_lt (a : AddrArea) : a.inlineXattrSize < 2 ^ 16 := by
  have hlt := (a 0).toNat_lt
  unfold inlineXattrSize
  omega

theorem extraIsize_lt (a : AddrArea) : a.extraIsize < 2 ^ 16 := Nat.mod_lt _ (by decide)

theorem extraIsize_setExtraIsize {size : Nat} (h : size < 2 ^ 16) :
    (a.setExtraIsize size).extraIsize = size := by
  have hlt := a.inlineXattrSize_lt
  unfold extraIsize setExtraIsize
  rw [set_self, toNat_ofNat32 (by omega)]
  omega

theorem extraIsize_setInlineXattrSize (size : Nat) :
    (a.setInlineXattrSize size).extraIsize = a.extraIsize := by
  have hlt := a.extraIsize_lt
  unfold setInlineXattrSize
  generalize a.extraIsize = e at hlt ⊢
  unfold extraIsize
  rw [set_self, toNat_ofNat32 (by omega)]
  omega

theorem inlineXattrSize_setInlineXattrSize {size : Nat} (h : size < 2 ^ 16) :
    (a.setInlineXattrSize size).inlineXattrSize = size := by
  have hlt := a.extraIsize_lt
  unfold inlineXattrSize setInlineXattrSize
  rw [set_self, toNat_ofNat32 (by omega)]
  omega

theorem crtime_setCrtime {time : Timespec} (h : time.tvNsec < 2 ^ 32) :
    (a.setCrtime time).crtime = time := by
  have hlt := time.tvSec.toUInt64.toNat_lt
  have h5 : a.setCrtime time 5 = UInt32.ofNat time.tvNsec := set_self _ _ _
  have h4 : a.setCrtime time 4 = UInt32.ofNat (time.tvSec.toUInt64.toNat / 2 ^ 32) := by
    unfold setCrtime
    rw [set_ne _ (by decide), set_self]
  have h3 : a.setCrtime time 3 = UInt32.ofNat time.tvSec.toUInt64.toNat := by
    unfold setCrtime
    rw [set_ne _ (by decide), set_ne _ (by decide), set_self]
  have hsec : (UInt32.ofNat (time.tvSec.toUInt64.toNat / 2 ^ 32)).toNat * 2 ^ 32 +
      (UInt32.ofNat time.tvSec.toUInt64.toNat).toNat = time.tvSec.toUInt64.toNat := by
    rw [toNat_ofNat32 (by omega), UInt32.toNat_ofNat']
    omega
  unfold crtime
  rw [h3, h4, h5, hsec, toNat_ofNat32 h, UInt64.ofNat_toNat, Int64.toInt64_toUInt64]

theorem setProjid_ne (a : AddrArea) {j : Nat} (h : j ≠ 1) (projid : UInt32) :
    a.setProjid projid j = a j := set_ne a h projid

theorem setCrtime_ne (a : AddrArea) {j : Nat} (h3 : j ≠ 3) (h4 : j ≠ 4) (h5 : j ≠ 5)
    (time : Timespec) : a.setCrtime time j = a j := by
  unfold setCrtime
  rw [set_ne _ h5, set_ne _ h4, set_ne _ h3]

theorem extraIsize_congr {b : AddrArea} (h : a 0 = b 0) : a.extraIsize = b.extraIsize := by
  rw [extraIsize, extraIsize, h]

theorem inlineXattrSize_congr {b : AddrArea} (h : a 0 = b 0) :
    a.inlineXattrSize = b.inlineXattrSize := by
  rw [inlineXattrSize, inlineXattrSize, h]

theorem crtime_congr {b : AddrArea} (h3 : a 3 = b 3) (h4 : a 4 = b 4) (h5 : a 5 = b 5) :
    a.crtime = b.crtime := by
  rw [crtime, crtime, h3, h4, h5]

end AddrArea

/-! ## The extra attributes -/

section

variable {sb : SuperBlock} {dev : DevCodec} {inode : InodeInfo} {ri : RawInode} {a : AddrArea}

/-- The word of the two sizes. -/
theorem updateExtraAttr_zero : updateExtraAttr sb inode a 0 =
    (if sb.flexibleInlineXattr then
        (a.setExtraIsize inode.iExtraIsize).setInlineXattrSize inode.iInlineXattrSize
      else a.setExtraIsize inode.iExtraIsize) 0 := by
  simp only [updateExtraAttr]
  split
  · rw [AddrArea.setCrtime_ne _ (by decide) (by decide) (by decide)]
    split
    · rw [AddrArea.setProjid_ne _ (by decide)]
    · rfl
  · split
    · rw [AddrArea.setProjid_ne _ (by decide)]
    · rfl

theorem extraIsize_updateExtraAttr (h : inode.iExtraIsize < 2 ^ 16) :
    (updateExtraAttr sb inode a).extraIsize = inode.iExtraIsize := by
  rw [AddrArea.extraIsize_congr updateExtraAttr_zero]
  split
  · rw [AddrArea.extraIsize_setInlineXattrSize, AddrArea.extraIsize_setExtraIsize h]
  · exact AddrArea.extraIsize_setExtraIsize h

theorem inlineXattrSize_updateExtraAttr (hflex : sb.flexibleInlineXattr = true)
    (h : inode.iInlineXattrSize < 2 ^ 16) :
    (updateExtraAttr sb inode a).inlineXattrSize = inode.iInlineXattrSize := by
  rw [AddrArea.inlineXattrSize_congr updateExtraAttr_zero, if_pos hflex]
  exact AddrArea.inlineXattrSize_setInlineXattrSize h

theorem projid_updateExtraAttr (hquota : sb.projectQuota = true)
    (hfits : projidEnd ≤ inode.iExtraIsize) :
    (updateExtraAttr sb inode a).projid = inode.iProjid := by
  have hproj : (sb.projectQuota && fitsInInode inode.iExtraIsize projidEnd) = true := by
    rw [hquota, Bool.true_and]
    exact decide_eq_true hfits
  simp only [updateExtraAttr, AddrArea.projid, if_pos hproj]
  split
  · rw [AddrArea.setCrtime_ne _ (by decide) (by decide) (by decide)]
    exact AddrArea.set_self _ _ _
  · exact AddrArea.set_self _ _ _

theorem crtime_updateExtraAttr (hcrtime : sb.inodeCrtime = true)
    (hfits : crtimeEnd ≤ inode.iExtraIsize) (h : inode.iCrtime.tvNsec < 2 ^ 32) :
    (updateExtraAttr sb inode a).crtime = inode.iCrtime := by
  have htime : (sb.inodeCrtime && fitsInInode inode.iExtraIsize crtimeEnd) = true := by
    rw [hcrtime, Bool.true_and]
    exact decide_eq_true hfits
  simp only [updateExtraAttr, if_pos htime]
  exact AddrArea.crtime_setCrtime h

/-- The extra attributes do not reach beyond the words they have room in. -/
theorem updateExtraAttr_gt {i : Nat} (h : inode.iExtraIsize / 4 < i) :
    updateExtraAttr sb inode a i = a i := by
  have hsize : ∀ b : AddrArea, ∀ size, b.setExtraIsize size i = b i := fun b size =>
    AddrArea.set_ne b (by omega) _
  have hxattr : ∀ b : AddrArea, ∀ size, b.setInlineXattrSize size i = b i := fun b size =>
    AddrArea.set_ne b (by omega) _
  have hproj : ∀ b : AddrArea, (if sb.projectQuota && fitsInInode inode.iExtraIsize projidEnd then
      b.setProjid inode.iProjid else b) i = b i := by
    intro b
    split
    · rename_i hfits
      have hle : projidEnd ≤ inode.iExtraIsize :=
        of_decide_eq_true (Bool.and_eq_true_iff.mp hfits).2
      unfold projidEnd at hle
      exact AddrArea.setProjid_ne b (by omega) _
    · rfl
  have htime : ∀ b : AddrArea, (if sb.inodeCrtime && fitsInInode inode.iExtraIsize crtimeEnd then
      b.setCrtime inode.iCrtime else b) i = b i := by
    intro b
    split
    · rename_i hfits
      have hle : crtimeEnd ≤ inode.iExtraIsize :=
        of_decide_eq_true (Bool.and_eq_true_iff.mp hfits).2
      unfold crtimeEnd at hle
      exact AddrArea.setCrtime_ne b (by omega) (by omega) (by omega) _
    · rfl
  simp only [updateExtraAttr]
  rw [htime, hproj]
  split
  · rw [hxattr, hsize]
  · exact hsize a _

/-! ## The device number -/

/-- The device number lies behind the extra attributes. -/
theorem setInodeRdev_lt {i : Nat} (h : i < inode.getExtraIsize) :
    setInodeRdev dev inode a i = a i := by
  simp only [setInodeRdev]
  split
  · split
    · rw [AddrArea.set_ne _ (by omega), AddrArea.set_ne _ (by omega)]
    · rw [AddrArea.set_ne _ (by omega), AddrArea.set_ne _ (by omega), AddrArea.set_ne _ (by omega)]
  · rfl

theorem setInodeRdev_other (h : inode.isDevice = false) : setInodeRdev dev inode a = a := by
  simp [setInodeRdev, h]

/-- The number is found again, whichever form it has. -/
theorem getInodeRdev_setInodeRdev (h : inode.isDevice = true) (rdev : UInt32) :
    getInodeRdev dev inode.iMode inode.iExtraIsize rdev (setInodeRdev dev inode a) =
      inode.iRdev := by
  have hkind : (sIsChr inode.iMode || sIsBlk inode.iMode || sIsFifo inode.iMode ||
      sIsSock inode.iMode) = true := by
    have hdev : (sIsChr inode.iMode || sIsBlk inode.iMode) = true := h
    rw [hdev]
    rfl
  have hslot : inode.iExtraIsize / 4 = inode.getExtraIsize := rfl
  rw [getInodeRdev, if_pos hkind, hslot]
  simp only [setInodeRdev, if_pos h]
  by_cases hold : dev.oldValidDev inode.iRdev = true
  · rw [if_pos hold, AddrArea.set_ne _ (by omega), AddrArea.set_self, AddrArea.set_self]
    by_cases hz : dev.oldEncodeDev inode.iRdev = 0
    · have hdec := dev.old_decode inode.iRdev hold
      rw [hz] at hdec
      rw [if_neg (not_not.mpr hz), dev.decode_zero, hdec]
    · rw [if_pos hz, dev.old_decode inode.iRdev hold]
  · rw [if_neg hold]
    rw [AddrArea.set_ne _ (by omega : inode.getExtraIsize ≠ inode.getExtraIsize + 2),
      AddrArea.set_ne _ (by omega), AddrArea.set_self,
      AddrArea.set_ne _ (by omega : inode.getExtraIsize + 1 ≠ inode.getExtraIsize + 2),
      AddrArea.set_self, if_neg (not_not.mpr rfl), dev.new_decode]

/-! ## The block that was written -/

section

variable (h : Writable sb inode ri)

include h

variable (dev) in
theorem Writable.extraIsize_eq :
    (if inode.flags.extraAttr = true then (updateInode sb dev inode ri).iAddr.extraIsize else 0) =
      inode.iExtraIsize := by
  cases hattr : inode.flags.extraAttr with
  | false => exact (h.plain hattr).symm
  | true =>
    have hroom := (h.extra hattr).1
    have hword : (updateInode sb dev inode ri).iAddr 0 = updateExtraAttr sb inode ri.iAddr 0 := by
      show setInodeRdev dev inode _ 0 = _
      rw [setInodeRdev_lt (by unfold InodeInfo.getExtraIsize; omega), if_pos hattr]
    rw [if_pos rfl, AddrArea.extraIsize_congr hword, extraIsize_updateExtraAttr h.extraIsize_lt]

theorem Writable.inlineXattrSize_eq (hflex : sb.flexibleInlineXattr = true) :
    (updateInode sb dev inode ri).iAddr.inlineXattrSize = inode.iInlineXattrSize := by
  have hattr := h.flexible hflex
  have hroom := (h.extra hattr).1
  have hword : (updateInode sb dev inode ri).iAddr 0 = updateExtraAttr sb inode ri.iAddr 0 := by
    show setInodeRdev dev inode _ 0 = _
    rw [setInodeRdev_lt (by unfold InodeInfo.getExtraIsize; omega), if_pos hattr]
  rw [AddrArea.inlineXattrSize_congr hword, inlineXattrSize_updateExtraAttr hflex h.xattrSize_lt]

omit h in
theorem projid_updateInode (hattr : inode.flags.extraAttr = true) (hquota : sb.projectQuota = true)
    (hfits : projidEnd ≤ inode.iExtraIsize) :
    (updateInode sb dev inode ri).iAddr.projid = inode.iProjid := by
  have hword : (updateInode sb dev inode ri).iAddr 1 = updateExtraAttr sb inode ri.iAddr 1 := by
    show setInodeRdev dev inode _ 1 = _
    unfold projidEnd at hfits
    rw [setInodeRdev_lt (by unfold InodeInfo.getExtraIsize; omega), if_pos hattr]
  have hproj := projid_updateExtraAttr (a := ri.iAddr) hquota hfits
  unfold AddrArea.projid at hproj ⊢
  rw [hword, hproj]

theorem Writable.crtime_eq (hattr : inode.flags.extraAttr = true) (hcrtime : sb.inodeCrtime = true)
    (hfits : crtimeEnd ≤ inode.iExtraIsize) :
    (updateInode sb dev inode ri).iAddr.crtime = inode.iCrtime := by
  have hroom := (h.extra hattr).2 hcrtime hfits
  have hword : ∀ i, i < 6 →
      (updateInode sb dev inode ri).iAddr i = updateExtraAttr sb inode ri.iAddr i := by
    intro i hi
    show setInodeRdev dev inode _ i = _
    rw [setInodeRdev_lt (by unfold InodeInfo.getExtraIsize; omega), if_pos hattr]
  rw [AddrArea.crtime_congr (hword 3 (by decide)) (hword 4 (by decide)) (hword 5 (by decide))]
  exact crtime_updateExtraAttr hcrtime hfits (h.nsec_lt _ (by simp))

theorem Writable.readInlineXattrSize_eq :
    readInlineXattrSize sb inode.flags (updateInode sb dev inode ri).iAddr =
      storedXattrSize sb inode := by
  rw [readInlineXattrSize, storedXattrSize]
  split
  · rename_i hflex
    exact h.inlineXattrSize_eq hflex
  · rfl

/-- Inline data that does not exist is not found. -/
theorem Writable.findsInlineData_eq :
    findsInlineData inode.flags inode.iExtraIsize (storedXattrSize sb inode)
      (updateInode sb dev inode ri).iAddr = false := by
  cases hdata : inode.flags.inlineData with
  | false => simp [findsInlineData, hdata]
  | true =>
    cases hexist : inode.flags.dataExist with
    | true => simp [findsInlineData, hexist]
    | false =>
      obtain ⟨hdevice, hzero⟩ := h.noData hdata hexist
      have hnone : (inlineWords inode.iExtraIsize (storedXattrSize sb inode)).any
          (fun i => decide ((updateInode sb dev inode ri).iAddr i ≠ 0)) = false := by
        refine List.any_eq_false.mpr fun i hi => ?_
        have hlo : inode.iExtraIsize / 4 < i := (List.mem_range'_1.mp hi).1
        have hword : (updateInode sb dev inode ri).iAddr i = 0 := by
          show setInodeRdev dev inode _ i = 0
          rw [setInodeRdev_other hdevice]
          split
          · rw [updateExtraAttr_gt hlo, hzero i hi]
          · exact hzero i hi
        simp [hword]
      simp only [findsInlineData, hnone, Bool.and_false]

end

/-! ## There and back -/

theorem initExtentTree_some {env : ReadEnv} {ei : Extent} (halloc : env.alloc = true)
    (hkept : env.kept = none) (hlen : ei.len ≠ 0) :
    (initExtentTree env true ei).1 = some ei := by
  simp [initExtentTree, hkept, halloc, hlen]

theorem initExtentTree_empty {env : ReadEnv} {ei : Extent} (hkept : env.kept = none)
    (hlen : ei.len = 0) : (initExtentTree env true ei).1 = some ⟨0, 0, 0⟩ := by
  simp [initExtentTree, hkept, hlen]

/-- What has been written comes back, whatever the page held and whatever inode was
    allocated. -/
theorem read_updated {env : ReadEnv} {fresh : InodeInfo} {ino : Nat} (h : Writable sb inode ri)
    (hino : sb.rootIno ≤ ino ∧ ino < sb.maxNid) :
    ∃ inode' ri', doReadInode sb dev env ino fresh (.ok (updateInode sb dev inode ri)) =
      .ok (inode', ri') ∧ Restored sb env inode inode' := by
  have hrange : ¬(ino < sb.rootIno ∨ sb.maxNid ≤ ino) := by omega
  refine ⟨(readInode sb dev env fresh (updateInode sb dev inode ri)).1,
    (readInode sb dev env fresh (updateInode sb dev inode ri)).2, ?_, ?_⟩
  · rw [doReadInode, if_neg hrange]
    rfl
  have hflags : getInlineInfo (updateInode sb dev inode ri).iInline = inode.flags :=
    getInlineInfo_setRawInline inode.flags
  have hextra := h.extraIsize_eq dev
  have hnsec : ∀ time ∈ [inode.iAtime, inode.iCtime, inode.iMtime, inode.iCrtime],
      (⟨time.tvSec.toUInt64.toInt64, (UInt32.ofNat time.tvNsec).toNat⟩ : Timespec) = time := by
    intro time htime
    rw [Int64.toInt64_toUInt64, toNat_ofNat32 (h.nsec_lt time htime)]
  constructor
  case iMode | iUid | iGid | iNlink | iGeneration | iCurrentDepth | iXattrNid | iAdvise | iPino |
      iDirLevel => rfl
  case iSize => exact Int64.toInt64_toUInt64 _
  case iBlocks => exact sectors_roundTrip h.sectors
  case iAtime => exact hnsec _ (by simp)
  case iCtime => exact hnsec _ (by simp)
  case iMtime => exact hnsec _ (by simp)
  case iFlags => exact toNat_ofNat32 h.iFlags_lt
  case flags =>
    simp only [readInode, hflags, hextra, h.readInlineXattrSize_eq, h.findsInlineData_eq,
      Bool.or_false]
  case iExtraIsize =>
    simp only [readInode, hflags, hextra]
  case iInlineXattrSize =>
    intro hflex
    simp only [readInode, readInlineXattrSize, if_pos hflex]
    exact h.inlineXattrSize_eq hflex
  case iRdev =>
    intro hdevice
    simp only [readInode, hflags, hextra]
    exact getInodeRdev_setInodeRdev hdevice _
  case iProjid =>
    intro hattr hquota hfits
    have hstored : (inode.flags.extraAttr && sb.projectQuota &&
        fitsInInode inode.iExtraIsize projidEnd) = true := by
      rw [hattr, hquota]
      exact decide_eq_true hfits
    simp only [readInode, hflags, hextra, if_pos hstored]
    exact projid_updateInode hattr hquota hfits
  case iCrtime =>
    intro hattr hcrtime hfits
    have hstored : (inode.flags.extraAttr && sb.inodeCrtime &&
        fitsInInode inode.iExtraIsize crtimeEnd) = true := by
      rw [hattr, hcrtime]
      exact decide_eq_true hfits
    simp only [readInode, hflags, hextra, if_pos hstored]
    exact h.crtime_eq hattr hcrtime hfits
  case iExt =>
    intro hmay halloc hkept ei hei hlen
    have hmay' : (sb.extentCache && sIsReg (updateInode sb dev inode ri).iMode) = true := hmay
    have hext : (updateInode sb dev inode ri).iExt = ei := by
      show inode.extentTree.getD _ = ei
      rw [hei, Option.getD_some]
    simp only [readInode, hmay', hext]
    exact initExtentTree_some halloc hkept hlen
  case noExt =>
    intro hmay hkept hnone
    have hmay' : (sb.extentCache && sIsReg (updateInode sb dev inode ri).iMode) = true := hmay
    have hext : (updateInode sb dev inode ri).iExt.len = 0 := by
      show (inode.extentTree.getD _).len = 0
      cases hei : inode.extentTree with
      | none => rfl
      | some ei => exact hnone ei hei
    simp only [readInode, hmay']
    exact initExtentTree_empty hkept hext

end

/-! ## Inodes that are written and lost -/

/-- The device numbers of the kernel: 12 bits for the major number, 20 for the minor one. -/
def kdev : DevCodec where
  oldValidDev dev := decide (dev.toNat / 2 ^ 20 < 256 ∧ dev.toNat % 2 ^ 20 < 256)
  oldEncodeDev dev := UInt32.ofNat (dev.toNat / 2 ^ 20 % 2 ^ 8 * 2 ^ 8 + dev.toNat % 2 ^ 8)
  oldDecodeDev val := UInt32.ofNat (val.toNat / 2 ^ 8 % 2 ^ 8 * 2 ^ 20 + val.toNat % 2 ^ 8)
  newEncodeDev dev := UInt32.ofNat
    (dev.toNat % 2 ^ 8 + dev.toNat / 2 ^ 20 * 2 ^ 8 + dev.toNat % 2 ^ 20 / 2 ^ 8 * 2 ^ 20)
  newDecodeDev val := UInt32.ofNat
    (val.toNat / 2 ^ 8 % 2 ^ 12 * 2 ^ 20 + (val.toNat % 2 ^ 8 + val.toNat / 2 ^ 20 * 2 ^ 8))
  old_decode dev hold := by
    have hlt := dev.toNat_lt
    have hvalid := of_decide_eq_true hold
    apply UInt32.toNat_inj.mp
    rw [toNat_ofNat32 (n := dev.toNat / 2 ^ 20 % 2 ^ 8 * 2 ^ 8 + dev.toNat % 2 ^ 8) (by omega),
      toNat_ofNat32 (by omega)]
    omega
  new_decode dev := by
    have hlt := dev.toNat_lt
    apply UInt32.toNat_inj.mp
    obtain ⟨n, hn⟩ : ∃ n, n = dev.toNat % 2 ^ 8 + dev.toNat / 2 ^ 20 * 2 ^ 8 +
      dev.toNat % 2 ^ 20 / 2 ^ 8 * 2 ^ 20 := ⟨_, rfl⟩
    have hmajor : n / 2 ^ 8 % 2 ^ 12 = dev.toNat / 2 ^ 20 := by omega
    have hlow : n % 2 ^ 8 = dev.toNat % 2 ^ 8 := by omega
    have hhigh : n / 2 ^ 20 = dev.toNat % 2 ^ 20 / 2 ^ 8 := by omega
    rw [← hn, toNat_ofNat32 (n := n) (by omega), hmajor, hlow, hhigh, toNat_ofNat32 (by omega)]
    omega
  decode_zero := by decide +kernel

/-- An inode with nothing set, and its page. -/
def blankInode : InodeInfo where
  iMode := 0x81a4
  iUid := 0
  iGid := 0
  iNlink := 1
  iSize := 0
  iBlocks := 0
  iAtime := ⟨0, 0⟩
  iCtime := ⟨0, 0⟩
  iMtime := ⟨0, 0⟩
  iGeneration := 0
  iRdev := 0
  iCurrentDepth := 0
  iXattrNid := 0
  iFlags := 0
  iAdvise := 0
  iPino := 3
  iDirLevel := 0
  flags := ⟨false, false, false, false, false, false, false⟩
  noExtent := false
  projInherit := false
  firstBlockWritten := false
  extentTree := none
  iExtraIsize := 0
  iInlineXattrSize := 0
  iProjid := 0
  iCrtime := ⟨0, 0⟩
  lastDiskSize := 0

def blankPage : RawInode where
  iMode := 0
  iAdvise := 0
  iInline := 0
  iUid := 0
  iGid := 0
  iLinks := 0
  iSize := 0
  iBlocks := 0
  iAtime := 0
  iCtime := 0
  iMtime := 0
  iAtimeNsec := 0
  iCtimeNsec := 0
  iMtimeNsec := 0
  iGeneration := 0
  iCurrentDepth := 0
  iXattrNid := 0
  iFlags := 0
  iPino := 0
  iDirLevel := 0
  iExt := ⟨0, 0, 0⟩
  iAddr := fun _ => 0

/-- Every feature that is stored in the inode. -/
def allFeatures : SuperBlock := ⟨true, true, true, true, 3, 1000⟩

/-- What comes back of an inode. -/
def rereadInode (sb : SuperBlock) (env : ReadEnv) (inode : InodeInfo) (ri : RawInode) : InodeInfo :=
  (readInode sb kdev env blankInode (updateInode sb kdev inode ri)).1

/-- A block device with all extra attributes. -/
def extraInode : InodeInfo :=
  { blankInode with
    iMode := 0x61b0
    iRdev := 0x00800003
    iBlocks := 16
    flags := { blankInode.flags with extraAttr := true, inlineXattr := true }
    iExtraIsize := 24
    iInlineXattrSize := 60
    iProjid := 7
    iCrtime := ⟨1000, 5⟩ }

theorem extraInode_restored : ∃ inode' ri',
    doReadInode allFeatures kdev {} 40 blankInode
      (.ok (updateInode allFeatures kdev extraInode blankPage)) = .ok (inode', ri') ∧
    Restored allFeatures {} extraInode inode' := by
  refine read_updated ⟨fun _ => rfl, fun hattr => absurd hattr (by decide),
    fun _ => ⟨by decide, fun _ _ => by decide⟩, by decide, by decide, by decide, by decide, ?_,
    fun hdata => absurd hdata (by decide)⟩ ⟨by decide, by decide⟩
  intro time htime
  simp only [List.mem_cons, List.not_mem_nil, or_false] at htime
  rcases htime with rfl | rfl | rfl | rfl <;> decide

/-- Inodes that f2fs never has, each of which loses something on its way: no extra attributes
    where their size is stored in them, an extra size that ends between the seconds and the
    nanoseconds of a device, inline data that does not exist and is not zero.  And what does
    not come back of every inode: an empty extent, and an extent for which no node can be
    allocated. -/
theorem unwritable_lost :
    (rereadInode allFeatures {} { blankInode with iInlineXattrSize := 60 }
      blankPage).iInlineXattrSize = 0 ∧
    (rereadInode allFeatures {} { extraInode with iExtraIsize := 20 } blankPage).iCrtime ≠
      extraInode.iCrtime ∧
    (rereadInode { allFeatures with flexibleInlineXattr := false } {}
      { blankInode with flags := { blankInode.flags with inlineData := true } }
      { blankPage with iAddr := fun _ => 1 }).flags.dataExist = true ∧
    (rereadInode allFeatures {} { extraInode with iMode := 0x81a4, extentTree := some ⟨8, 500, 0⟩ }
      blankPage).extentTree = some ⟨0, 0, 0⟩ ∧
    (rereadInode allFeatures { alloc := false }
      { extraInode with iMode := 0x81a4, extentTree := some ⟨8, 500, 64⟩ }
      blankPage).extentTree = some ⟨0, 0, 0⟩ := by
  refine ⟨?_, ?_, ?_, ?_, ?_⟩ <;> decide +kernel

end F2fs.InodeBlock

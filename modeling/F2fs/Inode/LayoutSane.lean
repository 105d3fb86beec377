/-
  The areas of `i_addr[]` in an inode that `do_read_inode` has accepted.

  `i_extra_isize` and `i_inline_xattr_size` are taken over from the disk as they are, and
  the macros subtract them from the size of `i_addr[]`: first as an `int`, which is then an
  unsigned int or a `size_t`.  Where the areas begin and end is modelled in bytes from the
  start of `i_addr[]`, so that an area that begins in front of it has a negative start.
-/
import F2fs.Inode.InodeRoundTrip

namespace F2fs.InodeBlock

open Node

/-! ## The macros -/

def defInlineReservedSize : Nat := 1
def bitsPerByte : Nat := 8
def sizeOfDirEntry : Nat := 11
def f2fsSlotLen : Nat := 8

/-- An `int` as a `size_t` of 64 bits. -/
def sizeT (n : Int) : Nat := (n % 2 ^ 64).toNat

namespace InodeInfo

variable (inode : InodeInfo)

/-- `get_inline_xattr_addrs`. -/
def getInlineXattrAddrs : Nat := inode.iInlineXattrSize

/-- `CUR_ADDRS_PER_INODE`. -/
def curAddrsPerInode : Int := defAddrsPerInode - inode.getExtraIsize

/-- `addrs_per_inode`. -/
def addrsPerInode : Nat := uint32 (inode.curAddrsPerInode - inode.getInlineXattrAddrs)

/-- `MAX_INLINE_DATA`. -/
def maxInlineData : Nat :=
  sizeT (4 * sizeT (inode.curAddrsPerInode - inode.getInlineXattrAddrs - defInlineReservedSize))

/-- `NR_INLINE_DENTRY`. -/
def nrInlineDentry : Nat :=
  sizeT (inode.maxInlineData * bitsPerByte) / ((sizeOfDirEntry + f2fsSlotLen) * bitsPerByte + 1)

end InodeInfo

/-! ## The areas -/

/-- A part of the inode block, in bytes from the start of `i_addr[]`. -/
structure Area where
  start : Int
  len : Nat
  deriving DecidableEq, Repr

def Area.stop (a : Area) : Int := a.start + a.len

/-- The area lies in `i_addr[]`. -/
def Area.Inside (a : Area) : Prop := 0 ≤ a.start ∧ a.stop ≤ 4 * defAddrsPerInode

def Area.Apart (a b : Area) : Prop := a.stop ≤ b.start ∨ b.stop ≤ a.start

/-- The extra attributes, the reserved slot, the inline data or dentries (`inline_data_addr`)
    and the inline xattrs (`inline_xattr_addr`, `inline_xattr_size`). -/
def InodeInfo.areas (inode : InodeInfo) : List Area :=
  [⟨0, 4 * inode.getExtraIsize⟩,
    ⟨4 * inode.getExtraIsize, 4 * defInlineReservedSize⟩,
    ⟨4 * (inode.getExtraIsize + defInlineReservedSize), inode.maxInlineData⟩,
    ⟨4 * ((defAddrsPerInode : Int) - inode.getInlineXattrAddrs),
      4 * inode.getInlineXattrAddrs⟩]

/-- The layout of an inode is sane: its areas lie in `i_addr[]` and are disjoint, and the sizes
    are what the differences are as integers. -/
structure Sane (inode : InodeInfo) : Prop where
  inside : ∀ a ∈ inode.areas, a.Inside
  apart : inode.areas.Pairwise Area.Apart
  sum : inode.getExtraIsize + defInlineReservedSize + inode.getInlineXattrAddrs ≤ defAddrsPerInode
  addrsPerInode : (inode.addrsPerInode : Int) =
    defAddrsPerInode - inode.getExtraIsize - inode.getInlineXattrAddrs
  maxInlineData : (inode.maxInlineData : Int) =
    4 * ((defAddrsPerInode : Int) - inode.getExtraIsize - inode.getInlineXattrAddrs -
      defInlineReservedSize)
  nrInlineDentry : inode.nrInlineDentry = inode.maxInlineData * 8 / 153

theorem uint32_of_nonneg {n : Int} (h0 : 0 ≤ n) (hlt : n < 2 ^ 32) : (uint32 n : Int) = n := by
  rw [uint32, Int.emod_eq_of_lt h0 hlt, Int.toNat_of_nonneg h0]

theorem sizeT_of_nonneg {n : Int} (h0 : 0 ≤ n) (hlt : n < 2 ^ 64) : (sizeT n : Int) = n := by
  rw [sizeT, Int.emod_eq_of_lt h0 hlt, Int.toNat_of_nonneg h0]

/-- What the sum of the sizes decides. -/
theorem sane_iff (inode : InodeInfo) :
    Sane inode ↔
      inode.getExtraIsize + defInlineReservedSize + inode.getInlineXattrAddrs ≤
        defAddrsPerInode := by
  refine ⟨Sane.sum, fun h => ?_⟩
  have hsum : inode.getExtraIsize + 1 + inode.getInlineXattrAddrs ≤ 923 := h
  have hdiff : inode.curAddrsPerInode - inode.getInlineXattrAddrs - defInlineReservedSize =
      923 - inode.getExtraIsize - inode.getInlineXattrAddrs - 1 := rfl
  have hmax : (inode.maxInlineData : Int) =
      4 * (923 - inode.getExtraIsize - inode.getInlineXattrAddrs - 1) := by
    have hwords := sizeT_of_nonneg
      (n := 923 - (inode.getExtraIsize : Int) - inode.getInlineXattrAddrs - 1)
      (by omega) (by omega)
    rw [InodeInfo.maxInlineData, hdiff, hwords]
    exact sizeT_of_nonneg (by omega) (by omega)
  refine ⟨?_, ?_, h, ?_, hmax, ?_⟩
  · simp only [InodeInfo.areas, List.forall_mem_cons, Area.Inside, Area.stop, defAddrsPerInode,
      defInlineReservedSize]
    refine ⟨⟨by omega, by push_cast; omega⟩, ⟨by omega, by push_cast; omega⟩,
      ⟨by omega, by push_cast; omega⟩, ⟨by omega, by push_cast; omega⟩, List.forall_mem_nil _⟩
  · simp only [InodeInfo.areas, List.pairwise_cons, List.forall_mem_cons, Area.Apart, Area.stop,
      defAddrsPerInode, defInlineReservedSize]
    push_cast
    refine ⟨⟨.inl (by omega), .inl (by omega), .inl (by omega), List.forall_mem_nil _⟩,
      ⟨.inl (by omega), .inl (by omega), List.forall_mem_nil _⟩,
      ⟨.inl (by omega), List.forall_mem_nil _⟩, List.forall_mem_nil _, .nil⟩
  · exact uint32_of_nonneg (by unfold InodeInfo.curAddrsPerInode defAddrsPerInode; omega)
      (by unfold InodeInfo.curAddrsPerInode defAddrsPerInode; omega)
  · have hbits := sizeT_of_nonneg (n := (inode.maxInlineData * bitsPerByte : Int))
      (by unfold bitsPerByte; omega) (by unfold bitsPerByte; omega)
    have hbits' : sizeT (inode.maxInlineData * bitsPerByte) = inode.maxInlineData * 8 := by
      exact_mod_cast hbits
    rw [InodeInfo.nrInlineDentry, hbits']
    rfl

/-! ## What is accepted -/

/-- The sizes on disk leave room. The inline xattrs have the size that is stored, on a volume
    with `flexible_inline_xattr`, and else 50 slots or none. -/
def SizesFit (sb : SuperBlock) (ri : RawInode) : Prop :=
  let flags := getInlineInfo ri.iInline
  let extraIsize := if flags.extraAttr then ri.iAddr.extraIsize else 0
  if sb.flexibleInlineXattr then extraIsize / 4 + ri.iAddr.inlineXattrSize ≤ 922
  else if flags.inlineXattr || flags.inlineDentry then extraIsize < 3492
  else extraIsize < 3692

instance (sb : SuperBlock) (ri : RawInode) : Decidable (SizesFit sb ri) := by
  unfold SizesFit
  infer_instance

variable {sb : SuperBlock} {dev : DevCodec} {env : ReadEnv} {ino : Nat} {fresh inode : InodeInfo}
  {ri ri' : RawInode}

/-- An accepted inode has the sizes of its block. -/
theorem doReadInode_sizes (h : doReadInode sb dev env ino fresh (.ok ri) = .ok (inode, ri')) :
    inode.iExtraIsize =
        (if (getInlineInfo ri.iInline).extraAttr then ri.iAddr.extraIsize else 0) ∧
      inode.iInlineXattrSize = readInlineXattrSize sb (getInlineInfo ri.iInline) ri.iAddr := by
  rw [doReadInode] at h
  split at h
  · cases h
  · cases h
    exact ⟨rfl, rfl⟩

/-- The layout of an accepted inode is sane exactly if the sizes in its block leave room. -/
theorem doReadInode_sane_iff
    (h : doReadInode sb dev env ino fresh (.ok ri) = .ok (inode, ri')) :
    Sane inode ↔ SizesFit sb ri := by
  obtain ⟨hextra, hxattr⟩ := doReadInode_sizes h
  rw [sane_iff, InodeInfo.getExtraIsize, InodeInfo.getInlineXattrAddrs, hextra, hxattr,
    readInlineXattrSize, SizesFit]
  simp only [defAddrsPerInode, defInlineReservedSize, defaultInlineXattrAddrs]
  by_cases hflex : sb.flexibleInlineXattr = true
  · rw [if_pos hflex, if_pos hflex]
    omega
  · rw [if_neg hflex, if_neg hflex]
    by_cases hinline : ((getInlineInfo ri.iInline).inlineXattr ||
        (getInlineInfo ri.iInline).inlineDentry) = true
    · rw [if_pos hinline, if_pos hinline]
      omega
    · rw [if_neg hinline, if_neg hinline]
      omega

/-- The inode of a block. -/
theorem doReadInode_ok (sb : SuperBlock) (dev : DevCodec) (env : ReadEnv) (ino : Nat)
    (fresh : InodeInfo) (ri : RawInode) (hlow : sb.rootIno ≤ ino) (hhigh : ino < sb.maxNid) :
    doReadInode sb dev env ino fresh (.ok ri) = .ok (readInode sb dev env fresh ri) :=
  if_neg (by omega)

/-- A block with extra attributes, as they are in a new inode, and a size for the inline
    xattrs. -/
def sizedPage (xattrSize : UInt32) : RawInode :=
  { blankPage with
    iInline := 0x20
    iAddr := fun i => if i = 0 then xattrSize * 65536 + 24 else 0 }

theorem sizedPage_sane :
    Sane (readInode allFeatures kdev {} blankInode (sizedPage 60)).1 ↔
      SizesFit allFeatures (sizedPage 60) :=
  doReadInode_sane_iff
    (doReadInode_ok allFeatures kdev {} 40 blankInode (sizedPage 60) (by decide) (by decide))

/-- An inode whose inline xattrs are larger than `i_addr[]` is accepted. -/
theorem sizedPage_accepted :
    doReadInode allFeatures kdev {} 40 blankInode (.ok (sizedPage 65535)) =
        .ok (readInode allFeatures kdev {} blankInode (sizedPage 65535)) ∧
      ¬Sane (readInode allFeatures kdev {} blankInode (sizedPage 65535)).1 :=
  ⟨doReadInode_ok allFeatures kdev {} 40 blankInode _ (by decide) (by decide),
    fun h => absurd h.sum (by decide +kernel)⟩

end F2fs.InodeBlock

/-
  POSIX ACLs as attribute values (`acl.c`).

  A value is a header of four bytes and the entries one after the other; an entry of a named
  user or group takes eight bytes, every other entry four.  The number of entries is not
  stored.  `f2fs_acl_count` computes it from the size of the value, as if all entries beyond
  the first four were long ones, and `f2fs_acl_size` is its counterpart.

  Memory is addressed from the first byte of the value and does not end where the value
  ends.  Decoding therefore always has a result, and `trace` lists what it has read of the
  value and written of the new ACL.
-/
import F2fs.Basic
import F2fs.Lib.LittleEndian

namespace F2fs.Acl

open LittleEndian (Memory)

/-! ## Constants -/

/-- `F2FS_ACL_VERSION`. -/
abbrev f2fsAclVersion : Nat := 1

/-- `sizeof(struct f2fs_acl_header)`. -/
abbrev aclHeaderSize : Nat := 4

/-- `sizeof(struct f2fs_acl_entry_short)`. -/
abbrev aclEntryShortSize : Nat := 4

/-- `sizeof(struct f2fs_acl_entry)`. -/
abbrev aclEntrySize : Nat := 8

/-- The tags of the kernel. -/
abbrev aclUserObj : UInt16 := 0x01
abbrev aclUser : UInt16 := 0x02
abbrev aclGroupObj : UInt16 := 0x04
abbrev aclGroup : UInt16 := 0x08
abbrev aclMask : UInt16 := 0x10
abbrev aclOther : UInt16 := 0x20

/-! ## ACLs in memory -/

/-- `struct posix_acl_entry`; `eId` is `e_uid` or `e_gid`, which only a named entry uses. -/
structure PosixAclEntry where
  eTag : UInt16
  ePerm : UInt16
  eId : UInt32
  deriving DecidableEq, Repr

/-- `struct posix_acl`; `posix_acl_alloc` takes the number of entries as an `int`. -/
structure PosixAcl where
  aEntries : List PosixAclEntry
  count_lt : aEntries.length < 2 ^ 31

/-- `a_count`. -/
def PosixAcl.aCount (acl : PosixAcl) : Nat := acl.aEntries.length

/-- The entry of a named user or group. -/
def isNamed (tag : UInt16) : Bool := tag = aclUser ∨ tag = aclGroup

/-- The owner, the owning group, the mask or the others. -/
def isUnnamed (tag : UInt16) : Bool :=
  tag = aclUserObj ∨ tag = aclGroupObj ∨ tag = aclMask ∨ tag = aclOther

/-- `posix_acl_equal`, for one entry. -/
def PosixAclEntry.Same (a b : PosixAclEntry) : Prop :=
  a.eTag = b.eTag ∧ a.ePerm = b.ePerm ∧ (isNamed a.eTag = true → a.eId = b.eId)

/-- Where `posix_acl_valid` is: the tag it waits for. -/
inductive AclState where
  | userObj | user | group | other | done
  deriving DecidableEq, Repr

/-- What `posix_acl_valid` asks of a tag: the next state, and whether a mask is needed. -/
def validTag (state : AclState) (needsMask : Bool) (tag : UInt16) : Option (AclState × Bool) :=
  if tag = aclUserObj then if state = .userObj then some (.user, needsMask) else none
  else if tag = aclUser then if state = .user then some (.user, true) else none
  else if tag = aclGroupObj then if state = .user then some (.group, needsMask) else none
  else if tag = aclGroup then if state = .group then some (.group, true) else none
  else if tag = aclMask then if state = .group then some (.other, needsMask) else none
  else if tag = aclOther then
    if state = .other ∨ state = .group ∧ needsMask = false then some (.done, needsMask) else none
  else none

/-- The loop of `posix_acl_valid`; with the identity mapping every id but -1 is mapped. -/
def validFrom : AclState → Bool → List PosixAclEntry → Bool
  | state, _, [] => state = .done
  | state, needsMask, e :: es =>
    match validTag state needsMask e.eTag with
    | none => false
    | some (state', needsMask') =>
      e.ePerm.toNat < 8 && (!isNamed e.eTag || e.eId.toNat < 2 ^ 32 - 1) &&
        validFrom state' needsMask' es

/-- `posix_acl_valid`. -/
def posixAclValid (acl : PosixAcl) : Bool := validFrom .userObj false acl.aEntries

/-! ## Sizes -/

/-- `f2fs_acl_size`. -/
def f2fsAclSize (count : Nat) : Nat :=
  if count ≤ 4 then aclHeaderSize + count * aclEntryShortSize
  else aclHeaderSize + 4 * aclEntryShortSize + (count - 4) * aclEntrySize

/-- A `size_t` as a `ssize_t`. -/
def toSsize (n : Nat) : Int := if n < 2 ^ 63 then n else (n : Int) - 2 ^ 64

/-- `f2fs_acl_count`; both differences are taken of a `size_t`. -/
def f2fsAclCount (size : Nat) : Int :=
  let size := (size + 2 ^ 64 - aclHeaderSize) % 2 ^ 64
  let s := toSsize ((size + 2 ^ 64 - 4 * aclEntryShortSize) % 2 ^ 64)
  if s < 0 then
    if size % aclEntryShortSize ≠ 0 then -1 else (size / aclEntryShortSize : Nat)
  else if s % aclEntrySize ≠ 0 then -1
  else s / aclEntrySize + 4

/-! ## `f2fs_acl_to_disk` -/

/-- The errors of this module. -/
inductive AclError where
  | einval | enomem
  deriving DecidableEq, Repr

/-- `le16_to_cpu` and `le32_to_cpu`. -/
def le16 (m : Memory) (a : Nat) : UInt16 := UInt16.ofNat (LittleEndian.load m a 2)
def le32 (m : Memory) (a : Nat) : UInt32 := UInt32.ofNat (LittleEndian.load m a 4)

/-- `e_tag` and `e_perm` of the entry at `entry`. -/
def writeShort (m : Memory) (entry : Nat) (e : PosixAclEntry) : Memory :=
  LittleEndian.store (LittleEndian.store m entry 2 e.eTag.toNat) (entry + 2) 2 e.ePerm.toNat

/-- The loop of `f2fs_acl_to_disk`, with the end of what it has written. -/
def toDiskEntries : Memory → Nat → List PosixAclEntry → Option (Memory × Nat)
  | m, entry, [] => some (m, entry)
  | m, entry, e :: es =>
    let m := writeShort m entry e
    if isNamed e.eTag then
      toDiskEntries (LittleEndian.store m (entry + 4) 4 e.eId.toNat) (entry + aclEntrySize) es
    else if isUnnamed e.eTag then toDiskEntries m (entry + aclEntryShortSize) es
    else none

/-- What `f2fs_acl_to_disk` leaves: the value, the end of its last entry and `*size`. -/
structure Encoded where
  value : Memory
  endOff : Nat
  size : Nat

/-- `f2fs_acl_to_disk`; `fresh` is the memory `f2fs_kmalloc` returns, if it does. -/
def f2fsAclToDisk (fresh : Option Memory) (acl : PosixAcl) : Except AclError Encoded :=
  match fresh with
  | none => .error .enomem
  | some m =>
    match toDiskEntries (LittleEndian.store m 0 4 f2fsAclVersion) aclHeaderSize acl.aEntries with
    | none => .error .einval
    | some (value, endOff) => .ok ⟨value, endOff, f2fsAclSize acl.aCount⟩

/-! ## `f2fs_acl_from_disk` -/

/-- An access of the decoder: `len` bytes of memory from `a`, or entry `i` of the new ACL. -/
inductive AclAccess where
  | read (a len : Nat)
  | write (i : Nat)
  deriving DecidableEq, Repr

/-- What `f2fs_acl_from_disk` returns: an error pointer, `NULL` or an ACL. -/
inductive AclResult where
  | err (e : AclError)
  | null
  | acl (entries : List PosixAclEntry)
  deriving DecidableEq, Repr

/-- A run of the decoder. -/
structure Decoded where
  trace : List AclAccess
  result : AclResult
  deriving DecidableEq, Repr

/-- The run that starts with these accesses. -/
def Decoded.after (d : Decoded) (accesses : List AclAccess) : Decoded :=
  { d with trace := accesses ++ d.trace }

/-- The loop of `f2fs_acl_from_disk` with `n` entries to go, the next of them entry `i`. -/
def fromDiskEntries (m : Memory) (size : Nat) : Nat → Nat → Nat → List PosixAclEntry → Decoded
  | 0, _, entry, acl => if entry ≠ size then ⟨[], .err .einval⟩ else ⟨[], .acl acl⟩
  | n + 1, i, entry, acl =>
    if entry > size then ⟨[], .err .einval⟩
    else
      let tag := le16 m entry
      let perm := le16 m (entry + 2)
      let old := acl.getD i ⟨0, 0, 0⟩
      if isUnnamed tag then
        (fromDiskEntries m size n (i + 1) (entry + aclEntryShortSize)
          (acl.set i { old with eTag := tag, ePerm := perm })).after
          [.read entry 4, .write i]
      else if isNamed tag then
        (fromDiskEntries m size n (i + 1) (entry + aclEntrySize)
          (acl.set i ⟨tag, perm, le32 m (entry + 4)⟩)).after
          [.read entry 4, .write i, .read (entry + 4) 4]
      else ⟨[.read entry 4, .write i], .err .einval⟩

section

variable {m : Memory} {size n i entry : Nat} {acl : List PosixAclEntry}

theorem fromDiskEntries_zero : fromDiskEntries m size 0 i entry acl =
    if entry ≠ size then ⟨[], .err .einval⟩ else ⟨[], .acl acl⟩ := rfl

theorem fromDiskEntries_beyond (h : size < entry) :
    fromDiskEntries m size (n + 1) i entry acl = ⟨[], .err .einval⟩ := if_pos h

theorem fromDiskEntries_unnamed (hle : entry ≤ size) (h : isUnnamed (le16 m entry) = true) :
    fromDiskEntries m size (n + 1) i entry acl =
      (fromDiskEntries m size n (i + 1) (entry + aclEntryShortSize) (acl.set i
        ⟨le16 m entry, le16 m (entry + 2), (acl.getD i ⟨0, 0, 0⟩).eId⟩)).after
        [.read entry 4, .write i] :=
  (if_neg (Nat.not_lt.mpr hle)).trans (if_pos h)

theorem fromDiskEntries_named (hle : entry ≤ size) (hnot : ¬ isUnnamed (le16 m entry) = true)
    (h : isNamed (le16 m entry) = true) :
    fromDiskEntries m size (n + 1) i entry acl =
      (fromDiskEntries m size n (i + 1) (entry + aclEntrySize)
        (acl.set i ⟨le16 m entry, le16 m (entry + 2), le32 m (entry + 4)⟩)).after
        [.read entry 4, .write i, .read (entry + 4) 4] :=
  (if_neg (Nat.not_lt.mpr hle)).trans ((if_neg hnot).trans (if_pos h))

/-- A turn that finds no entry ends the loop. -/
theorem fromDiskEntries_unknown (hle : entry ≤ size) (hunnamed : ¬ isUnnamed (le16 m entry) = true)
    (hnamed : ¬ isNamed (le16 m entry) = true) :
    fromDiskEntries m size (n + 1) i entry acl = ⟨[.read entry 4, .write i], .err .einval⟩ :=
  (if_neg (Nat.not_lt.mpr hle)).trans ((if_neg hunnamed).trans (if_neg hnamed))

end

/-- `f2fs_acl_from_disk`; `alloc` is what `posix_acl_alloc` returns for a number of entries,
    whose contents are not set. -/
def f2fsAclFromDisk (alloc : (n : Nat) → Option (Vector PosixAclEntry n)) (value : Memory)
    (size : Nat) : Decoded :=
  let header : List AclAccess := [.read 0 4]
  if LittleEndian.load value 0 4 ≠ f2fsAclVersion then ⟨header, .err .einval⟩
  else
    let count := f2fsAclCount size
    if count < 0 then ⟨header, .err .einval⟩
    else if count = 0 then ⟨header, .null⟩
    else
      match alloc count.toNat with
      | none => ⟨header, .err .enomem⟩
      | some acl =>
        (fromDiskEntries value size count.toNat 0 aclHeaderSize acl.toList).after header

end F2fs.Acl

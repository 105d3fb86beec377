/-
  Directory entries in a dentry block or in the inline area of an inode (`dir.c`).

  `struct f2fs_dentry_ptr` gives both the same shape: a bitmap and an array of entries, one
  bit and one entry a slot, and behind them eight bytes of name a slot.  An entry with a
  longer name takes as many slots as the name needs, and its name goes on in the bytes of
  the slots behind it.

  The arrays have no end here.  An index or a byte from `max` slots on lies outside the area,
  and `trace` lists the entries a walk has used and the names it has handed on, so that such
  an access can be seen.
-/
import F2fs.Basic
import F2fs.Lib.BitScan

namespace F2fs.Dir

abbrev Name := List UInt8

/-! ## The area -/

/-- `F2FS_SLOT_LEN`. -/
abbrev f2fsSlotLen : Nat := 8

/-- `NR_DENTRY_IN_BLOCK`. -/
abbrev nrDentryInBlock : Nat := 214

/-- `GET_DENTRY_SLOTS`. -/
def getDentrySlots (len : Nat) : Nat := (len + f2fsSlotLen - 1) / f2fsSlotLen

/-- `struct f2fs_dir_entry`. -/
structure DirEntry where
  hashCode : UInt32
  ino : UInt32
  nameLen : UInt16
  fileType : UInt8
  deriving DecidableEq, Repr

/-- `struct f2fs_dentry_ptr`; `filename` is by bytes. -/
structure DentryArea where
  max : Nat
  bitmap : Nat → Bool
  dentry : Nat → DirEntry
  filename : Nat → UInt8

namespace DentryArea

/-- The `len` bytes of name from slot `bitPos` on. -/
def nameAt (d : DentryArea) (bitPos len : Nat) : Name :=
  (List.range len).map fun i => d.filename (f2fsSlotLen * bitPos + i)

/-- `le16_to_cpu(de->name_len)` of an entry. -/
def nameLenAt (d : DentryArea) (bitPos : Nat) : Nat := (d.dentry bitPos).nameLen.toNat

/-- `GET_DENTRY_SLOTS` of an entry. -/
def slotsAt (d : DentryArea) (bitPos : Nat) : Nat := getDentrySlots (d.nameLenAt bitPos)

end DentryArea

/-! ## File types -/

/-- `f2fs_type_by_mode`, by `(mode & S_IFMT) >> S_SHIFT`. -/
def f2fsTypeByMode : Nat → UInt8
  | 8 => 1
  | 4 => 2
  | 2 => 3
  | 6 => 4
  | 1 => 5
  | 12 => 6
  | 10 => 7
  | _ => 0

/-- `set_de_type`. -/
def setDeType (mode : UInt16) : UInt8 := f2fsTypeByMode (mode.toNat / 2 ^ 12)

/-- `get_de_type`: the `DT_` type from `f2fs_filetype_table`. -/
def getDeType (de : DirEntry) : Nat :=
  match de.fileType.toNat with
  | 1 => 8
  | 2 => 4
  | 3 => 2
  | 4 => 6
  | 5 => 1
  | 6 => 12
  | 7 => 10
  | _ => 0

/-! ## Finding an entry -/

/-- What a walk touches: entry `i` of the array, or `len` bytes of name from a slot on. -/
inductive DirAccess where
  | entry (i : Nat)
  | name (bitPos len : Nat)
  deriving DecidableEq, Repr

/-- What `find_target_dentry` returns, with `*max_slots`. -/
structure FindResult where
  found : Option Nat
  maxSlots : Nat
  trace : List DirAccess
  deriving DecidableEq, Repr

/-- The result of a walk that starts with these accesses. -/
def FindResult.after (r : FindResult) (accesses : List DirAccess) : FindResult :=
  { r with trace := accesses ++ r.trace }

/-- The loop of `find_target_dentry`; `none` if it takes more than the given rounds. -/
def findTargetFrom (d : DentryArea) (namehash : UInt32) (matchName : Name → Bool) :
    Nat → Nat → Nat → Nat → Option FindResult
  | 0, _, _, _ => none
  | rounds + 1, bitPos, maxLen, maxSlots =>
    if bitPos < d.max then
      if d.bitmap bitPos = false then
        findTargetFrom d namehash matchName rounds (bitPos + 1) (maxLen + 1) maxSlots
      else
        let de := d.dentry bitPos
        if de.nameLen = 0 then
          (findTargetFrom d namehash matchName rounds (bitPos + 1) maxLen maxSlots).map
            (·.after [.entry bitPos])
        else if de.hashCode = namehash then
          if matchName (d.nameAt bitPos de.nameLen.toNat) then
            some ⟨some bitPos, max maxSlots maxLen,
              [.entry bitPos, .name bitPos de.nameLen.toNat]⟩
          else
            (findTargetFrom d namehash matchName rounds (bitPos + d.slotsAt bitPos) 0
              (max maxSlots maxLen)).map (·.after [.entry bitPos, .name bitPos de.nameLen.toNat])
        else
          (findTargetFrom d namehash matchName rounds (bitPos + d.slotsAt bitPos) 0
            (max maxSlots maxLen)).map (·.after [.entry bitPos])
    else some ⟨none, max maxSlots maxLen, []⟩

/-- `find_target_dentry`; `matchName` is `fscrypt_match_name` on the wanted name. -/
def findTargetDentry (d : DentryArea) (namehash : UInt32) (matchName : Name → Bool) :
    Option FindResult :=
  findTargetFrom d namehash matchName (d.max + 1) 0 0 0

/-- `fscrypt_match_name` on a name that is not encrypted. -/
def plainMatch (name : Name) (deName : Name) : Bool := deName = name

theorem plainMatch_iff {name deName : Name} : plainMatch name deName = true ↔ deName = name :=
  decide_eq_true_iff

/-! ## Adding and deleting -/

/-- The loop of `room_for_filename`. -/
def roomFrom (bitmap : Nat → Bool) (slots maxSlots : Nat) : Nat → Nat → Option Nat
  | 0, _ => none
  | rounds + 1, bitStart =>
    let zeroStart := BitScan.next (fun i => !bitmap i) maxSlots bitStart
    if zeroStart ≥ maxSlots then some maxSlots
    else
      let zeroEnd := BitScan.next bitmap maxSlots zeroStart
      if zeroEnd - zeroStart ≥ slots then some zeroStart
      else if zeroEnd + 1 ≥ maxSlots then some maxSlots
      else roomFrom bitmap slots maxSlots rounds (zeroEnd + 1)

/-- `room_for_filename`. -/
def roomForFilename (bitmap : Nat → Bool) (slots maxSlots : Nat) : Option Nat :=
  roomFrom bitmap slots maxSlots (maxSlots + 1) 0

/-- `f2fs_update_dentry`. -/
def updateDentry (ino : UInt32) (mode : UInt16) (d : DentryArea) (name : Name) (nameHash : UInt32)
    (bitPos : Nat) : DentryArea :=
  let slots := getDentrySlots name.length
  { d with
    dentry := fun i =>
      if i = bitPos then ⟨nameHash, ino, UInt16.ofNat name.length, setDeType mode⟩
      -- avoid wrong garbage data for readdir
      else if bitPos < i ∧ i < bitPos + slots then { d.dentry i with nameLen := 0 }
      else d.dentry i
    filename := fun i =>
      if f2fsSlotLen * bitPos ≤ i ∧ i < f2fsSlotLen * bitPos + name.length then
        name.getD (i - f2fsSlotLen * bitPos) 0
      else d.filename i
    bitmap := fun i => decide (bitPos ≤ i ∧ i < bitPos + slots) || d.bitmap i }

/-- What `f2fs_delete_entry` and `f2fs_delete_inline_entry` do to the area. -/
def deleteEntry (d : DentryArea) (bitPos : Nat) : DentryArea :=
  { d with bitmap := fun i => !decide (bitPos ≤ i ∧ i < bitPos + d.slotsAt bitPos) && d.bitmap i }

/-! ## Reading a directory -/

/-- The arguments of `dir_emit`. -/
structure Emitted where
  name : Name
  ino : UInt32
  dType : Nat
  deriving DecidableEq, Repr

/-- `struct dir_context`: the position, and what the call has emitted. -/
structure DirContext where
  pos : Nat
  emitted : List Emitted
  deriving DecidableEq, Repr

/-- How `f2fs_fill_dentries` ends: with 0, with 1, or with an error of the name's decryption. -/
inductive FillEnd where
  | done
  | stopped
  | failed (err : Nat)
  deriving DecidableEq, Repr

/-- What `f2fs_fill_dentries` leaves. -/
structure FillResult where
  ret : FillEnd
  ctx : DirContext
  trace : List DirAccess
  deriving DecidableEq, Repr

def FillResult.after (r : FillResult) (accesses : List DirAccess) : FillResult :=
  { r with trace := accesses ++ r.trace }

/-- What `dir_emit` is called with for the entry in a slot, once its name is `name`. -/
def DentryArea.emittedAt (d : DentryArea) (bitPos : Nat) (name : Name) : Emitted :=
  ⟨name, (d.dentry bitPos).ino, getDeType (d.dentry bitPos)⟩

/-- The loop of `f2fs_fill_dentries`.  `toUsr` is `fscrypt_fname_disk_to_usr`, and the
    identity in a directory that is not encrypted; `accept` is whether the caller takes one
    more entry after those of this call. -/
def fillDentriesFrom (d : DentryArea) (toUsr : UInt32 → Name → Except Nat Name)
    (accept : List Emitted → Emitted → Bool) (startPos : Nat) :
    Nat → Nat → DirContext → Option FillResult
  | 0, _, _ => none
  | rounds + 1, bitPos, ctx =>
    if bitPos < d.max then
      let bitPos := BitScan.next d.bitmap d.max bitPos
      if bitPos ≥ d.max then some ⟨.done, ctx, []⟩
      else
        let de := d.dentry bitPos
        if de.nameLen = 0 then
          (fillDentriesFrom d toUsr accept startPos rounds (bitPos + 1)
            { ctx with pos := u32 (startPos + (bitPos + 1)) }).map (·.after [.entry bitPos])
        else
          let accesses : List DirAccess := [.entry bitPos, .name bitPos de.nameLen.toNat]
          match toUsr de.hashCode (d.nameAt bitPos de.nameLen.toNat) with
          | .error err => some ⟨.failed err, ctx, accesses⟩
          | .ok name =>
            let e := d.emittedAt bitPos name
            if accept ctx.emitted e then
              (fillDentriesFrom d toUsr accept startPos rounds (bitPos + d.slotsAt bitPos)
                ⟨u32 (startPos + (bitPos + d.slotsAt bitPos)), ctx.emitted ++ [e]⟩).map
                (·.after accesses)
            else some ⟨.stopped, ctx, accesses⟩
    else some ⟨.done, ctx, []⟩

/-- `f2fs_fill_dentries`; an area without slots has no position to start at. -/
def fillDentries (d : DentryArea) (toUsr : UInt32 → Name → Except Nat Name)
    (accept : List Emitted → Emitted → Bool) (startPos : Nat) (ctx : DirContext) :
    Option FillResult :=
  if d.max = 0 then none
  else fillDentriesFrom d toUsr accept startPos (d.max + 1) (ctx.pos % d.max) ctx

end F2fs.Dir

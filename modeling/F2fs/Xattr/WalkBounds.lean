/-
  Where the walks of `xattr.c` read and write.

  The buffers hold the inline part, the xattr block, and a word of padding.
  `__find_inline_xattr` looks whether an entry and the next one are in the inline part; the
  other walks go on from entry to entry until they find a word of zeros, wherever that is.
  `EntryList` is the format they take for granted: entries one behind the other, and a word
  of zeros behind the last.  If the contents have it, every walk stays in its buffer; if
  they do not, some call reads outside.

  The inline part is what `read_inline_xattr` copies, of any size an inode block can give.
-/
import F2fs.Xattr.Stored

namespace F2fs.Xattr

/-! ## Contents and buffers -/

/-- The bytes of the attributes of an inode; `words` is `i_inline_xattr_size`, which
    `do_read_inode` takes from a 16-bit field without a check. -/
structure XattrContent where
  words : Nat
  inline : Bytes
  block : Option Bytes
  words_lt : words < 2 ^ 16
  inline_length : inline.length = 4 * words
  block_length : ∀ blk, block = some blk → blk.length = validXattrBlockSize

namespace XattrContent

/-- The buffer of `lookup_all_xattrs` with the inline part in it. -/
def lookupBuffer (c : XattrContent) : Bytes :=
  c.inline ++ List.replicate ((if c.block.isSome then validXattrBlockSize else 0) +
    xattrPaddingSize) 0

/-- The same buffer, with the xattr block as well. -/
def fullBuffer (c : XattrContent) : Bytes :=
  c.inline ++ c.block.getD [] ++ List.replicate xattrPaddingSize 0

/-- What `read_all_xattrs` has read. -/
def allBytes (c : XattrContent) : Bytes :=
  c.inline ++ c.block.getD (List.replicate validXattrBlockSize 0) ++
    List.replicate xattrPaddingSize 0

/-- The buffer of `read_all_xattrs`, with the header it is given. -/
def allBuffer (c : XattrContent) : XattrM Bytes := do
  let magic ← access (Splice.read c.allBytes 0 4)
  if magic ≠ xattrMagic then access (Splice.write c.allBytes 0 (xattrMagic ++ xattrRefcount))
  else .ok c.allBytes

end XattrContent

/-! ## The walks -/

/-- The walk over the inline part, if there is one. -/
def inlineWalk (c : XattrContent) (index : UInt8) (name : Bytes) : XattrM InlineFound :=
  if c.inline.length ≠ 0 then findInlineXattr c.lookupBuffer c.inline.length index name
  else .ok (.past 0)

/-- `lookup_all_xattrs` behind its reads. -/
def lookupWalk (c : XattrContent) (index : UInt8) (name : Bytes) : XattrM (Nat × Bytes) := do
  if c.block.isNone ∧ c.inline.length = 0 then .error .enodata
  else
    match ← inlineWalk c index name with
    | .entry xe => checkEntry c.lookupBuffer xe
    | .past lastAddr =>
      let xe ← findFromLast c.fullBuffer lastAddr index name
      checkEntry c.fullBuffer xe

/-- `f2fs_getxattr` behind its reads. -/
def getWalk (c : XattrContent) (index : UInt8) (name : Bytes) (buffer : Option Nat) :
    XattrM (Nat × Bytes) := do
  if name.length > f2fsNameLen then .error .erange
  else
    let (entry, b) ← lookupWalk c index name
    let (_, len, size) ← entryHead b entry
    match buffer with
    | none => return (size, [])
    | some bufferSize =>
      if size > bufferSize then .error .erange
      else return (size, ← access (Splice.read b (entry + xattrEntrySize + len) size))

/-- `f2fs_listxattr` behind its reads. -/
def listWalk (c : XattrContent) (handler : UInt8 → Option Bytes) (buffer : Option Nat) :
    XattrM (Nat × Bytes) := do
  let b ← c.allBuffer
  listxattrFrom b handler buffer b.length xattrHeaderSize 0 []

/-- The new entry in the buffer, and the size of the area. -/
def addNewEntry (b : Bytes) (last : Nat) (index : UInt8) (name : Bytes) (value : Option Bytes) :
    XattrM (Bytes × Nat) :=
  match value with
  | none => .ok (b, last)
  | some v => do
    let b' ← writeEntry b last index name v
    return (b', last + xattrAlign (xattrEntrySize + name.length + v.length))

/-- `__f2fs_setxattr` on the buffer that `read` gives it, up to `write_all_xattrs`, which it
    leaves out for a value that is there already; `room` is `MIN_OFFSET`. -/
def editXattrs (room : Nat) (read : XattrM Bytes) (index : UInt8) (name : Bytes)
    (value : Option Bytes) (flags : XattrFlags) : XattrM (Option (Bytes × Nat)) := do
  let size := (value.getD []).length
  if name.length > f2fsNameLen then .error .erange
  else if size > room - xattrHeaderSize - xattrEntrySize then .error .e2big
  else
    let b ← read
    let here ← findXattr b 0 index name
    let isLast ← isLastEntry b here
    let found := !isLast
    if found && flags.create then .error .eexist
    else if !found && flags.replace then .error .enodata
    else
      let same ← alreadySet b here found value
      if same then return none
      else
        let last ← lastEntryFrom b b.length here
        let newsize := xattrAlign (xattrEntrySize + name.length + size)
        let oldsize ← oldEntrySize b here found
        if value.isSome ∧ ((room : Int) - last + oldsize < newsize) then .error .e2big
        else
          let (b₁, last₁) ← dropOldEntry b here last found
          return some (← addNewEntry b₁ last₁ index name value)

/-- `__f2fs_setxattr` between its reads and `write_all_xattrs`. -/
def setWalk (c : XattrContent) (index : UInt8) (name : Bytes) (value : Option Bytes)
    (flags : XattrFlags) : XattrM (Option (Bytes × Nat)) :=
  editXattrs (xattrAlign (c.inline.length + validXattrBlockSize)) c.allBuffer index name value
    flags

/-- No walk leaves its buffer. -/
structure WalksStay (c : XattrContent) : Prop where
  get : ∀ index name buffer, getWalk c index name buffer ≠ .error .fault
  list : ∀ handler buffer, listWalk c handler buffer ≠ .error .fault
  set : ∀ index name value flags, setWalk c index name value flags ≠ .error .fault

/-! ## The format of a list -/

/-- `ENTRY_SIZE` of an entry with these lengths. -/
def sizeOfLengths (len lo hi : UInt8) : Nat :=
  xattrAlign (xattrEntrySize + len.toNat + (lo.toNat + 256 * hi.toNat))

/-- Entries one behind the other, and a word of zeros. -/
inductive EntryList : Bytes → Prop where
  | last (rest : Bytes) : EntryList (0 :: 0 :: 0 :: 0 :: rest)
  | entry (index len lo hi : UInt8) (body rest : Bytes)
      (hne : [index, len, lo, hi] ≠ [0, 0, 0, 0])
      (hbody : xattrEntrySize + body.length = sizeOfLengths len lo hi) (h : EntryList rest) :
      EntryList (index :: len :: lo :: hi :: (body ++ rest))

/-- There is nothing to look at, or the contents are a list that ends in the buffer of
    `lookup_all_xattrs`. -/
def XattrContent.Closed (c : XattrContent) : Prop :=
  c.block = none ∧ c.inline = [] ∨ EntryList (c.fullBuffer.drop xattrHeaderSize)

/-- From an entry the next ones lead to the last one. -/
inductive Chain (b : Bytes) : Nat → Prop where
  | last {e : Nat} (h : isLastEntry b e = .ok true) : Chain b e
  | next {e e' : Nat} (h : isLastEntry b e = .ok false) (hnext : nextEntry b e = .ok e')
      (hc : Chain b e') : Chain b e

section

variable {b b' : Bytes} {e e' : Nat} {index : UInt8} {name : Bytes}

theorem read_four (h : e + 4 ≤ b.length) :
    ∃ i len lo hi, Splice.read b e 4 = some [i, len, lo, hi] ∧
      b.drop e = i :: len :: lo :: hi :: b.drop (e + 4) := by
  have hlen : ((b.drop e).take 4).length = 4 := by
    rw [List.length_take, List.length_drop]
    omega
  obtain ⟨i, len, lo, hi, hfour⟩ := List.length_eq_four.mp hlen
  refine ⟨i, len, lo, hi, ?_, ?_⟩
  · rw [Splice.read, if_pos h, hfour]
  · rw [← List.take_append_drop 4 (b.drop e), hfour, List.drop_drop]
    rfl

/-- What the walks see of an entry whose head is in the buffer. -/
structure HeadIs (b : Bytes) (e : Nat) (index len lo hi : UInt8) : Prop where
  isLast : isLastEntry b e = .ok (decide ([index, len, lo, hi] = [0, 0, 0, 0]))
  head : entryHead b e = .ok (index, len.toNat, lo.toNat + 256 * hi.toNat)
  size : entrySize b e = .ok (sizeOfLengths len lo hi)
  next : nextEntry b e = .ok (e + sizeOfLengths len lo hi)

theorem headIs_of_read {i len lo hi : UInt8} (h : Splice.read b e 4 = some [i, len, lo, hi]) :
    HeadIs b e i len lo hi := by
  have hhead : entryHead b e = .ok (i, len.toNat, lo.toNat + 256 * hi.toNat) := by
    rw [entryHead, h]
    rfl
  have hsize : entrySize b e = .ok (sizeOfLengths len lo hi) := by
    rw [entrySize, hhead]
    rfl
  refine ⟨isLastEntry_of_read h, hhead, hsize, ?_⟩
  rw [nextEntry, hsize]
  rfl

theorem four_le_size (len lo hi : UInt8) : 4 ≤ sizeOfLengths len lo hi := by
  have hle := le_xattrAlign (xattrEntrySize + len.toNat + (lo.toNat + 256 * hi.toNat))
  unfold sizeOfLengths
  simp only [xattrEntrySize] at *
  omega

theorem head_in_of_isLast {x : Bool} (h : isLastEntry b e = .ok x) : e + 4 ≤ b.length := by
  by_contra hno
  rw [isLastEntry, Splice.read, if_neg hno] at h
  cases h

theorem isLastEntry_fault (h : ¬e + 4 ≤ b.length) : isLastEntry b e = .error .fault := by
  rw [isLastEntry, Splice.read, if_neg h]
  rfl

theorem Chain.head_in (h : Chain b e) : e + 4 ≤ b.length := by
  cases h with
  | last h => exact head_in_of_isLast h
  | next h _ _ => exact head_in_of_isLast h

theorem exists_head (h : e + 4 ≤ b.length) : ∃ i len lo hi, HeadIs b e i len lo hi := by
  obtain ⟨i, len, lo, hi, hread, -⟩ := read_four h
  exact ⟨i, len, lo, hi, headIs_of_read hread⟩

theorem read_of_drop {i len lo hi : UInt8} {rest : Bytes}
    (h : b.drop e = i :: len :: lo :: hi :: rest) :
    Splice.read b e 4 = some [i, len, lo, hi] := by
  have hlen := congrArg List.length h
  rw [List.length_drop] at hlen
  simp only [List.length_cons] at hlen
  rw [Splice.read, if_pos (by omega), h]
  rfl

/-- A chain is a list of entries. -/
theorem chain_of_entryList {s : Bytes} (h : EntryList s) (hs : b.drop e = s) : Chain b e := by
  induction h generalizing e with
  | last rest => exact .last (headIs_of_read (read_of_drop hs)).isLast
  | entry i len lo hi body rest hne hbody h ih =>
    have his := headIs_of_read (read_of_drop hs)
    refine .next (his.isLast.trans (by rw [decide_eq_false hne])) his.next (ih ?_)
    rw [← hbody, ← List.drop_drop, ← List.drop_drop, hs]
    exact List.drop_left

theorem entryList_of_chain (h : Chain b e) : EntryList (b.drop e) := by
  induction h with
  | @last e h =>
    obtain ⟨i, len, lo, hi, hread, hdrop⟩ := read_four (head_in_of_isLast h)
    rw [(headIs_of_read hread).isLast] at h
    have hzero : [i, len, lo, hi] = [0, 0, 0, 0] := of_decide_eq_true (Except.ok.inj h)
    cases hzero
    rw [hdrop]
    exact .last _
  | @next e e' h hnext hc ih =>
    obtain ⟨i, len, lo, hi, hread, hdrop⟩ := read_four (head_in_of_isLast h)
    have his := headIs_of_read hread
    rw [his.isLast] at h
    rw [his.next] at hnext
    cases hnext
    have hfour := four_le_size len lo hi
    have hin := hc.head_in
    have hbody := (List.take_append_drop (sizeOfLengths len lo hi - 4) (b.drop (e + 4))).symm
    rw [List.drop_drop, show e + 4 + (sizeOfLengths len lo hi - 4) =
      e + sizeOfLengths len lo hi by omega] at hbody
    rw [hdrop, hbody]
    refine .entry i len lo hi _ _ (of_decide_eq_false (Except.ok.inj h)) ?_ ih
    rw [List.length_take, List.length_drop]
    simp only [xattrEntrySize]
    omega

theorem EntryList.append {s : Bytes} (h : EntryList s) (t : Bytes) : EntryList (s ++ t) := by
  induction h with
  | last rest => exact .last (rest ++ t)
  | entry i len lo hi body rest hne hbody _ ih =>
    rw [List.cons_append, List.cons_append, List.cons_append, List.cons_append, List.append_assoc]
    exact .entry i len lo hi body _ hne hbody ih

/-! ## Walks along a chain -/

theorem sameName_ok {i len lo hi : UInt8} (h : HeadIs b e i len lo hi)
    (hin : e + 4 + len.toNat ≤ b.length) (index : UInt8) (name : Bytes) :
    ∃ x, sameName b e index name = .ok x := by
  rw [sameName, h.head, ok_bind]
  by_cases hi' : i ≠ index
  · exact ⟨false, if_pos hi'⟩
  · by_cases hl : len.toNat ≠ name.length
    · exact ⟨false, (if_neg hi').trans (if_pos hl)⟩
    · simp only [if_neg hi', if_neg hl]
      rw [Splice.read, if_pos (by simp only [xattrEntrySize]; omega)]
      exact ⟨_, rfl⟩

/-- The fields of an entry lie before its end. -/
theorem fields_le (len lo hi : UInt8) :
    4 + len.toNat + (lo.toNat + 256 * hi.toNat) ≤ sizeOfLengths len lo hi :=
  le_xattrAlign _

/-- An entry of a chain that is not the last lies in the buffer, with a word behind it. -/
theorem Chain.entry_in {i len lo hi : UInt8} (h : Chain b e) (hlast : isLastEntry b e = .ok false)
    (his : HeadIs b e i len lo hi) :
    Chain b (e + sizeOfLengths len lo hi) ∧ e + sizeOfLengths len lo hi + 4 ≤ b.length := by
  cases h with
  | last h =>
    rw [hlast] at h
    cases h
  | next _ hnext hc =>
    rw [his.next] at hnext
    cases hnext
    exact ⟨hc, hc.head_in⟩

theorem findXattrFrom_chain (h : Chain b e) (index : UInt8) (name : Bytes) {fuel : Nat}
    (hfuel : b.length < e + 4 * fuel) :
    ∃ xe, findXattrFrom b index name fuel e = .ok xe ∧ Chain b xe := by
  induction h generalizing fuel with
  | @last e h =>
    have hin := head_in_of_isLast h
    cases fuel with
    | zero => omega
    | succ fuel =>
      rw [findXattrFrom, h, ok_bind]
      exact ⟨e, rfl, .last h⟩
  | @next e e' h hnext hc ih =>
    have hin := head_in_of_isLast h
    cases fuel with
    | zero => omega
    | succ fuel =>
      obtain ⟨i, len, lo, hi, his⟩ := exists_head hin
      obtain ⟨-, hend⟩ := (Chain.next h hnext hc).entry_in h his
      have hfields := fields_le len lo hi
      have hfour := four_le_size len lo hi
      obtain ⟨x, hsame⟩ := sameName_ok his (by omega) index name
      have hnext' := hnext
      rw [his.next] at hnext'
      cases hnext'
      rw [findXattrFrom, h, ok_bind, hsame, ok_bind, hnext]
      cases x with
      | true => exact ⟨e, rfl, .next h hnext hc⟩
      | false => exact ih (by omega)

/-- The walk to the last entry. -/
theorem lastEntryFrom_chain (h : Chain b e) {fuel : Nat} (hfuel : b.length < e + 4 * fuel) :
    ∃ last, lastEntryFrom b fuel e = .ok last ∧ last + 4 ≤ b.length ∧
      (isLastEntry b e = .ok true ∧ last = e ∨
        ∃ e', nextEntry b e = .ok e' ∧ e' ≤ last) := by
  induction h generalizing fuel with
  | @last e h =>
    have hin := head_in_of_isLast h
    cases fuel with
    | zero => omega
    | succ fuel =>
      rw [lastEntryFrom, h, ok_bind]
      exact ⟨e, rfl, hin, Or.inl ⟨rfl, rfl⟩⟩
  | @next e e' h hnext hc ih =>
    have hin := head_in_of_isLast h
    cases fuel with
    | zero => omega
    | succ fuel =>
      obtain ⟨i, len, lo, hi, his⟩ := exists_head hin
      have hfour := four_le_size len lo hi
      have hnext' := hnext
      rw [his.next] at hnext'
      cases hnext'
      have hfuel' : b.length < e + sizeOfLengths len lo hi + 4 * fuel := by omega
      obtain ⟨last, hrun, hlast, hpos⟩ := ih hfuel'
      rw [lastEntryFrom, h, ok_bind, hnext]
      refine ⟨last, hrun, hlast, Or.inr ⟨_, rfl, ?_⟩⟩
      rcases hpos with ⟨-, rfl⟩ | ⟨e'', hnext'', hle⟩
      · exact Nat.le_refl _
      · obtain ⟨i', len', lo', hi', his'⟩ := exists_head hc.head_in
        rw [his'.next] at hnext''
        cases hnext''
        omega

theorem listxattrFrom_chain (h : Chain b e) (handler : UInt8 → Option Bytes)
    (buffer : Option Nat) {fuel : Nat} (hfuel : b.length < e + 4 * fuel) (listed : Nat)
    (out : Bytes) : listxattrFrom b handler buffer fuel e listed out ≠ .error .fault := by
  induction h generalizing fuel listed out with
  | @last e h =>
    have hin := head_in_of_isLast h
    cases fuel with
    | zero => omega
    | succ fuel =>
      rw [listxattrFrom, h, ok_bind]
      exact fun hfault => by cases hfault
  | @next e e' h hnext hc ih =>
    have hin := head_in_of_isLast h
    cases fuel with
    | zero => omega
    | succ fuel =>
      obtain ⟨i, len, lo, hi, his⟩ := exists_head hin
      obtain ⟨-, hend⟩ := (Chain.next h hnext hc).entry_in h his
      have hfields := fields_le len lo hi
      have hfour := four_le_size len lo hi
      have hnext' := hnext
      rw [his.next] at hnext'
      cases hnext'
      have hfuel' : b.length < e + sizeOfLengths len lo hi + 4 * fuel := by omega
      have hgo := ih hfuel'
      rw [listxattrFrom, h, ok_bind, if_neg Bool.false_ne_true, his.head, ok_bind]
      simp only [hnext, ok_bind]
      cases handler i with
      | none => exact hgo listed out
      | some pre =>
        cases buffer with
        | none => exact hgo _ out
        | some bufferSize =>
          by_cases hroom : listed + (pre.length + len.toNat + 1) > bufferSize
          · simp only [if_pos hroom]
            exact fun hfault => by cases hfault
          · simp only [if_neg hroom]
            rw [Splice.read, if_pos (by simp only [xattrEntrySize]; omega), access_some, ok_bind]
            exact hgo _ _

/-! ## The walk over the inline part -/

/-- Where the walk has stopped. -/
def InlineFound.pos : InlineFound → Nat
  | .entry e => e
  | .past lastAddr => lastAddr

/-- What is known where the walk has stopped: an entry it returns is the last one, or it has
    the name and lies in the inline part. -/
def InlineFound.Stopped (b : Bytes) (inlineSize : Nat) (index : UInt8) (name : Bytes) :
    InlineFound → Prop
  | .entry e => isLastEntry b e = .ok true ∨ sameName b e index name = .ok true ∧
      ∃ e', nextEntry b e = .ok e' ∧ e' + 4 ≤ inlineSize
  | .past _ => True

/-- The two buffers have the same heads in the inline part. -/
def SameHeads (inlineSize : Nat) (b b' : Bytes) : Prop :=
  ∀ e, e + 4 ≤ inlineSize → Splice.read b' e 4 = Splice.read b e 4

theorem findInlineXattrFrom_stops {inlineSize fuel : Nat} (hlen : inlineSize + 4 ≤ b.length)
    (hin : e + 4 ≤ b.length) (hfuel : b.length < e + 4 * fuel) (index : UInt8) (name : Bytes) :
    ∃ r, findInlineXattrFrom b inlineSize index name fuel e = .ok r ∧
      r.Stopped b inlineSize index name ∧ e ≤ r.pos ∧ r.pos + 4 ≤ b.length ∧
      ∀ b', SameHeads inlineSize b b' → (Chain b' e ↔ Chain b' r.pos) := by
  induction fuel generalizing e with
  | zero => omega
  | succ fuel ih =>
    obtain ⟨i, len, lo, hi, hread, -⟩ := read_four hin
    have his := headIs_of_read hread
    have hfour := four_le_size len lo hi
    have hfields := fields_le len lo hi
    rw [findInlineXattrFrom, his.isLast, ok_bind]
    by_cases hlast : [i, len, lo, hi] = [0, 0, 0, 0]
    · rw [if_pos (decide_eq_true hlast)]
      exact ⟨.entry e, rfl, Or.inl (his.isLast.trans (by rw [decide_eq_true hlast])),
        Nat.le_refl _, hin, fun b' _ => Iff.rfl⟩
    · rw [if_neg (by simpa using hlast)]
      by_cases hout : e + 4 > inlineSize
      · rw [if_pos hout]
        exact ⟨.past e, rfl, trivial, Nat.le_refl _, hin, fun b' _ => Iff.rfl⟩
      · rw [if_neg hout, his.next, ok_bind]
        by_cases hout' : e + sizeOfLengths len lo hi + 4 > inlineSize
        · rw [if_pos hout']
          exact ⟨.past e, rfl, trivial, Nat.le_refl _, hin, fun b' _ => Iff.rfl⟩
        · rw [if_neg hout']
          obtain ⟨x, hsame⟩ := sameName_ok his (by omega) index name
          rw [hsame, ok_bind]
          cases x with
          | true => exact ⟨.entry e, rfl, Or.inr ⟨hsame, _, his.next, by omega⟩, Nat.le_refl _,
              hin, fun b' _ => Iff.rfl⟩
          | false =>
            obtain ⟨r, hrun, hstop, hge, hpos, hchain⟩ := ih (e := e + sizeOfLengths len lo hi)
              (by omega) (by omega)
            refine ⟨r, hrun, hstop, by omega, hpos, fun b' hb' => ?_⟩
            have his' : HeadIs b' e i len lo hi :=
              headIs_of_read ((hb' e (by omega)).trans hread)
            have hgo : isLastEntry b' e = .ok false :=
              his'.isLast.trans (by rw [decide_eq_false hlast])
            rw [← hchain b' hb']
            exact ⟨fun h => (h.entry_in hgo his').1, fun h => .next hgo his'.next h⟩

/-! ## A name that no entry has -/

/-- A name of three bytes. -/
def threeBytes (t : Fin 256 × Fin 256 × Fin 256) : Bytes :=
  [UInt8.ofNat t.1, UInt8.ofNat t.2.1, UInt8.ofNat t.2.2]

theorem threeBytes_injective : Function.Injective threeBytes := by
  have hbyte : ∀ x y : Fin 256, UInt8.ofNat x = UInt8.ofNat y → x = y := fun x y h => by
    have hval := congrArg UInt8.toNat h
    rw [UInt8.toNat_ofNat_of_lt' x.isLt, UInt8.toNat_ofNat_of_lt' y.isLt] at hval
    exact Fin.ext hval
  rintro ⟨x, y, z⟩ ⟨x', y', z'⟩ h
  simp only [threeBytes, List.cons.injEq, and_true] at h
  rw [hbyte x x' h.1, hbyte y y' h.2.1, hbyte z z' h.2.2]

/-- There are more names of three bytes than places in a buffer. -/
theorem exists_absent (hb : b.length < 2 ^ 24) :
    ∃ name : Bytes, name.length = 3 ∧ ∀ off, Splice.read b off 3 ≠ some name := by
  by_contra hno
  have hplace : ∀ t, ∃ off : Fin b.length, Splice.read b off 3 = some (threeBytes t) := by
    intro t
    by_contra hnone
    refine hno ⟨threeBytes t, rfl, fun off hread => ?_⟩
    have hin : off + 3 ≤ b.length := by
      by_contra hout
      rw [Splice.read, if_neg hout] at hread
      cases hread
    exact hnone ⟨⟨off, by omega⟩, hread⟩
  choose place hread using hplace
  have hinj : Function.Injective place := fun t t' h => by
    have heq := (hread t).symm.trans ((congrArg (fun off : Fin b.length =>
      Splice.read b off 3) h).trans (hread t'))
    exact threeBytes_injective (Option.some.inj heq)
  have hcard := Fintype.card_le_of_injective place hinj
  rw [Fintype.card_prod, Fintype.card_prod, Fintype.card_fin, Fintype.card_fin] at hcard
  omega

theorem sameName_absent (hname : name.length = 3) (h : ∀ off, Splice.read b off 3 ≠ some name)
    (e : Nat) (index : UInt8) : sameName b e index name ≠ .ok true := by
  intro hsame
  rw [sameName] at hsame
  cases hhead : entryHead b e with
  | error err =>
    rw [hhead] at hsame
    cases hsame
  | ok head =>
    rw [hhead, ok_bind, hname] at hsame
    simp only at hsame
    split at hsame
    · cases hsame
    · split at hsame
      · cases hsame
      · cases hread : Splice.read b (e + xattrEntrySize) 3 with
        | none =>
          rw [hread] at hsame
          cases hsame
        | some stored =>
          rw [hread, access_some, ok_bind] at hsame
          have heq : stored = name := of_decide_eq_true (Except.ok.inj hsame)
          exact h _ (heq ▸ hread)

theorem sameName_cases {i len lo hi : UInt8} (his : HeadIs b e i len lo hi) (index : UInt8)
    (name : Bytes) :
    (∃ x, sameName b e index name = .ok x) ∨ sameName b e index name = .error .fault := by
  rw [sameName, his.head, ok_bind]
  by_cases hi' : i ≠ index
  · exact Or.inl ⟨false, if_pos hi'⟩
  · by_cases hl : len.toNat ≠ name.length
    · exact Or.inl ⟨false, (if_neg hi').trans (if_pos hl)⟩
    · simp only [if_neg hi', if_neg hl]
      cases Splice.read b (e + xattrEntrySize) name.length with
      | none => exact Or.inr rfl
      | some stored => exact Or.inl ⟨_, rfl⟩

/-- A walk that looks for a name that is not there goes along the chain. -/
theorem chain_of_findXattrFrom (habsent : ∀ e, sameName b e index name ≠ .ok true) {fuel : Nat}
    (h : findXattrFrom b index name fuel e ≠ .error .fault) : Chain b e := by
  induction fuel generalizing e with
  | zero => exact absurd rfl h
  | succ fuel ih =>
    rw [findXattrFrom] at h
    by_cases hin : e + 4 ≤ b.length
    · obtain ⟨i, len, lo, hi, his⟩ := exists_head hin
      have hlast := his.isLast
      cases hx : decide ([i, len, lo, hi] = [0, 0, 0, 0]) with
      | true => exact .last (hlast.trans (by rw [hx]))
      | false =>
        rw [hx] at hlast
        rw [hlast, ok_bind, if_neg Bool.false_ne_true, his.next] at h
        rcases sameName_cases his index name with ⟨x, hsame⟩ | hsame
        · cases x with
          | true => exact absurd hsame (habsent e)
          | false =>
            rw [hsame] at h
            exact .next hlast his.next (ih h)
        · rw [hsame] at h
          exact absurd rfl h
    · rw [isLastEntry_fault hin] at h
      exact absurd rfl h

/-- A walk that lists nothing goes along the chain. -/
theorem chain_of_listxattrFrom {fuel listed : Nat} {out : Bytes}
    (h : listxattrFrom b (fun _ => none) none fuel e listed out ≠ .error .fault) : Chain b e := by
  induction fuel generalizing e with
  | zero => exact absurd rfl h
  | succ fuel ih =>
    rw [listxattrFrom] at h
    by_cases hin : e + 4 ≤ b.length
    · obtain ⟨i, len, lo, hi, his⟩ := exists_head hin
      have hlast := his.isLast
      cases hx : decide ([i, len, lo, hi] = [0, 0, 0, 0]) with
      | true => exact .last (hlast.trans (by rw [hx]))
      | false =>
        rw [hx] at hlast
        rw [hlast, ok_bind, if_neg Bool.false_ne_true, his.head, ok_bind] at h
        simp only [his.next, ok_bind] at h
        exact .next hlast his.next (ih h)
    · rw [isLastEntry_fault hin] at h
      exact absurd rfl h

end

/-! ## Walks over closed contents -/

/-- The entry lies in the buffer with its name and its value. -/
def EntryIn (b : Bytes) (e : Nat) : Prop :=
  ∃ i len lo hi, HeadIs b e i len lo hi ∧ e + sizeOfLengths len lo hi ≤ b.length

section

variable {c : XattrContent} {b : Bytes} {e : Nat}

theorem drop_of_write {b b' src : Bytes} (h : Splice.write b 0 src = some b') {n : Nat}
    (hn : src.length ≤ n) : b'.drop n = b.drop n := by
  rw [Splice.write] at h
  split at h
  · rw [← Option.some.inj h, List.take_zero, List.nil_append, List.drop_append, Nat.zero_add,
      List.drop_eq_nil_of_le hn, List.nil_append, List.drop_drop, Nat.add_sub_cancel' hn]
  · cases h

theorem exists_write {off : Nat} {src : Bytes} (h : off + src.length ≤ b.length) :
    ∃ b', Splice.write b off src = some b' ∧ b'.length = b.length := by
  have hwrite : ∃ b', Splice.write b off src = some b' := ⟨_, if_pos h⟩
  obtain ⟨b', hb'⟩ := hwrite
  exact ⟨b', hb', Splice.length_write hb'⟩

theorem XattrContent.length_allBytes (c : XattrContent) :
    c.allBytes.length = c.inline.length + validXattrBlockSize + xattrPaddingSize := by
  have hblock : (c.block.getD (List.replicate validXattrBlockSize 0)).length =
      validXattrBlockSize := by
    cases hb : c.block with
    | none => exact List.length_replicate
    | some blk => exact c.block_length blk hb
  rw [XattrContent.allBytes, List.length_append, List.length_append, hblock, List.length_replicate]

theorem XattrContent.length_lookupBuffer (c : XattrContent) :
    c.lookupBuffer.length = c.fullBuffer.length := by
  unfold XattrContent.lookupBuffer XattrContent.fullBuffer
  simp only [List.length_append, List.length_replicate]
  cases hb : c.block with
  | none => simp
  | some blk =>
    rw [Option.isSome_some, if_pos rfl, Option.getD_some, c.block_length blk hb, Nat.add_assoc]

theorem XattrContent.sameHeads (c : XattrContent) :
    SameHeads c.inline.length c.lookupBuffer c.fullBuffer := by
  intro e he
  rw [XattrContent.lookupBuffer, XattrContent.fullBuffer, List.append_assoc,
    Splice.read_append he, Splice.read_append he]

/-- The header does not change the list. -/
theorem XattrContent.allBuffer_eq (c : XattrContent) :
    ∃ b, c.allBuffer = .ok b ∧ b.length = c.allBytes.length ∧
      b.drop xattrHeaderSize = c.allBytes.drop xattrHeaderSize := by
  have hlen := c.length_allBytes
  simp only [validXattrBlockSize, xattrPaddingSize] at hlen
  rw [XattrContent.allBuffer, Splice.read, if_pos (by omega), access_some, ok_bind]
  split
  · have hfit : 0 + (xattrMagic ++ xattrRefcount).length ≤ c.allBytes.length := by
      rw [show (xattrMagic ++ xattrRefcount).length = 8 from rfl]
      omega
    obtain ⟨b, hb, hblen⟩ := exists_write hfit
    exact ⟨b, by rw [hb]; rfl, hblen, drop_of_write hb (by decide)⟩
  · exact ⟨_, rfl, rfl, rfl⟩

theorem entryList_zeros (n : Nat) : EntryList (List.replicate (n + 4) 0) :=
  .last (List.replicate n 0)

/-- In the longer buffer of `read_all_xattrs` the list ends as well. -/
theorem XattrContent.Closed.all (h : c.Closed) :
    EntryList (c.allBytes.drop xattrHeaderSize) := by
  rcases h with ⟨hblock, hinline⟩ | hlist
  · rw [XattrContent.allBytes, hblock, hinline, Option.getD_none, List.nil_append,
      List.replicate_append_replicate, List.drop_replicate]
    exact entryList_zeros 4048
  · cases hb : c.block with
    | some blk =>
      rw [XattrContent.fullBuffer, hb] at hlist
      rw [XattrContent.allBytes, hb]
      exact hlist
    | none =>
      have hpos := (chain_of_entryList hlist rfl).head_in
      simp only [xattrHeaderSize] at hpos
      have hsplit : c.allBytes = c.fullBuffer ++ List.replicate validXattrBlockSize 0 := by
        rw [XattrContent.allBytes, XattrContent.fullBuffer, hb]
        simp only [Option.getD_none, List.append_nil, List.append_assoc,
          List.replicate_append_replicate, Nat.add_comm]
      rw [hsplit, List.drop_append_of_le_length (by simp only [xattrHeaderSize]; omega)]
      exact hlist.append _

theorem checkEntry_cases (hin : e + 4 ≤ b.length)
    (hentry : isLastEntry b e = .ok false → EntryIn b e) :
    checkEntry b e = .error .enodata ∨ checkEntry b e = .ok (e, b) ∧ EntryIn b e := by
  obtain ⟨i, len, lo, hi, his⟩ := exists_head hin
  have hlast := his.isLast
  cases hx : decide ([i, len, lo, hi] = [0, 0, 0, 0]) with
  | true =>
    rw [hx] at hlast
    exact Or.inl (by rw [checkEntry, hlast]; rfl)
  | false =>
    rw [hx] at hlast
    exact Or.inr ⟨by rw [checkEntry, hlast]; rfl, hentry hlast⟩

theorem Chain.checkEntry_cases (h : Chain b e) :
    checkEntry b e = .error .enodata ∨ checkEntry b e = .ok (e, b) ∧ EntryIn b e := by
  refine F2fs.Xattr.checkEntry_cases h.head_in fun hlast => ?_
  obtain ⟨i, len, lo, hi, his⟩ := exists_head h.head_in
  obtain ⟨-, hend⟩ := h.entry_in hlast his
  exact ⟨i, len, lo, hi, his, by omega⟩

/-- The second walk of `lookup_all_xattrs`. -/
theorem findFromLast_chain {lastAddr : Nat} (hfirst : Chain b xattrHeaderSize)
    (hlast : Chain b lastAddr) (index : UInt8) (name : Bytes) :
    ∃ xe, findFromLast b lastAddr index name = .ok xe ∧ Chain b xe := by
  rw [findFromLast]
  have hpos := hlast.head_in
  split
  · exact findXattrFrom_chain hlast index name (by omega)
  · have hpos' := hfirst.head_in
    rw [findXattr, Nat.zero_add]
    exact findXattrFrom_chain hfirst index name (by omega)

theorem XattrContent.Closed.lookupWalk_cases (h : c.Closed) (index : UInt8) (name : Bytes) :
    lookupWalk c index name = .error .enodata ∨
      ∃ xe b, lookupWalk c index name = .ok (xe, b) ∧ EntryIn b xe := by
  rw [lookupWalk]
  by_cases hnone : c.block.isNone ∧ c.inline.length = 0
  · exact Or.inl (if_pos hnone)
  · rw [if_neg hnone]
    have hchain : Chain c.fullBuffer xattrHeaderSize := by
      rcases h with ⟨hblock, hinline⟩ | hlist
      · exact absurd ⟨by rw [hblock]; rfl, by rw [hinline]; rfl⟩ hnone
      · exact chain_of_entryList hlist rfl
    have hpos := hchain.head_in
    have hdone : ∀ {b xe}, checkEntry b xe = .error .enodata ∨
        checkEntry b xe = .ok (xe, b) ∧ EntryIn b xe → checkEntry b xe = .error .enodata ∨
          ∃ xe' b', checkEntry b xe = .ok (xe', b') ∧ EntryIn b' xe' := fun hcases =>
      hcases.imp_right fun hok => ⟨_, _, hok⟩
    by_cases hinline : c.inline.length ≠ 0
    · have hlen := c.length_lookupBuffer
      have hpad : c.inline.length + 4 ≤ c.lookupBuffer.length := by
        unfold XattrContent.lookupBuffer
        simp only [List.length_append, List.length_replicate, xattrPaddingSize]
        omega
      have hfuel : c.lookupBuffer.length < xattrHeaderSize + 4 * c.lookupBuffer.length := by omega
      obtain ⟨r, hrun, hstop, -, hin, hto⟩ := findInlineXattrFrom_stops hpad (hlen ▸ hpos) hfuel
        index name
      rw [inlineWalk, if_pos hinline, findInlineXattr, hrun, ok_bind]
      cases r with
      | entry xe =>
        refine hdone (checkEntry_cases hin fun hlast => ?_)
        rcases hstop with hend | ⟨-, e', hnext, hle⟩
        · rw [hlast] at hend
          cases hend
        · have hin' : xe + 4 ≤ c.lookupBuffer.length := hin
          obtain ⟨i, len, lo, hi, his⟩ := exists_head hin'
          rw [his.next] at hnext
          cases hnext
          exact ⟨i, len, lo, hi, his, by omega⟩
      | past lastAddr =>
        have hto' : Chain c.fullBuffer lastAddr := (hto c.fullBuffer c.sameHeads).mp hchain
        obtain ⟨xe, hfind, hxe⟩ := findFromLast_chain hchain hto' index name
        dsimp only
        rw [hfind, ok_bind]
        exact hdone hxe.checkEntry_cases
    · have hfuel : c.fullBuffer.length < xattrHeaderSize + 4 * c.fullBuffer.length := by omega
      obtain ⟨xe, hfind, hxe⟩ := findXattrFrom_chain hchain index name hfuel
      rw [inlineWalk, if_neg hinline, ok_bind]
      simp only [findFromLast, findXattr, Nat.zero_add, ne_eq, not_true_eq_false, if_false, hfind,
        ok_bind]
      exact hdone hxe.checkEntry_cases

/-- The value of an entry that lies in the buffer. -/
theorem EntryIn.read_value {i : UInt8} {len size : Nat} (h : EntryIn b e)
    (hhead : entryHead b e = .ok (i, len, size)) :
    ∃ v, Splice.read b (e + xattrEntrySize + len) size = some v := by
  obtain ⟨i', len', lo, hi, his, hend⟩ := h
  have hfields := fields_le len' lo hi
  rw [his.head] at hhead
  cases hhead
  exact ⟨_, if_pos (by simp only [xattrEntrySize]; omega)⟩

theorem XattrContent.Closed.getWalk (h : c.Closed) (index : UInt8) (name : Bytes)
    (buffer : Option Nat) : getWalk c index name buffer ≠ .error .fault := by
  rw [F2fs.Xattr.getWalk]
  split
  · nofun
  · rcases h.lookupWalk_cases index name with hnone | ⟨xe, b, hok, hentry⟩
    · rw [hnone]
      nofun
    · obtain ⟨i, len, lo, hi, his, -⟩ := id hentry
      rw [hok, ok_bind]
      simp only [his.head, ok_bind]
      cases buffer with
      | none => nofun
      | some bufferSize =>
        by_cases hsize : lo.toNat + 256 * hi.toNat > bufferSize
        · simp only [if_pos hsize]
          nofun
        · obtain ⟨v, hv⟩ := hentry.read_value his.head
          simp only [if_neg hsize, hv, access_some, ok_bind]
          nofun

theorem XattrContent.Closed.listWalk (h : c.Closed) (handler : UInt8 → Option Bytes)
    (buffer : Option Nat) : listWalk c handler buffer ≠ .error .fault := by
  obtain ⟨b, hb, -, hdrop⟩ := c.allBuffer_eq
  have hchain := chain_of_entryList (hdrop ▸ h.all) rfl
  have hpos := hchain.head_in
  rw [F2fs.Xattr.listWalk, hb, ok_bind]
  exact listxattrFrom_chain hchain handler buffer (by omega) 0 []

/-! ### The walks of setxattr -/

theorem EntryIn.valueSame (h : EntryIn b e) (value : Bytes) :
    ∃ x, xattrValueSame b e value = .ok x := by
  obtain ⟨i, len, lo, hi, his, -⟩ := id h
  rw [xattrValueSame, his.head, ok_bind]
  by_cases hsize : lo.toNat + 256 * hi.toNat ≠ value.length
  · exact ⟨false, if_pos hsize⟩
  · obtain ⟨v, hv⟩ := h.read_value his.head
    simp only [if_neg hsize, hv, access_some, ok_bind]
    exact ⟨_, rfl⟩

theorem removeEntry_ok {here last oldsize : Nat} (hsize : entrySize b here = .ok oldsize)
    (hnext : nextEntry b here = .ok (here + oldsize)) (hle : here + oldsize ≤ last)
    (hlast : last + 4 ≤ b.length) :
    ∃ b', removeEntry b here last = .ok (b', last - oldsize) ∧ b'.length = b.length := by
  have htail : ((b.drop (here + oldsize)).take (last - (here + oldsize))).length =
      last - (here + oldsize) := by
    rw [List.length_take, List.length_drop]
    omega
  obtain ⟨b₁, hb₁, hlen₁⟩ := exists_write (b := b) (show here +
    ((b.drop (here + oldsize)).take (last - (here + oldsize))).length ≤ b.length by omega)
  obtain ⟨b₂, hb₂, hlen₂⟩ := exists_write (b := b₁) (show last - oldsize +
    (List.replicate oldsize (0 : UInt8)).length ≤ b₁.length by
      rw [List.length_replicate]
      omega)
  refine ⟨b₂, ?_, hlen₂.trans hlen₁⟩
  rw [removeEntry, hnext, ok_bind, hsize, ok_bind, Splice.read, if_pos (by omega), access_some,
    ok_bind, hb₁, access_some, ok_bind, hb₂, access_some, ok_bind]
  rfl

theorem writeEntry_ok {last : Nat} (index : UInt8) (name value : Bytes)
    (hfit : last + (xattrEntrySize + name.length + value.length) ≤ b.length) :
    ∃ b', writeEntry b last index name value = .ok b' := by
  simp only [xattrEntrySize] at hfit
  let head : Bytes := [index, UInt8.ofNat name.length, UInt8.ofNat (value.length % 256),
    UInt8.ofNat (value.length / 256)]
  obtain ⟨b₁, hb₁, hlen₁⟩ := exists_write (b := b) (show last + head.length ≤ b.length by
    rw [show head.length = 4 from rfl]
    omega)
  obtain ⟨b₂, hb₂, hlen₂⟩ := exists_write (b := b₁)
    (show last + xattrEntrySize + name.length ≤ b₁.length by
      simp only [xattrEntrySize]
      omega)
  obtain ⟨b₃, hb₃, -⟩ := exists_write (b := b₂)
    (show last + xattrEntrySize + name.length + value.length ≤ b₂.length by
      simp only [xattrEntrySize]
      omega)
  refine ⟨b₃, ?_⟩
  rw [writeEntry, hb₁, access_some, ok_bind, hb₂, access_some, ok_bind, hb₃]
  rfl

theorem addNewEntry_ok {last : Nat} (index : UInt8) (name : Bytes) (value : Option Bytes)
    (hfit : value.isSome → last + xattrAlign (xattrEntrySize + name.length +
      (value.getD []).length) ≤ b.length) :
    ∃ r, addNewEntry b last index name value = .ok r := by
  cases value with
  | none => exact ⟨_, rfl⟩
  | some v =>
    have hle := le_xattrAlign (xattrEntrySize + name.length + v.length)
    have hroom := hfit rfl
    rw [Option.getD_some] at hroom
    obtain ⟨b', hb'⟩ := writeEntry_ok index name v
      (Nat.le_trans (Nat.add_le_add_left hle last) hroom)
    rw [addNewEntry, hb', ok_bind]
    exact ⟨_, rfl⟩

theorem alreadySet_ok (hentry : isLastEntry b e = .ok false → EntryIn b e) {found : Bool}
    (hfound : isLastEntry b e = .ok (!found)) (value : Option Bytes) :
    ∃ x, alreadySet b e found value = .ok x := by
  cases found with
  | false => exact ⟨false, by cases value <;> rfl⟩
  | true =>
    cases value with
    | none => exact ⟨false, rfl⟩
    | some v => exact (hentry hfound).valueSame v

/-- The old entry, if there is one, taken out. -/
theorem dropOldEntry_ok {last : Nat} {found : Bool} (hfound : isLastEntry b e = .ok (!found))
    (hlastin : last + 4 ≤ b.length)
    (hlast : isLastEntry b e = .ok true ∧ last = e ∨ ∃ e', nextEntry b e = .ok e' ∧ e' ≤ last) :
    ∃ oldsize b₁ last₁, oldEntrySize b e found = .ok oldsize ∧
      dropOldEntry b e last found = .ok (b₁, last₁) ∧ b₁.length = b.length ∧
      last₁ + oldsize = last := by
  cases found with
  | false => exact ⟨0, b, last, rfl, rfl, rfl, rfl⟩
  | true =>
    obtain ⟨i, len, lo, hi, his⟩ := exists_head (head_in_of_isLast hfound)
    obtain ⟨e', hnext, hle⟩ := hlast.resolve_left fun hend => by
      rw [hfound] at hend
      cases hend.1
    rw [his.next] at hnext
    cases hnext
    obtain ⟨b₁, hb₁, hlen⟩ := removeEntry_ok his.size his.next hle hlastin
    exact ⟨_, b₁, _, his.size, hb₁, hlen, by omega⟩

theorem XattrContent.Closed.setWalk (h : c.Closed) (index : UInt8) (name : Bytes)
    (value : Option Bytes) (flags : XattrFlags) :
    setWalk c index name value flags ≠ .error .fault := by
  obtain ⟨b, hb, hlen, hdrop⟩ := c.allBuffer_eq
  have hchain := chain_of_entryList (hdrop ▸ h.all) rfl
  have hpos := hchain.head_in
  have hall := c.length_allBytes
  have hroom : xattrAlign (c.inline.length + validXattrBlockSize) ≤ b.length := by
    rw [hlen, hall, xattrAlign_of_mod]
    · exact Nat.le_add_right _ _
    · rw [c.inline_length, validXattrBlockSize]
      omega
  have hfuel : b.length < xattrHeaderSize + 4 * b.length := by omega
  obtain ⟨here, hfind, hhere⟩ := findXattrFrom_chain hchain index name hfuel
  have hherein := hhere.head_in
  obtain ⟨i, len, lo, hi, his⟩ := exists_head hherein
  have hfuel' : b.length < here + 4 * b.length := by omega
  obtain ⟨last, hrun, hlastin, hlast⟩ := lastEntryFrom_chain hhere hfuel'
  obtain ⟨found, hfound⟩ : ∃ found, isLastEntry b here = .ok (!found) :=
    ⟨!decide ([i, len, lo, hi] = [0, 0, 0, 0]), by rw [Bool.not_not]; exact his.isLast⟩
  have hentry : isLastEntry b here = .ok false → EntryIn b here := fun hnot => by
    obtain ⟨-, hend⟩ := hhere.entry_in hnot his
    exact ⟨i, len, lo, hi, his, by omega⟩
  obtain ⟨same, hsame⟩ := alreadySet_ok hentry hfound value
  obtain ⟨oldsize, b₁, last₁, hold, hdropped, hlen₁, hlast₁⟩ := dropOldEntry_ok hfound hlastin hlast
  have hfindx : findXattr b 0 index name = .ok here := by
    rw [findXattr, Nat.zero_add]
    exact hfind
  rw [F2fs.Xattr.setWalk, editXattrs]
  split
  · nofun
  split
  · nofun
  rw [hb, ok_bind, hfindx, ok_bind, hfound, ok_bind, Bool.not_not]
  dsimp only
  split
  · nofun
  split
  · nofun
  rw [hsame, ok_bind]
  split
  · nofun
  rw [hrun, ok_bind, hold, ok_bind]
  split
  · nofun
  next hspace =>
    -- there is room for the new entry behind the others
    have hfit : value.isSome → last₁ + xattrAlign (xattrEntrySize + name.length +
        (value.getD []).length) ≤ b₁.length := by
      intro hsome
      have hnot : ¬((xattrAlign (c.inline.length + validXattrBlockSize) : Int) - last + oldsize <
          (xattrAlign (xattrEntrySize + name.length + (value.getD []).length) : Nat)) :=
        fun hlt => hspace ⟨hsome, hlt⟩
      omega
    obtain ⟨r, hr⟩ := addNewEntry_ok index name value hfit
    rw [hdropped, ok_bind]
    dsimp only
    rw [hr, ok_bind]
    nofun

end

/-! ## Exactly the closed contents -/

theorem XattrContent.length_lookupBuffer_lt (c : XattrContent) :
    c.lookupBuffer.length < 2 ^ 24 := by
  have hlen := c.inline_length
  have hwords := c.words_lt
  unfold XattrContent.lookupBuffer
  simp only [List.length_append, List.length_replicate, validXattrBlockSize, xattrPaddingSize]
  split <;> omega

/-- With a block, listing walks over all entries. -/
theorem closed_of_list {c : XattrContent} {blk : Bytes} (hblock : c.block = some blk)
    (h : listWalk c (fun _ => none) none ≠ .error .fault) : c.Closed := by
  obtain ⟨b, hb, -, hdrop⟩ := c.allBuffer_eq
  rw [listWalk, hb, ok_bind] at h
  have hlist := entryList_of_chain (chain_of_listxattrFrom h)
  rw [hdrop, XattrContent.allBytes, hblock] at hlist
  refine Or.inr ?_
  rw [XattrContent.fullBuffer, hblock]
  exact hlist

/-- Without one, looking for a name that is not there does. -/
theorem closed_of_get {c : XattrContent} (hblock : c.block = none)
    (h : ∀ name, getWalk c 1 name none ≠ .error .fault) : c.Closed := by
  by_cases hinline : c.inline = []
  · exact Or.inl ⟨hblock, hinline⟩
  have hbuf : c.lookupBuffer = c.fullBuffer := by
    rw [XattrContent.lookupBuffer, XattrContent.fullBuffer, hblock, Option.getD_none,
      List.append_nil]
    rfl
  have hne : c.inline.length ≠ 0 := fun hzero => hinline (List.length_eq_zero_iff.mp hzero)
  have hpad : c.inline.length + 4 ≤ c.lookupBuffer.length := by
    rw [hbuf, XattrContent.fullBuffer, List.length_append, List.length_append,
      List.length_replicate]
    exact Nat.add_le_add_right (Nat.le_add_right _ _) 4
  obtain ⟨name, hname, habsent⟩ := exists_absent c.length_lookupBuffer_lt
  have hno := sameName_absent hname habsent
  have hget := h name
  have hlong : ¬name.length > f2fsNameLen := by
    rw [hname, f2fsNameLen]
    omega
  rw [getWalk, if_neg hlong, lookupWalk, if_neg fun hboth => hne hboth.2, inlineWalk,
    if_pos hne, findInlineXattr] at hget
  refine Or.inr (entryList_of_chain ?_)
  by_cases hin : xattrHeaderSize + 4 ≤ c.lookupBuffer.length
  · have hfuel : c.lookupBuffer.length < xattrHeaderSize + 4 * c.lookupBuffer.length := by omega
    obtain ⟨r, hrun, hstop, hge, -, hto⟩ := findInlineXattrFrom_stops hpad hin hfuel 1 name
    refine (hto c.fullBuffer c.sameHeads).mpr ?_
    rw [hrun, ok_bind] at hget
    cases r with
    | entry xe =>
      rcases hstop with hend | ⟨hsame, -⟩
      · exact .last (hbuf ▸ hend)
      · exact absurd hsame (hno xe 1)
    | past lastAddr =>
      have hge' : lastAddr ≠ 0 := Nat.pos_iff_ne_zero.mp (Nat.lt_of_lt_of_le (by decide) hge)
      dsimp only at hget
      rw [findFromLast, if_pos hge'] at hget
      have hwalk : findXattrFrom c.fullBuffer 1 name c.fullBuffer.length lastAddr ≠
          .error .fault := fun hfault => by
        rw [hfault] at hget
        exact absurd rfl hget
      exact chain_of_findXattrFrom (hbuf ▸ fun e => hno e 1) hwalk
  · obtain ⟨k, hk⟩ : ∃ k, c.lookupBuffer.length = k + 1 := ⟨c.lookupBuffer.length - 1, by omega⟩
    rw [hk, findInlineXattrFrom, isLastEntry_fault hin] at hget
    exact absurd rfl hget

/-- The walks stay in their buffers exactly over closed contents. -/
theorem walksStay_iff (c : XattrContent) : WalksStay c ↔ c.Closed := by
  constructor
  · intro h
    cases hblock : c.block with
    | none => exact closed_of_get hblock fun name => h.get 1 name none
    | some blk => exact closed_of_list hblock (h.list _ none)
  · intro h
    exact ⟨h.getWalk, h.listWalk, h.setWalk⟩

/-- An inline area of the default size, of which the one entry has a value of 65535 bytes. -/
def longValue : XattrContent where
  words := 50
  inline := List.replicate 24 0 ++ [1, 0, 255, 255] ++ List.replicate 172 0
  block := none
  words_lt := by decide
  inline_length := rfl
  block_length := nofun

theorem longValue_overread : ¬WalksStay longValue := fun h =>
  h.get 1 [0x61] none (by decide +kernel)

/-! ## The calls -/

/-- The pages can be read. -/
structure XattrEnv.Readable (env : XattrEnv) : Prop where
  nomem : env.nomem = false
  inodePage : env.inodePage = true
  xattrPage : env.xattrPage = true

/-- The inode block and the xattr block hold the contents; the inline part lies in
    `i_addr[]`. -/
structure Holds (inode : XattrInode) (c : XattrContent) : Prop where
  sized : WellSized inode
  inline : inlineBytes inode = c.inline
  block : inode.xattrBlock = c.block

section

variable {inode : XattrInode} {c : XattrContent} {env : XattrEnv}

theorem Holds.bytes_eq (h : Holds inode c) : inlineXattrBytes inode = c.inline.length := by
  rw [← h.sized.length_inline, h.inline]

theorem Holds.readInlinePart_eq (h : Holds inode c) (henv : env.Readable) (n : Nat) :
    readInlinePart env inode (List.replicate (inlineXattrBytes inode + n) 0) =
      .ok (c.inline ++ List.replicate n 0) := by
  rw [h.sized.firstRead_eq, if_neg (by rw [henv.inodePage]; simp), h.inline]

theorem Holds.lookupAllXattrs_eq (h : Holds inode c) (henv : env.Readable) (index : UInt8)
    (name : Bytes) : lookupAllXattrs env inode index name = lookupWalk c index name := by
  have hsize : (if inode.xattrBlock.isSome then validXattrBlockSize else 0) = 0 ↔
      c.block.isNone := by
    rw [h.block]
    cases c.block <;> simp
  have hfirst : readInlinePart env inode (List.replicate (inlineXattrBytes inode +
      (if inode.xattrBlock.isSome then validXattrBlockSize else 0) + xattrPaddingSize) 0) =
      .ok c.lookupBuffer := by
    rw [Nat.add_assoc, h.readInlinePart_eq henv, h.block]
    rfl
  have hsecond : readBlockPart env inode c.lookupBuffer = .ok c.fullBuffer := by
    rw [readBlockPart, h.block, XattrContent.lookupBuffer, XattrContent.fullBuffer]
    cases hb : c.block with
    | none => simp
    | some blk =>
      have hlen : blk.length = (List.replicate validXattrBlockSize (0 : UInt8)).length := by
        rw [List.length_replicate, c.block_length blk hb]
      simp only [readXattrBlock, henv.xattrPage, Bool.not_true, Bool.false_eq_true, if_false,
        h.bytes_eq, Option.isSome_some, if_true, Option.getD_some]
      rw [← List.replicate_append_replicate, ← List.append_assoc,
        Splice.write_middle rfl hlen]
      rfl
  rw [lookupAllXattrs, lookupWalk]
  simp only [hsize, h.bytes_eq, henv.nomem, Bool.false_eq_true, if_false]
  rw [h.bytes_eq] at hfirst
  rw [hfirst, ok_bind, findInlinePart, h.bytes_eq]
  split
  · rfl
  refine congrArg (Except.bind (inlineWalk c index name)) (funext fun found => ?_)
  cases found with
  | entry xe => rfl
  | past lastAddr =>
    dsimp only
    rw [hsecond, ok_bind]

/-- `f2fs_getxattr` walks over what it reads. -/
theorem Holds.getxattr_eq (h : Holds inode c) (henv : env.Readable) (index : UInt8) (name : Bytes)
    (buffer : Option Nat) :
    getxattr env inode index name buffer = getWalk c index name buffer := by
  rw [getxattr, h.lookupAllXattrs_eq henv]
  rfl

theorem Holds.readAllXattrs_eq (h : Holds inode c) (henv : env.Readable) :
    readAllXattrs env inode = c.allBuffer := by
  have hsecond : readBlockPart env inode (inlineBytes inode ++ List.replicate
      (validXattrBlockSize + xattrPaddingSize) 0) = .ok c.allBytes := by
    rw [h.sized.secondRead_eq, if_neg (by rw [henv.xattrPage]; simp), area, h.inline, h.block]
    rfl
  rw [readAllXattrs, henv.nomem, if_neg Bool.false_ne_true, Nat.add_assoc]
  dsimp only
  rw [h.readInlinePart_eq henv, ok_bind, ← h.inline, hsecond, ok_bind]
  rfl

/-- `f2fs_listxattr` walks over what it reads. -/
theorem Holds.listxattr_eq (h : Holds inode c) (henv : env.Readable)
    (handler : UInt8 → Option Bytes) (buffer : Option Nat) :
    listxattr env inode handler buffer = listWalk c handler buffer := by
  rw [listxattr, listWalk, h.readAllXattrs_eq henv]

/-- What is written at the end of `__f2fs_setxattr`. -/
def writeEdited (env : XattrEnv) (inode : XattrInode) :
    Option (Bytes × Nat) → XattrM XattrInode
  | none => .ok inode
  | some (b, hsize) => writeAllXattrs env inode hsize b

/-- `__f2fs_setxattr` edits what it reads and writes it back. -/
theorem setxattr_eq_edit (env : XattrEnv) (inode : XattrInode) (index : UInt8) (name : Bytes)
    (value : Option Bytes) (flags : XattrFlags) : setxattr env inode index name value flags =
      editXattrs (minOffset inode) (readAllXattrs env inode) index name value flags >>=
        writeEdited env inode := by
  rw [setxattr, editXattrs, maxValueLen]
  dsimp only
  split
  · rfl
  split
  · rfl
  cases readAllXattrs env inode with
  | error e => rfl
  | ok b =>
    simp only [ok_bind]
    cases findXattr b 0 index name with
    | error e => rfl
    | ok here =>
      simp only [ok_bind]
      cases isLastEntry b here with
      | error e => rfl
      | ok isLast =>
        simp only [ok_bind]
        split
        · rfl
        split
        · rfl
        cases alreadySet b here (!isLast) value with
        | error e => rfl
        | ok same =>
          simp only [ok_bind]
          split
          · rfl
          cases lastEntryFrom b b.length here with
          | error e => rfl
          | ok last =>
            simp only [ok_bind]
            cases oldEntrySize b here (!isLast) with
            | error e => rfl
            | ok oldsize =>
              simp only [ok_bind]
              split
              · rfl
              cases dropOldEntry b here last (!isLast) with
              | error e => rfl
              | ok r =>
                cases value with
                | none => rfl
                | some v =>
                  cases hw : writeEntry r.1 r.2 index name v with
                  | error e =>
                    simp only [ok_bind, storeNewEntry, addNewEntry, hw]
                    rfl
                  | ok b' =>
                    simp only [ok_bind, storeNewEntry, addNewEntry, hw]
                    rfl

theorem Holds.setxattr_eq (h : Holds inode c) (henv : env.Readable) (index : UInt8)
    (name : Bytes) (value : Option Bytes) (flags : XattrFlags) :
    setxattr env inode index name value flags =
      setWalk c index name value flags >>= writeEdited env inode := by
  rw [setxattr_eq_edit, setWalk, h.readAllXattrs_eq henv, minOffset, h.bytes_eq]

end

end F2fs.Xattr

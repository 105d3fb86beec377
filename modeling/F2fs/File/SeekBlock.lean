/-
  `f2fs_seek_block`: `SEEK_DATA` and `SEEK_HOLE`.

  The search goes from direct node to direct node as long as it is below `i_size`, but it goes
  through a direct node to its end.  Which preallocated blocks hold data it does not ask for
  each block: there is one dirty index, that of the first dirty page from the start on.  So a
  block behind `i_size` can be found, and a preallocated one below it can be missed.
-/
import F2fs.File.DnodeLookup
import F2fs.Lib.Loop

namespace F2fs.File

open F2fs.Node F2fs.Truncate
open Loop (Turn)

/-! ## `f2fs_seek_block` -/

/-- `SEEK_DATA`, `SEEK_HOLE`. -/
inductive Whence where
  | data | hole
  deriving DecidableEq

/-- `ULONG_MAX`. -/
def ulongMax : Nat := 2 ^ 64 - 1

/-- `s_maxbytes`. -/
def maxbytes : Nat := maxFileBlocks * pageSize

/-- `__get_first_dirty_index`; `dirty` holds the indices of the dirty pages. -/
def getFirstDirtyIndex (dirty : Finset Nat) (pgofs : Nat) : Whence → Nat
  | .data => (dirty.filter (pgofs ≤ ·)).min.untopD ulongMax
  | .hole => 0

/-- `__found_offset`. -/
def foundOffset (blkaddr dirty pgofs : Nat) : Whence → Bool
  | .data =>
    decide ((blkaddr = newAddr ∧ dirty = pgofs) ∨ (blkaddr ≠ newAddr ∧ blkaddr ≠ nullAddr))
  | .hole => decide (blkaddr = nullAddr)

inductive SeekRet where
  | offset (ofs : Nat)
  | enxio
  | einval
  deriving DecidableEq

/-- `vfs_setpos` with `s_maxbytes`. -/
def vfsSetpos (ofs : Nat) : SeekRet := if ofs > maxbytes then .einval else .offset ofs

/-- The variables of the loop, with the number of the round. -/
structure SeekState where
  turn : Nat
  pgofs : Nat
  dataOfs : Nat

/-- "find data/hole in dnode block", with `n` slots to go: whether there is one, `pgofs` and
    `data_ofs`. -/
def seekInDnode (addr : Nat → Nat) (dirty : Nat) (whence : Whence) :
    Nat → Nat → Nat → Nat → Bool × Nat × Nat
  | 0, _, pgofs, dataOfs => (false, pgofs, dataOfs)
  | n + 1, ofsInNode, pgofs, dataOfs =>
    if foundOffset (addr ofsInNode) dirty pgofs whence then (true, pgofs, dataOfs)
    else seekInDnode addr dirty whence n (ofsInNode + 1) (pgofs + 1) ((pgofs + 1) * pageSize)

section

variable (file : MappedFile)

/-- One round of the loop over the direct nodes.  It leaves with `data_ofs` for `found:`, or
    with nothing for `fail:`. -/
def seekRound (reads : Nat → NodeReads) (isize dirty : Nat) (whence : Whence) (st : SeekState) :
    Turn SeekState (Option Nat) :=
  if st.dataOfs < isize then
    match getDnodeOfData file (reads st.turn) st.pgofs with
    | .error dn =>
      if dn.err ≠ .enoent then .done none
      -- direct node does not exists
      else if whence = .data then
        let pgofs := getNextPageOffset file.layout.addrsPerInode dn st.pgofs
        .next ⟨st.turn + 1, pgofs, pgofs * pageSize⟩
      else .done (some st.dataOfs)
    | .ok (page, ofsInNode) =>
      match seekInDnode (dataAddr file.layout file.index page) dirty whence
        (addrsPerPage file.layout page - ofsInNode) ofsInNode st.pgofs st.dataOfs with
      | (true, _, dataOfs) => .done (some dataOfs)
      | (false, pgofs, _) => .next ⟨st.turn + 1, pgofs, pgofs * pageSize⟩
  else if whence = .data then .done none
  else .done (some st.dataOfs)

/-- From `found:` on. -/
def seekFound (isize : Nat) (whence : Whence) (dataOfs : Nat) : SeekRet :=
  vfsSetpos (if whence = .hole ∧ dataOfs > isize then isize else dataOfs)

/-- Behind the loop: `found:` or `fail:`. -/
def seekLeave (isize : Nat) (whence : Whence) : Option Nat → SeekRet
  | some dataOfs => seekFound isize whence dataOfs
  | none => .enxio

/-- `f2fs_seek_block`, for offsets that `f2fs_llseek` lets through. -/
def f2fsSeekBlock (reads : Nat → NodeReads) (isize offset : Nat) (dirty : Finset Nat)
    (whence : Whence) (fuel : Nat) : Option SeekRet :=
  if offset ≥ isize then some .enxio
  else if file.inlineData then
    some (seekFound isize whence (if whence = .hole then isize else offset))
  else
    let pgofs := offset / pageSize
    let dirty := getFirstDirtyIndex dirty pgofs whence
    (Loop.run (seekRound file reads isize dirty whence) fuel ⟨0, pgofs, offset⟩).map
      (seekLeave isize whence)

end

/-! ## What a search is for -/

/-- A data block: stored, or preallocated with a dirty page. -/
def IsData (file : MappedFile) (dirty : Finset Nat) (b : Nat) : Prop :=
  file.blockAddr b ≠ nullAddr ∧ (file.blockAddr b = newAddr → b ∈ dirty)

/-- The least offset from `offset` on, below `isize`, in a block that satisfies `P`. -/
def FirstOffset (P : Nat → Prop) (offset isize ofs : Nat) : Prop :=
  offset ≤ ofs ∧ ofs < isize ∧ P (ofs / pageSize) ∧
    ∀ o, offset ≤ o → o < ofs → ¬P (o / pageSize)

/-- There is none. -/
def NoOffset (P : Nat → Prop) (offset isize : Nat) : Prop :=
  ∀ o, offset ≤ o → o < isize → ¬P (o / pageSize)

/-- What a search is to return. -/
def SeekExact (file : MappedFile) (dirty : Finset Nat) (isize offset : Nat) (ret : SeekRet) :
    Whence → Prop
  | .data =>
    (∃ ofs, ret = .offset ofs ∧ FirstOffset (IsData file dirty) offset isize ofs) ∨
      (ret = .enxio ∧ NoOffset (IsData file dirty) offset isize)
  | .hole =>
    (∃ ofs, ret = .offset ofs ∧ FirstOffset file.Hole offset isize ofs) ∨
      (ret = .offset isize ∧ offset < isize ∧ NoOffset file.Hole offset isize) ∨
      (ret = .enxio ∧ isize ≤ offset)

/-- Block `b` is in the direct node of block `a`, and not in front of it. -/
def SameDnode (file : MappedFile) (a b : Nat) : Prop :=
  ∃ page ofs, getDnodeOfData file noFailure a = .ok (page, ofs) ∧ a ≤ b ∧
    ofs + (b - a) < addrsPerPage file.layout page

/-- `m` is the first dirty page from block `p₀` on. -/
def FirstDirty (dirty : Finset Nat) (p₀ m : Nat) : Prop := IsLeast {i | i ∈ dirty ∧ p₀ ≤ i} m

/-- When `SEEK_DATA` is right.  If there is data below `i_size`, the first data block is stored
    or has the first dirty page; if there is none, the direct node of the last block below
    `i_size` has no stored block behind it, and no preallocated one with the first dirty page. -/
structure SeeksRight (file : MappedFile) (dirty : Finset Nat) (isize offset : Nat) : Prop where
  first : ∀ m, IsLeast {b | offset / pageSize ≤ b ∧ b ≤ (isize - 1) / pageSize ∧
    IsData file dirty b} m → file.blockAddr m = newAddr → FirstDirty dirty (offset / pageSize) m
  behind : (∀ b, offset / pageSize ≤ b → b ≤ (isize - 1) / pageSize → ¬IsData file dirty b) →
    ∀ b, (isize - 1) / pageSize < b → SameDnode file ((isize - 1) / pageSize) b →
      file.blockAddr b = nullAddr ∨
        (file.blockAddr b = newAddr ∧ ¬FirstDirty dirty (offset / pageSize) b)

/-! ## Offsets and blocks -/

/-- The first offset of the search in block `b`. -/
def firstByte (offset b : Nat) : Nat := if b = offset / pageSize then offset else b * pageSize

section

variable {P : Nat → Prop} {offset isize b : Nat}

theorem lastBlock_lt (hlt : offset < isize) (hsize : isize ≤ maxbytes) :
    (isize - 1) / pageSize < maxFileBlocks := by
  rw [Nat.div_lt_iff_lt_mul (by decide)]
  exact Nat.lt_of_lt_of_le (by omega) hsize

theorem firstByte_of_lt (hb : offset / pageSize < b) : firstByte offset b = b * pageSize :=
  if_neg (by omega)

theorem firstByte_div : firstByte offset b / pageSize = b := by
  unfold firstByte
  split
  · rename_i h
    exact h.symm
  · exact Nat.mul_div_cancel b (by decide)

theorem le_firstByte (hb : offset / pageSize ≤ b) : offset ≤ firstByte offset b := by
  unfold firstByte
  unfold pageSize at hb ⊢
  split <;> omega

theorem firstByte_lt_iff (hlt : offset < isize) :
    firstByte offset b < isize ↔ b ≤ (isize - 1) / pageSize := by
  unfold firstByte
  unfold pageSize
  split <;> omega

theorem firstOffset_firstByte (hlt : offset < isize) (hb : offset / pageSize ≤ b)
    (hle : b ≤ (isize - 1) / pageSize) (hP : P b)
    (hfirst : ∀ c, offset / pageSize ≤ c → c < b → ¬P c) :
    FirstOffset P offset isize (firstByte offset b) := by
  refine ⟨le_firstByte hb, (firstByte_lt_iff hlt).mpr hle, ?_, fun o ho hlt' => ?_⟩
  · rwa [firstByte_div]
  · refine hfirst _ (Nat.div_le_div_right ho) ?_
    unfold firstByte pageSize at *
    split at hlt' <;> omega

theorem noOffset_iff (hlt : offset < isize) : NoOffset P offset isize ↔
    ∀ b, offset / pageSize ≤ b → b ≤ (isize - 1) / pageSize → ¬P b := by
  constructor
  · intro h b hb hle
    have hno := h _ (le_firstByte hb) ((firstByte_lt_iff hlt).mpr hle)
    rwa [firstByte_div] at hno
  · intro h o ho hlt'
    exact h _ (Nat.div_le_div_right ho) (Nat.div_le_div_right (by omega))

end

/-! ## The search -/

/-- What the search stops at. -/
def Found (file : MappedFile) (dirty : Nat) (whence : Whence) (b : Nat) : Prop :=
  foundOffset (file.blockAddr b) dirty b whence = true

/-- Where a search has come to, from block `p₀` on; `P` is what it looks for, and the block
    `last` the last one below `i_size`. -/
structure SeekInv (file : MappedFile) (P : Nat → Prop) (offset last : Nat) (st : SeekState) :
    Prop where
  le : offset / pageSize ≤ st.pgofs
  dataOfs : st.dataOfs = firstByte offset st.pgofs
  none : ∀ b, offset / pageSize ≤ b → b < st.pgofs → ¬P b
  behind : last < st.pgofs → ∀ b, SameDnode file last b → ¬P b

/-- What a search leaves with. -/
def SeekDone (file : MappedFile) (P : Nat → Prop) (offset isize last : Nat) (whence : Whence)
    (r : Option Nat) : Prop :=
  (∃ b, r = some (firstByte offset b) ∧ offset / pageSize ≤ b ∧ P b ∧
    (∀ c, offset / pageSize ≤ c → c < b → ¬P c) ∧ (b ≤ last ∨ SameDnode file last b)) ∨
  ((∀ b, offset / pageSize ≤ b → b ≤ last → ¬P b) ∧ (∀ b, SameDnode file last b → ¬P b) ∧
    ((whence = .data ∧ r = none) ∨ (whence = .hole ∧ ∃ ofs, isize ≤ ofs ∧ r = some ofs)))

section

variable {file : MappedFile} {addr : Nat → Nat} {dirty isize offset : Nat} {whence : Whence}
  {st : SeekState}

theorem newAddr_ne_nullAddr : newAddr ≠ nullAddr := by decide

theorem foundOffset_data {a b : Nat} : foundOffset a dirty b .data = true ↔
    (a = newAddr ∧ dirty = b) ∨ (a ≠ newAddr ∧ a ≠ nullAddr) := decide_eq_true_iff

theorem foundOffset_hole {a b : Nat} : foundOffset a dirty b .hole = true ↔ a = nullAddr :=
  decide_eq_true_iff

theorem not_found_data {b : Nat} (h : file.Hole b) : ¬Found file dirty .data b := by
  unfold Found
  rw [foundOffset_data, show file.blockAddr b = nullAddr from h]
  exact fun hc => hc.elim (fun hn => newAddr_ne_nullAddr hn.1.symm) fun hs => hs.2 rfl

/-- The slots that are left of a direct node. -/
theorem seekInDnode_cases (addr : Nat → Nat) (dirty : Nat) (whence : Whence) :
    ∀ (n ofs pgofs dataOfs : Nat),
    (∃ j, j < n ∧ foundOffset (addr (ofs + j)) dirty (pgofs + j) whence = true ∧
      (∀ i, i < j → foundOffset (addr (ofs + i)) dirty (pgofs + i) whence = false) ∧
      seekInDnode addr dirty whence n ofs pgofs dataOfs =
        (true, pgofs + j, if j = 0 then dataOfs else (pgofs + j) * pageSize)) ∨
    ((∀ i, i < n → foundOffset (addr (ofs + i)) dirty (pgofs + i) whence = false) ∧
      (seekInDnode addr dirty whence n ofs pgofs dataOfs).1 = false ∧
      (seekInDnode addr dirty whence n ofs pgofs dataOfs).2.1 = pgofs + n) := by
  intro n
  induction n with
  | zero =>
    exact fun ofs pgofs dataOfs => Or.inr ⟨fun i hi => absurd hi (Nat.not_lt_zero i), rfl, rfl⟩
  | succ n ih =>
    intro ofs pgofs dataOfs
    rw [seekInDnode]
    cases hfound : foundOffset (addr ofs) dirty pgofs whence with
    | true =>
      exact Or.inl ⟨0, Nat.succ_pos n, hfound, fun i hi => absurd hi (Nat.not_lt_zero i), rfl⟩
    | false =>
      rw [if_neg Bool.false_ne_true]
      have hshift : ∀ i, ofs + 1 + i = ofs + (i + 1) ∧ pgofs + 1 + i = pgofs + (i + 1) :=
        fun i => ⟨by omega, by omega⟩
      have hbefore : ∀ m, (∀ i, i < m → foundOffset (addr (ofs + 1 + i)) dirty (pgofs + 1 + i)
          whence = false) → ∀ i, i < m + 1 →
            foundOffset (addr (ofs + i)) dirty (pgofs + i) whence = false := by
        intro m hm i hi
        rcases Nat.eq_zero_or_pos i with rfl | hpos
        · exact hfound
        · obtain ⟨i, rfl⟩ : ∃ i', i = i' + 1 := ⟨i - 1, by omega⟩
          have hi' := hm i (by omega)
          rwa [(hshift i).1, (hshift i).2] at hi'
      rcases ih (ofs + 1) (pgofs + 1) ((pgofs + 1) * pageSize) with
        ⟨j, hj, hat, hnone, heq⟩ | ⟨hnone, hfalse, hend⟩
      · rw [(hshift j).1, (hshift j).2] at hat
        refine Or.inl ⟨j + 1, Nat.succ_lt_succ hj, hat, hbefore j hnone, ?_⟩
        rw [heq, (hshift j).2, if_neg (Nat.succ_ne_zero j)]
        split
        case isTrue h0 => rw [h0]
        case isFalse => rfl
      · exact Or.inr ⟨hbefore n hnone, hfalse, hend.trans (hshift n).2⟩

section

variable (reads : Nat → NodeReads)

theorem seekRound_error {dn : LookupError} (hofs : st.dataOfs < isize)
    (hget : getDnodeOfData file (reads st.turn) st.pgofs = .error dn) (he : dn.err = .enoent) :
    seekRound file reads isize dirty whence st =
      if whence = .data then
        .next ⟨st.turn + 1, getNextPageOffset file.layout.addrsPerInode dn st.pgofs,
          getNextPageOffset file.layout.addrsPerInode dn st.pgofs * pageSize⟩
      else .done (some st.dataOfs) := by
  unfold seekRound
  rw [if_pos hofs, hget]
  exact if_neg (not_not_intro he)

theorem seekRound_found {page : DataPage} {ofs pgofs dataOfs : Nat} (hofs : st.dataOfs < isize)
    (hget : getDnodeOfData file (reads st.turn) st.pgofs = .ok (page, ofs))
    (hseek : seekInDnode (dataAddr file.layout file.index page) dirty whence
      (addrsPerPage file.layout page - ofs) ofs st.pgofs st.dataOfs = (true, pgofs, dataOfs)) :
    seekRound file reads isize dirty whence st = .done (some dataOfs) := by
  unfold seekRound
  rw [if_pos hofs, hget]
  dsimp only
  rw [hseek]

theorem seekRound_next {page : DataPage} {ofs pgofs dataOfs : Nat} (hofs : st.dataOfs < isize)
    (hget : getDnodeOfData file (reads st.turn) st.pgofs = .ok (page, ofs))
    (hseek : seekInDnode (dataAddr file.layout file.index page) dirty whence
      (addrsPerPage file.layout page - ofs) ofs st.pgofs st.dataOfs = (false, pgofs, dataOfs)) :
    seekRound file reads isize dirty whence st =
      .next ⟨st.turn + 1, pgofs, pgofs * pageSize⟩ := by
  unfold seekRound
  rw [if_pos hofs, hget]
  dsimp only
  rw [hseek]

end

/-- A round gets ahead or is the last one. -/
def RoundOk (file : MappedFile) (P : Nat → Prop) (offset isize last : Nat) (whence : Whence)
    (pgofs : Nat) : Turn SeekState (Option Nat) → Prop
  | .next st => SeekInv file P offset last st ∧ pgofs < st.pgofs ∧ pgofs ≤ last
  | .done r => SeekDone file P offset isize last whence r

/-- The search has passed `i_size`. -/
theorem roundOk_past {last : Nat}
    (h : SeekInv file (Found file dirty whence) offset last st) (hpast : last < st.pgofs)
    (hofs : isize ≤ st.dataOfs) :
    RoundOk file (Found file dirty whence) offset isize last whence st.pgofs
      (seekRound file (fun _ => noFailure) isize dirty whence st) := by
  have hnone : ∀ b, offset / pageSize ≤ b → b ≤ last → ¬Found file dirty whence b :=
    fun b hb hle => h.none b hb (Nat.lt_of_le_of_lt hle hpast)
  unfold seekRound
  rw [if_neg (Nat.not_lt.mpr hofs)]
  cases whence with
  | data =>
    rw [if_pos rfl]
    exact Or.inr ⟨hnone, h.behind hpast, Or.inl ⟨rfl, rfl⟩⟩
  | hole =>
    rw [if_neg nofun]
    exact Or.inr ⟨hnone, h.behind hpast, Or.inr ⟨rfl, st.dataOfs, hofs, rfl⟩⟩

/-- "direct node does not exists". -/
theorem roundOk_missing {last : Nat} {dn : LookupError}
    (h : SeekInv file (Found file dirty whence) offset last st) (hle : st.pgofs ≤ last)
    (hmax : last < maxFileBlocks) (hofs : st.dataOfs < isize)
    (hget : getDnodeOfData file noFailure st.pgofs = .error dn) :
    RoundOk file (Found file dirty whence) offset isize last whence st.pgofs
      (seekRound file (fun _ => noFailure) isize dirty whence st) := by
  have hlt : st.pgofs < maxFileBlocks := Nat.lt_of_le_of_lt hle hmax
  have hlt' : st.pgofs < 2 ^ 63 := Nat.lt_trans hlt (by decide)
  have he := enoent_of_noFailure hget hlt
  rw [seekRound_error (fun _ => noFailure) hofs hget he]
  cases whence with
  | hole =>
    rw [if_neg nofun]
    exact Or.inl ⟨st.pgofs, congrArg some h.dataOfs, h.le,
      foundOffset_hole.mpr (hole_of_error hget), h.none, Or.inl hle⟩
  | data =>
    have hahead := lt_getNextPageOffset hget he hlt'
    have hmissing := fun c => missing_before_next hget he hlt' (c := c)
    rw [if_pos rfl]
    generalize getNextPageOffset file.layout.addrsPerInode dn st.pgofs = next at *
    refine ⟨⟨Nat.le_of_lt (Nat.lt_of_le_of_lt h.le hahead), ?_, fun b hb hb' => ?_,
      fun hpast b hsame => ?_⟩, hahead, hle⟩
    · exact (firstByte_of_lt (Nat.lt_of_le_of_lt h.le hahead)).symm
    · rcases Nat.lt_or_ge b st.pgofs with hbs | hsb
      · exact h.none b hb hbs
      · exact not_found_data (hmissing b hsb hb').hole
    · obtain ⟨e, hlast⟩ := hmissing last hle hpast
      obtain ⟨page, ofs, hok, -⟩ := hsame
      rw [hlast] at hok
      cases hok

/-- "find data/hole in dnode block". -/
theorem roundOk_node {last : Nat} {page : DataPage} {ofs : Nat}
    (hinline : file.inlineData = false)
    (h : SeekInv file (Found file dirty whence) offset last st) (hle : st.pgofs ≤ last)
    (hmax : last < maxFileBlocks) (hofs : st.dataOfs < isize)
    (hget : getDnodeOfData file noFailure st.pgofs = .ok (page, ofs)) :
    RoundOk file (Found file dirty whence) offset isize last whence st.pgofs
      (seekRound file (fun _ => noFailure) isize dirty whence st) := by
  have hlt : st.pgofs < maxFileBlocks := Nat.lt_of_le_of_lt hle hmax
  have hlt' : st.pgofs < 2 ^ 63 := Nat.lt_trans hlt (by decide)
  have hslot := ofs_lt_addrsPerPage hget hlt'
  have hslots : ∀ j, ofs + j < addrsPerPage file.layout page →
      file.blockAddr (st.pgofs + j) = dataAddr file.layout file.index page (ofs + j) :=
    fun j hj => blockAddr_in_page hget hinline hlt' hj
  -- the slot of the last block below `i_size`, if it is in this direct node
  have hlast : ofs + (last - st.pgofs) < addrsPerPage file.layout page →
      getDnodeOfData file noFailure last = .ok (page, ofs + (last - st.pgofs)) := by
    intro hj
    have hfound := getDnodeOfData_in_page hget hinline hlt' hj
    rwa [Nat.add_sub_cancel' hle] at hfound
  have hbefore : ∀ n, n ≤ addrsPerPage file.layout page - ofs →
      (∀ i, i < n → foundOffset (dataAddr file.layout file.index page (ofs + i)) dirty
        (st.pgofs + i) whence = false) →
      ∀ b, offset / pageSize ≤ b → b < st.pgofs + n → ¬Found file dirty whence b := by
    intro n hn hnone b hb hbn
    rcases Nat.lt_or_ge b st.pgofs with hbs | hsb
    · exact h.none b hb hbs
    · obtain ⟨i, rfl⟩ := Nat.exists_eq_add_of_le hsb
      unfold Found
      rw [hslots i (by omega), hnone i (by omega)]
      exact Bool.false_ne_true
  have hfirst := h.le
  rcases seekInDnode_cases (dataAddr file.layout file.index page) dirty
    whence (addrsPerPage file.layout page - ofs) ofs st.pgofs st.dataOfs with
    ⟨j, hj, hat, hnone, heq⟩ | ⟨hnone, hfalse, hend⟩
  · rw [seekRound_found (fun _ => noFailure) hofs hget heq]
    refine Or.inl ⟨st.pgofs + j, congrArg some ?_, by omega, ?_, hbefore j (by omega) hnone, ?_⟩
    · rw [h.dataOfs]
      rcases Nat.eq_zero_or_pos j with rfl | hpos
      · rw [if_pos rfl, Nat.add_zero]
      · rw [if_neg (by omega), firstByte_of_lt (by omega)]
    · unfold Found
      rw [hslots j (by omega)]
      exact hat
    · rcases Nat.lt_or_ge last (st.pgofs + j) with hpast | hle'
      · exact Or.inr ⟨page, _, hlast (by omega), by omega, by omega⟩
      · exact Or.inl hle'
  · obtain ⟨dataOfs, heq⟩ : ∃ dataOfs, seekInDnode (dataAddr file.layout file.index page) dirty
        whence (addrsPerPage file.layout page - ofs) ofs st.pgofs st.dataOfs =
          (false, st.pgofs + (addrsPerPage file.layout page - ofs), dataOfs) :=
      ⟨_, Prod.ext hfalse (Prod.ext hend rfl)⟩
    rw [seekRound_next (fun _ => noFailure) hofs hget heq]
    have hall := hbefore _ (Nat.le_refl _) hnone
    refine ⟨⟨Nat.le_trans h.le (Nat.le_add_right _ _), ?_, hall, fun hpast b hsame => ?_⟩, ?_, hle⟩
    · exact (firstByte_of_lt (by omega)).symm
    · have hpast : last < st.pgofs + (addrsPerPage file.layout page - ofs) := hpast
      obtain ⟨page', ofs', hok, hb, hlt'⟩ := hsame
      rw [hlast (by omega)] at hok
      cases hok
      exact hall b (by omega) (by omega)
    · show st.pgofs < st.pgofs + (addrsPerPage file.layout page - ofs)
      omega

theorem seekRound_ok (hinline : file.inlineData = false) (hlt : offset < isize)
    (hsize : isize ≤ maxbytes)
    (h : SeekInv file (Found file dirty whence) offset ((isize - 1) / pageSize) st) :
    RoundOk file (Found file dirty whence) offset isize ((isize - 1) / pageSize) whence st.pgofs
      (seekRound file (fun _ => noFailure) isize dirty whence st) := by
  have hin : st.dataOfs < isize ↔ st.pgofs ≤ (isize - 1) / pageSize := by
    rw [h.dataOfs]
    exact firstByte_lt_iff hlt
  have hmax := lastBlock_lt hlt hsize
  by_cases hcont : st.dataOfs < isize
  · cases hget : getDnodeOfData file noFailure st.pgofs with
    | error dn => exact roundOk_missing h (hin.mp hcont) hmax hcont hget
    | ok r => exact roundOk_node hinline h (hin.mp hcont) hmax hcont hget
  · exact roundOk_past h (Nat.not_le.mp fun hc => hcont (hin.mpr hc)) (Nat.not_lt.mp hcont)

end

/-! ## What the search finds -/

section

variable {file : MappedFile} {dirty : Finset Nat} {isize offset b : Nat}

theorem firstDirty_iff {p₀ m : Nat} (hm : m ≠ ulongMax) :
    getFirstDirtyIndex dirty p₀ .data = m ↔ FirstDirty dirty p₀ m := by
  have hset : {i | i ∈ dirty ∧ p₀ ≤ i} = ↑(dirty.filter (p₀ ≤ ·)) :=
    (Finset.coe_filter (p₀ ≤ ·) dirty).symm
  unfold FirstDirty getFirstDirtyIndex
  rw [hset]
  rcases (dirty.filter (p₀ ≤ ·)).eq_empty_or_nonempty with hempty | hne
  · rw [hempty, Finset.min_empty, Finset.coe_empty]
    exact ⟨fun h => absurd h.symm hm, fun h => absurd h.1 (Set.notMem_empty m)⟩
  · rw [← Finset.coe_min' hne]
    have hleast := Finset.isLeast_min' _ hne
    exact ⟨fun h => h ▸ hleast, fun h => hleast.unique h⟩

theorem found_data_iff {p₀ : Nat} (hb : b ≠ ulongMax) :
    Found file (getFirstDirtyIndex dirty p₀ .data) .data b ↔
      (file.blockAddr b = newAddr ∧ FirstDirty dirty p₀ b) ∨
        (file.blockAddr b ≠ newAddr ∧ file.blockAddr b ≠ nullAddr) := by
  unfold Found
  rw [foundOffset_data, firstDirty_iff hb]

theorem isData_of_found {p₀ : Nat} (hb : b ≠ ulongMax)
    (h : Found file (getFirstDirtyIndex dirty p₀ .data) .data b) : IsData file dirty b := by
  rcases (found_data_iff hb).mp h with ⟨hnew, hfirst⟩ | ⟨hne, hnull⟩
  · exact ⟨fun hnull => newAddr_ne_nullAddr (hnew.symm.trans hnull), fun _ => hfirst.1.1⟩
  · exact ⟨hnull, fun hnew => absurd hnew hne⟩

theorem SameDnode.lt {a : Nat} (h : SameDnode file a b) : b < a + 2 ^ 10 := by
  obtain ⟨page, ofs, -, hle, hlt⟩ := h
  have hapi := file.layout.api_le
  have hpage : addrsPerPage file.layout page ≤ 1018 := by
    cases page with
    | inode => exact Nat.le_trans hapi (by decide)
    | node nid => exact Nat.le_refl _
  omega

theorem vfsSetpos_of_le {ofs : Nat} (h : ofs ≤ maxbytes) : vfsSetpos ofs = .offset ofs :=
  if_neg (Nat.not_lt.mpr h)

theorem seekFound_inside (whence : Whence) {ofs : Nat} (hsize : isize ≤ maxbytes)
    (h : ofs < isize) : seekFound isize whence ofs = .offset ofs := by
  unfold seekFound
  rw [if_neg fun hc => Nat.lt_asymm h hc.2]
  exact vfsSetpos_of_le (Nat.le_trans (Nat.le_of_lt h) hsize)

theorem seekFound_hole {ofs : Nat} (hsize : isize ≤ maxbytes) (h : isize ≤ ofs) :
    seekFound isize .hole ofs = .offset isize := by
  unfold seekFound
  rcases Nat.lt_or_eq_of_le h with hgt | rfl
  · rw [if_pos ⟨rfl, hgt⟩]
    exact vfsSetpos_of_le hsize
  · rw [if_neg fun hc => Nat.lt_irrefl _ hc.2]
    exact vfsSetpos_of_le hsize

/-- Here nothing clamps. -/
theorem seekFound_data {ofs : Nat} (h : isize ≤ ofs) :
    (∀ o, o < isize → seekFound isize .data ofs ≠ .offset o) ∧
      seekFound isize .data ofs ≠ .enxio := by
  unfold seekFound
  rw [if_neg fun hc => Whence.noConfusion hc.1]
  unfold vfsSetpos
  split
  · exact ⟨fun _ _ hc => SeekRet.noConfusion hc, SeekRet.noConfusion⟩
  · refine ⟨fun o ho hc => ?_, SeekRet.noConfusion⟩
    obtain rfl := SeekRet.offset.inj hc
    exact Nat.not_le.mpr ho h

/-- The whole loop. -/
theorem seekLoop_done (hinline : file.inlineData = false) (hlt : offset < isize)
    (hsize : isize ≤ maxbytes) (dirty : Nat) (whence : Whence) {fuel : Nat}
    (hfuel : isize / pageSize + 1 < fuel) :
    ∃ r, Loop.run (seekRound file (fun _ => noFailure) isize dirty whence) fuel
        ⟨0, offset / pageSize, offset⟩ = some r ∧
      SeekDone file (Found file dirty whence) offset isize ((isize - 1) / pageSize) whence r := by
  have hle : offset / pageSize ≤ (isize - 1) / pageSize := Nat.div_le_div_right (by omega)
  have hle' : (isize - 1) / pageSize ≤ isize / pageSize := Nat.div_le_div_right (Nat.sub_le _ _)
  refine Loop.run_total
    (P := SeekInv file (Found file dirty whence) offset ((isize - 1) / pageSize))
    (m := fun st => (isize - 1) / pageSize + 1 - st.pgofs) (fun st hst => ?_)
    ⟨Nat.le_refl _, (if_pos rfl).symm, fun b hb hb' => absurd hb (Nat.not_le.mpr hb'),
      fun hpast => absurd hle (Nat.not_le.mpr hpast)⟩ ?_
  · have hround := seekRound_ok hinline hlt hsize hst
    cases hturn : seekRound file (fun _ => noFailure) isize dirty whence st with
    | next st' =>
      rw [hturn] at hround
      obtain ⟨hinv, hahead, hlast⟩ := hround
      exact Or.inl ⟨st', rfl, hinv, by omega⟩
    | done r =>
      rw [hturn] at hround
      exact Or.inr ⟨r, rfl, hround⟩
  · exact Nat.lt_of_le_of_lt (Nat.le_trans (Nat.sub_le _ _) (Nat.succ_le_succ hle')) hfuel

/-- A hole is always found. -/
theorem seekHole_exact (hlt : offset < isize) (hsize : isize ≤ maxbytes) {r : Option Nat}
    {d : Nat}
    (h : SeekDone file (Found file d .hole) offset isize ((isize - 1) / pageSize) .hole r) :
    SeekExact file dirty isize offset (seekLeave isize .hole r) .hole := by
  have hhole : ∀ b, Found file d .hole b ↔ file.Hole b := fun b => foundOffset_hole
  simp only [SeekDone, hhole] at h
  rcases h with ⟨b, rfl, hb, hP, hfirst, -⟩ | ⟨hnone, -, ⟨hdata, -⟩ | ⟨-, ofs, hofs, rfl⟩⟩
  · by_cases hle : b ≤ (isize - 1) / pageSize
    · have hin := (firstByte_lt_iff hlt).mpr hle
      exact Or.inl ⟨firstByte offset b, seekFound_inside .hole hsize hin,
        firstOffset_firstByte hlt hb hle hP hfirst⟩
    · refine Or.inr (Or.inl ⟨seekFound_hole hsize ?_, hlt,
        (noOffset_iff hlt).mpr fun c hc hcl => ?_⟩)
      · exact Nat.not_lt.mp fun hc => hle ((firstByte_lt_iff hlt).mp hc)
      · exact hfirst c hc (by omega)
  · cases hdata
  · exact Or.inr (Or.inl ⟨seekFound_hole hsize hofs, hlt, (noOffset_iff hlt).mpr hnone⟩)

/-- The first data block is found if `SeeksRight`. -/
theorem found_of_first (hmax : (isize - 1) / pageSize < ulongMax)
    (hright : SeeksRight file dirty isize offset) (hb : offset / pageSize ≤ b)
    (hle : b ≤ (isize - 1) / pageSize) (hdata : IsData file dirty b) :
    ∃ m, offset / pageSize ≤ m ∧ m ≤ b ∧ IsData file dirty m ∧
      (∀ c, offset / pageSize ≤ c → c < m → ¬IsData file dirty c) ∧
      Found file (getFirstDirtyIndex dirty (offset / pageSize) .data) .data m := by
  obtain ⟨m, hm⟩ : ∃ m, IsLeast {b | offset / pageSize ≤ b ∧ b ≤ (isize - 1) / pageSize ∧
      IsData file dirty b} m := ⟨_, isLeast_csInf ⟨b, hb, hle, hdata⟩⟩
  refine ⟨m, hm.1.1, hm.2 ⟨hb, hle, hdata⟩, hm.1.2.2, fun c hc hcm hcd => ?_, ?_⟩
  · exact absurd (hm.2 ⟨hc, Nat.le_trans (Nat.le_of_lt hcm) hm.1.2.1, hcd⟩) (Nat.not_le.mpr hcm)
  · rw [found_data_iff (by have := hm.1.2.1; omega)]
    by_cases hnew : file.blockAddr m = newAddr
    · exact Or.inl ⟨hnew, hright.first m hm hnew⟩
    · exact Or.inr ⟨hnew, hm.1.2.2.1⟩

theorem seekData_exact_iff (hlt : offset < isize) (hsize : isize ≤ maxbytes) {r : Option Nat}
    (h : SeekDone file (Found file (getFirstDirtyIndex dirty (offset / pageSize) .data) .data)
      offset isize ((isize - 1) / pageSize) .data r) :
    SeekExact file dirty isize offset (seekLeave isize .data r) .data ↔
      SeeksRight file dirty isize offset := by
  have hmax : (isize - 1) / pageSize + 2 ^ 10 < ulongMax := by
    have hlast := lastBlock_lt hlt hsize
    have hval : maxFileBlocks = 1057052516 := rfl
    unfold ulongMax
    omega
  -- nothing is found below `i_size`
  have hmissed : ∀ {b}, (∀ b, offset / pageSize ≤ b → b ≤ (isize - 1) / pageSize →
      ¬Found file (getFirstDirtyIndex dirty (offset / pageSize) .data) .data b) →
      SeeksRight file dirty isize offset → offset / pageSize ≤ b →
      b ≤ (isize - 1) / pageSize → ¬IsData file dirty b := by
    intro b hnone hright hb hle hdata
    obtain ⟨m, hm, hmb, -, -, hfound⟩ := found_of_first (by omega) hright hb hle hdata
    exact hnone m hm (Nat.le_trans hmb hle) hfound
  rcases h with ⟨b, rfl, hb, hfound, hfirst, hwhere⟩ |
    ⟨hnone, hbehind, ⟨-, rfl⟩ | ⟨hhole, -⟩⟩
  · by_cases hle : b ≤ (isize - 1) / pageSize
    · have hdata := isData_of_found (by omega) hfound
      have hin := (firstByte_lt_iff hlt).mpr hle
      have hret := seekFound_inside .data hsize hin
      constructor
      · rintro (⟨ofs, heq, hofs⟩ | ⟨heq, -⟩)
        · obtain rfl : firstByte offset b = ofs := SeekRet.offset.inj (hret.symm.trans heq)
          obtain ⟨hge, -, -, hbefore⟩ := hofs
          refine ⟨fun m hm hnew => ?_, fun hno => absurd hdata (hno b hb hle)⟩
          obtain rfl : m = b := by
            refine Nat.le_antisymm (hm.2 ⟨hb, hle, hdata⟩) (Nat.not_lt.mp fun hmb => ?_)
            refine hbefore (firstByte offset m) (le_firstByte hm.1.1) ?_ ?_
            · rw [firstByte_of_lt (Nat.lt_of_le_of_lt hm.1.1 hmb)]
              unfold firstByte pageSize
              split <;> omega
            · rw [firstByte_div]
              exact hm.1.2.2
          rcases (found_data_iff (by omega)).mp hfound with ⟨-, hd⟩ | ⟨hne, -⟩
          · exact hd
          · exact absurd hnew hne
        · exact nomatch hret.symm.trans heq
      · intro hright
        obtain ⟨m, hm, hmb, hmdata, hmfirst, hmfound⟩ :=
          found_of_first (by omega) hright hb hle hdata
        obtain rfl : m = b :=
          Nat.le_antisymm hmb (Nat.not_lt.mp fun hlt' => hfirst m hm hlt' hmfound)
        exact Or.inl ⟨_, hret, firstOffset_firstByte hlt hb hle hdata hmfirst⟩
    · have hsame := hwhere.resolve_left hle
      have hout : isize ≤ firstByte offset b :=
        Nat.not_lt.mp fun hc => hle ((firstByte_lt_iff hlt).mp hc)
      refine iff_of_false ?_ fun hright => ?_
      · rintro (⟨ofs, heq, -, hofs, -⟩ | ⟨heq, -⟩)
        · exact (seekFound_data hout).1 ofs hofs heq
        · exact (seekFound_data hout).2 heq
      · have hno := fun c hc hcl => hmissed (b := c)
          (fun c hc hcl => hfirst c hc (by omega)) hright hc hcl
        have hlast := hsame.lt
        rcases (found_data_iff (by omega)).mp hfound with ⟨hnew, hd⟩ | ⟨hne, hnull⟩
        · rcases hright.behind hno b (Nat.not_le.mp hle) hsame with hnull | ⟨-, hd'⟩
          · exact newAddr_ne_nullAddr (hnew.symm.trans hnull)
          · exact hd' hd
        · rcases hright.behind hno b (Nat.not_le.mp hle) hsame with hnull' | ⟨hnew, -⟩
          · exact hnull hnull'
          · exact hne hnew
  · constructor
    · rintro (⟨ofs, heq, -⟩ | ⟨-, hno⟩)
      · cases heq
      · have hno := (noOffset_iff hlt).mp hno
        refine ⟨fun m hm => absurd hm.1.2.2 (hno m hm.1.1 hm.1.2.1), fun _ b _ hsame => ?_⟩
        have hlast := hsame.lt
        have hb := hbehind b hsame
        rw [found_data_iff (by omega)] at hb
        by_cases hnew : file.blockAddr b = newAddr
        · exact Or.inr ⟨hnew, fun hd => hb (Or.inl ⟨hnew, hd⟩)⟩
        · exact Or.inl (not_not.mp fun hnull => hb (Or.inr ⟨hnew, hnull⟩))
    · exact fun hright =>
        Or.inr ⟨rfl, (noOffset_iff hlt).mpr fun b hb hle => hmissed hnone hright hb hle⟩
  · cases hhole

end

/-- `SEEK_HOLE` is exact, and `SEEK_DATA` exactly if `SeeksRight`.  The VFS keeps `i_size` within
    `s_maxbytes`; no read of a node page fails. -/
theorem seekBlock_exact_iff (file : MappedFile) (hinline : file.inlineData = false)
    (dirty : Finset Nat) (isize offset : Nat) (whence : Whence) (hsize : isize ≤ maxbytes)
    (fuel : Nat) (hfuel : isize / pageSize + 1 < fuel) :
    ∃ ret, f2fsSeekBlock file (fun _ => noFailure) isize offset dirty whence fuel = some ret ∧
      (SeekExact file dirty isize offset ret whence ↔
        (whence = .data → offset < isize → SeeksRight file dirty isize offset)) := by
  unfold f2fsSeekBlock
  by_cases hlt : offset < isize
  · rw [if_neg (Nat.not_le.mpr hlt), hinline, if_neg Bool.false_ne_true]
    obtain ⟨r, hrun, hdone⟩ := seekLoop_done hinline hlt hsize
      (getFirstDirtyIndex dirty (offset / pageSize) whence) whence hfuel
    refine ⟨_, congrArg (Option.map _) hrun, ?_⟩
    cases whence with
    | data =>
      rw [seekData_exact_iff hlt hsize hdone]
      exact ⟨fun h _ _ => h, fun h => h rfl hlt⟩
    | hole => exact iff_of_true (seekHole_exact hlt hsize hdone) nofun
  · rw [if_pos (Nat.not_lt.mp hlt)]
    refine ⟨_, rfl, iff_of_true ?_ fun _ hc => absurd hc hlt⟩
    cases whence with
    | data => exact Or.inr ⟨rfl, fun o ho ho' => absurd (Nat.lt_of_le_of_lt ho ho') hlt⟩
    | hole => exact Or.inr (Or.inr ⟨rfl, Nat.not_lt.mp hlt⟩)

theorem holeThenBlock_addr_lt (i : Nat) : (if i = 1 then 100 else 0) < 2 ^ 32 := by
  split <;> omega

/-- A hole, and behind `i_size` a stored block. -/
def holeThenBlock : MappedFile :=
  smallFile (fun i => if i = 1 then 100 else 0) holeThenBlock_addr_lt

theorem holeThenBlock_exact : ∃ ret,
    f2fsSeekBlock holeThenBlock (fun _ => noFailure) 4096 0 ∅ .data 3 = some ret ∧
      (SeekExact holeThenBlock ∅ 4096 0 ret .data ↔
        (Whence.data = .data → 0 < 4096 → SeeksRight holeThenBlock ∅ 4096 0)) :=
  seekBlock_exact_iff holeThenBlock rfl ∅ 4096 0 .data (by decide) 3 (by decide)

/-- `i_size` is 4096, and `SEEK_DATA` goes there. -/
theorem holeThenBlock_passes_isize :
    f2fsSeekBlock holeThenBlock (fun _ => noFailure) 4096 0 ∅ .data 3 = some (.offset 4096) ∧
      ¬SeekExact holeThenBlock ∅ 4096 0 (.offset 4096) .data := by
  refine ⟨by decide +kernel, ?_⟩
  rintro (⟨ofs, heq, -, hofs, -⟩ | ⟨heq, -⟩)
  · obtain rfl := SeekRet.offset.inj heq
    exact Nat.lt_irrefl _ hofs
  · cases heq

end F2fs.File

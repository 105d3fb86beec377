/-
  `f2fs_move_file_range`: `moveRange_correct_iff`.

  The test for overlapping ranges of one file comes before `len` is made up: with `len` 0 it
  looks at an empty range, and the range up to the end of the file may start the destination
  within the source.  Then `__exchange_data_block` overwrites blocks it has not read.  In
  every other call that succeeds each block of the source is at its destination.

  The positions are offsets in a file and not negative.  `pos_in + len` wraps at 64 bits.
  `filemap_write_and_wait_range` and what `f2fs_balance_fs` runs, GC and checkpoints, are
  parameters (`MoveEnv`): they keep what the files hold, and GC leaves the pages of an inode
  alone whose `dio_rwsem` is held.
-/
import F2fs.Blocks.Moved
import F2fs.Blocks.Rollback

namespace F2fs.Blocks

open F2fs.Node

variable {β : Type}

/-! ## Files with inline data -/

/-- The volume and the inline data: `none` without `FI_INLINE_DATA`, `some none` without
    `FI_DATA_EXIST`. -/
structure Files (β : Type) where
  vol : Volume β
  inline : Nat → Option (Option β)

/-- What block `p` of a file holds; `none` in a hole.  A page cached over inline data is
    newer than these. -/
def Files.block (s : Files β) (ino p : Nat) : Option β :=
  match s.inline ino with
  | none => if s.vol.blockAddr ino p = nullAddr then none else some (s.vol.content ino p)
  | some none => none
  | some (some c) => if p = 0 then some ((s.vol.dirty ino 0).getD c) else none

/-- The books balance, and an inode with inline data has no block but a slot for one. -/
structure Files.Consistent (s : Files β) : Prop where
  balanced : s.vol.books.Balanced
  inline_null : ∀ {ino}, s.inline ino ≠ none → ∀ p, s.vol.blockAddr ino p = nullAddr
  inline_slot : ∀ {ino}, s.inline ino ≠ none → 0 < s.vol.addrsPerInode ino

/-- All files hold what they held. -/
structure SameFiles (s s' : Files β) : Prop where
  block : ∀ ino p, s'.block ino p = s.block ino p
  inline : ∀ ino, s'.inline ino = none ↔ s.inline ino = none
  consistent : s.Consistent → s'.Consistent

/-! ## What the call finds around it -/

structure MoveEnv (β : Type) where
  sameMount : Bool
  readonly : Bool
  /-- `S_ISREG` -/
  regular : Nat → Bool
  /-- `f2fs_encrypted_inode` -/
  encrypted : Nat → Bool
  /-- the two locks of the destination are got at once -/
  dstLocked : Bool
  faults : Faults
  /-- the pages and the reservation of `f2fs_convert_inline_page`, and where it writes -/
  convert : Volume β → Nat → Except Errno Nat
  convert_free : ∀ {v ino a}, convert v ino = .ok a → IsBlock a ∧ v.curValid a = false
  /-- `f2fs_balance_fs`, with the `dio_rwsem` of some inodes held -/
  balanceFs : List Nat → Files β → Files β
  balanceFs_same : ∀ locked s, SameFiles s (balanceFs locked s)
  balanceFs_clean : ∀ {locked s ino p}, ino ∈ locked → s.vol.dirty ino p = none →
    (balanceFs locked s).vol.dirty ino p = none
  /-- `filemap_write_and_wait_range`, from one page to another -/
  writeAndWait : Nat → Nat → Nat → Files β → Option Errno × Files β
  writeAndWait_same : ∀ ino lo hi s, SameFiles s (writeAndWait ino lo hi s).2
  writeAndWait_clean : ∀ {ino lo hi s p}, (writeAndWait ino lo hi s).1 = none → lo ≤ p → p ≤ hi →
    (writeAndWait ino lo hi s).2.vol.dirty ino p = none
  writeAndWait_keeps : ∀ {ino lo hi s i p}, s.vol.dirty i p = none →
    (writeAndWait ino lo hi s).2.vol.dirty i p = none

/-- The arguments. -/
structure MoveCall where
  srcIno : Nat
  dstIno : Nat
  posIn : Nat
  posOut : Nat
  len : Nat
  posIn_lt : posIn < 2 ^ 63
  posOut_lt : posOut < 2 ^ 63
  len_lt : len < 2 ^ 64

theorem MoveCall.start_lt : 0 < 2 ^ 63 := by decide

theorem MoveCall.all_lt : 0 < 2 ^ 64 := by decide

/-! ## The function -/

section

variable (env : MoveEnv β)

/-- The page 0 of an inode with inline data is written to block `a`, its slots are zeroed. -/
def Volume.writeInline (v : Volume β) (ino a : Nat) (c : β) : Volume β :=
  { v with
    disk := Function.update v.disk a c
    curValid := Function.update v.curValid a true
    dirty := Function.update v.dirty ino (Function.update (v.dirty ino) 0 none)
    counts := (Space.incValidBlockCount v.counts ino env.faults.caller true 1).2
    addr := Function.update v.addr ino (Function.update (fun _ => nullAddr) 0 a) }

/-- `f2fs_convert_inline_page`: without `FI_DATA_EXIST` there is nothing to write. -/
def Files.convertPage (s : Files β) (ino a : Nat) (data : Option β) : Files β where
  vol :=
    match data with
    | none => s.vol
    | some c => s.vol.writeInline env ino a ((s.vol.dirty ino 0).getD c)
  inline := Function.update s.inline ino none

/-- `f2fs_convert_inline_inode`. -/
def convertInline (locked : List Nat) (ino : Nat) (s : Files β) : Option Errno × Files β :=
  match s.inline ino with
  | none => (none, s)
  | some data =>
    match env.convert s.vol ino with
    | .error e => (some e, env.balanceFs locked s)
    | .ok a => (none, env.balanceFs locked (s.convertPage env ino a data))

/-- `ALIGN(size, F2FS_BLKSIZE)`. -/
def alignBlock (size : Nat) : Nat := (size + pageSize - 1) / pageSize * pageSize

/-- The length that is moved. -/
def MoveCall.finalLen (c : MoveCall) (isize : Nat) : Nat :=
  let len := if c.len = 0 then isize - c.posIn else c.len
  if c.posIn + len = isize then alignBlock isize - c.posIn else len

/-- `pos_in + len` as the code computes it. -/
def MoveCall.endIn (c : MoveCall) : Nat := (c.posIn + c.len) % 2 ^ 64

/-- The checks up to the first change; what is returned when one of them ends the call. -/
def MoveCall.returnsEarly (c : MoveCall) (isize : Nat) : Option (Option Errno) :=
  if !env.sameMount then some (some .exdev)
  else if env.readonly then some (some .erofs)
  else if !env.regular c.srcIno || !env.regular c.dstIno then some (some .einval)
  else if env.encrypted c.srcIno || env.encrypted c.dstIno then some (some .eopnotsupp)
  else if c.srcIno = c.dstIno ∧ c.posIn = c.posOut then some none
  else if c.srcIno = c.dstIno ∧ c.posOut > c.posIn ∧ c.posOut < c.endIn then some (some .einval)
  else if c.srcIno ≠ c.dstIno ∧ !env.dstLocked then some (some .ebusy)
  else if c.endIn > isize ∨ c.endIn < c.posIn then some (some .einval)
  else if c.finalLen isize = 0 then some none
  else if c.posIn % pageSize ≠ 0 ∨ (c.posIn + c.finalLen isize) % pageSize ≠ 0 ∨
      c.posOut % pageSize ≠ 0 then some (some .einval)
  else none

/-- Both inodes are converted, both ranges written out. -/
def prepareMove (c : MoveCall) (len : Nat) (s : Files β) : Option Errno × Files β :=
  let locked := [c.srcIno, c.dstIno]
  match convertInline env locked c.srcIno s with
  | (some e, s) => (some e, s)
  | (none, s) =>
    match convertInline env locked c.dstIno s with
    | (some e, s) => (some e, s)
    | (none, s) =>
      match env.writeAndWait c.srcIno (c.posIn / pageSize) ((c.posIn + len) / pageSize) s with
      | (some e, s) => (some e, s)
      | (none, s) =>
        match env.writeAndWait c.dstIno (c.posOut / pageSize) ((c.posOut + len) / pageSize) s with
        | (some e, s) => (some e, s)
        | (none, s) => (none, env.balanceFs locked s)

/-- The sizes after a success: `dst_osize` was the size of the destination, `olen` the length
    before it was rounded up. -/
def Volume.fixSize (v : Volume β) (c : MoveCall) (dstOsize olen : Nat) : Volume β :=
  if c.posOut + olen > dstOsize then v.iSizeWrite c.dstIno (c.posOut + olen)
  else if dstOsize ≠ v.isize c.dstIno then v.iSizeWrite c.dstIno dstOsize
  else v

/-- What a call returns and leaves, and the range for which it called `__exchange_data_block`. -/
structure MoveResult (β : Type) where
  ret : Option Errno
  files : Files β
  exchanged : Option (Nat × Nat × Nat)

/-- The call of `__exchange_data_block`, and the sizes. -/
def exchangeAndSize (c : MoveCall) (len isize dstOsize : Nat) (s : Files β) : MoveResult β :=
  match exchangeDataBlock env.faults ⟨c.srcIno, c.dstIno, false⟩ (c.posIn / pageSize)
      (c.posOut / pageSize) (len / pageSize) s.vol with
  | (some e, vol) => ⟨some e, { s with vol := vol }, some (c.posIn, c.posOut, len)⟩
  | (none, vol) =>
    let olen := if c.len = 0 then isize - c.posIn else c.len
    ⟨none, { s with vol := vol.fixSize c dstOsize olen }, some (c.posIn, c.posOut, len)⟩

/-- `f2fs_move_file_range`. -/
def moveFileRange (c : MoveCall) (s : Files β) : MoveResult β :=
  let isize := s.vol.isize c.srcIno
  match c.returnsEarly env isize with
  | some ret => ⟨ret, s, none⟩
  | none =>
    match prepareMove env c (c.finalLen isize) s with
    | (some e, s) => ⟨some e, s, none⟩
    | (none, s') => exchangeAndSize env c (c.finalLen isize) isize (s.vol.isize c.dstIno) s'

end

/-! ## Preparing keeps the files -/

/-- Every block of `s` is found again. -/
structure Files.KeptIn (s s' : Files β) : Prop where
  consistent : s'.Consistent
  block : ∀ {ino p b}, s.block ino p = some b → s'.block ino p = some b
  inline : ∀ {ino}, s.inline ino = none → s'.inline ino = none

theorem Files.KeptIn.same {s s' s'' : Files β} (h : s.KeptIn s') (h' : SameFiles s' s'') :
    s.KeptIn s'' where
  consistent := h'.consistent h.consistent
  block hb := (h'.block _ _).trans (h.block hb)
  inline hi := (h'.inline _).mpr (h.inline hi)

theorem Files.KeptIn.trans {s s' s'' : Files β} (h : s.KeptIn s') (h' : s'.KeptIn s'') :
    s.KeptIn s'' where
  consistent := h'.consistent
  block hb := h'.block (h.block hb)
  inline hi := h'.inline (h.inline hi)

theorem Files.Consistent.keptIn {s : Files β} (h : s.Consistent) : s.KeptIn s := ⟨h, id, id⟩

section

variable {env : MoveEnv β} {s : Files β} {ino a : Nat}

/-- The inodes that still have inline data when that of `ino` is converted. -/
theorem inline_update_ne {i : Nat} (h : Function.update s.inline ino none i ≠ none) :
    i ≠ ino ∧ s.inline i ≠ none := by
  by_cases hi : i = ino
  · rw [hi, Function.update_self] at h
    exact absurd rfl h
  · rw [Function.update_of_ne hi] at h
    exact ⟨hi, h⟩

theorem inline_update_none {i : Nat} (h : s.inline i = none) :
    Function.update s.inline ino none i = none := by
  by_cases hi : i = ino
  · rw [hi, Function.update_self]
  · rwa [Function.update_of_ne hi]

theorem blockAddr_writeInline_self {v : Volume β} {c : β} (hapi : 0 < v.addrsPerInode ino)
    (q : Nat) :
    (v.writeInline env ino a c).blockAddr ino q = if q = 0 then a else nullAddr := by
  have haddr : (v.writeInline env ino a c).addr ino q = if q = 0 then a else nullAddr := by
    change Function.update v.addr ino (Function.update (fun _ => nullAddr) 0 a) ino q = _
    rw [Function.update_self, Function.update_apply]
  unfold Volume.blockAddr
  rw [haddr]
  by_cases hq : q = 0
  · have hd : (v.writeInline env ino a c).hasDnode ino 0 = true := by
      change v.hasDnode ino 0 = true
      unfold Volume.hasDnode dnodeOf
      rw [if_pos hapi]
    rw [hq, hd]
    rfl
  · rw [if_neg hq, ite_self]

theorem blockAddr_writeInline_ne {v : Volume β} {c : β} {i : Nat} (hi : i ≠ ino) (q : Nat) :
    (v.writeInline env ino a c).blockAddr i q = v.blockAddr i q := by
  have haddr : (v.writeInline env ino a c).addr i q = v.addr i q :=
    congrFun (Function.update_of_ne hi _ _) q
  unfold Volume.blockAddr
  rw [haddr]
  rfl

theorem dirty_writeInline_ne {v : Volume β} {c : β} {i : Nat} (hi : i ≠ ino) :
    (v.writeInline env ino a c).dirty i = v.dirty i :=
  Function.update_of_ne hi _ _

theorem content_writeInline_self {v : Volume β} {c : β} (hapi : 0 < v.addrsPerInode ino)
    (ha : IsBlock a) : (v.writeInline env ino a c).content ino 0 = c := by
  have hdirty : (v.writeInline env ino a c).dirty ino 0 = none := by
    change Function.update v.dirty ino (Function.update (v.dirty ino) 0 none) ino 0 = none
    rw [Function.update_self, Function.update_self]
  have hdisk : (v.writeInline env ino a c).disk a = c := Function.update_self ..
  unfold Volume.content
  rw [hdirty, blockAddr_writeInline_self hapi, if_pos rfl, hdisk]
  exact if_pos ha

theorem content_writeInline_ne {v : Volume β} {c : β} {i q : Nat} (hi : i ≠ ino)
    (ha : v.blockAddr i q ≠ a) : (v.writeInline env ino a c).content i q = v.content i q := by
  have hdisk : (v.writeInline env ino a c).disk (v.blockAddr i q) = v.disk (v.blockAddr i q) :=
    Function.update_of_ne ha _ _
  unfold Volume.content
  rw [blockAddr_writeInline_ne hi, dirty_writeInline_ne hi, hdisk]
  rfl

/-- Inline data goes to a block that nobody owns. -/
theorem writeInline_keptIn (hs : s.Consistent) {data : β} (hin : s.inline ino = some (some data))
    (ha : IsBlock a) (hfree : s.vol.curValid a = false) :
    s.KeptIn
      { vol := s.vol.writeInline env ino a ((s.vol.dirty ino 0).getD data)
        inline := Function.update s.inline ino none } := by
  have hapi : 0 < s.vol.addrsPerInode ino := hs.inline_slot (by simp [hin])
  have hfresh : ∀ i q, s.vol.blockAddr i q ≠ a := by
    rintro i q rfl
    have hlive : s.vol.curValid (s.vol.blockAddr i q) = true :=
      hs.balanced.live (k := .inl (i, q)) (blockOf_of ha)
    rw [hlive] at hfree
    cases hfree
  have hown : ∀ {k b}, (s.vol.writeInline env ino a ((s.vol.dirty ino 0).getD data)).books.own k =
      some b →
      (k = .inl (ino, 0) ∧ b = a) ∨ (s.vol.books.own k = some b ∧ b ≠ a) := by
    rintro (⟨i, q⟩ | j) b h
    · obtain ⟨haddr, hb⟩ := blockOf_eq_some.mp h
      dsimp only at haddr
      by_cases hi : i = ino
      · subst hi
        rw [blockAddr_writeInline_self hapi] at haddr
        by_cases hq : q = 0
        · rw [if_pos hq] at haddr
          exact Or.inl ⟨by rw [hq], haddr.symm⟩
        · rw [if_neg hq] at haddr
          exact absurd haddr.symm hb.1
      · rw [blockAddr_writeInline_ne hi] at haddr
        exact Or.inr ⟨blockOf_eq_some.mpr ⟨haddr, hb⟩, haddr ▸ hfresh i q⟩
    · cases h
  refine ⟨⟨⟨?_, ?_⟩, ?_, ?_⟩, ?_, inline_update_none⟩
  · intro k k' b h h'
    obtain ⟨hk, hb⟩ | ⟨h, hb⟩ := hown h <;> obtain ⟨hk', hb'⟩ | ⟨h', hb'⟩ := hown h'
    · exact hk.trans hk'.symm
    · exact absurd hb hb'
    · exact absurd hb' hb
    · exact hs.balanced.inj h h'
  · intro k b h
    change Function.update s.vol.curValid a true b = true
    obtain ⟨-, hb⟩ | ⟨h, hb⟩ := hown h
    · rw [hb, Function.update_self]
    · rw [Function.update_of_ne hb]
      exact hs.balanced.live h
  · intro i hi p
    obtain ⟨hne, hi⟩ := inline_update_ne hi
    exact (blockAddr_writeInline_ne hne p).trans (hs.inline_null hi p)
  · intro i hi
    exact hs.inline_slot (inline_update_ne hi).2
  · intro i p b hb
    unfold Files.block at hb ⊢
    dsimp only
    by_cases h : i = ino
    · subst h
      rw [hin] at hb
      rw [Function.update_self]
      dsimp only at hb ⊢
      split at hb
      · rename_i hp
        rw [hp, blockAddr_writeInline_self hapi, if_pos rfl, if_neg ha.1,
          content_writeInline_self hapi ha]
        exact hb
      · cases hb
    · rw [Function.update_of_ne h, blockAddr_writeInline_ne h,
        content_writeInline_ne h (hfresh i p), dirty_writeInline_ne h]
      exact hb

theorem convertInline_keptIn (hs : s.Consistent) (locked : List Nat) {s' : Files β}
    (h : convertInline env locked ino s = (none, s')) : s.KeptIn s' ∧ s'.inline ino = none := by
  unfold convertInline at h
  split at h
  · rename_i hin
    obtain rfl : s = s' := congrArg Prod.snd h
    exact ⟨hs.keptIn, hin⟩
  · rename_i data hin
    split at h
    · cases congrArg Prod.fst h
    · rename_i a ha
      obtain ⟨hblock, hfree⟩ := env.convert_free ha
      have hstep : s.KeptIn (s.convertPage env ino a data) := by
        cases data with
        | some c => exact writeInline_keptIn hs hin hblock hfree
        | none =>
            refine ⟨⟨hs.balanced, fun hi => hs.inline_null (inline_update_ne hi).2,
              fun hi => hs.inline_slot (inline_update_ne hi).2⟩, ?_, inline_update_none⟩
            intro i p b hb
            have hne : i ≠ ino := by
              rintro rfl
              unfold Files.block at hb
              rw [hin] at hb
              cases hb
            unfold Files.block at hb ⊢
            change (match Function.update s.inline ino none i with
              | none => _
              | some none => _
              | some (some c) => _) = some b
            rw [Function.update_of_ne hne]
            exact hb
      have hsame := env.balanceFs_same locked (s.convertPage env ino a data)
      obtain rfl : env.balanceFs locked (s.convertPage env ino a data) = s' := congrArg Prod.snd h
      exact ⟨hstep.same hsame, (hsame.inline ino).mpr (Function.update_self ..)⟩

/-! ## The ranges are written out -/

/-- Ready for the exchange: nothing is lost, and no page of the ranges is dirty. -/
theorem prepareMove_ready {c : MoveCall} {len : Nat} (hs : s.Consistent) {s' : Files β}
    (h : prepareMove env c len s = (none, s')) :
    s.KeptIn s' ∧ s'.inline c.srcIno = none ∧ s'.inline c.dstIno = none ∧
      (∀ p, c.posIn / pageSize ≤ p → p ≤ (c.posIn + len) / pageSize →
        s'.vol.dirty c.srcIno p = none) ∧
      ∀ p, c.posOut / pageSize ≤ p → p ≤ (c.posOut + len) / pageSize →
        s'.vol.dirty c.dstIno p = none := by
  unfold prepareMove at h
  dsimp only at h
  split at h
  · cases congrArg Prod.fst h
  rename_i s₁ h₁
  obtain ⟨k₁, i₁⟩ := convertInline_keptIn hs _ h₁
  split at h
  · cases congrArg Prod.fst h
  rename_i s₂ h₂
  obtain ⟨k₂, i₂⟩ := convertInline_keptIn k₁.consistent _ h₂
  have hsame₃ := env.writeAndWait_same c.srcIno (c.posIn / pageSize) ((c.posIn + len) / pageSize) s₂
  split at h
  · cases congrArg Prod.fst h
  rename_i s₃ h₃
  rw [h₃] at hsame₃
  have hsame₄ := env.writeAndWait_same c.dstIno (c.posOut / pageSize)
      ((c.posOut + len) / pageSize) s₃
  split at h
  · cases congrArg Prod.fst h
  rename_i s₄ h₄
  rw [h₄] at hsame₄
  obtain rfl : env.balanceFs [c.srcIno, c.dstIno] s₄ = s' := congrArg Prod.snd h
  have hsame₅ := env.balanceFs_same [c.srcIno, c.dstIno] s₄
  have hinline : ∀ ino, s₂.inline ino = none →
      (env.balanceFs [c.srcIno, c.dstIno] s₄).inline ino = none := fun ino hi =>
    (hsame₅.inline ino).mpr ((hsame₄.inline ino).mpr ((hsame₃.inline ino).mpr hi))
  refine ⟨(((k₁.trans k₂).same hsame₃).same hsame₄).same hsame₅, hinline _ (k₂.inline i₁),
    hinline _ i₂, fun p hlo hhi => ?_, fun p hlo hhi => ?_⟩
  · apply env.balanceFs_clean (by simp)
    have hok : (env.writeAndWait c.srcIno (c.posIn / pageSize) ((c.posIn + len) / pageSize) s₂).1 =
        none := by
      rw [h₃]
    have hclean := env.writeAndWait_clean hok hlo hhi
    rw [h₃] at hclean
    have hkeep : (env.writeAndWait c.dstIno (c.posOut / pageSize)
        ((c.posOut + len) / pageSize) s₃).2.vol.dirty
        c.srcIno p = none := env.writeAndWait_keeps hclean
    rwa [h₄] at hkeep
  · apply env.balanceFs_clean (by simp)
    have hok : (env.writeAndWait c.dstIno (c.posOut / pageSize) ((c.posOut + len) / pageSize)
        s₃).1 = none := by
      rw [h₄]
    have hclean := env.writeAndWait_clean hok hlo hhi
    rwa [h₄] at hclean

end

/-! ## When a call is right -/

section

variable (env : MoveEnv β) (c : MoveCall) (s : Files β)

/-- After a success each block of the source is at its destination, and the exchange was
    never called with a destination that starts within the source. -/
structure MoveCorrect : Prop where
  moved : (moveFileRange env c s).ret = none →
    ∀ k < c.finalLen (s.vol.isize c.srcIno) / pageSize, ∀ b,
      s.block c.srcIno (c.posIn / pageSize + k) = some b →
        (moveFileRange env c s).files.block c.dstIno (c.posOut / pageSize + k) = some b
  never : ∀ posIn posOut len, (moveFileRange env c s).exchanged = some (posIn, posOut, len) →
    ¬(c.srcIno = c.dstIno ∧ posIn < posOut ∧ posOut < posIn + len)

/-- With `len` 0 the destination starts within the rest of the file, and no check and no
    write comes in between. -/
def OverlapsUnchecked : Prop :=
  c.len = 0 ∧ c.srcIno = c.dstIno ∧ c.posIn < c.posOut ∧
    c.posOut < c.posIn + c.finalLen (s.vol.isize c.srcIno) ∧
    c.returnsEarly env (s.vol.isize c.srcIno) = none ∧
    (prepareMove env c (c.finalLen (s.vol.isize c.srcIno)) s).1 = none

end

/-- What the checks let through. -/
structure MoveCall.Passes (c : MoveCall) (isize : Nat) : Prop where
  notSame : ¬(c.srcIno = c.dstIno ∧ c.posIn = c.posOut)
  overlap : ¬(c.srcIno = c.dstIno ∧ c.posOut > c.posIn ∧ c.posOut < c.endIn)
  range : ¬(c.endIn > isize ∨ c.endIn < c.posIn)
  aligned : c.posIn % pageSize = 0 ∧ (c.posIn + c.finalLen isize) % pageSize = 0 ∧
    c.posOut % pageSize = 0

section

variable {env : MoveEnv β} {c : MoveCall} {s : Files β} {isize : Nat}

theorem MoveCall.returnsEarly_none (h : c.returnsEarly env isize = none) : c.Passes isize := by
  unfold MoveCall.returnsEarly at h
  obtain ⟨-, h⟩ := passed_of_ite h nofun
  obtain ⟨-, h⟩ := passed_of_ite h nofun
  obtain ⟨-, h⟩ := passed_of_ite h nofun
  obtain ⟨-, h⟩ := passed_of_ite h nofun
  obtain ⟨hsame, h⟩ := passed_of_ite h nofun
  obtain ⟨hover, h⟩ := passed_of_ite h nofun
  obtain ⟨-, h⟩ := passed_of_ite h nofun
  obtain ⟨hrange, h⟩ := passed_of_ite h nofun
  obtain ⟨-, h⟩ := passed_of_ite h nofun
  obtain ⟨haligned, -⟩ := passed_of_ite h nofun
  push Not at haligned
  exact ⟨hsame, hover, hrange, haligned⟩

/-- A success without an exchange moves nothing, or nothing away. -/
theorem MoveCall.returnsEarly_success (h : c.returnsEarly env isize = some none) :
    (c.srcIno = c.dstIno ∧ c.posIn = c.posOut) ∨ c.finalLen isize = 0 := by
  unfold MoveCall.returnsEarly at h
  obtain ⟨-, h⟩ := passed_of_ite h nofun
  obtain ⟨-, h⟩ := passed_of_ite h nofun
  obtain ⟨-, h⟩ := passed_of_ite h nofun
  obtain ⟨-, h⟩ := passed_of_ite h nofun
  by_cases hsame : c.srcIno = c.dstIno ∧ c.posIn = c.posOut
  · exact Or.inl hsame
  rw [if_neg hsame] at h
  obtain ⟨-, h⟩ := passed_of_ite h nofun
  obtain ⟨-, h⟩ := passed_of_ite h nofun
  obtain ⟨-, h⟩ := passed_of_ite h nofun
  by_cases hzero : c.finalLen isize = 0
  · exact Or.inr hzero
  rw [if_neg hzero] at h
  cases (passed_of_ite h nofun).2

/-- With a length the overlap test has seen the range, up to the end of the last block. -/
theorem MoveCall.Passes.noOverlap (p : c.Passes isize) (h : ¬(c.len = 0 ∧ c.srcIno = c.dstIno ∧
    c.posIn < c.posOut ∧ c.posOut < c.posIn + c.finalLen isize)) :
    ¬(c.srcIno = c.dstIno ∧ c.posIn < c.posOut ∧ c.posOut < c.posIn + c.finalLen isize) := by
  rintro ⟨hino, hlt, hend⟩
  have hlen : c.len ≠ 0 := fun h0 => h ⟨h0, hino, hlt, hend⟩
  have hover := p.overlap
  have hrange := p.range
  have hout := p.aligned.2.2
  have h1 := c.posIn_lt
  have h2 := c.len_lt
  unfold MoveCall.finalLen at hend
  unfold MoveCall.endIn at hover hrange
  rw [if_neg hlen] at hend
  unfold alignBlock pageSize at hend
  dsimp only at hend
  unfold pageSize at hout
  split at hend <;> omega

end

section

variable {env : MoveEnv β} {c : MoveCall} {s : Files β} {len isize dstOsize : Nat}

theorem fixSize_block {v : Volume β} {n m : Nat} (inline : Nat → Option (Option β)) (ino p : Nat) :
    ({ vol := v.fixSize c n m, inline := inline } : Files β).block ino p =
      ({ vol := v, inline := inline } : Files β).block ino p := by
  unfold Volume.fixSize
  split
  · rfl
  · split <;> rfl

theorem exchangeAndSize_exchanged :
    (exchangeAndSize env c len isize dstOsize s).exchanged = some (c.posIn, c.posOut, len) := by
  unfold exchangeAndSize
  split <;> rfl

/-- The exchange moves what the prepared files hold. -/
theorem exchangeAndSize_block (hs : s.Consistent) (hsrc : s.inline c.srcIno = none)
    (hdst : s.inline c.dstIno = none)
    (ho : NoForwardOverlap ⟨c.srcIno, c.dstIno, false⟩ (c.posIn / pageSize) (c.posOut / pageSize)
      (len / pageSize))
    (hclean : CleanRanges s.vol ⟨c.srcIno, c.dstIno, false⟩ (c.posIn / pageSize)
      (c.posOut / pageSize)
      (len / pageSize))
    (h : (exchangeAndSize env c len isize dstOsize s).ret = none) {k : Nat}
    (hk : k < len / pageSize)
    {b : β} (hb : s.block c.srcIno (c.posIn / pageSize + k) = some b) :
    (exchangeAndSize env c len isize dstOsize s).files.block c.dstIno (c.posOut / pageSize + k) =
      some b := by
  unfold exchangeAndSize at h ⊢
  have hmoved : ∀ v, exchangeDataBlock env.faults ⟨c.srcIno, c.dstIno, false⟩ (c.posIn / pageSize)
      (c.posOut / pageSize) (len / pageSize) s.vol = (none, v) → ∀ k < len / pageSize,
      Moved s.vol v ⟨c.srcIno, c.dstIno, false⟩ (c.posIn / pageSize) (c.posOut / pageSize) k :=
    fun _ => exchange_moved env.faults _ hs.balanced ho hclean
  generalize exchangeDataBlock env.faults ⟨c.srcIno, c.dstIno, false⟩ (c.posIn / pageSize)
    (c.posOut / pageSize) (len / pageSize) s.vol = r at hmoved h ⊢
  match r with
  | (some e, v) => cases h
  | (none, v) =>
      dsimp only
      rw [fixSize_block]
      unfold Files.block at hb ⊢
      rw [hsrc] at hb
      dsimp only at hb ⊢
      rw [hdst]
      split at hb
      · cases hb
      · rename_i hnull
        obtain ⟨haddr, hcontent⟩ := hmoved v rfl k hk hnull
        exact (if_neg haddr).trans ((congrArg some hcontent).trans hb)

/-- The pages of ranges that passed the checks. -/
theorem MoveCall.Passes.noForwardOverlap (p : c.Passes isize)
    (h : ¬(c.srcIno = c.dstIno ∧ c.posIn < c.posOut ∧ c.posOut < c.posIn + c.finalLen isize)) :
    NoForwardOverlap ⟨c.srcIno, c.dstIno, false⟩ (c.posIn / pageSize) (c.posOut / pageSize)
      (c.finalLen isize / pageSize) := by
  intro e
  change c.srcIno = c.dstIno at e
  obtain ⟨hin, -, hout⟩ := p.aligned
  have hsame := p.notSame
  unfold pageSize at *
  exact ⟨fun h' => hsame ⟨e, by omega⟩, fun h' => h ⟨e, by omega, by omega⟩⟩

/-- A call of `f2fs_move_file_range` is right exactly when it is not one with `len` 0 whose
    destination starts within the rest of the same file. -/
theorem moveRange_correct_iff (hs : s.Consistent) : MoveCorrect env c s ↔
    ¬OverlapsUnchecked env c s := by
  constructor
  · rintro ⟨-, hnever⟩ ⟨-, hino, hlt, hend, hpass, hprep⟩
    refine hnever c.posIn c.posOut (c.finalLen (s.vol.isize c.srcIno)) ?_ ⟨hino, hlt, hend⟩
    unfold moveFileRange
    dsimp only
    rw [hpass]
    dsimp only
    generalize prepareMove env c (c.finalLen (s.vol.isize c.srcIno)) s = r at hprep ⊢
    match r with
    | (some e, _) => cases hprep
    | (none, s') => exact exchangeAndSize_exchanged
  · intro hunchecked
    cases hpass : c.returnsEarly env (s.vol.isize c.srcIno) with
    | some ret =>
        have hresult : moveFileRange env c s = ⟨ret, s, none⟩ := by
          unfold moveFileRange
          dsimp only
          rw [hpass]
        refine ⟨fun hret k hk b hb => ?_, fun _ _ _ h => by rw [hresult] at h; cases h⟩
        rw [hresult] at hret ⊢
        dsimp only at hret ⊢
        rw [hret] at hpass
        obtain ⟨hino, hpos⟩ | hzero := MoveCall.returnsEarly_success hpass
        · rw [← hino, ← hpos]
          exact hb
        · rw [hzero] at hk
          exact absurd hk (by simp)
    | none =>
        have passes : c.Passes (s.vol.isize c.srcIno) := MoveCall.returnsEarly_none hpass
        cases hprep : prepareMove env c (c.finalLen (s.vol.isize c.srcIno)) s with
        | mk err s' =>
        cases err with
        | some e =>
            have hresult : moveFileRange env c s = ⟨some e, s', none⟩ := by
              unfold moveFileRange
              dsimp only
              rw [hpass]
              dsimp only
              rw [hprep]
            refine ⟨fun h => ?_, fun _ _ _ h => ?_⟩
            · rw [hresult] at h
              cases h
            · rw [hresult] at h
              cases h
        | none =>
            have hresult : moveFileRange env c s = exchangeAndSize env c
                (c.finalLen (s.vol.isize c.srcIno)) (s.vol.isize c.srcIno)
                (s.vol.isize c.dstIno) s' := by
              unfold moveFileRange
              dsimp only
              rw [hpass]
              dsimp only
              rw [hprep]
            have hfree := passes.noOverlap fun h =>
              hunchecked ⟨h.1, h.2.1, h.2.2.1, h.2.2.2, hpass, by rw [hprep]⟩
            obtain ⟨kept, hsrc, hdst, hcleanSrc, hcleanDst⟩ := prepareMove_ready hs hprep
            have hclean : CleanRanges s'.vol ⟨c.srcIno, c.dstIno, false⟩ (c.posIn / pageSize)
                (c.posOut / pageSize) (c.finalLen (s.vol.isize c.srcIno) / pageSize) := by
              intro k hk
              unfold pageSize at *
              exact ⟨hcleanSrc _ (by omega) (by omega), hcleanDst _ (by omega) (by omega)⟩
            refine ⟨fun hret k hk b hb => ?_, fun i o l h => ?_⟩
            · rw [hresult] at hret ⊢
              exact exchangeAndSize_block kept.consistent hsrc hdst (passes.noForwardOverlap hfree)
                hclean hret hk (kept.block hb)
            · rw [hresult, exchangeAndSize_exchanged] at h
              obtain ⟨rfl, rfl, rfl⟩ : c.posIn = i ∧ c.posOut = o ∧
                  c.finalLen (s.vol.isize c.srcIno) = l := by simpa using h
              exact hfree

end

/-! ## Two calls -/

/-- The pages of the range that are dirty. -/
def dirtyIn (v : Volume β) (ino lo hi : Nat) : Bool :=
  (List.range (hi + 1)).any fun p => decide (lo ≤ p) && (v.dirty ino p).isSome

/-- Nothing fails; a range that is dirty is not written out. -/
def quietEnv : MoveEnv Nat where
  sameMount := true
  readonly := false
  regular _ := true
  encrypted _ := false
  dstLocked := true
  faults := noFaults
  convert _ _ := .error .enomem
  convert_free h := by cases h
  balanceFs _ s := s
  balanceFs_same _ s := ⟨fun _ _ => rfl, fun _ => Iff.rfl, id⟩
  balanceFs_clean _ h := h
  writeAndWait ino lo hi s := if dirtyIn s.vol ino lo hi then (some .eio, s) else (none, s)
  writeAndWait_same ino lo hi s := by
    split <;> exact ⟨fun _ _ => rfl, fun _ => Iff.rfl, id⟩
  writeAndWait_clean {ino lo hi s p} h hlo hhi := by
    split at h
    · cases h
    · rename_i hclean
      rw [if_neg hclean]
      by_contra hp
      refine hclean (List.any_eq_true.mpr ⟨p, List.mem_range.mpr (by omega), ?_⟩)
      simpa [hlo] using Option.isSome_iff_ne_none.mpr hp
  writeAndWait_keeps {ino lo hi s i p} h := by
    split <;> exact h

/-- The two blocks of file 1, and no inline data. -/
def twoBlockFiles : Files Nat where
  vol := twoBlocks
  inline _ := none

theorem twoBlockFiles_consistent : twoBlockFiles.Consistent where
  balanced := twoBlocks_balanced
  inline_null h := absurd rfl h
  inline_slot h := absurd rfl h

/-- `len` 0 moves all of file 1 to file 2. -/
def moveAll : MoveCall where
  srcIno := 1
  dstIno := 2
  posIn := 0
  posOut := 0
  len := 0
  posIn_lt := MoveCall.start_lt
  posOut_lt := MoveCall.start_lt
  len_lt := MoveCall.all_lt

/-- `len` 0 moves all of file 1 one block up. -/
def moveUp : MoveCall where
  srcIno := 1
  dstIno := 1
  posIn := 0
  posOut := 4096
  len := 0
  posIn_lt := MoveCall.start_lt
  posOut_lt := by decide
  len_lt := MoveCall.all_lt

theorem moveAll_correct : MoveCorrect quietEnv moveAll twoBlockFiles :=
  (moveRange_correct_iff twoBlockFiles_consistent).mpr fun h => absurd h.2.1 (by decide)

/-- The same files with both blocks in the last checkpoint. -/
def checkpointedFiles : Files Nat :=
  { twoBlockFiles with vol := { twoBlocks with ckptValid := fun _ => true } }

theorem checkpointedFiles_consistent : checkpointedFiles.Consistent where
  balanced := ⟨fun h h' => twoBlocks_balanced.inj h h', fun h => twoBlocks_balanced.live h⟩
  inline_null h := absurd rfl h
  inline_slot h := absurd rfl h

/-- The call returns 0, and the first block stands where the second should. -/
theorem moveUp_overwrites :
    checkpointedFiles.Consistent ∧ (moveFileRange quietEnv moveUp checkpointedFiles).ret = none ∧
      checkpointedFiles.block 1 1 = some 101 ∧
      (moveFileRange quietEnv moveUp checkpointedFiles).files.block 1 2 = some 100 ∧
      ¬MoveCorrect quietEnv moveUp checkpointedFiles := by
  refine ⟨checkpointedFiles_consistent, by decide +kernel, by decide, by decide +kernel,
    fun h => ?_⟩
  exact h.never 0 4096 8192 (by decide +kernel) (by decide)

end F2fs.Blocks

/-
  What `__read_out_blkaddrs` does: `readOut_spec`.

  A block the checkpoint does not know goes from its page into the array, all others stay.
  `ReadTo` says so of the first entries; it holds at every exit of the function.
-/
import F2fs.Blocks.Exchange

namespace F2fs.Blocks

open F2fs.Node

variable {β : Type}

/-- The flagged blocks of the arrays, from entry `i` to `n`. -/
def Work.heldFrom (w : Work β) (i n : Nat) (j : Nat) : Option Nat :=
  if (i ≤ j ∧ j < n) ∧ w.doReplace j = true then blockOf (w.blkaddr j) else none

/-- Who owns which block while a chunk of `n` entries is on its way. -/
def Work.ledger (w : Work β) (n : Nat) : Ledger (Volume.Place Nat) Nat :=
  w.vol.ledger (w.heldFrom 0 n)

/-- Who owns which block while no exchange is going on. -/
def Volume.books (v : Volume β) : Ledger (Volume.Place Nat) Nat := v.ledger fun _ => none

theorem Work.heldFrom_flagged {w : Work β} {i n j : Nat} (hj : i ≤ j ∧ j < n)
    (hf : w.doReplace j = true) : w.heldFrom i n j = blockOf (w.blkaddr j) :=
  if_pos ⟨hj, hf⟩

theorem Work.heldFrom_unflagged {w : Work β} {i n j : Nat} (hf : w.doReplace j = false) :
    w.heldFrom i n j = none :=
  if_neg fun h => by simp [hf] at h

theorem Work.heldFrom_outside {w : Work β} {i n j : Nat} (hj : ¬(i ≤ j ∧ j < n)) :
    w.heldFrom i n j = none :=
  if_neg fun h => hj h.1

theorem Work.heldFrom_congr {w w' : Work β} {i n j : Nat} (hf : w'.doReplace j = w.doReplace j)
    (ha : w'.blkaddr j = w.blkaddr j) : w'.heldFrom i n j = w.heldFrom i n j := by
  unfold Work.heldFrom
  rw [hf, ha]

/-- A page whose block the checkpoint does not know. -/
def Volume.Fresh (v : Volume β) (ino p : Nat) : Prop :=
  IsBlock (v.blockAddr ino p) ∧ v.ckptValid (v.blockAddr ino p) = false

theorem Volume.isCheckpointedData_eq_false {v : Volume β} {ino p : Nat} :
    v.isCheckpointedData (v.blockAddr ino p) = false ↔ v.Fresh ino p := by
  unfold isCheckpointedData Fresh IsBlock
  split
  · rename_i h
    constructor
    · exact fun h => by cases h
    · rintro ⟨⟨h0, h1⟩, -⟩
      exact (h.elim h1 h0).elim
  · rename_i h
    push Not at h
    exact ⟨fun hc => ⟨⟨h.2, h.1⟩, hc⟩, fun hc => hc.2⟩

/-- The entries below `i` are read out of the pages of `ino` from `off` on. -/
structure ReadTo (v : Volume β) (ino off n i : Nat) (w : Work β) : Prop where
  frame : w.vol = { v with addr := w.vol.addr }
  /-- a page whose block was not taken has it still -/
  stays : ∀ p q, (∀ j < n, w.doReplace j = true → (p, q) ≠ (ino, off + j)) →
    w.vol.blockAddr p q = v.blockAddr p q
  /-- a block that was taken is in the array -/
  taken : ∀ j < n, w.doReplace j = true → j < i ∧ v.Fresh ino (off + j) ∧
    w.blkaddr j = v.blockAddr ino (off + j) ∧ w.vol.blockAddr ino (off + j) = nullAddr
  read : ∀ j < i, j < n → w.blkaddr j = v.blockAddr ino (off + j) ∧
    (v.Fresh ino (off + j) → w.doReplace j = true)
  kept : Ledger.Kept v.books (w.ledger n)

/-- The arrays are zero from entry `i` on. -/
def Unread (n i : Nat) (w : Work β) : Prop := ∀ j, i ≤ j → j < n → w.blkaddr j = nullAddr

section

variable {v : Volume β} {ino off n i : Nat} {w : Work β}

namespace ReadTo

theorem ckptValid (r : ReadTo v ino off n i w) : w.vol.ckptValid = v.ckptValid := by
  rw [r.frame]

theorem hasDnode (r : ReadTo v ino off n i w) : w.vol.hasDnode = v.hasDnode := by
  rw [r.frame]
  rfl

theorem notFlagged (r : ReadTo v ino off n i w) {j : Nat} (hij : i ≤ j) (hj : j < n) :
    w.doReplace j = false := by
  by_contra h
  have := (r.taken j hj (by simpa using h)).1
  omega

/-- The page of the next entry is as it was. -/
theorem next (r : ReadTo v ino off n i w) {j : Nat} (hij : i ≤ j) (hj : j < n) :
    w.vol.blockAddr ino (off + j) = v.blockAddr ino (off + j) := by
  apply r.stays
  intro k hk hf hpage
  have hkj : j = k := by
    have := (Prod.mk.inj hpage).2
    omega
  rw [← hkj, r.notFlagged hij hj] at hf
  cases hf

theorem start (b : v.books.Balanced) (f : Faults) : ReadTo v ino off n 0 (v.kvzalloc f n) := by
  have hzero : ∀ j < n, (v.kvzalloc f n).doReplace j = false := fun j hj => if_pos hj
  have hledger : (v.kvzalloc f n).ledger n = v.books := by
    apply congrArg v.ledger
    funext j
    by_cases hj : j < n
    · exact Work.heldFrom_unflagged (hzero j hj)
    · exact Work.heldFrom_outside fun h => hj h.2
  constructor
  · rfl
  · intro p q _
    rfl
  · intro j hj hf
    rw [hzero j hj] at hf
    cases hf
  · intro j hj
    exact absurd hj (Nat.not_lt_zero j)
  · rw [hledger]
    exact b.refl_kept

/-- The address of the next entry is read, without its flag. -/
theorem readAddr (r : ReadTo v ino off n i w) (hi : i < n) :
    ReadTo v ino off n i
      { w with blkaddr := Function.update w.blkaddr i (w.vol.blockAddr ino (off + i)) } := by
  have hflag := r.notFlagged (Nat.le_refl i) hi
  have hheld : ∀ a, ({ w with blkaddr := Function.update w.blkaddr i a } : Work β).ledger n =
      w.ledger n := by
    intro a
    apply congrArg w.vol.ledger
    funext j
    by_cases hj : j = i
    · subst hj
      rw [Work.heldFrom_unflagged hflag]
      exact Work.heldFrom_unflagged hflag
    · exact Work.heldFrom_congr rfl (Function.update_of_ne hj _ _)
  constructor
  · exact r.frame
  · exact r.stays
  · intro j hj hf
    have hji : j ≠ i := fun e => by rw [e, hflag] at hf; cases hf
    change _ ∧ _ ∧ Function.update w.blkaddr i _ j = _ ∧ _
    rw [Function.update_of_ne hji]
    exact r.taken j hj hf
  · intro j hji hj
    change Function.update w.blkaddr i _ j = _ ∧ _
    rw [Function.update_of_ne (by omega)]
    exact r.read j hji hj
  · rw [hheld]
    exact r.kept

/-- The next entry is not flagged, as the checkpoint knows its block or there is none. -/
theorem skip (r : ReadTo v ino off n i w) (ha : w.blkaddr i = v.blockAddr ino (off + i))
    (hf : ¬v.Fresh ino (off + i)) : ReadTo v ino off n (i + 1) w where
  frame := r.frame
  stays := r.stays
  taken j hj hflag := by
    obtain ⟨h, hrest⟩ := r.taken j hj hflag
    exact ⟨by omega, hrest⟩
  read j hji hj := by
    by_cases h : j = i
    · subst h
      exact ⟨ha, fun hfresh => absurd hfresh hf⟩
    · exact r.read j (by omega) hj
  kept := r.kept

/-- The block of the next entry is taken off its page. -/
theorem take (r : ReadTo v ino off n i w) (hi : i < n)
    (ha : w.blkaddr i = v.blockAddr ino (off + i)) (hf : v.Fresh ino (off + i)) :
    ReadTo v ino off n (i + 1)
      { w with
        vol := w.vol.updateDataBlkaddr ino (off + i) nullAddr
        doReplace := Function.update w.doReplace i true } := by
  have hflag := r.notFlagged (Nat.le_refl i) hi
  have hpage := r.next (Nat.le_refl i) hi
  have hblock : IsBlock (w.vol.blockAddr ino (off + i)) := hpage.symm ▸ hf.1
  have hdnode : w.vol.hasDnode ino (off + i) = true := Volume.hasDnode_of_blockAddr hblock.1
  have hne : ∀ j, j ≠ i → (ino, off + j) ≠ (ino, off + i) := by
    intro j hj e
    have := (Prod.mk.inj e).2
    omega
  constructor
  · change (w.vol.updateDataBlkaddr ino (off + i) nullAddr) = _
    conv_lhs => rw [r.frame]
    rfl
  · intro p q h
    have hpq : (p, q) ≠ (ino, off + i) := h i hi (Function.update_self ..)
    change (w.vol.updateDataBlkaddr ino (off + i) nullAddr).blockAddr p q = _
    rw [Volume.blockAddr_update_ne hpq]
    apply r.stays
    intro j hj hflagj
    refine h j hj ?_
    change Function.update w.doReplace i true j = true
    by_cases hji : j = i
    · rw [hji, Function.update_self]
    · rwa [Function.update_of_ne hji]
  · intro j hj hflagj
    change Function.update w.doReplace i true j = true at hflagj
    change _ ∧ _ ∧ _ ∧ (w.vol.updateDataBlkaddr ino (off + i) nullAddr).blockAddr ino (off + j) = _
    by_cases hji : j = i
    · subst hji
      exact ⟨by omega, hf, ha, Volume.blockAddr_update_self hdnode⟩
    · rw [Function.update_of_ne hji] at hflagj
      obtain ⟨h₁, h₂, h₃, h₄⟩ := r.taken j hj hflagj
      rw [Volume.blockAddr_update_ne (hne j hji)]
      exact ⟨by omega, h₂, h₃, h₄⟩
  · intro j hji hj
    change _ ∧ (_ → Function.update w.doReplace i true j = true)
    by_cases h : j = i
    · subst h
      exact ⟨ha, fun _ => Function.update_self ..⟩
    · rw [Function.update_of_ne h]
      exact r.read j (by omega) hj
  · have hheld : Work.heldFrom { w with
          vol := w.vol.updateDataBlkaddr ino (off + i) nullAddr
          doReplace := Function.update w.doReplace i true } 0 n =
        Function.update (w.heldFrom 0 n) i (some (w.vol.blockAddr ino (off + i))) := by
      funext j
      by_cases hj : j = i
      · subst hj
        rw [Function.update_self,
          Work.heldFrom_flagged ⟨Nat.zero_le j, hi⟩ (Function.update_self ..),
          ha, hpage]
        exact blockOf_of hf.1
      · rw [Function.update_of_ne hj]
        exact Work.heldFrom_congr (Function.update_of_ne hj _ _) rfl
    have hempty : (w.ledger n).own (.inr i) = none := Work.heldFrom_unflagged hflag
    unfold Work.ledger
    rw [hheld, Volume.ledger_hold hblock]
    exact r.kept.transfer _ hempty

end ReadTo

/-! ## The two loops -/

/-- What an exit of the function says; a success has read up to `i`. -/
def ReadExit (v : Volume β) (ino off n i : Nat) (r : Option Errno × Work β) : Prop :=
  (∃ j, ReadTo v ino off n j r.2) ∧ (r.1 = none → ReadTo v ino off n i r.2 ∧ Unread n i r.2)

theorem readEntries_spec (m : Nat) (r : ReadTo v ino off n i w) (hu : Unread n i w)
    (hm : i + m ≤ n) :
    ReadExit v ino off n (i + m) (readEntries ino off m i w) := by
  induction m generalizing i w with
  | zero => exact ⟨⟨i, r⟩, fun _ => ⟨r, hu⟩⟩
  | succ m ih =>
      have hi : i < n := by omega
      have hread := r.readAddr hi
      have haddr : Function.update w.blkaddr i (w.vol.blockAddr ino (off + i)) i =
          v.blockAddr ino (off + i) := (Function.update_self ..).trans (r.next (Nat.le_refl i) hi)
      have hunread : ∀ vol doReplace, Unread n (i + 1) (⟨vol, Function.update w.blkaddr i
          (w.vol.blockAddr ino (off + i)), doReplace⟩ : Work β) := by
        intro vol doReplace j hij hj
        change Function.update w.blkaddr i _ j = nullAddr
        rw [Function.update_of_ne (by omega)]
        exact hu j (by omega) hj
      have hckpt : w.vol.isCheckpointedData (w.vol.blockAddr ino (off + i)) = false ↔
          v.Fresh ino (off + i) := by
        rw [Volume.isCheckpointedData_eq_false]
        unfold Volume.Fresh
        rw [r.next (Nat.le_refl i) hi, r.ckptValid]
      rw [show i + (m + 1) = i + 1 + m by omega, readEntries]
      by_cases hc : w.vol.isCheckpointedData (w.vol.blockAddr ino (off + i)) = true
      · have hfresh : ¬v.Fresh ino (off + i) := fun h => by simp [hckpt.mpr h] at hc
        rw [if_pos hc]
        exact ih (hread.skip haddr hfresh) (hunread _ _) (by omega)
      · rw [if_neg hc]
        by_cases hlfs : w.vol.lfs = true
        · rw [if_pos hlfs]
          exact ⟨⟨i, hread⟩, fun h => by cases h⟩
        · rw [if_neg hlfs]
          have hfresh : v.Fresh ino (off + i) := hckpt.mp (by simpa using hc)
          exact ih (hread.take hi haddr hfresh) (hunread _ _) (by omega)

/-- The entries of a node that is missing are read as they are. -/
theorem ReadTo.skipMissing (m : Nat) (r : ReadTo v ino off n i w) (hu : Unread n i w)
    (hm : i + m ≤ n) (hmissing : ∀ j < m, v.hasDnode ino (off + i + j) = false) :
    ReadTo v ino off n (i + m) w := by
  induction m with
  | zero => exact r
  | succ m ih =>
      have hnull : v.blockAddr ino (off + (i + m)) = nullAddr := by
        unfold Volume.blockAddr
        rw [← Nat.add_assoc, hmissing m (by omega)]
        rfl
      refine (ih (by omega) fun j hj => hmissing j (by omega)).skip ?_ ?_
      · rw [hnull]
        exact hu (i + m) (by omega) (by omega)
      · intro hf
        exact hf.1.1 hnull

theorem readOutRounds_spec (f : Faults) (rounds : Nat) (r : ReadTo v ino off n i w)
    (hu : Unread n i w) (hrounds : n ≤ i + rounds) (hi : i ≤ n) :
    ReadExit v ino off n n (readOutRounds f ino off n rounds i w) := by
  induction rounds generalizing i w with
  | zero =>
      obtain rfl : i = n := by omega
      exact ⟨⟨i, r⟩, fun _ => ⟨r, hu⟩⟩
  | succ rounds ih =>
      rw [readOutRounds]
      by_cases hlt : i < n
      · rw [if_pos hlt]
        have hslot := ofsInNode_lt (w.vol.addrsPerInode ino) (off + i)
        extract_lets api doneMissing done
        split
        · exact ⟨⟨i, r⟩, fun h => by cases h⟩
        · rename_i habsent
          have hmissing : w.vol.hasDnode ino (off + i) = false := by
            unfold Volume.getDnodeOfData at habsent
            split at habsent
            · cases habsent
            · split at habsent
              · cases habsent
              · rename_i h
                simpa using h
          have hpage : addrsPerPage (w.vol.addrsPerInode ino) (off + i) = addrsPerBlock := by
            unfold addrsPerPage
            split
            · rename_i hp
              unfold Volume.hasDnode dnodeOf at hmissing
              rw [if_pos hp] at hmissing
              cases hmissing
            · rfl
          rw [hpage] at hslot
          have hdone : doneMissing =
              min (addrsPerBlock - ofsInNode (w.vol.addrsPerInode ino) (off + i)) (n - i) := rfl
          clear_value doneMissing
          refine ih (r.skipMissing doneMissing hu (by omega) fun j hj => ?_)
            (fun j hij hj => hu j (by omega) hj)
            (by omega) (by omega)
          rw [← r.hasDnode, Volume.hasDnode_add (by rw [hpage]; omega)]
          exact hmissing
        · have hdone : done = min (addrsPerPage (w.vol.addrsPerInode ino) (off + i) -
            ofsInNode (w.vol.addrsPerInode ino) (off + i)) (n - i) := rfl
          clear_value done
          have hspec := readEntries_spec done r hu (by omega)
          generalize readEntries ino off done i w = result at hspec
          obtain ⟨⟨j, hj⟩, hdoneOk⟩ := hspec
          match result with
          | (some e, w') => exact ⟨⟨j, hj⟩, fun h => by cases h⟩
          | (none, w') => exact ih (hdoneOk rfl).1 (hdoneOk rfl).2 (by omega) (by omega)
      · rw [if_neg hlt]
        obtain rfl : i = n := by omega
        exact ⟨⟨i, r⟩, fun _ => ⟨r, hu⟩⟩

end

/-- `__read_out_blkaddrs`: at every exit the blocks that were taken are in the array, and on
    success all addresses are. -/
theorem readOut_spec {v : Volume β} (b : v.books.Balanced) (f : Faults) (ino off n : Nat)
    {e : Option Errno} {w : Work β} (h : readOutBlkaddrs f ino off n (v.kvzalloc f n) = (e, w)) :
    (∃ i, ReadTo v ino off n i w) ∧ (e = none → ReadTo v ino off n n w) := by
  have hunread : Unread n 0 (v.kvzalloc f n) := fun j _ hj => if_pos hj
  have hstart : ReadTo v ino off n 0 (v.kvzalloc f n) := ReadTo.start b f
  have hspec := readOutRounds_spec f n hstart hunread (by omega) (Nat.zero_le n)
  rw [show readOutRounds f ino off n n 0 (v.kvzalloc f n) = (e, w) from h] at hspec
  exact ⟨hspec.1, fun he => (hspec.2 he).1⟩

end F2fs.Blocks

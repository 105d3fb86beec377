/-
  The two loops of `__clone_blkaddrs`: `cloneRounds_run`.

  The inner loop stays in one node of the destination and takes an entry in every round; the
  outer one takes an entry or enters the inner one.  So the loops end, and what every part
  of them keeps holds when they do.
-/
import F2fs.Blocks.Exchange

namespace F2fs.Blocks

open F2fs.Node

variable {β : Type}

/-! ## The slots of a node -/

/-- `m` slots of one node, which exists, from that of page `p` on. -/
def Volume.Slots (v : Volume β) (ino p m : Nat) : Prop :=
  v.hasDnode ino p = true ∧
    ofsInNode (v.addrsPerInode ino) p + m ≤ addrsPerPage (v.addrsPerInode ino) p

theorem Volume.Slots.next {v v' : Volume β} {ino p m : Nat} (h : v.Slots ino p m) (hm : 2 ≤ m)
    (hd : v'.hasDnode = v.hasDnode) (hapi : v'.addrsPerInode = v.addrsPerInode) :
    v'.Slots ino (p + 1) (m - 1) := by
  have hlt : ofsInNode (v.addrsPerInode ino) p + 1 < addrsPerPage (v.addrsPerInode ino) p := by
    have := h.2
    omega
  obtain ⟨hofs, hpage⟩ := ofsInNode_add hlt
  refine ⟨?_, ?_⟩
  · rw [hd, Volume.hasDnode_add hlt]
    exact h.1
  · rw [hapi, hofs, hpage]
    have := h.2
    omega

section

variable {x : Exchange} {dst i : Nat} {w : Work β}

/-- What the truncation leaves, with the flagged block or without, and no size changes. -/
theorem replaceEntry_keeps {P : Volume β → Prop}
    (hcut : P (w.vol.truncateDataBlock x.dstIno (dst + i)))
    (hmove : P (((w.vol.truncateDataBlock x.dstIno (dst + i)).moveIBlocks x.srcIno
      x.dstIno).replaceBlock x.dstIno (dst + i) nullAddr (w.blkaddr i) true false))
    (hsize : ∀ v n, P v → P (v.iSizeWrite x.dstIno n)) : P (replaceEntry x dst i w).vol := by
  have hlast : ∀ w' : Work β, P w'.vol → P (if w'.vol.isize x.dstIno < (dst + i + 1) * pageSize then
      { w' with vol := w'.vol.iSizeWrite x.dstIno ((dst + i + 1) * pageSize) } else w').vol := by
    intro w' h
    split
    · exact hsize _ _ h
    · exact h
  unfold replaceEntry
  refine hlast _ ?_
  split
  · exact hmove
  · exact hcut

theorem hasDnode_replaceEntry : (replaceEntry x dst i w).vol.hasDnode = w.vol.hasDnode :=
  have hcut : (w.vol.truncateDataBlock x.dstIno (dst + i)).hasDnode = w.vol.hasDnode :=
    Volume.hasDnode_truncate
  replaceEntry_keeps (P := fun v => v.hasDnode = w.vol.hasDnode) hcut hcut fun _ _ h => h

theorem addrsPerInode_replaceEntry :
    (replaceEntry x dst i w).vol.addrsPerInode = w.vol.addrsPerInode :=
  have hcut : (w.vol.truncateDataBlock x.dstIno (dst + i)).addrsPerInode = w.vol.addrsPerInode :=
    Volume.addrsPerInode_truncate
  replaceEntry_keeps (P := fun v => v.addrsPerInode = w.vol.addrsPerInode) hcut hcut
    fun _ _ h => h

theorem blkaddr_replaceEntry : (replaceEntry x dst i w).blkaddr = w.blkaddr := by
  unfold replaceEntry
  dsimp only
  split <;> split <;> rfl

theorem doReplace_replaceEntry :
    (replaceEntry x dst i w).doReplace = Function.update w.doReplace i false := by
  unfold replaceEntry
  dsimp only
  split
  · split <;> rfl
  · rename_i h
    have hflag : w.doReplace i = false := by simpa using h
    have : Function.update w.doReplace i false = w.doReplace := by
      rw [← hflag, Function.update_eq_self]
    split <;> exact this.symm

end

/-! ## The rule for the loops -/

/-- What is known of the inner loop while it runs. -/
def InNode (x : Exchange) (dst n i : Nat) (w : Work β) : Option Nat → Prop
  | none => True
  | some ilen => 1 ≤ ilen ∧ i + ilen ≤ n ∧ w.vol.Slots x.dstIno (dst + i) ilen ∧
      (w.doReplace i = true ∨ w.blkaddr i = nullAddr)

/-- The rounds that are left at most. -/
def cloneLeft (n i : Nat) : Option Nat → Nat
  | none => 2 * (n - i) + 1
  | some _ => 2 * (n - i)

/-- Every part of the loops keeps `I`, by the entries taken; a failure leaves `J`. -/
structure CloneKeeps (f : Faults) (x : Exchange) (src dst n : Nat) (I J : Nat → Work β → Prop) :
    Prop where
  leave : ∀ {i w}, I i w → J i w
  skip : ∀ {i w}, i < n → I i w → w.blkaddr i = nullAddr → x.full = false → I (i + 1) w
  alloc : ∀ {i w}, i < n → I i w → I i { w with vol := w.vol.allocDnode x.dstIno (dst + i) }
  replace : ∀ {i w}, i < n → I i w → w.vol.hasDnode x.dstIno (dst + i) = true →
    (w.doReplace i = true ∨ w.blkaddr i = nullAddr) → I (i + 1) (replaceEntry x dst i w)
  copy : ∀ {i w vol}, i < n → I i w → w.doReplace i = false → w.blkaddr i ≠ nullAddr →
    copyEntry f x src dst i w.vol = (none, vol) → I (i + 1) { w with vol := vol }
  fail : ∀ {i w vol e}, i < n → I i w → copyEntry f x src dst i w.vol = (some e, vol) →
    J i { w with vol := vol }

theorem cloneRounds_run {f : Faults} {x : Exchange} {src dst n : Nat} {I J : Nat → Work β → Prop}
    (keeps : CloneKeeps f x src dst n I J) (rounds : Nat) (ilen : Option Nat) {i : Nat} {w : Work β}
    (h : I i w) (hi : i ≤ n) (hin : InNode x dst n i w ilen)
    (hrounds : cloneLeft n i ilen ≤ rounds) :
    ∀ r, cloneRounds f x src dst n rounds i ilen w = r →
      J r.2.1 r.2.2 ∧ (r.1 = none → r.2.1 = n ∧ I n r.2.2) := by
  induction rounds generalizing i ilen w with
  | zero =>
      cases ilen with
      | none => exact absurd hrounds (by simp [cloneLeft])
      | some m =>
          have hm := hin.1
          have hle := hin.2.1
          simp only [cloneLeft] at hrounds
          omega
  | succ rounds ih =>
      rintro r rfl
      cases ilen with
      | none =>
          simp only [cloneLeft] at hrounds
          rw [cloneRounds]
          by_cases hlt : i < n
          · rw [if_pos hlt]
            by_cases hskip : w.blkaddr i = nullAddr ∧ (!x.full) = true
            · rw [if_pos hskip]
              exact ih none (keeps.skip hlt h hskip.1 (by simpa using hskip.2)) hlt trivial
                (by simp only [cloneLeft]; omega) _ rfl
            rw [if_neg hskip]
            by_cases hrep : (w.doReplace i || decide (w.blkaddr i = nullAddr)) = true
            · rw [if_pos hrep]
              unfold Volume.getDnodeAlloc
              cases f.clone (dst + i) with
              | some e => exact ⟨keeps.leave h, fun h => by cases h⟩
              | none =>
                  have hslot := ofsInNode_lt
                    ((w.vol.allocDnode x.dstIno (dst + i)).addrsPerInode x.dstIno) (dst + i)
                  refine ih (some (min
                    (addrsPerPage ((w.vol.allocDnode x.dstIno (dst + i)).addrsPerInode x.dstIno)
                        (dst + i) -
                      ofsInNode ((w.vol.allocDnode x.dstIno (dst + i)).addrsPerInode x.dstIno)
                        (dst + i)) (n - i))) (keeps.alloc hlt h) hi
                    ⟨by omega, by omega, ⟨Volume.hasDnode_allocDnode, ?_⟩, by simpa using hrep⟩
                    (by simp only [cloneLeft]; omega) _ rfl
                  dsimp only
                  omega
            · rw [if_neg hrep]
              have hflag : w.doReplace i = false ∧ w.blkaddr i ≠ nullAddr := by simpa using hrep
              have hcopy : ∀ vol, copyEntry f x src dst i w.vol = (none, vol) →
                  I (i + 1) { w with vol := vol } := fun _ => keeps.copy hlt h hflag.1 hflag.2
              have hfail : ∀ vol e, copyEntry f x src dst i w.vol = (some e, vol) →
                  J i { w with vol := vol } := fun _ _ => keeps.fail hlt h
              generalize copyEntry f x src dst i w.vol = copied at hcopy hfail
              match copied with
              | (some e, vol) => exact ⟨hfail vol e rfl, fun h => by cases h⟩
              | (none, vol) =>
                  exact ih none (hcopy vol rfl) hlt trivial (by simp only [cloneLeft]; omega) _ rfl
          · rw [if_neg hlt]
            obtain rfl : i = n := by omega
            exact ⟨keeps.leave h, fun _ => ⟨rfl, h⟩⟩
      | some ilen =>
          simp only [cloneLeft] at hrounds
          obtain ⟨h1, hle, hslots, hentry⟩ := hin
          have hnext := keeps.replace (by omega) h hslots.1 hentry
          rw [cloneRounds]
          split
          · rename_i hcont
            have hslots' : (replaceEntry x dst i w).vol.Slots x.dstIno (dst + i + 1) (ilen - 1) :=
              hslots.next (by omega) hasDnode_replaceEntry addrsPerInode_replaceEntry
            rw [Nat.add_assoc] at hslots'
            exact ih (some (ilen - 1)) hnext (by omega) ⟨by omega, by omega, hslots', hcont.2⟩
              (by simp only [cloneLeft]; omega) _ rfl
          · exact ih none hnext (by omega) trivial (by simp only [cloneLeft]; omega) _ rfl

/-- `__clone_blkaddrs` from the first entry on. -/
theorem cloneBlkaddrs_run {f : Faults} {x : Exchange} {src dst n : Nat} {I J : Nat → Work β → Prop}
    (keeps : CloneKeeps f x src dst n I J) {w : Work β} (h : I 0 w) :
    ∀ r, cloneBlkaddrs f x src dst n w = r → J r.2.1 r.2.2 ∧ (r.1 = none → r.2.1 = n ∧ I n r.2.2) :=
  cloneRounds_run keeps (2 * n + 1) none h (Nat.zero_le n) trivial (Nat.le_refl _)

end F2fs.Blocks

/-
  The rollback of `__exchange_data_block`: `exchange_rollBack_exact_iff`.

  `__roll_back_blkaddrs` gives each flagged block back to its page, and releases it when the
  page cannot be looked up.  It is called with the length of all that is left of the range,
  not with that of the chunk; it takes every error of the lookup for a missing node; and it
  overwrites what the page holds by then, which is a block when source and destination
  overlap.  The rollback is exact when none of this happens.
-/
import F2fs.Blocks.CloneBooks

namespace F2fs.Blocks

open F2fs.Node

variable {β : Type}

/-! ## What the loop does -/

section

variable (f : Faults) (ino off : Nat)

/-- The lookup of the rollback finds the page of entry `i`. -/
def Work.Found (w : Work β) (i : Nat) : Prop :=
  w.vol.getDnodeOfData (f.rollBack (off + i)) ino (off + i) = .found

instance (w : Work β) (i : Nat) : Decidable (w.Found f ino off i) :=
  inferInstanceAs (Decidable (_ = _))

/-- After `k` rounds of the loop from `w`. -/
structure RolledTo (n : Nat) (w : Work β) (k : Nat) (w' : Work β) : Prop where
  arrays : w'.blkaddr = w.blkaddr ∧ w'.doReplace = w.doReplace
  dnode : w'.vol.hasDnode = w.vol.hasDnode
  stays : ∀ p q, (∀ i < k, w.doReplace i = true → w.Found f ino off i → (p, q) ≠ (ino, off + i)) →
    w'.vol.blockAddr p q = w.vol.blockAddr p q
  mapped : ∀ i < k, w.doReplace i = true → w.Found f ino off i →
    w'.vol.blockAddr ino (off + i) = w.blkaddr i
  released : ∀ i < n, w.doReplace i = true → w'.vol.invalidated.count (w.blkaddr i) =
    w.vol.invalidated.count (w.blkaddr i) + if i < k ∧ ¬w.Found f ino off i then 1 else 0
  live : ∀ a, w.vol.curValid a = true → (∀ i < k, w.doReplace i = true → w.blkaddr i ≠ a) →
    w'.vol.curValid a = true

end

/-- The flagged entries are different blocks. -/
structure Work.Flagged (w : Work β) (n : Nat) : Prop where
  block : ∀ i < n, w.doReplace i = true → IsBlock (w.blkaddr i)
  inj : ∀ i < n, ∀ j < n, w.doReplace i = true → w.doReplace j = true →
    w.blkaddr i = w.blkaddr j → i = j

section

variable {f : Faults} {ino off n k : Nat} {w w' : Work β}

theorem Work.Flagged.own {i : Nat} (h : w.Flagged n) (hi : i < n) (hf : w.doReplace i = true) :
    (w.ledger n).own (.inr i) = some (w.blkaddr i) :=
  (Work.heldFrom_flagged ⟨Nat.zero_le i, hi⟩ hf).trans (blockOf_of (h.block i hi hf))

theorem getDnodeOfData_congr {v v' : Volume β} (h : v'.hasDnode = v.hasDnode) (fault : Option Errno)
    (p : Nat) : v'.getDnodeOfData fault ino p = v.getDnodeOfData fault ino p := by
  unfold Volume.getDnodeOfData
  rw [h]

theorem Work.Found.hasDnode {i : Nat} (h : w.Found f ino off i) : w.vol.hasDnode ino (off + i) =
    true := by
  unfold Work.Found Volume.getDnodeOfData at h
  split at h
  · cases h
  · split at h
    · assumption
    · cases h

/-- The body of the loop by cases. -/
theorem rollBackEntry_cases (f : Faults) (ino off : Nat) (w : Work β) (i : Nat) :
    (w.doReplace i = false ∧ rollBackEntry f ino off w i = w) ∨
    (w.doReplace i = true ∧ w.Found f ino off i ∧ rollBackEntry f ino off w i =
      { w with vol := w.vol.updateDataBlkaddr ino (off + i) (w.blkaddr i) }) ∨
    (w.doReplace i = true ∧ ¬w.Found f ino off i ∧ rollBackEntry f ino off w i =
      { w with vol := (w.vol.decValidBlockCount ino).invalidateBlocks (w.blkaddr i) }) := by
  unfold rollBackEntry Work.Found
  cases w.doReplace i with
  | false => exact Or.inl ⟨rfl, rfl⟩
  | true =>
      right
      cases w.vol.getDnodeOfData (f.rollBack (off + i)) ino (off + i) with
      | found => exact Or.inl ⟨rfl, rfl, rfl⟩
      | absent => exact Or.inr ⟨rfl, (by simp), rfl⟩
      | failed e => exact Or.inr ⟨rfl, (by simp), rfl⟩

theorem RolledTo.next (hw : w.Flagged n) (r : RolledTo f ino off n w k w') (hk : k < n) :
    RolledTo f ino off n w (k + 1) (rollBackEntry f ino off w' k) := by
  have hflag : w'.doReplace k = w.doReplace k := congrFun r.arrays.2 k
  have haddr : w'.blkaddr k = w.blkaddr k := congrFun r.arrays.1 k
  have hfound : w'.Found f ino off k ↔ w.Found f ino off k := by
    unfold Work.Found
    rw [getDnodeOfData_congr r.dnode]
  have hlt : ∀ {i}, i < k + 1 → i ≠ k → i < k := by omega
  obtain ⟨hoff, e⟩ | ⟨hon, hf, e⟩ | ⟨hon, hf, e⟩ := rollBackEntry_cases f ino off w' k
  · rw [e]
    have hne : ∀ i, w.doReplace i = true → i ≠ k := by
      intro i hi h
      rw [h, ← hflag, hoff] at hi
      cases hi
    refine ⟨r.arrays, r.dnode, fun p q h => r.stays p q fun i hi => h i (by omega), ?_, ?_, ?_⟩
    · exact fun i hi hd => r.mapped i (hlt hi (hne i hd)) hd
    · intro i hi hd
      rw [r.released i hi hd]
      have := hne i hd
      congr 2
      exact propext (and_congr_left fun _ => by omega)
    · exact fun a ha h => r.live a ha fun i hi => h i (by omega)
  · rw [e]
    have hd := hf.hasDnode
    refine ⟨r.arrays, r.dnode, ?_, ?_, ?_, fun a ha h => r.live a ha fun i hi => h i (by omega)⟩
    · intro p q h
      have hpq : (p, q) ≠ (ino, off + k) := h k (by omega) (hflag ▸ hon) (hfound.mp hf)
      exact (Volume.blockAddr_update_ne hpq).trans (r.stays p q fun i hi => h i (by omega))
    · intro i hi hdi hfi
      by_cases hik : i = k
      · subst hik
        exact (Volume.blockAddr_update_self hd).trans haddr
      · have hpage : (ino, off + i) ≠ (ino, off + k) := by simpa using hik
        exact (Volume.blockAddr_update_ne hpage).trans (r.mapped i (hlt hi hik) hdi hfi)
    · intro i hi hdi
      change w'.vol.invalidated.count _ = _
      rw [r.released i hi hdi]
      congr 2
      refine propext (and_congr_left fun hnf => ⟨fun h => by omega, fun h => hlt h ?_⟩)
      rintro rfl
      exact hnf (hfound.mp hf)
  · rw [e]
    have hblock := hw.block k hk (hflag ▸ hon)
    have hinv : ((w'.vol.decValidBlockCount ino).invalidateBlocks (w'.blkaddr k)) =
        (w'.vol.decValidBlockCount ino).sitInvalidate (w'.blkaddr k) := by
      rw [Volume.invalidateBlocks, if_neg (haddr ▸ hblock.2)]
    rw [hinv]
    have hne : ∀ i, w.Found f ino off i → i ≠ k := fun i hi h => hf (hfound.mpr (h ▸ hi))
    refine ⟨r.arrays, r.dnode, ?_, ?_, ?_, ?_⟩
    · intro p q h
      exact r.stays p q fun i hi => h i (by omega)
    · exact fun i hi hdi hfi => r.mapped i (hlt hi (hne i hfi)) hdi hfi
    · intro i hi hdi
      change (w'.blkaddr k :: w'.vol.invalidated).count (w.blkaddr i) = _
      rw [haddr, List.count_cons, r.released i hi hdi]
      by_cases hik : i = k
      · subst hik
        have hnf : ¬w.Found f ino off i := fun h => hf (hfound.mpr h)
        simp [hnf]
      · have hne' : w.blkaddr k ≠ w.blkaddr i := fun h =>
          hik (hw.inj k hk i hi (hflag ▸ hon) hdi h).symm
        simp only [beq_iff_eq, if_neg hne', Nat.add_zero]
        congr 2
        exact propext (and_congr_left fun _ => by omega)
    · intro a ha h
      change Function.update w'.vol.curValid (w'.blkaddr k) false a = true
      rw [haddr, Function.update_of_ne (fun e => h k (by omega) (hflag ▸ hon) e.symm)]
      exact r.live a ha fun i hi => h i (by omega)

theorem rolledTo (hw : w.Flagged n) (hk : k ≤ n) :
    RolledTo f ino off n w k ((List.range k).foldl (rollBackEntry f ino off) w) := by
  induction k with
  | zero =>
      exact ⟨⟨rfl, rfl⟩, rfl, fun _ _ _ => rfl, fun i hi => absurd hi (Nat.not_lt_zero i),
        fun i _ _ => by simp, fun _ ha _ => ha⟩
  | succ k ih =>
      rw [List.range_succ, List.foldl_append]
      exact (ih (by omega)).next hw (by omega)

/-- Every round gives one flagged block back, to its page if nothing is in it. -/
theorem rolledTo_kept {L : Ledger (Volume.Place Nat) Nat} (hw : w.Flagged n)
    (hkept : Ledger.Kept L (w.ledger n))
    (hempty : ∀ i < n, w.doReplace i = true → w.Found f ino off i →
      ¬IsBlock (w.vol.blockAddr ino (off + i))) (hk : k ≤ n) :
    Ledger.Kept L (((List.range k).foldl (rollBackEntry f ino off) w).vol.ledger
      (w.heldFrom k n)) := by
  induction k with
  | zero => exact hkept
  | succ k ih =>
      have r : RolledTo f ino off n w k _ := rolledTo hw (by omega)
      have hk' := ih (by omega)
      rw [List.range_succ, List.foldl_append, List.foldl_cons, List.foldl_nil]
      generalize (List.range k).foldl (rollBackEntry f ino off) w = w' at r hk'
      have hflag : w'.doReplace k = w.doReplace k := congrFun r.arrays.2 k
      have haddr : w'.blkaddr k = w.blkaddr k := congrFun r.arrays.1 k
      have hnext : w.heldFrom (k + 1) n = Function.update (w.heldFrom k n) k none := by
        funext j
        by_cases hj : j = k
        · subst hj
          rw [Function.update_self]
          exact Work.heldFrom_outside (by omega)
        · rw [Function.update_of_ne hj]
          unfold Work.heldFrom
          congr 2
          exact propext (by omega)
      rw [hnext]
      obtain ⟨hoff, e⟩ | ⟨hon, hf, e⟩ | ⟨hon, hf, e⟩ :=
        rollBackEntry_cases f ino off w' k
      · have hnone : w.heldFrom k n k = none := Work.heldFrom_unflagged (hflag.symm.trans hoff)
        rw [e, ← hnone, Function.update_eq_self]
        exact hk'
      · have hon' : w.doReplace k = true := hflag.symm.trans hon
        have hheld : w.heldFrom k n k = blockOf (w'.blkaddr k) := by
          rw [haddr]
          exact Work.heldFrom_flagged (by omega) hon'
        have hfound : w.Found f ino off k := by
          unfold Work.Found at hf ⊢
          rwa [getDnodeOfData_congr r.dnode] at hf
        have hpage : w'.vol.blockAddr ino (off + k) = w.vol.blockAddr ino (off + k) := by
          apply r.stays
          intro i hi _ _
          simpa using (show k ≠ i by omega)
        have hnone : (w'.vol.ledger (w.heldFrom k n)).own (.inl (ino, off + k)) = none := by
          rw [Volume.ledger_page, hpage]
          exact blockOf_eq_none.mpr (hempty k (by omega) hon' hfound)
        have hmap : (w'.vol.updateDataBlkaddr ino (off + k) (w'.blkaddr k)).ledger
            (Function.update (w.heldFrom k n) k none) = _ := Volume.ledger_map hf.hasDnode hheld
        rw [e]
        rw [hmap]
        exact hk'.transfer _ hnone
      · have hon' : w.doReplace k = true := hflag.symm.trans hon
        have hblock := hw.block k (by omega) hon'
        have hheld : w.heldFrom k n k = some (w'.blkaddr k) := by
          rw [haddr]
          exact (Work.heldFrom_flagged (by omega) hon').trans (blockOf_of hblock)
        have hdrop : ((w'.vol.decValidBlockCount ino).invalidateBlocks (w'.blkaddr k)).ledger
            (Function.update (w.heldFrom k n) k none) =
            ((w'.vol.decValidBlockCount ino).ledger (w.heldFrom k n)).release (.inr k) :=
          Volume.ledger_drop hheld (haddr ▸ hblock)
        rw [e]
        rw [hdrop]
        exact hk'.release _

end

/-! ## When the rollback is exact -/

section

variable (f : Faults) (x : Exchange) (c : FailedChunk β)

/-- The rollback stays in the arrays, and every block the checkpoint does not know that was
    not moved is in its page again, or released once; none is lost or owned twice. -/
structure FailedChunk.Exact : Prop where
  inside : ∀ i ∈ rollBackIndices c.len, i < c.olen
  returned : ∀ i < c.olen, c.cloned ≤ i → c.start.Fresh x.srcIno (c.src + i) →
    (c.rolledBack f x).vol.blockAddr x.srcIno (c.src + i) = c.start.blockAddr x.srcIno (c.src + i) ∨
    (c.rolledBack f x).vol.hasDnode x.srcIno (c.src + i) = false ∧
      (c.rolledBack f x).vol.invalidated.count (c.start.blockAddr x.srcIno (c.src + i)) =
        c.work.vol.invalidated.count (c.start.blockAddr x.srcIno (c.src + i)) + 1
  books : Ledger.Kept c.start.books (c.rolledBack f x).vol.books

/-- The length the rollback is called with reaches the flagged entries and no further, and
    each of them has its page, with no block in it, or no node. -/
structure FailedChunk.Recoverable : Prop where
  length_le : intLen c.len ≤ c.olen
  entry : ∀ i < c.olen, c.work.doReplace i = true → i < intLen c.len ∧
    (c.work.Found f x.srcIno c.src i ∧ ¬IsBlock (c.work.vol.blockAddr x.srcIno (c.src + i)) ∨
      c.work.vol.hasDnode x.srcIno (c.src + i) = false)

end

section

variable {f : Faults} {x : Exchange} {c : FailedChunk β}

namespace FailedChunk.Suspended

theorem work_flagged (s : c.Suspended x) : c.work.Flagged c.olen := by
  have hblock : ∀ i < c.olen, c.work.doReplace i = true → IsBlock (c.work.blkaddr i) := by
    intro i hi hf
    obtain ⟨-, hfresh, haddr⟩ := s.flagged i hi hf
    rw [haddr]
    exact hfresh.1
  have hown : ∀ i < c.olen, c.work.doReplace i = true →
      (c.work.ledger c.olen).own (.inr i) = some (c.work.blkaddr i) := fun i hi hf =>
    (Work.heldFrom_flagged ⟨Nat.zero_le i, hi⟩ hf).trans (blockOf_of (hblock i hi hf))
  refine ⟨hblock, fun i hi j hj hfi hfj h => ?_⟩
  have hsame := s.kept.balanced.inj (hown i hi hfi) (h ▸ hown j hj hfj)
  exact Sum.inr.inj hsame

/-- A flagged block is in no page. -/
theorem not_mapped (s : c.Suspended x) {i : Nat} (hi : i < c.olen) (hf : c.work.doReplace i = true)
    (p q : Nat) : c.work.vol.blockAddr p q ≠ c.work.blkaddr i := by
  intro h
  have hpage : (c.work.ledger c.olen).own (.inl (p, q)) = some (c.work.blkaddr i) := by
    change blockOf (c.work.vol.blockAddr p q) = _
    rw [h]
    exact blockOf_of (s.work_flagged.block i hi hf)
  cases s.kept.balanced.inj hpage (s.work_flagged.own hi hf)

/-- What a flagged entry overwrites is lost. -/
theorem spare_overwritten {k i : Nat} {w' : Work β} (s : c.Suspended x) (hk : k ≤ c.olen)
    (r : RolledTo f x.srcIno c.src c.olen c.work k w') (hi : i < k) (hf : c.work.doReplace i = true)
    (hfound : c.work.Found f x.srcIno c.src i)
    (hblock : IsBlock (c.work.vol.blockAddr x.srcIno (c.src + i))) :
    w'.vol.books.Spare (c.work.vol.blockAddr x.srcIno (c.src + i)) := by
  have hown : (c.work.ledger c.olen).own (.inl (x.srcIno, c.src + i)) =
      some (c.work.vol.blockAddr x.srcIno (c.src + i)) := blockOf_of hblock
  refine ⟨r.live _ (s.kept.balanced.live hown) ?_, ?_⟩
  · intro j hj hfj h
    exact s.not_mapped (by omega) hfj _ _ h.symm
  · rintro (⟨p, q⟩ | j) hpage
    · obtain ⟨hpage, -⟩ := blockOf_eq_some.mp hpage
      by_cases hmoved : ∃ j < k, c.work.doReplace j = true ∧ c.work.Found f x.srcIno c.src j ∧
          (p, q) = (x.srcIno, c.src + j)
      · obtain ⟨j, hj, hfj, hfoundj, hpq⟩ := hmoved
        obtain ⟨rfl, rfl⟩ := Prod.mk.inj hpq
        rw [r.mapped j hj hfj hfoundj] at hpage
        exact s.not_mapped (by omega) hfj _ _ hpage.symm
      · have hstays : w'.vol.blockAddr p q = c.work.vol.blockAddr p q :=
          r.stays p q fun j hj hfj hfoundj hpq => hmoved ⟨j, hj, hfj, hfoundj, hpq⟩
        have hown' : (c.work.ledger c.olen).own (.inl (p, q)) =
            some (c.work.vol.blockAddr x.srcIno (c.src + i)) := by
          rw [← hpage, hstays]
          exact blockOf_of (hstays ▸ hpage ▸ hblock)
        have hpq := Sum.inl.inj (s.kept.balanced.inj hown' hown)
        exact hmoved ⟨i, hi, hf, hfound, hpq⟩
    · cases hpage

theorem rolledBack (s : c.Suspended x) (h : intLen c.len ≤ c.olen) :
    RolledTo f x.srcIno c.src c.olen c.work (intLen c.len) (c.rolledBack f x) :=
  rolledTo s.work_flagged h

theorem recoverable (s : c.Suspended x) (h : c.Exact f x) : c.Recoverable f x := by
  have hle : intLen c.len ≤ c.olen := by
    by_contra hlt
    have := h.inside c.olen (List.mem_range.mpr (by omega))
    omega
  have r : RolledTo f x.srcIno c.src c.olen c.work _ _ := s.rolledBack hle
  refine ⟨hle, fun i hi hf => ?_⟩
  obtain ⟨hcloned, hfresh, haddr⟩ := s.flagged i hi hf
  obtain hback | ⟨hnode, hcount⟩ := h.returned i hi hcloned hfresh
  · rw [← haddr] at hback
    have hreached : i < intLen c.len ∧ c.work.Found f x.srcIno c.src i := by
      by_contra hn
      have hstays : (c.rolledBack f x).vol.blockAddr x.srcIno (c.src + i) =
          c.work.vol.blockAddr x.srcIno (c.src + i) := by
        apply r.stays
        intro j hj _ hfound hpage
        have hij : i = j := by simpa using hpage
        exact hn (hij ▸ ⟨hj, hfound⟩)
      exact s.not_mapped hi hf _ _ (hstays.symm.trans hback)
    refine ⟨hreached.1, Or.inl ⟨hreached.2, fun hblock => ?_⟩⟩
    have hspare := h.books.spare _ (s.spare_overwritten hle r hreached.1 hf hreached.2 hblock)
    have hown : (c.work.ledger c.olen).own (.inl (x.srcIno, c.src + i)) =
        some (c.work.vol.blockAddr x.srcIno (c.src + i)) := blockOf_of hblock
    obtain ⟨k, hk⟩ := s.kept.owned hown
    exact hspare.2 k hk
  · have hnode' : c.work.vol.hasDnode x.srcIno (c.src + i) = false :=
      (congrFun (congrFun r.dnode _) _).symm.trans hnode
    refine ⟨?_, Or.inr hnode'⟩
    have hreleased := r.released i hi hf
    rw [← haddr] at hcount
    by_contra hn
    rw [if_neg fun h => hn h.1, hcount] at hreleased
    omega

theorem exact (s : c.Suspended x) (h : c.Recoverable f x) : c.Exact f x := by
  have r : RolledTo f x.srcIno c.src c.olen c.work _ _ := s.rolledBack h.length_le
  refine ⟨?_, fun i hi hcloned hfresh => ?_, ?_⟩
  · intro i hi
    exact Nat.lt_of_lt_of_le (List.mem_range.mp hi) h.length_le
  · cases hf : c.work.doReplace i with
    | false =>
        have hstays : (c.rolledBack f x).vol.blockAddr x.srcIno (c.src + i) =
            c.work.vol.blockAddr x.srcIno (c.src + i) := by
          apply r.stays
          intro j hj hfj _ hpage
          have hij : i = j := by simpa using hpage
          rw [← hij, hf] at hfj
          cases hfj
        obtain hon | ⟨-, hpage⟩ := s.unmoved i hi hcloned hfresh
        · rw [hf] at hon
          cases hon
        · exact Or.inl (hstays.trans hpage)
    | true =>
        obtain ⟨-, -, haddr⟩ := s.flagged i hi hf
        obtain ⟨hlt, ⟨hfound, -⟩ | hnode⟩ := h.entry i hi hf
        · exact Or.inl ((r.mapped i hlt hf hfound).trans haddr)
        · refine Or.inr ⟨(congrFun (congrFun r.dnode _) _).trans hnode, ?_⟩
          have hnf : ¬c.work.Found f x.srcIno c.src i := by
            intro hfound
            rw [hfound.hasDnode] at hnode
            cases hnode
          have hreleased := r.released i hi hf
          rw [if_pos ⟨hlt, hnf⟩, haddr] at hreleased
          exact hreleased
  · have hkept : Ledger.Kept c.start.books
      ((c.rolledBack f x).vol.ledger (c.work.heldFrom _ c.olen)) :=
      rolledTo_kept s.work_flagged s.kept (fun i hi hf hfound => ?_) h.length_le
    · have hnone : c.work.heldFrom (intLen c.len) c.olen = fun _ => none := by
        funext j
        cases hf : c.work.doReplace j with
        | false => exact Work.heldFrom_unflagged hf
        | true =>
            apply Work.heldFrom_outside
            intro hj
            have := (h.entry j hj.2 hf).1
            omega
      rw [hnone] at hkept
      exact hkept
    · obtain ⟨-, ⟨-, hempty⟩ | hnode⟩ := h.entry i hi hf
      · exact hempty
      · rw [hfound.hasDnode] at hnode
        cases hnode

end FailedChunk.Suspended

end

/-- Whenever `__exchange_data_block` fails in a chunk, the rollback is exact if and only if
    the flagged entries are within the length it is called with, which is that of the chunk,
    and can each be given back. -/
theorem exchange_rollBack_exact_iff {v : Volume β} (b : v.books.Balanced) (f : Faults)
    (x : Exchange)
    (src dst len : Nat) {c : FailedChunk β} (h : exchangeLoop f x src dst len v = .rollBack c) :
    c.Exact f x ↔ c.Recoverable f x := by
  obtain ⟨s, -, -⟩ := exchangeChunks_rollBack f x len b h
  exact ⟨s.recoverable, s.exact⟩

/-! ## Two runs -/

/-- A file with two blocks that were written after the last checkpoint. -/
def twoBlocks : Volume Nat where
  addrsPerInode _ := defAddrsPerInode
  dnodes _ _ := false
  addr ino p := if ino = 1 ∧ p < 2 then 100 + p else nullAddr
  curValid a := a = 100 ∨ a = 101
  ckptValid _ := false
  invalidated := []
  disk a := a
  zero := 0
  dirty _ _ := none
  counts :=
    { sbi :=
        { userBlockCount := 1000
          totalValidBlockCount := 2
          allocValidBlockCount := 0
          reservedBlocks := 0
          currentReservedBlocks := 0
          rootReservedBlocks := 0
          reserveRoot := false
          totalNodeCount := 100
          totalValidNodeCount := 2 }
      inodes := fun _ => { iBlocks := 2, quotaReserved := 0, quotaUsed := 2 } }
  isize ino := if ino = 1 then 2 * pageSize else 0
  lfs := false

/-- Nothing fails. -/
def noFaults : Faults where
  kvzalloc _ := false
  behind _ := (0, false)
  readOut _ := none
  clone _ := none
  lockPage _ := none
  newPage _ := none
  noAlloc _ := false
  caller :=
    { noquota := false, capable := true, isResuid := false, resgidIsRoot := true,
      inResgid := false }
  quota _ := true
  newRead _ := none
  hole _ := none
  rollBack _ := none

/-- Blocks of file 1 are moved to file 2. -/
def moveToOther : Exchange where
  srcIno := 1
  dstIno := 2
  full := false

theorem twoBlocks_own {k : Volume.Place Nat} {a : Nat} (h : twoBlocks.books.own k = some a) :
    (k = .inl (1, 0) ∧ a = 100) ∨ (k = .inl (1, 1) ∧ a = 101) := by
  obtain ⟨i, p⟩ | j := k
  · obtain ⟨haddr, hblock⟩ := blockOf_eq_some.mp h
    change twoBlocks.blockAddr i p = a at haddr
    have haddr' : twoBlocks.blockAddr i p ≠ nullAddr := haddr ▸ hblock.1
    rw [Volume.blockAddr_of_hasDnode (Volume.hasDnode_of_blockAddr haddr')] at haddr haddr'
    have hpage : i = 1 ∧ p < 2 := by
      by_contra hn
      exact haddr' (if_neg hn)
    obtain ⟨rfl, hp⟩ := hpage
    have haddr : 100 + p = a := (if_pos ⟨rfl, hp⟩ : twoBlocks.addr 1 p = 100 + p).symm.trans haddr
    obtain rfl | rfl : p = 0 ∨ p = 1 := by omega
    · exact Or.inl ⟨rfl, haddr.symm⟩
    · exact Or.inr ⟨rfl, haddr.symm⟩
  · cases h

theorem twoBlocks_balanced : twoBlocks.books.Balanced where
  inj h h' := by
    obtain ⟨rfl, ha⟩ | ⟨rfl, ha⟩ := twoBlocks_own h <;>
      obtain ⟨rfl, ha'⟩ | ⟨rfl, ha'⟩ := twoBlocks_own h' <;> first | rfl | omega
  live h := by
    obtain ⟨-, rfl⟩ | ⟨-, rfl⟩ := twoBlocks_own h <;> rfl

/-- Both blocks are taken off, no node is allocated for the destination, both go back. -/
theorem twoBlocks_rolledBack :
    ∃ c, exchangeLoop { noFaults with clone := fun _ => some .enospc } moveToOther 0 10 2
      twoBlocks =
        .rollBack c ∧ c.Exact { noFaults with clone := fun _ => some .enospc } moveToOther := by
  refine ⟨_, rfl, (exchange_rollBack_exact_iff twoBlocks_balanced _ _ 0 10 2 rfl).mpr ?_⟩
  refine ⟨by decide, fun i hi _ => ?_⟩
  obtain rfl | rfl : i = 0 ∨ i = 1 := by
    have : i < 2 := hi
    omega
  · exact ⟨by decide, Or.inl ⟨by decide, by decide⟩⟩
  · exact ⟨by decide, Or.inl ⟨by decide, by decide⟩⟩

/-- The first of two chunks fails in its first lookup; the rollback looks at the entry behind
    the end of the arrays. -/
theorem twoBlocks_outside :
    twoBlocks.books.Balanced ∧ ∃ c, exchangeLoop { noFaults with readOut := fun _ => some .eio }
        moveToOther 0 5000 4073 twoBlocks = .rollBack c ∧
      ¬c.Exact { noFaults with readOut := fun _ => some .eio } moveToOther := by
  refine ⟨twoBlocks_balanced, _, rfl, fun h => ?_⟩
  have hlen : intLen 4073 = 4073 := by decide
  have hlt : (4072 : Nat) < 4072 := h.inside 4072 (List.mem_range.mpr (by rw [hlen]; omega))
  exact Nat.lt_irrefl 4072 hlt

end F2fs.Blocks

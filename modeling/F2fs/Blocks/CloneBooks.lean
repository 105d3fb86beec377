/-
  The books while a chunk of `__exchange_data_block` is on its way: `exchangeChunk_spec`.

  With the flagged entries as owners the books balance at every exit.  When a chunk fails,
  what was not moved is flagged or was not read out (`FailedChunk.Suspended`).
-/
import F2fs.Blocks.CloneLoop
import F2fs.Blocks.ReadOut

namespace F2fs.Blocks

open F2fs.Node

variable {β : Type}

/-! ## The clone loops keep the books -/

section

variable {v : Volume β} {L : Ledger (Volume.Place Nat) Nat} {held : Nat → Option Nat}

theorem reserveNewBlock_ledger (f : Faults) {ino p : Nat} (h : v.blockAddr ino p = nullAddr)
    (hd : v.hasDnode ino p = true) : (v.reserveNewBlock f ino p).2.ledger held = v.ledger held := by
  unfold Volume.reserveNewBlock
  split
  · rfl
  · split
    · rfl
    · rename_i counts _
      exact Volume.ledger_reserve (v := { v with counts := counts }) h hd

theorem getNewDataPage_ledger (f : Faults) (ino p : Nat) :
    (v.getNewDataPage f ino p).2.ledger held = v.ledger held := by
  unfold Volume.getNewDataPage Volume.getDnodeAlloc
  cases f.newPage p with
  | some e => rfl
  | none =>
      have hd : (v.allocDnode ino p).hasDnode ino p = true := Volume.hasDnode_allocDnode
      have hreserve : ∀ r, (if (v.allocDnode ino p).blockAddr ino p = nullAddr then
          (v.allocDnode ino p).reserveNewBlock f ino p else (none, v.allocDnode ino p)) = r →
          r.2.ledger held = v.ledger held := by
        rintro r rfl
        split
        · rename_i h
          rw [reserveNewBlock_ledger f h hd, Volume.ledger_allocDnode]
        · exact Volume.ledger_allocDnode
      dsimp only
      generalize hr : (if (v.allocDnode ino p).blockAddr ino p = nullAddr then
        (v.allocDnode ino p).reserveNewBlock f ino p else (none, v.allocDnode ino p)) = r
      have hledger := hreserve r hr
      match r with
      | (some e, v') => exact hledger
      | (none, v') =>
          dsimp only
          split
          · exact hledger
          · rw [← hledger]
            dsimp only
            split <;> rfl

theorem truncateHole_kept (f : Faults) (ino p : Nat) (h : Ledger.Kept L (v.ledger held)) :
    Ledger.Kept L ((v.truncateHole f ino p).2.ledger held) := by
  unfold Volume.truncateHole
  split
  · rw [Volume.ledger_truncate]
    exact h.release _
  all_goals exact h

theorem copyEntry_kept (f : Faults) (x : Exchange) (src dst i : Nat)
    (h : Ledger.Kept L (v.ledger held)) :
    Ledger.Kept L ((copyEntry f x src dst i v).2.ledger held) := by
  unfold copyEntry
  split
  · exact h
  · have hnew : (v.getNewDataPage f x.dstIno (dst + i)).2.ledger held = v.ledger held :=
      getNewDataPage_ledger f x.dstIno (dst + i)
    generalize v.getNewDataPage f x.dstIno (dst + i) = r at hnew
    rw [← hnew] at h
    match r with
    | (some e, v') => exact h
    | (none, v') => exact truncateHole_kept f _ _ h

end

section

variable {x : Exchange} {dst i n : Nat} {w : Work β} {L : Ledger (Volume.Place Nat) Nat}

/-- The destination is given back, and the flagged block goes there. -/
theorem replaceEntry_kept (hd : w.vol.hasDnode x.dstIno (dst + i) = true) (hi : i < n)
    (h : Ledger.Kept L (w.ledger n)) : Ledger.Kept L ((replaceEntry x dst i w).ledger n) := by
  have hcut : ((w.vol.truncateDataBlock x.dstIno (dst + i)).ledger (w.heldFrom 0 n)) =
      (w.ledger n).release (.inl (x.dstIno, dst + i)) := Volume.ledger_truncate
  have hsize : ∀ w' : Work β, (if w'.vol.isize x.dstIno < (dst + i + 1) * pageSize then
      { w' with vol := w'.vol.iSizeWrite x.dstIno ((dst + i + 1) * pageSize) } else w').ledger n =
      w'.ledger n := by
    intro w'
    split <;> rfl
  unfold replaceEntry
  rw [hsize]
  split
  · rename_i hflag
    have hd' : ((w.vol.truncateDataBlock x.dstIno (dst + i)).moveIBlocks x.srcIno x.dstIno).hasDnode
        x.dstIno (dst + i) = true := by
      rw [← hd]
      exact congrFun (congrFun Volume.hasDnode_truncate _) _
    have hheld : w.heldFrom 0 n i = blockOf (w.blkaddr i) :=
      Work.heldFrom_flagged ⟨Nat.zero_le i, hi⟩ hflag
    have hmap := Volume.ledger_map hd' hheld
    have hempty : ((w.ledger n).release (.inl (x.dstIno, dst + i))).own (.inl (x.dstIno, dst + i)) =
        none := Ledger.release_own_self
    have hafter : Work.ledger { w with
        vol := ((w.vol.truncateDataBlock x.dstIno (dst + i)).moveIBlocks x.srcIno
          x.dstIno).replaceBlock
          x.dstIno (dst + i) nullAddr (w.blkaddr i) true false
        doReplace := Function.update w.doReplace i false } n =
        ((w.ledger n).release (.inl (x.dstIno, dst + i))).transfer (.inr i)
          (.inl (x.dstIno, dst + i)) := by
      rw [← hcut]
      refine Eq.trans (congrArg (Volume.ledger _) ?_) hmap
      funext j
      by_cases hj : j = i
      · subst hj
        rw [Function.update_self]
        exact Work.heldFrom_unflagged (Function.update_self ..)
      · rw [Function.update_of_ne hj]
        exact Work.heldFrom_congr (Function.update_of_ne hj _ _) rfl
    change Ledger.Kept L (Work.ledger { w with
        vol := ((w.vol.truncateDataBlock x.dstIno (dst + i)).moveIBlocks x.srcIno
          x.dstIno).replaceBlock
          x.dstIno (dst + i) nullAddr (w.blkaddr i) true false
        doReplace := Function.update w.doReplace i false } n)
    rw [hafter]
    exact (h.release _).transfer _ hempty
  · change Ledger.Kept L ((w.vol.truncateDataBlock x.dstIno (dst + i)).ledger (w.heldFrom 0 n))
    rw [hcut]
    exact h.release _

end

/-- The entries below `i` of the arrays in `w₀` are cloned. -/
structure CloneTo (L : Ledger (Volume.Place Nat) Nat) (w₀ : Work β) (n i : Nat) (w : Work β) :
    Prop where
  kept : Ledger.Kept L (w.ledger n)
  moved : ∀ j < i, j < n → w.doReplace j = false
  left : ∀ j, i ≤ j → w.doReplace j = w₀.doReplace j
  blkaddr : w.blkaddr = w₀.blkaddr
  le : i ≤ n

section

variable {L : Ledger (Volume.Place Nat) Nat} {w₀ w : Work β} {n i : Nat}

theorem CloneTo.skip (c : CloneTo L w₀ n i w) (hi : i < n) (h : w.doReplace i = false) :
    CloneTo L w₀ n (i + 1) w where
  kept := c.kept
  moved j hji hj := by
    by_cases e : j = i
    · rw [e, h]
    · exact c.moved j (by omega) hj
  left j hj := c.left j (by omega)
  blkaddr := c.blkaddr
  le := by omega

theorem CloneTo.onVol (c : CloneTo L w₀ n i w) {v : Volume β}
    (h : Ledger.Kept L (v.ledger (w.heldFrom 0 n))) : CloneTo L w₀ n i { w with vol := v } where
  kept := h
  moved := c.moved
  left := c.left
  blkaddr := c.blkaddr
  le := c.le

theorem CloneTo.replace {x : Exchange} {dst : Nat} (c : CloneTo L w₀ n i w) (hi : i < n)
    (hd : w.vol.hasDnode x.dstIno (dst + i) = true) :
    CloneTo L w₀ n (i + 1) (replaceEntry x dst i w) where
  kept := replaceEntry_kept hd hi c.kept
  moved j hji hj := by
    rw [doReplace_replaceEntry]
    by_cases e : j = i
    · rw [e, Function.update_self]
    · rw [Function.update_of_ne e]
      exact c.moved j (by omega) hj
  left j hj := by
    rw [doReplace_replaceEntry, Function.update_of_ne (by omega)]
    exact c.left j (by omega)
  blkaddr := blkaddr_replaceEntry.trans c.blkaddr
  le := by omega

/-- The loops keep the books. -/
theorem cloneTo_keeps (f : Faults) (x : Exchange) (src dst : Nat)
    (hblock : ∀ j < n, w₀.doReplace j = true → w₀.blkaddr j ≠ nullAddr) :
    CloneKeeps f x src dst n (CloneTo L w₀ n) (CloneTo L w₀ n) where
  leave c := c
  skip {i w} hi c hnull _ := by
    apply c.skip hi
    by_contra hf
    rw [c.left i (Nat.le_refl i)] at hf
    exact hblock i hi (by simpa using hf) (c.blkaddr ▸ hnull)
  alloc {i w} _ c := by
    apply c.onVol
    rw [Volume.ledger_allocDnode]
    exact c.kept
  replace hi c hd _ := c.replace hi hd
  copy {i w vol} hi c hflag _ h := by
    have hkept := copyEntry_kept f x src dst i c.kept
    rw [h] at hkept
    exact (c.onVol hkept).skip hi hflag
  fail {i w vol e} hi c h := by
    have hkept := copyEntry_kept f x src dst i c.kept
    rw [h] at hkept
    exact c.onVol hkept

end

/-! ## A chunk -/

/-- The label `roll_back` finds the books balanced, the flagged blocks among them. -/
structure FailedChunk.Suspended (x : Exchange) (c : FailedChunk β) : Prop where
  kept : Ledger.Kept c.start.books (c.work.ledger c.olen)
  /-- what is flagged is a block of its page that was not moved -/
  flagged : ∀ i < c.olen, c.work.doReplace i = true → c.cloned ≤ i ∧
    c.start.Fresh x.srcIno (c.src + i) ∧
    c.work.blkaddr i = c.start.blockAddr x.srcIno (c.src + i)
  /-- what was not moved is flagged, or in its page -/
  unmoved : ∀ i < c.olen, c.cloned ≤ i → c.start.Fresh x.srcIno (c.src + i) →
    c.work.doReplace i = true ∨ c.work.doReplace i = false ∧
      c.work.vol.blockAddr x.srcIno (c.src + i) = c.start.blockAddr x.srcIno (c.src + i)

section

variable (f : Faults) (x : Exchange) {v : Volume β}

theorem exchangeChunk_spec (src dst len : Nat) (b : v.books.Balanced) :
    match exchangeChunk f x src dst len v with
    | .error c => c.Suspended x ∧ c.src = src ∧ c.dst = dst ∧ c.len = len ∧ c.olen = chunkLen len ∧
        c.start = v
    | .ok v' => Ledger.Kept v.books v'.books := by
  have hread : ∀ r, readOutBlkaddrs f x.srcIno src (chunkLen len)
      (v.kvzalloc f (chunkLen len)) = r →
      (∃ i, ReadTo v x.srcIno src (chunkLen len) i r.2) ∧
        (r.1 = none → ReadTo v x.srcIno src (chunkLen len) (chunkLen len) r.2) := by
    rintro ⟨e, w⟩ h
    exact readOut_spec b f x.srcIno src (chunkLen len) h
  unfold exchangeChunk
  dsimp only
  generalize hn : chunkLen len = n at hread ⊢
  generalize readOutBlkaddrs f x.srcIno src n (v.kvzalloc f n) = r at hread
  obtain ⟨⟨j, hj⟩, hall⟩ := hread r rfl
  match r with
  | (some e, w) =>
      refine ⟨⟨hj.kept, ?_, ?_⟩, rfl, rfl, rfl, rfl, rfl⟩
      · intro i hi hflag
        obtain ⟨-, hfresh, haddr, -⟩ := hj.taken i hi hflag
        exact ⟨Nat.zero_le i, hfresh, haddr⟩
      · intro i hi _ _
        cases hflag : w.doReplace i with
        | true => exact Or.inl rfl
        | false =>
            refine Or.inr ⟨rfl, hj.stays _ _ ?_⟩
            intro k hk hk' hpage
            have hik : i = k := by
              have := (Prod.mk.inj hpage).2
              dsimp only at this
              omega
            rw [← hik] at hk'
            exact absurd hk' (by simp [hflag])
  | (none, w) =>
      have hw := hall rfl
      have hblock : ∀ j < n, w.doReplace j = true → w.blkaddr j ≠ nullAddr := by
        intro j hj hflag
        obtain ⟨-, hfresh, haddr, -⟩ := hw.taken j hj hflag
        rw [haddr]
        exact hfresh.1.1
      have hstart : CloneTo v.books w n 0 w :=
        ⟨hw.kept, fun j hj => absurd hj (Nat.not_lt_zero j), fun _ _ => rfl, rfl, Nat.zero_le n⟩
      have hclone := cloneBlkaddrs_run (cloneTo_keeps f x src dst hblock) hstart
      dsimp only
      generalize cloneBlkaddrs f x src dst n w = r at hclone
      obtain ⟨c, hn⟩ := hclone r rfl
      match r with
      | (some e, i, w') =>
          dsimp only at c
          refine ⟨⟨c.kept, ?_, ?_⟩, rfl, rfl, rfl, rfl, rfl⟩
          · intro j hj hflag
            have hij : i ≤ j := by
              by_contra h
              have : w'.doReplace j = false := c.moved j (by omega) hj
              exact absurd hflag (by simp [this])
            have hflag' : w.doReplace j = true := (c.left j hij).symm.trans hflag
            obtain ⟨-, hfresh, haddr, -⟩ := hw.taken j hj hflag'
            exact ⟨hij, hfresh, (congrFun c.blkaddr j).trans haddr⟩
          · intro j hj hij hfresh
            exact Or.inl ((c.left j hij).trans ((hw.read j hj hj).2 hfresh))
      | (none, i, w') =>
          dsimp only at c hn ⊢
          obtain rfl : i = n := (hn rfl).1
          have hbooks : w'.vol.books = w'.ledger i := by
            apply congrArg w'.vol.ledger
            funext j
            by_cases hj : j < i
            · exact (Work.heldFrom_unflagged (c.moved j hj hj)).symm
            · exact (Work.heldFrom_outside fun h => hj h.2).symm
          rw [hbooks]
          exact c.kept

/-- The chunk at which `__exchange_data_block` fails. -/
theorem exchangeChunks_rollBack (rounds : Nat) {src dst len : Nat} {c : FailedChunk β}
    (b : v.books.Balanced)
    (h : exchangeChunks f x rounds src dst len v = .rollBack c) :
    c.Suspended x ∧ c.olen = chunkLen c.len ∧ Ledger.Kept v.books c.start.books := by
  induction rounds generalizing src dst len v with
  | zero => cases h
  | succ rounds ih =>
      rw [exchangeChunks] at h
      split at h
      · cases h
      split at h
      · cases h
      have hspec := exchangeChunk_spec f x src dst len b
      split at h
      · rename_i c' hc
        rw [hc] at hspec
        obtain rfl : c' = c := by cases h; rfl
        obtain ⟨hs, -, -, hlen, holen, hstart⟩ := hspec
        exact ⟨hs, by rw [holen, hlen], by rw [hstart]; exact b.refl_kept⟩
      · rename_i v' hv
        rw [hv] at hspec
        obtain ⟨hs, holen, hkept⟩ := ih hspec.balanced h
        exact ⟨hs, holen, hspec.trans hkept⟩

end

end F2fs.Blocks

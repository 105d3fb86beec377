/-
  What a successful `__exchange_data_block` has moved: `exchange_moved`.

  The loops go forward.  When the destination does not start within the source range, no
  page is written before it is read, and every source block ends up at its destination with
  the content it had.  Pages that are dirty are not looked at: the callers write them out.
-/
import F2fs.Blocks.CloneBooks

namespace F2fs.Blocks

open F2fs.Node

variable {β : Type}

/-! ## Pages that stay -/

/-- The page has the address and the cached content it had. -/
def SamePage (v v' : Volume β) (ino p : Nat) : Prop :=
  v'.blockAddr ino p = v.blockAddr ino p ∧ v'.dirty ino p = v.dirty ino p

/-- What an exchange leaves alone: the disk, and what the checkpoint knows. -/
structure SameDisk (v v' : Volume β) : Prop where
  disk : v'.disk = v.disk
  zero : v'.zero = v.zero
  ckptValid : v'.ckptValid = v.ckptValid

namespace SamePage

variable {v v' v'' : Volume β} {ino p : Nat}

theorem refl : SamePage v v ino p := ⟨rfl, rfl⟩

theorem trans (h : SamePage v v' ino p) (h' : SamePage v' v'' ino p) : SamePage v v'' ino p :=
  ⟨h'.1.trans h.1, h'.2.trans h.2⟩

theorem content (h : SamePage v v' ino p) (d : SameDisk v v') : v'.content ino p =
    v.content ino p := by
  unfold Volume.content
  rw [h.1, h.2, d.disk, d.zero]

end SamePage

namespace SameDisk

variable {v v' v'' : Volume β}

theorem refl : SameDisk v v := ⟨rfl, rfl, rfl⟩

theorem trans (h : SameDisk v v') (h' : SameDisk v' v'') : SameDisk v v'' :=
  ⟨h'.disk.trans h.disk, h'.zero.trans h.zero, h'.ckptValid.trans h.ckptValid⟩

end SameDisk

section

variable {v : Volume β} {ino p i q a : Nat}

theorem sameDisk_truncate : SameDisk v (v.truncateDataBlock ino p) := by
  unfold Volume.truncateDataBlock
  split
  · exact .refl
  · unfold Volume.invalidateBlocks
    split <;> exact ⟨rfl, rfl, rfl⟩

theorem dirty_truncate : (v.truncateDataBlock ino p).dirty = v.dirty := by
  unfold Volume.truncateDataBlock
  split
  · rfl
  · unfold Volume.invalidateBlocks
    split <;> rfl

theorem samePage_truncate (h : (i, q) ≠ (ino, p)) : SamePage v (v.truncateDataBlock ino p) i q :=
  ⟨Volume.blockAddr_truncate_ne h, congrFun (congrFun dirty_truncate i) q⟩

theorem sameDisk_allocDnode : SameDisk v (v.allocDnode ino p) := by
  unfold Volume.allocDnode
  split
  · exact .refl
  · split <;> exact ⟨rfl, rfl, rfl⟩

theorem samePage_allocDnode : SamePage v (v.allocDnode ino p) i q := by
  refine ⟨congrFun (congrFun Volume.blockAddr_allocDnode i) q, ?_⟩
  unfold Volume.allocDnode
  split
  · rfl
  · split <;> rfl

theorem samePage_setPageDirty {c : β} (h : (i, q) ≠ (ino, p)) :
    SamePage v (v.setPageDirty ino p c) i q := by
  refine ⟨rfl, ?_⟩
  change Function.update v.dirty ino (Function.update (v.dirty ino) p (some c)) i q = v.dirty i q
  by_cases hi : i = ino
  · subst hi
    have hq : q ≠ p := fun e => h (by rw [e])
    rw [Function.update_self, Function.update_of_ne hq]
  · rw [Function.update_of_ne hi]

theorem content_setPageDirty {c : β} : (v.setPageDirty ino p c).content ino p = c := by
  have hdirty : (v.setPageDirty ino p c).dirty ino p = some c := by
    change Function.update v.dirty ino (Function.update (v.dirty ino) p (some c)) ino p = some c
    rw [Function.update_self, Function.update_self]
  unfold Volume.content
  rw [hdirty]

end

/-! ## One entry -/

section

variable {x : Exchange} {src dst i : Nat} {w : Work β} {v : Volume β}

/-- Everything but the destination page stays; that page has the flagged block, or none. -/
theorem replaceEntry_page (hd : w.vol.hasDnode x.dstIno (dst + i) = true) :
    SameDisk w.vol (replaceEntry x dst i w).vol ∧
    (∀ p q, (p, q) ≠ (x.dstIno, dst + i) → SamePage w.vol (replaceEntry x dst i w).vol p q) ∧
    (replaceEntry x dst i w).vol.dirty = w.vol.dirty ∧
    (replaceEntry x dst i w).vol.blockAddr x.dstIno (dst + i) =
      if w.doReplace i then w.blkaddr i else nullAddr := by
  have hsize : ∀ w' : Work β, SameDisk w.vol w'.vol →
      (∀ p q, (p, q) ≠ (x.dstIno, dst + i) → SamePage w.vol w'.vol p q) →
      w'.vol.dirty = w.vol.dirty → w'.vol.blockAddr x.dstIno (dst + i) =
        (if w.doReplace i then w.blkaddr i else nullAddr) →
      ∀ w'' : Work β, (if w'.vol.isize x.dstIno < (dst + i + 1) * pageSize then
        { w' with vol := w'.vol.iSizeWrite x.dstIno ((dst + i + 1) * pageSize) } else w') = w'' →
      SameDisk w.vol w''.vol ∧ (∀ p q, (p, q) ≠ (x.dstIno, dst + i) → SamePage w.vol w''.vol p q) ∧
        w''.vol.dirty = w.vol.dirty ∧ w''.vol.blockAddr x.dstIno (dst + i) =
          if w.doReplace i then w.blkaddr i else nullAddr := by
    rintro w' hdisk hpage hdirty haddr w'' rfl
    split <;> exact ⟨⟨hdisk.disk, hdisk.zero, hdisk.ckptValid⟩, hpage, hdirty, haddr⟩
  have hcut : SameDisk w.vol (w.vol.truncateDataBlock x.dstIno (dst + i)) := sameDisk_truncate
  unfold replaceEntry
  refine hsize _ ?_ ?_ ?_ ?_ _ rfl
  · split <;> exact ⟨hcut.disk, hcut.zero, hcut.ckptValid⟩
  · intro p q hpq
    have hsame : SamePage w.vol (w.vol.truncateDataBlock x.dstIno (dst + i)) p q :=
      samePage_truncate hpq
    split
    · exact ⟨(Volume.blockAddr_update_ne hpq).trans hsame.1, hsame.2⟩
    · exact hsame
  · split <;> exact dirty_truncate
  · split
    · apply Volume.blockAddr_update_self
      exact (congrFun (congrFun Volume.hasDnode_truncate _) _).trans hd
    · exact Volume.blockAddr_truncate_self

theorem reserveNewBlock_page (f : Faults) {ino p : Nat} (hd : v.hasDnode ino p = true) :
    SameDisk v (v.reserveNewBlock f ino p).2 ∧
    (∀ i q, (i, q) ≠ (ino, p) → SamePage v (v.reserveNewBlock f ino p).2 i q) ∧
    (v.reserveNewBlock f ino p).2.dirty = v.dirty ∧
    ((v.reserveNewBlock f ino p).1 = none →
      (v.reserveNewBlock f ino p).2.blockAddr ino p = newAddr) := by
  unfold Volume.reserveNewBlock
  split
  · exact ⟨.refl, fun _ _ _ => .refl, rfl, fun h => by cases h⟩
  · split
    · exact ⟨⟨rfl, rfl, rfl⟩, fun _ _ _ => ⟨rfl, rfl⟩, rfl, fun h => by cases h⟩
    · refine ⟨⟨rfl, rfl, rfl⟩, fun i q h => ⟨?_, rfl⟩, rfl, fun _ => ?_⟩
      · exact Volume.blockAddr_update_ne h
      · exact Volume.blockAddr_update_self hd

/-- A success leaves the page with an address. -/
theorem getNewDataPage_page (f : Faults) (ino p : Nat) (h : (v.getNewDataPage f ino p).1 = none) :
    SameDisk v (v.getNewDataPage f ino p).2 ∧
    (∀ i q, (i, q) ≠ (ino, p) → SamePage v (v.getNewDataPage f ino p).2 i q) ∧
    (v.getNewDataPage f ino p).2.dirty = v.dirty ∧
    (v.getNewDataPage f ino p).2.blockAddr ino p ≠ nullAddr := by
  unfold Volume.getNewDataPage Volume.getDnodeAlloc at h ⊢
  cases hnew : f.newPage p with
  | some e =>
      rw [hnew] at h
      cases h
  | none =>
      rw [hnew] at h
      dsimp only at h ⊢
      have hd : (v.allocDnode ino p).hasDnode ino p = true := Volume.hasDnode_allocDnode
      have hreserve : ∀ r, (if (v.allocDnode ino p).blockAddr ino p = nullAddr then
          (v.allocDnode ino p).reserveNewBlock f ino p else (none, v.allocDnode ino p)) = r →
          r.1 = none → SameDisk v r.2 ∧ (∀ i q, (i, q) ≠ (ino, p) → SamePage v r.2 i q) ∧
            r.2.dirty = v.dirty ∧ r.2.blockAddr ino p ≠ nullAddr := by
        rintro r rfl hnone
        have hdirty : (v.allocDnode ino p).dirty = v.dirty :=
          funext fun i => funext fun q => (samePage_allocDnode (i := i) (q := q)).2
        split at hnone
        · rename_i hnull
          rw [if_pos hnull]
          obtain ⟨hdisk, hpage, hdirty', haddr⟩ := reserveNewBlock_page f hd
          refine ⟨sameDisk_allocDnode.trans hdisk,
            fun i q hq => samePage_allocDnode.trans (hpage i q hq),
            hdirty'.trans hdirty, ?_⟩
          rw [haddr hnone]
          decide
        · rename_i hnull
          rw [if_neg hnull]
          exact ⟨sameDisk_allocDnode, fun _ _ _ => samePage_allocDnode, hdirty, hnull⟩
      generalize (if (v.allocDnode ino p).blockAddr ino p = nullAddr then
          (v.allocDnode ino p).reserveNewBlock f ino p else (none, v.allocDnode ino p)) =
            r at hreserve h
      match r with
      | (some e, v') => cases h
      | (none, v') =>
          dsimp only at h ⊢
          obtain ⟨hdisk, hpage, hdirty, haddr⟩ := hreserve _ rfl rfl
          split at h
          · cases h
          · rename_i hread
            dsimp only
            split <;> exact ⟨⟨hdisk.disk, hdisk.zero, hdisk.ckptValid⟩, hpage, hdirty, haddr⟩

theorem truncateHole_page (f : Faults) (ino p : Nat) :
    SameDisk v (v.truncateHole f ino p).2 ∧
    (∀ i q, (i, q) ≠ (ino, p) → SamePage v (v.truncateHole f ino p).2 i q) ∧
    (v.truncateHole f ino p).2.dirty = v.dirty := by
  unfold Volume.truncateHole
  split
  · exact ⟨sameDisk_truncate, fun _ _ h => samePage_truncate h, dirty_truncate⟩
  all_goals exact ⟨.refl, fun _ _ _ => .refl, rfl⟩

/-- Everything but the two pages stays; the destination has the content of the source. -/
theorem copyEntry_page (f : Faults) (hne : (x.srcIno, src + i) ≠ (x.dstIno, dst + i))
    (h : (copyEntry f x src dst i v).1 = none) :
    SameDisk v (copyEntry f x src dst i v).2 ∧
    (∀ p q, (p, q) ≠ (x.srcIno, src + i) → (p, q) ≠ (x.dstIno, dst + i) →
      SamePage v (copyEntry f x src dst i v).2 p q) ∧
    (∀ p q, (p, q) ≠ (x.dstIno, dst + i) → (copyEntry f x src dst i v).2.dirty p q = v.dirty p q) ∧
    (copyEntry f x src dst i v).2.blockAddr x.dstIno (dst + i) ≠ nullAddr ∧
    (copyEntry f x src dst i v).2.content x.dstIno (dst + i) = v.content x.srcIno (src + i) := by
  unfold copyEntry at h ⊢
  split at h
  · cases h
  · rename_i content hread
    have hcontent : v.content x.srcIno (src + i) = content := by
      unfold Volume.getLockDataPage at hread
      split at hread
      · cases hread
      · split at hread
        · cases hread
        · exact Except.ok.inj hread
    have hnew := getNewDataPage_page (v := v) f x.dstIno (dst + i)
    generalize v.getNewDataPage f x.dstIno (dst + i) = r at hnew h
    match r with
    | (some e, v') => cases h
    | (none, v') =>
        obtain ⟨hdisk, hpage, -, haddr⟩ := hnew rfl
        dsimp only at h ⊢
        have hdirty : ∀ p q, (p, q) ≠ (x.dstIno, dst + i) →
            SamePage v' (v'.setPageDirty x.dstIno (dst + i) content) p q := fun p q hq =>
          samePage_setPageDirty hq
        have hset : SameDisk v' (v'.setPageDirty x.dstIno (dst + i) content) := ⟨rfl, rfl, rfl⟩
        obtain ⟨hcut, hcutPage, hcutDirty⟩ :=
          truncateHole_page (v := v'.setPageDirty x.dstIno (dst + i) content) f x.srcIno (src + i)
        refine ⟨hdisk.trans (hset.trans hcut), fun p q hs hd => ?_, fun p q hd => ?_, ?_, ?_⟩
        · exact (hpage p q hd).trans ((hdirty p q hd).trans (hcutPage p q hs))
        · exact (congrFun (congrFun hcutDirty p) q).trans ((hpage p q hd).trans (hdirty p q hd)).2
        · rw [(hcutPage _ _ (Ne.symm hne)).1]
          exact haddr
        · rw [(hcutPage _ _ (Ne.symm hne)).content hcut, content_setPageDirty, hcontent]

end

/-! ## A chunk -/

/-- The destination does not start within the source. -/
def NoForwardOverlap (x : Exchange) (src dst len : Nat) : Prop :=
  x.srcIno = x.dstIno → src ≠ dst ∧ ¬(src < dst ∧ dst < src + len)

theorem NoForwardOverlap.page_ne {x : Exchange} {src dst len : Nat}
    (h : NoForwardOverlap x src dst len)
    {i k : Nat} (hik : i ≤ k) (hk : k < len) : (x.srcIno, src + k) ≠ (x.dstIno, dst + i) := by
  intro e
  obtain ⟨hino, hpage⟩ := Prod.mk.inj e
  obtain ⟨hne, hover⟩ := h hino
  omega

/-- The source block of page `k` is at its destination, with its content. -/
def Moved (v v' : Volume β) (x : Exchange) (src dst k : Nat) : Prop :=
  v.blockAddr x.srcIno (src + k) ≠ nullAddr →
    v'.blockAddr x.dstIno (dst + k) ≠ nullAddr ∧
      v'.content x.dstIno (dst + k) = v.content x.srcIno (src + k)

/-- No page of the two ranges is dirty. -/
def CleanRanges (v : Volume β) (x : Exchange) (src dst len : Nat) : Prop :=
  ∀ k < len, v.dirty x.srcIno (src + k) = none ∧ v.dirty x.dstIno (dst + k) = none

theorem Moved.of_same {v v' v'' : Volume β} {x : Exchange} {src dst k : Nat}
    (m : Moved v v' x src dst k) (h : SamePage v' v'' x.dstIno (dst + k)) (d : SameDisk v' v'') :
    Moved v v'' x src dst k := by
  intro hnull
  obtain ⟨haddr, hcontent⟩ := m hnull
  rw [h.1, h.content d]
  exact ⟨haddr, hcontent⟩

/-- The entries below `i` of a chunk that was read out into `w₀` are cloned. -/
structure MovedTo (v : Volume β) (x : Exchange) (src dst n : Nat) (w₀ : Work β) (i : Nat)
    (w : Work β) : Prop where
  disk : SameDisk v w.vol
  blkaddr : w.blkaddr = w₀.blkaddr
  flags : ∀ k, i ≤ k → w.doReplace k = w₀.doReplace k
  moved : ∀ k < i, Moved v w.vol x src dst k
  /-- a page that is still to be copied has its block -/
  left : ∀ k, i ≤ k → k < n → w₀.doReplace k = false →
    w.vol.blockAddr x.srcIno (src + k) = v.blockAddr x.srcIno (src + k)
  clean : ∀ k, i ≤ k → k < n →
    w.vol.dirty x.srcIno (src + k) = none ∧ w.vol.dirty x.dstIno (dst + k) = none
  outside : ∀ p q, (∀ k < n, (p, q) ≠ (x.srcIno, src + k) ∧ (p, q) ≠ (x.dstIno, dst + k)) →
    SamePage v w.vol p q
  /-- only the destination is made dirty -/
  cached : ∀ p q, (∀ k < n, (p, q) ≠ (x.dstIno, dst + k)) → w.vol.dirty p q = v.dirty p q

section

variable {v : Volume β} {x : Exchange} {src dst n i : Nat} {w₀ w : Work β}

/-- An entry is taken: its pages aside all stays, and only the destination may be dirty. -/
theorem MovedTo.next (m : MovedTo v x src dst n w₀ i w) (ho : NoForwardOverlap x src dst n)
    (hi : i < n)
    {w' : Work β} (hdisk : SameDisk w.vol w'.vol) (hblkaddr : w'.blkaddr = w.blkaddr)
    (hflags : ∀ k, i < k → w'.doReplace k = w.doReplace k)
    (hsame : ∀ p q, (p, q) ≠ (x.srcIno, src + i) → (p, q) ≠ (x.dstIno, dst + i) →
      SamePage w.vol w'.vol p q)
    (hdirty : ∀ p q, (p, q) ≠ (x.dstIno, dst + i) → w'.vol.dirty p q = w.vol.dirty p q)
    (hmoved : Moved v w'.vol x src dst i) : MovedTo v x src dst n w₀ (i + 1) w' := by
  have hsrc : ∀ k, i < k → k < n → SamePage w.vol w'.vol x.srcIno (src + k) := by
    intro k hik hk
    exact hsame _ _ (by simpa using (show k ≠ i by omega)) (ho.page_ne (by omega) hk)
  refine ⟨m.disk.trans hdisk, hblkaddr.trans m.blkaddr, ?_, ?_, ?_, ?_, ?_, ?_⟩
  · intro k hk
    exact (hflags k (by omega)).trans (m.flags k (by omega))
  · intro k hk
    by_cases hki : k = i
    · rwa [hki]
    · exact (m.moved k (by omega)).of_same
        (hsame _ _ (ho.page_ne (by omega) hi).symm (by simpa using hki)) hdisk
  · intro k hik hk hf
    exact (hsrc k (by omega) hk).1.trans (m.left k (by omega) hk hf)
  · intro k hik hk
    obtain ⟨hs, hd⟩ := m.clean k (by omega) hk
    refine ⟨(hsrc k (by omega) hk).2.trans hs, ?_⟩
    exact (hdirty _ _ (by simpa using (show k ≠ i by omega))).trans hd
  · intro p q h
    exact (m.outside p q h).trans (hsame p q (h i hi).1 (h i hi).2)
  · intro p q h
    exact (hdirty p q (h i hi)).trans (m.cached p q h)

/-- A clean page of the source as it was read out. -/
theorem content_readOut (hclean : v.dirty x.srcIno (src + i) = none)
    (h : IsBlock (v.blockAddr x.srcIno (src + i))) :
    v.content x.srcIno (src + i) = v.disk (v.blockAddr x.srcIno (src + i)) := by
  unfold Volume.content
  rw [hclean]
  exact if_pos h

/-- The loops move the content of every entry. -/
theorem movedTo_keeps (f : Faults) (ho : NoForwardOverlap x src dst n)
    (hclean : CleanRanges v x src dst n) (r : ReadTo v x.srcIno src n n w₀) :
    CloneKeeps f x src dst n (MovedTo v x src dst n w₀) fun _ _ => True where
  leave _ := trivial
  skip {i w} hi m hnull _ := by
    have haddr := (r.read i hi hi).1
    refine m.next ho hi .refl rfl (fun _ _ => rfl) (fun _ _ _ _ => .refl) (fun _ _ _ => rfl) ?_
    intro hne
    rw [← haddr, ← m.blkaddr] at hne
    exact absurd hnull hne
  alloc {i w} hi m :=
    { disk := m.disk.trans sameDisk_allocDnode
      blkaddr := m.blkaddr
      flags := m.flags
      moved := fun k hk => (m.moved k hk).of_same samePage_allocDnode sameDisk_allocDnode
      left := fun k hik hk hf => samePage_allocDnode.1.trans (m.left k hik hk hf)
      clean := fun k hik hk =>
        ⟨samePage_allocDnode.2.trans (m.clean k hik hk).1,
          samePage_allocDnode.2.trans (m.clean k hik hk).2⟩
      outside := fun p q h => (m.outside p q h).trans samePage_allocDnode
      cached := fun p q h => samePage_allocDnode.2.trans (m.cached p q h) }
  replace {i w} hi m hd hentry := by
    obtain ⟨hdisk, hsame, hdirty, haddr⟩ := replaceEntry_page hd
    have hread : w.blkaddr i = v.blockAddr x.srcIno (src + i) :=
      (congrFun m.blkaddr i).trans (r.read i hi hi).1
    refine m.next ho hi hdisk blkaddr_replaceEntry ?_ (fun p q _ h => hsame p q h)
      (fun p q _ => congrFun (congrFun hdirty p) q) ?_
    · intro k hk
      rw [doReplace_replaceEntry, Function.update_of_ne (by omega)]
    · intro hnull
      rw [← hread] at hnull
      have hflag : w.doReplace i = true := hentry.resolve_right hnull
      obtain ⟨-, hfresh, -, -⟩ := r.taken i hi ((m.flags i (Nat.le_refl i)).symm.trans hflag)
      rw [if_pos hflag, hread] at haddr
      have hcached : (replaceEntry x dst i w).vol.dirty x.dstIno (dst + i) = none :=
        (congrFun (congrFun hdirty _) _).trans (m.clean i (Nat.le_refl i) hi).2
      refine ⟨haddr ▸ hfresh.1.1, ?_⟩
      rw [content_readOut (hclean i hi).1 hfresh.1]
      unfold Volume.content
      rw [hcached, haddr]
      rw [(m.disk.trans hdisk).disk]
      exact if_pos hfresh.1
  copy {i w vol} hi m hflag hnull h := by
    have hne : (x.srcIno, src + i) ≠ (x.dstIno, dst + i) := ho.page_ne (Nat.le_refl i) hi
    have hpage := copyEntry_page (v := w.vol) f hne
    rw [h] at hpage
    obtain ⟨hdisk, hsame, hdirty, haddr, hcontent⟩ := hpage rfl
    refine m.next ho hi hdisk rfl (fun _ _ => rfl) hsame hdirty fun _ => ⟨haddr, ?_⟩
    have hleft := m.left i (Nat.le_refl i) hi ((m.flags i (Nat.le_refl i)).symm.trans hflag)
    have hsrc : SamePage v w.vol x.srcIno (src + i) :=
      ⟨hleft, (m.clean i (Nat.le_refl i) hi).1.trans (hclean i hi).1.symm⟩
    rw [hcontent]
    exact hsrc.content m.disk
  fail _ _ _ := trivial

/-- A chunk that succeeds: every source block is moved, and all other pages stay. -/
theorem exchangeChunk_moved (f : Faults) (b : v.books.Balanced) {len : Nat}
    (ho : NoForwardOverlap x src dst (chunkLen len))
    (hclean : CleanRanges v x src dst (chunkLen len))
    {v' : Volume β} (h : exchangeChunk f x src dst len v = .ok v') :
    SameDisk v v' ∧ (∀ k < chunkLen len, Moved v v' x src dst k) ∧
    (∀ p q, (∀ k < chunkLen len, (p, q) ≠ (x.srcIno, src + k) ∧ (p, q) ≠ (x.dstIno, dst + k)) →
      SamePage v v' p q) ∧
    (∀ p q, (∀ k < chunkLen len, (p, q) ≠ (x.dstIno, dst + k)) → v'.dirty p q = v.dirty p q) := by
  have hread : ∀ r, readOutBlkaddrs f x.srcIno src (chunkLen len)
      (v.kvzalloc f (chunkLen len)) = r →
      r.1 = none → ReadTo v x.srcIno src (chunkLen len) (chunkLen len) r.2 := by
    rintro ⟨e, w⟩ h
    exact (readOut_spec b f x.srcIno src (chunkLen len) h).2
  unfold exchangeChunk at h
  dsimp only at h
  generalize chunkLen len = n at *
  generalize readOutBlkaddrs f x.srcIno src n (v.kvzalloc f n) = r at hread h
  match r with
  | (some e, w) => cases h
  | (none, w) =>
      have hw := hread _ rfl rfl
      dsimp only at h hw
      have hstart : MovedTo v x src dst n w 0 w := by
        have hdirty : w.vol.dirty = v.dirty := by rw [hw.frame]
        refine ⟨by rw [hw.frame]; exact ⟨rfl, rfl, rfl⟩, rfl, fun _ _ => rfl,
          fun k hk => absurd hk (Nat.not_lt_zero k), ?_, ?_, ?_, fun p q _ => by rw [hdirty]⟩
        · intro k _ hk hf
          apply hw.stays
          intro j hj hf' hpage
          have hkj : k = j := by simpa using hpage
          rw [hkj, hf'] at hf
          cases hf
        · intro k _ hk
          rw [hdirty]
          exact hclean k hk
        · intro p q h
          exact ⟨hw.stays p q fun j hj _ => (h j hj).1, by rw [hdirty]⟩
      have hrun := cloneBlkaddrs_run (movedTo_keeps f ho hclean hw) hstart
      generalize cloneBlkaddrs f x src dst n w = r at hrun h
      obtain ⟨-, hall⟩ := hrun r rfl
      match r with
      | (some e, i, w') => cases h
      | (none, i, w') =>
          obtain ⟨-, m⟩ := hall rfl
          dsimp only at h m
          obtain rfl : w'.vol = v' := Except.ok.inj h
          exact ⟨m.disk, m.moved, m.outside, m.cached⟩

end

/-! ## The range -/

theorem exchangeChunks_moved (f : Faults) (x : Exchange) (rounds : Nat) {src dst len : Nat}
    {v v' : Volume β} (b : v.books.Balanced) (ho : NoForwardOverlap x src dst len)
    (hclean : CleanRanges v x src dst len) (hrounds : len ≤ rounds)
    (h : exchangeChunks f x rounds src dst len v = .done v') :
    SameDisk v v' ∧ (∀ k < len, Moved v v' x src dst k) ∧
    (∀ p q, (∀ k < len, (p, q) ≠ (x.srcIno, src + k) ∧ (p, q) ≠ (x.dstIno, dst + k)) →
      SamePage v v' p q) := by
  induction rounds generalizing src dst len v with
  | zero =>
      obtain rfl : v = v' := by cases h; rfl
      exact ⟨.refl, fun k hk => absurd hk (by omega), fun _ _ _ => .refl⟩
  | succ rounds ih =>
      rw [exchangeChunks] at h
      split at h
      · obtain rfl : v = v' := by cases h; rfl
        exact ⟨.refl, fun k hk => absurd hk (by omega), fun _ _ _ => .refl⟩
      rename_i hlen
      split at h
      · cases h
      have hn : 1 ≤ chunkLen len ∧ chunkLen len ≤ len := by
        unfold chunkLen addrsPerBlock
        omega
      have ho₁ : NoForwardOverlap x src dst (chunkLen len) := fun e => by
        have := ho e
        omega
      have hclean₁ : CleanRanges v x src dst (chunkLen len) := fun k hk => hclean k (by omega)
      have hkept := exchangeChunk_spec f x src dst len b
      split at h
      · cases h
      rename_i v₁ hv₁
      rw [hv₁] at hkept
      obtain ⟨hdisk₁, hmoved₁, hout₁, hcached₁⟩ := exchangeChunk_moved f b ho₁ hclean₁ hv₁
      generalize chunkLen len = n at hn hmoved₁ hout₁ hcached₁ h
      have hsrc : ∀ k, n ≤ k → k < len → SamePage v v₁ x.srcIno (src + k) := by
        intro k hnk hk
        apply hout₁
        intro j hj
        exact ⟨by simpa using (show k ≠ j by omega), ho.page_ne (by omega) hk⟩
      have ho₂ : NoForwardOverlap x (src + n) (dst + n) (len - n) := fun e => by
        have := ho e
        omega
      have hclean₂ : CleanRanges v₁ x (src + n) (dst + n) (len - n) := by
        intro k hk
        obtain ⟨hs, hd⟩ := hclean (n + k) (by omega)
        rw [Nat.add_assoc, Nat.add_assoc]
        refine ⟨(hsrc (n + k) (by omega) (by omega)).2.trans hs, ?_⟩
        refine (hcached₁ _ _ fun j hj => ?_).trans hd
        simpa using (show n + k ≠ j by omega)
      obtain ⟨hdisk₂, hmoved₂, hout₂⟩ := ih hkept.balanced ho₂ hclean₂ (by omega) h
      refine ⟨hdisk₁.trans hdisk₂, fun k hk => ?_, fun p q hpq => ?_⟩
      · by_cases hkn : k < n
        · refine (hmoved₁ k hkn).of_same (hout₂ _ _ fun j hj => ⟨?_, ?_⟩) hdisk₂
          · rw [Nat.add_assoc]
            exact (ho.page_ne (by omega) (by omega)).symm
          · rw [Nat.add_assoc]
            simpa using (show k ≠ n + j by omega)
        · have hm := hmoved₂ (k - n) (by omega)
          rw [Moved, Nat.add_assoc, Nat.add_assoc, Nat.add_sub_of_le (by omega)] at hm
          have hpage := hsrc k (by omega) hk
          intro hnull
          obtain ⟨haddr, hcontent⟩ := hm (hpage.1.symm ▸ hnull)
          exact ⟨haddr, hcontent.trans (hpage.content hdisk₁)⟩
      · refine (hout₁ p q fun j hj => hpq j (by omega)).trans (hout₂ p q fun j hj => ?_)
        rw [Nat.add_assoc, Nat.add_assoc]
        exact hpq (n + j) (by omega)

/-- `__exchange_data_block`, where it succeeds on ranges that are written out. -/
theorem exchange_moved (f : Faults) (x : Exchange) {src dst len : Nat} {v v' : Volume β}
    (b : v.books.Balanced) (ho : NoForwardOverlap x src dst len)
    (hclean : CleanRanges v x src dst len)
    (h : exchangeDataBlock f x src dst len v = (none, v')) : ∀ k < len, Moved v v' x src dst k := by
  unfold exchangeDataBlock exchangeLoop at h
  split at h
  · rename_i v₁ hv₁
    obtain rfl : v₁ = v' := congrArg Prod.snd h
    exact (exchangeChunks_moved f x len b ho hclean (Nat.le_refl len) hv₁).2.1
  · cases congrArg Prod.fst h
  · cases congrArg Prod.fst h

end F2fs.Blocks

/-
  `build_free_nids` with nothing running beside it.

  `Scanned` relates the free nids in the middle of the function to the NAT state it reads:
  a nid is offered only if its block or a journal record may say that it is free.
  `Settled` is the end, where the journal has had its word.  `Complete` is the other
  direction: of a block that is marked, no free nid was missed.
-/
import F2fs.Node.FreeNidScan

namespace F2fs.Node

open FreeNidInfo

/-! ## Views -/

namespace NidView

variable {v : NidView} {busy : Bool} {addr : Nat}

theorem insert_prealloc : v.insert.state = some .preallocNid ↔ v.state = some .preallocNid := by
  unfold insert
  cases v.state <;> simp

theorem offer_prealloc :
    (v.offer busy).state = some .preallocNid ↔ v.state = some .preallocNid := by
  unfold offer
  split_ifs
  · rfl
  · exact insert_prealloc

theorem offer_free (h : (v.offer busy).state = some .freeNid) :
    v.state = some .freeNid ∨ busy = false := by
  unfold offer at h
  split_ifs at h with hdown
  · exact Or.inl h
  · rw [Bool.or_eq_true, not_or, Bool.not_eq_true] at hdown
    exact Or.inr hdown.1

@[simp] theorem offer_bit : (v.offer busy).bit = v.bit := by
  unfold offer
  split_ifs <;> rfl

@[simp] theorem offer_marked : (v.offer busy).marked = v.marked := by
  unfold offer
  split_ifs <;> rfl

theorem unlist_prealloc : v.unlist.state = some .preallocNid ↔ v.state = some .preallocNid := by
  unfold unlist
  split_ifs with h
  · simp [h]
  · rfl

theorem unlist_free : v.unlist.state ≠ some .freeNid := by
  unfold unlist
  split_ifs with h
  · exact nofun
  · exact h

@[simp] theorem unlist_bit : v.unlist.bit = v.bit := by
  unfold unlist
  split_ifs <;> rfl

@[simp] theorem unlist_marked : v.unlist.marked = v.marked := by
  unfold unlist
  split_ifs <;> rfl

theorem scan_prealloc :
    (v.scan busy addr).state = some .preallocNid ↔ v.state = some .preallocNid := by
  unfold scan
  split_ifs
  · exact offer_prealloc
  · rfl

theorem scan_free (h : (v.scan busy addr).state = some .freeNid) :
    v.state = some .freeNid ∨ (busy = false ∧ addr = nullAddr) := by
  unfold scan at h
  split_ifs at h with haddr
  · exact (offer_free h).imp_right fun hb => ⟨hb, haddr⟩
  · exact Or.inl h

/-- The bit of a scanned nid in a marked block. -/
theorem scan_bit (hmark : v.marked = true) : (v.scan busy addr).bit =
    (decide (addr = nullAddr) && !(busy || decide (v.state = some .preallocNid))) := by
  unfold scan setBit
  split_ifs with haddr h
  · simp [haddr]
  · exact absurd (offer_marked.trans hmark) h
  · simp [haddr]

theorem flush_bit :
    (v.flush addr).bit = if v.marked then decide (addr = nullAddr) else v.bit := by
  unfold flush setBit
  by_cases haddr : addr = nullAddr
  · rw [if_pos haddr, decide_eq_true haddr]
    rfl
  · rw [if_neg haddr, decide_eq_false haddr]

theorem flush_prealloc :
    (v.flush addr).state = some .preallocNid ↔ v.state = some .preallocNid := by
  unfold flush
  split_ifs
  · exact insert_prealloc
  · rfl

theorem flush_free (h : (v.flush addr).state = some .freeNid) :
    v.state = some .freeNid ∨ addr = nullAddr := by
  unfold flush at h
  split_ifs at h with haddr
  · exact Or.inr haddr
  · exact Or.inl h

end NidView

/-! ## In the middle of a build -/

section

variable {sbi : SbInfo} {s : NatState} {f : FreeNidInfo}

/-- The block or a journal record may say that the nid is free. -/
def Plausible (sbi : SbInfo) (s : NatState) (n : Nat) : Prop :=
  n < maxNid sbi ∧ (s.journal.view n = none → s.cache.dirty n = false →
    (persisted sbi s n).blockAddr = nullAddr)

/-- The free nids while `build_free_nids` works on the state `s`. -/
structure Scanned (sbi : SbInfo) (s : NatState) (f : FreeNidInfo) : Prop where
  books : SameBooks s.free f
  bits : f.BitBooks
  prealloc : ∀ n, (f.view n).state = some .preallocNid ↔
    (s.free.view n).state = some .preallocNid
  free : ∀ n, (f.view n).state = some .freeNid →
    n ≠ 0 ∧ s.cache.dirty n = false ∧ Plausible sbi s n
  bit : ∀ n, (f.view n).bit = true → Plausible sbi s n

/-- The NAT state a build reads. -/
structure Readable (sbi : SbInfo) (s : NatState) : Prop where
  wf : s.Wf sbi
  flags : CacheFlags s.cache
  journal : ∀ n, s.journal.view n ≠ none → n ∈ usableNids sbi

theorem Scanned.addFree (h : Scanned sbi s f) (hr : Readable sbi s) {nid : Nat}
    (hnid : Plausible sbi s nid) :
    Scanned sbi s (f.addFreeNid (s.cache.natRoot.lookup nid) nid true false).2 := by
  have hview := addFree_view f (s.cache.natRoot.lookup nid) nid
  refine ⟨h.books.trans (addFree_sameBooks f _ _), addFree_bits h.bits _ _, fun n => ?_,
    fun n hn => ?_, fun n hn => ?_⟩
  · rw [hview, ← h.prealloc n]
    split_ifs with hn h0
    · rw [hn]
    · rw [NidView.offer_prealloc, hn]
    · rfl
  · rw [hview] at hn
    split_ifs at hn with heq h0
    · exact heq ▸ h.free nid hn
    · subst heq
      rcases NidView.offer_free hn with hfree | hbusy
      · exact h.free n hfree
      · exact ⟨h0, hr.flags.dirty_of_not_busy hbusy, hnid⟩
    · exact h.free n hn
  · rw [hview] at hn
    split_ifs at hn with heq h0
    · exact heq ▸ h.bit nid hn
    · rw [NidView.offer_bit] at hn
      exact heq ▸ h.bit nid hn
    · exact h.bit n hn

/-- The scan of a block that is not marked. -/
theorem Scanned.scanNatPage (h : Scanned sbi s f) (hr : Readable sbi s) {startNid : Nat}
    (hmark : f.natBlockBitmap (natBlockOffset startNid) = false) :
    Scanned sbi s (f.scanNatPage sbi s.cache (currentBlock sbi s (natBlockOffset startNid))
      startNid) := by
  have hview := scanNatPage_view sbi s.cache (currentBlock sbi s (natBlockOffset startNid))
    startNid f
  -- the entry the scan sees
  have hentry : ∀ n ∈ scanNids sbi startNid, s.journal.view n = none →
      currentBlock sbi s (natBlockOffset startNid) (n % natEntryPerBlock) =
        persisted sbi s n := by
    intro n hn hnone
    rw [persisted_of_view_none hnone, ← (mem_scanNids.mp hn).2.1]
    rfl
  refine ⟨h.books.trans (scanNatPage_sameBooks sbi _ _ _ f), scanNatPage_bits sbi _ _ h.bits hmark,
    fun n => ?_, fun n hn => ?_, fun n hn => ?_⟩
  · rw [hview, ← h.prealloc n, markBlock_view]
    dsimp only
    split_ifs
    · rfl
    · rw [NidView.scan_prealloc]
    · rfl
  · rw [hview, markBlock_view] at hn
    dsimp only at hn
    split_ifs at hn with hmem h0
    · exact h.free n hn
    · rcases NidView.scan_free hn with hfree | ⟨hbusy, haddr⟩
      · exact h.free n hfree
      · refine ⟨fun hz => h0 ⟨hz, haddr⟩, hr.flags.dirty_of_not_busy hbusy,
          (mem_scanNids.mp hmem).2.2, fun hnone _ => ?_⟩
        rw [← hentry n hmem hnone]
        exact haddr
    · exact h.free n hn
  · rw [hview, markBlock_view] at hn
    dsimp only at hn
    split_ifs at hn with hmem h0
    · exact h.bit n hn
    · rw [NidView.scan_bit (by simp [(mem_scanNids.mp hmem).2.1]), Bool.and_eq_true,
        decide_eq_true_eq] at hn
      refine ⟨(mem_scanNids.mp hmem).2.2, fun hnone _ => ?_⟩
      rw [← hentry n hmem hnone]
      exact hn.1
    · exact h.bit n hn

/-- `Scanned`, and a nid in the list is free. -/
structure Settled (sbi : SbInfo) (s : NatState) (f : FreeNidInfo) : Prop
    extends Scanned sbi s f where
  listed : ∀ n, (f.view n).state = some .freeNid → FreeNid sbi s n

theorem Scanned.scanCursegCache (h : Scanned sbi s f) (hr : Readable sbi s) :
    Settled sbi s (f.scanCursegCache s.cache s.journal) := by
  have hview := scanCursegCache_view s.cache hr.wf.distinct f
  have hfree : ∀ n, ((f.scanCursegCache s.cache s.journal).view n).state = some .freeNid →
      n ≠ 0 ∧ s.cache.dirty n = false ∧ Plausible sbi s n ∧
        (persisted sbi s n).blockAddr = nullAddr := by
    intro n hn
    rw [hview] at hn
    unfold journalView at hn
    cases hj : s.journal.view n with
    | none =>
        rw [hj] at hn
        obtain ⟨h0, hclean, hp⟩ := h.free n hn
        exact ⟨h0, hclean, hp, hp.2 hj hclean⟩
    | some raw =>
        rw [hj] at hn
        dsimp only at hn
        have hmem := hr.journal n (by rw [hj]; exact nofun)
        obtain ⟨h0, hlt⟩ := mem_usableNids.mp hmem
        have hp : Plausible sbi s n := ⟨hlt, fun hnone => by rw [hj] at hnone; cases hnone⟩
        split_ifs at hn with hnull
        · have hpers : (persisted sbi s n).blockAddr = nullAddr := by
            rw [persisted, hj]
            exact hnull
          rcases NidView.offer_free hn with hf | hbusy
          · exact ⟨h0, (h.free n hf).2.1, hp, hpers⟩
          · exact ⟨h0, hr.flags.dirty_of_not_busy hbusy, hp, hpers⟩
        · exact absurd hn NidView.unlist_free
  refine ⟨⟨h.books.trans (scanCursegCache_sameBooks _ _ f), scanCursegCache_bits _ _ h.bits,
    fun n => ?_, fun n hn => ?_, fun n hn => ?_⟩, fun n hn => ?_⟩
  · rw [hview, ← h.prealloc n]
    unfold journalView
    cases s.journal.view n with
    | none => rfl
    | some raw =>
        dsimp only
        split_ifs
        · rfl
        · exact NidView.offer_prealloc
        · exact NidView.unlist_prealloc
  · obtain ⟨h0, hclean, hp, -⟩ := hfree n hn
    exact ⟨h0, hclean, hp⟩
  · refine h.bit n ?_
    rw [hview] at hn
    unfold journalView at hn
    cases hj : s.journal.view n with
    | none => rwa [hj] at hn
    | some raw =>
        rw [hj] at hn
        dsimp only at hn
        split_ifs at hn
        · exact hn
        · exact NidView.offer_bit.symm.trans hn
        · exact NidView.unlist_bit.symm.trans hn
  · obtain ⟨-, hclean, -, hnull⟩ := hfree n hn
    exact ⟨hnull, hclean⟩

theorem Scanned.scanFreeNidBits (h : Scanned sbi s f) (hr : Readable sbi s) :
    Settled sbi s (f.scanFreeNidBits sbi s.cache s.journal) := by
  refine Scanned.scanCursegCache ?_ hr
  obtain ⟨pre, post, hnids, hfold, -⟩ := addFreeNidBits_prefix s.cache
    (f.freeNidBits sbi.natBlocks) f
  rw [hfold]
  refine List.foldlRecOn (motive := Scanned sbi s) _ _ h fun f' hf' nid hnid => ?_
  have hmem : nid ∈ f.freeNidBits sbi.natBlocks := by
    rw [hnids]
    exact List.mem_append_left _ hnid
  exact hf'.addFree hr (h.bit nid (mem_freeNidBits.mp hmem).2.2.2)

theorem Scanned.round {b : FreeNidInfo × Nat} (h : Scanned sbi s b.1) (hr : Readable sbi s) :
    Scanned sbi s (scanRound sbi s b).1 := by
  unfold scanRound
  dsimp only
  split_ifs with hmark
  · exact h
  · exact h.scanNatPage hr (Bool.eq_false_iff.mpr hmark)

theorem Scanned.rounds (hr : Readable sbi s) (k : Nat) {b : FreeNidInfo × Nat}
    (h : Scanned sbi s b.1) : Scanned sbi s ((scanRound sbi s)^[k] b).1 := by
  induction k with
  | zero => exact h
  | succ k ih =>
      rw [Function.iterate_succ_apply']
      exact ih.round hr

/-- Where `__build_free_nids` starts to scan. -/
def scanStart (sbi : SbInfo) (m : NodeManager) : Nat :=
  if maxNid sbi ≤ m.nextScanNid then 0 else m.nextScanNid

/-- The free nids when `__build_free_nids` starts to scan NAT blocks. -/
def scanBase (sbi : SbInfo) (mount : Bool) (m : NodeManager) : FreeNidInfo :=
  if mount then m.nat.free else m.nat.free.scanFreeNidBits sbi m.nat.cache m.nat.journal

/-- The ways through `build_free_nids`: nothing to do, enough nids in the bitmaps, or a scan
    of NAT blocks. -/
theorem buildFreeNids_cases (sbi : SbInfo) (sync mount mem : Bool) (m : NodeManager) :
    (buildFreeNids sbi sync mount mem m = m ∧
        (natEntryPerBlock ≤ m.nat.free.nidCnt .freeNid ∨ (sync = false ∧ mem = false))) ∨
      (buildFreeNids sbi sync mount mem m =
          { m with nat := { m.nat with free := scanBase sbi mount m } } ∧
        mount = false ∧ natEntryPerBlock ≤ (scanBase sbi mount m).nidCnt .freeNid) ∨
      ∃ b, b = (scanRound sbi m.nat)^[freeNidPages] (scanBase sbi mount m, scanStart sbi m) ∧
        buildFreeNids sbi sync mount mem m =
          { nat := { m.nat with free := b.1.scanCursegCache m.nat.cache m.nat.journal }
            nextScanNid := b.2 } := by
  have hbuild : buildFreeNids sbi sync mount mem m =
      if natEntryPerBlock ≤ m.nat.free.nidCnt .freeNid then m
      else if !sync && !mem then m
      else if !mount && decide (natEntryPerBlock ≤ (scanBase sbi mount m).nidCnt .freeNid) then
        { m with nat := { m.nat with free := scanBase sbi mount m } }
      else
        let b := (scanRound sbi m.nat)^[freeNidPages] (scanBase sbi mount m, scanStart sbi m)
        { nat := { m.nat with free := b.1.scanCursegCache m.nat.cache m.nat.journal }
          nextScanNid := b.2 } := rfl
  rw [hbuild]
  split_ifs with henough hmem hout
  · exact Or.inl ⟨rfl, Or.inl henough⟩
  · exact Or.inl ⟨rfl, Or.inr (by simpa using hmem)⟩
  · exact Or.inr (Or.inl ⟨rfl, by simpa using hout⟩)
  · exact Or.inr (Or.inr ⟨_, rfl, rfl⟩)

/-- `build_free_nids` changes the free nids and where the next scan starts. -/
theorem buildFreeNids_settled {m : NodeManager} (hr : Readable sbi m.nat)
    (h : Settled sbi m.nat m.nat.free) (sync mount mem : Bool) :
    ∃ f next, buildFreeNids sbi sync mount mem m = ⟨{ m.nat with free := f }, next⟩ ∧
      Settled sbi m.nat f := by
  have hbase : Settled sbi m.nat (scanBase sbi mount m) := by
    unfold scanBase
    split_ifs
    · exact h
    · exact h.toScanned.scanFreeNidBits hr
  rcases buildFreeNids_cases sbi sync mount mem m with ⟨hm, -⟩ | ⟨hm, -⟩ | ⟨b, hb, hm⟩
  · exact ⟨m.nat.free, m.nextScanNid, hm, h⟩
  · exact ⟨_, _, hm, hbase⟩
  · refine ⟨_, _, hm, Scanned.scanCursegCache ?_ hr⟩
    rw [hb]
    exact Scanned.rounds hr freeNidPages hbase.toScanned

end

/-! ## Complete scans -/

section

variable {sbi : SbInfo} {s : NatState} {f f' : FreeNidInfo}

/-- The nid is known: handed out, in the bitmap, or in the journal. -/
def Recorded (s : NatState) (f : FreeNidInfo) (n : Nat) : Prop :=
  (f.view n).state = some .preallocNid ∨ (f.view n).bit = true ∨ s.journal.view n ≠ none

/-- Every free nid of a marked block is recorded. -/
def Complete (sbi : SbInfo) (s : NatState) (f : FreeNidInfo) : Prop :=
  ∀ n ∈ usableNids sbi, (f.view n).marked = true → FreeNid sbi s n → Recorded s f n

theorem Complete.congr (h : Complete sbi s f)
    (hsame : ∀ n, (f'.view n).bit = (f.view n).bit ∧ (f'.view n).marked = (f.view n).marked ∧
      ((f.view n).state = some .preallocNid → (f'.view n).state = some .preallocNid)) :
    Complete sbi s f' := by
  intro n hn hmark hfree
  obtain ⟨hbit, hm, hpre⟩ := hsame n
  rcases h n hn (hm ▸ hmark) hfree with hp | hb | hj
  · exact Or.inl (hpre hp)
  · exact Or.inr (Or.inl (hbit.trans hb))
  · exact Or.inr (Or.inr hj)

/-- The free nids of the block below `startNid`, which a scan from there does not see, have
    records. -/
def SeenBelow (sbi : SbInfo) (s : NatState) (startNid : Nat) : Prop :=
  ∀ n ∈ usableNids sbi, n < startNid → natBlockOffset n = natBlockOffset startNid →
    FreeNid sbi s n → s.journal.view n ≠ none

/-- A nid a scan can start from: the first of a block. -/
def Aligned (sbi : SbInfo) (nid : Nat) : Prop := nid % natEntryPerBlock = 0 ∧ nid < maxNid sbi

/-- From the start of a block everything is seen. -/
theorem Aligned.seenBelow {nid : Nat} (h : Aligned sbi nid) : SeenBelow sbi s nid := by
  intro n _ hlt hofs _
  obtain ⟨hmod, -⟩ := h
  unfold natBlockOffset natEntryPerBlock at *
  omega

theorem Complete.scanNatPage (h : Complete sbi s f) (hr : Readable sbi s) {startNid : Nat}
    (hbelow : SeenBelow sbi s startNid) :
    Complete sbi s (f.scanNatPage sbi s.cache (currentBlock sbi s (natBlockOffset startNid))
      startNid) := by
  have hview := scanNatPage_view sbi s.cache (currentBlock sbi s (natBlockOffset startNid))
    startNid f
  intro n hn hmark hfree
  obtain ⟨h0, hlt⟩ := mem_usableNids.mp hn
  unfold Recorded
  by_cases hmem : n ∈ scanNids sbi startNid
  · -- the scan sees it, and turns it down only if the journal knows it or it is handed out
    by_cases hj : s.journal.view n = none
    swap
    · exact Or.inr (Or.inr hj)
    have haddr : (currentBlock sbi s (natBlockOffset startNid)
        (n % natEntryPerBlock)).blockAddr = nullAddr := by
      rw [← (mem_scanNids.mp hmem).2.1]
      have hnull := hfree.1
      rw [persisted_of_view_none hj] at hnull
      exact hnull
    rw [hview]
    dsimp only
    rw [if_pos hmem, if_neg fun hz : n = 0 ∧ _ => h0 hz.1, markBlock_view,
      NidView.scan_bit (by simp [(mem_scanNids.mp hmem).2.1]), NidView.scan_prealloc,
      hfree.not_busy hr.wf hr.flags, haddr]
    by_cases hpre : (f.view n).state = some .preallocNid
    · exact Or.inl hpre
    · exact Or.inr (Or.inl (by simp [hpre]))
  · rw [hview] at hmark ⊢
    dsimp only at hmark ⊢
    rw [if_neg hmem, markBlock_view] at hmark ⊢
    by_cases hofs : natBlockOffset n = natBlockOffset startNid
    · refine Or.inr (Or.inr (hbelow n hn ?_ hofs hfree))
      by_contra hge
      exact hmem (mem_scanNids.mpr ⟨Nat.le_of_not_lt hge, hofs, hlt⟩)
    · rw [decide_eq_false hofs, Bool.false_or] at hmark
      exact h n hn hmark hfree

theorem Complete.scanCursegCache (h : Complete sbi s f) (hr : Readable sbi s) :
    Complete sbi s (f.scanCursegCache s.cache s.journal) := by
  refine h.congr fun n => ?_
  rw [scanCursegCache_view s.cache hr.wf.distinct f]
  unfold journalView
  cases s.journal.view n with
  | none => exact ⟨rfl, rfl, id⟩
  | some raw =>
      dsimp only
      split_ifs
      · exact ⟨rfl, rfl, id⟩
      · exact ⟨NidView.offer_bit, NidView.offer_marked, NidView.offer_prealloc.mpr⟩
      · exact ⟨NidView.unlist_bit, NidView.unlist_marked, NidView.unlist_prealloc.mpr⟩

theorem Complete.addFree (h : Complete sbi s f) (ne : Option NatEntry) (nid : Nat) :
    Complete sbi s (f.addFreeNid ne nid true false).2 := by
  refine h.congr fun n => ?_
  rw [addFree_view]
  split_ifs with hn h0
  · rw [hn]
    exact ⟨rfl, rfl, id⟩
  · rw [hn]
    exact ⟨NidView.offer_bit, NidView.offer_marked, NidView.offer_prealloc.mpr⟩
  · exact ⟨rfl, rfl, id⟩

theorem Complete.scanFreeNidBits (h : Complete sbi s f) (hr : Readable sbi s) :
    Complete sbi s (f.scanFreeNidBits sbi s.cache s.journal) := by
  refine Complete.scanCursegCache ?_ hr
  obtain ⟨pre, post, -, hfold, -⟩ := addFreeNidBits_prefix s.cache
    (f.freeNidBits sbi.natBlocks) f
  rw [hfold]
  exact List.foldlRecOn (motive := Complete sbi s) _ _ h fun f' hf' nid _ =>
    hf'.addFree (s.cache.natRoot.lookup nid) nid

end

end F2fs.Node

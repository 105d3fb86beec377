/-
  What holds of every nid between two operations.

  A nid in the list is free, one that was handed out is free or bound, and a set bit is
  true of a nid whose address no journal record and no dirty entry overrules.
  `NidsInv.cache`, `NidsInv.withFree` and `NidsInv.flushed` are the three kinds of steps: one
  changes the NAT cache, one the free nids, a flush both.
-/
import F2fs.Node.NidOps

namespace F2fs.Node

open FreeNidInfo F2fs.Checkpoint

/-- The NAT state between two operations. -/
structure NidsInv (sbi : SbInfo) (s : NatState) : Prop extends Readable sbi s where
  dirty : ∀ n, s.cache.dirty n = true → n ∈ usableNids sbi
  list : s.free.ListBooks
  bits : s.free.BitBooks
  bit : ∀ n, (s.free.view n).bit = true → Plausible sbi s n
  free : ∀ n, (s.free.view n).state = some .freeNid → n ∈ usableNids sbi ∧ FreeNid sbi s n
  prealloc : ∀ n, (s.free.view n).state = some .preallocNid → n ∈ usableNids sbi ∧
    (FreeNid sbi s n ∨ (nodeInfo sbi s n).blockAddr ≠ nullAddr)

section

variable {sbi : SbInfo} {s s' : NatState}

theorem NidsInv.settled (h : NidsInv sbi s) : Settled sbi s s.free where
  books := SameBooks.refl _
  bits := h.bits
  prealloc _ := Iff.rfl
  free n hn := by
    obtain ⟨hmem, hfree⟩ := h.free n hn
    obtain ⟨h0, hlt⟩ := mem_usableNids.mp hmem
    exact ⟨h0, hfree.2, hlt, fun _ _ => hfree.1⟩
  bit := h.bit
  listed n hn := (h.free n hn).2

/-- A step that changes only the free nids. -/
theorem NidsInv.withFree (h : NidsInv sbi s) {f : FreeNidInfo} (hlist : f.ListBooks)
    (hbits : f.BitBooks) (hbit : ∀ n, (f.view n).bit = true → Plausible sbi s n)
    (hfree : ∀ n, (f.view n).state = some .freeNid → n ∈ usableNids sbi ∧ FreeNid sbi s n)
    (hpre : ∀ n, (f.view n).state = some .preallocNid → n ∈ usableNids sbi ∧
      (FreeNid sbi s n ∨ (nodeInfo sbi s n).blockAddr ≠ nullAddr)) :
    NidsInv sbi { s with free := f } where
  wf := ⟨h.wf.cache, h.wf.distinct, h.wf.le, h.wf.coherent⟩
  flags := h.flags
  journal := h.journal
  dirty := h.dirty
  list := hlist
  bits := hbits
  bit := hbit
  free := hfree
  prealloc := hpre

theorem NidsInv.ofSettled (h : NidsInv sbi s) {f : FreeNidInfo} (hf : Settled sbi s f) :
    NidsInv sbi { s with free := f } :=
  h.withFree (hf.books.list h.list) hf.bits hf.bit
    (fun n hn => ⟨mem_usableNids.mpr ⟨(hf.free n hn).1, (hf.free n hn).2.2.1⟩, hf.listed n hn⟩)
    fun n hn => h.prealloc n ((hf.prealloc n).mp hn)

/-- A step that changes only the cache: each nid reads as before and is as dirty as before,
    or it was written, and then it was not in the list and is not unbound while handed out. -/
theorem NidsInv.cache (h : NidsInv sbi s) {c : NatCache}
    (hwf : ({ s with cache := c } : NatState).Wf sbi) (hflags : CacheFlags c)
    (hkept : ∀ n, (c.dirty n = s.cache.dirty n ∧
        nodeInfo sbi { s with cache := c } n = nodeInfo sbi s n) ∨
      (c.dirty n = true ∧ n ∈ usableNids sbi ∧ (s.free.view n).state ≠ some .freeNid ∧
        ((s.free.view n).state = some .preallocNid →
          (nodeInfo sbi { s with cache := c } n).blockAddr ≠ nullAddr))) :
    NidsInv sbi { s with cache := c } where
  wf := hwf
  flags := hflags
  journal := h.journal
  dirty n hn := by
    rcases hkept n with ⟨hd, -⟩ | ⟨-, hmem, -⟩
    · exact h.dirty n (hd ▸ hn)
    · exact hmem
  list := h.list
  bits := h.bits
  bit n hn := by
    refine ⟨(h.bit n hn).1, fun hj hclean => ?_⟩
    rcases hkept n with ⟨hd, -⟩ | ⟨hd, -⟩
    · exact (h.bit n hn).2 hj (hd ▸ hclean)
    · exact absurd (hd.symm.trans hclean) (by decide)
  free n hn := by
    rcases hkept n with ⟨hd, -⟩ | ⟨-, -, hnot, -⟩
    · obtain ⟨hmem, hnull, hclean⟩ := h.free n hn
      exact ⟨hmem, hnull, hd.trans hclean⟩
    · exact absurd hn hnot
  prealloc n hn := by
    obtain ⟨hmem, hcase⟩ := h.prealloc n hn
    refine ⟨hmem, ?_⟩
    rcases hkept n with ⟨hd, hinfo⟩ | ⟨-, -, -, hbound⟩
    · rcases hcase with ⟨hnull, hclean⟩ | hb
      · exact Or.inl ⟨hnull, hd.trans hclean⟩
      · exact Or.inr (hinfo ▸ hb)
    · exact Or.inr (hbound hn)

/-! ## The cache -/

variable (sbi) in
theorem getNodeInfo_eq (s : NatState) (nid : Nat) (nomem : Bool) :
    ∃ c, (Node.getNodeInfo sbi s nid nomem).2 = { s with cache := c } := by
  unfold Node.getNodeInfo
  cases s.cache.natRoot.lookup nid with
  | some e => exact ⟨s.cache, rfl⟩
  | none =>
      cases nomem with
      | true => exact ⟨s.cache, rfl⟩
      | false => exact ⟨_, rfl⟩

variable (sbi) in
/-- What `get_node_info` caches is clean. -/
theorem getNodeInfo_entries (s : NatState) (nid : Nat) (nomem : Bool) (n : Nat) :
    (Node.getNodeInfo sbi s nid nomem).2.cache.natRoot.lookup n = s.cache.natRoot.lookup n ∨
      (s.cache.natRoot.lookup n = none ∧ ∃ e,
        (Node.getNodeInfo sbi s nid nomem).2.cache.natRoot.lookup n = some e ∧
          e.isDirty = false ∧ e.isCheckpointed = true) := by
  unfold Node.getNodeInfo
  cases hl : s.cache.natRoot.lookup nid with
  | some e => exact Or.inl rfl
  | none =>
      cases nomem with
      | true => exact Or.inl rfl
      | false =>
          dsimp only
          rw [if_neg (by decide)]
          have hlook := initNatEntry_lookup s.cache (NatEntry.alloc nid) (persisted sbi s nid) n
          rw [show (NatEntry.alloc nid).nid = nid from rfl] at hlook
          show (s.cache.initNatEntry (NatEntry.alloc nid) _).natRoot.lookup n = _ ∨ _
          by_cases hn : n = nid
          · rw [if_pos hn] at hlook
            exact Or.inr ⟨hn ▸ hl, _, hlook, rfl, rfl⟩
          · rw [if_neg hn] at hlook
            exact Or.inl hlook

theorem NidsInv.getNodeInfo (h : NidsInv sbi s) (nid : Nat) (nomem : Bool) :
    NidsInv sbi (Node.getNodeInfo sbi s nid nomem).2 ∧
      (Node.getNodeInfo sbi s nid nomem).2.free = s.free ∧
      (∀ n, persisted sbi (Node.getNodeInfo sbi s nid nomem).2 n = persisted sbi s n) ∧
      (∀ n, (Node.getNodeInfo sbi s nid nomem).2.cache.dirty n = s.cache.dirty n) ∧
      ∀ n, nodeInfo sbi (Node.getNodeInfo sbi s nid nomem).2 n = nodeInfo sbi s n := by
  obtain ⟨hwf, hinfo, -, -⟩ := getNodeInfo_spec h.wf nid nomem
  have hentries := getNodeInfo_entries sbi s nid nomem
  obtain ⟨c, hc⟩ := getNodeInfo_eq sbi s nid nomem
  rw [hc] at hwf hinfo hentries ⊢
  have hdirty : ∀ n, c.dirty n = s.cache.dirty n := by
    intro n
    unfold NatCache.dirty
    rcases hentries n with hsame | ⟨hnone, e, he, hclean, -⟩
    · rw [hsame]
    · rw [hnone, show c.natRoot.lookup n = some e from he]
      exact hclean
  refine ⟨h.cache hwf ⟨fun n e he hclean => ?_, fun n e he hd hnull => ?_⟩
    fun n => Or.inl ⟨hdirty n, hinfo n⟩, rfl, fun _ => rfl, hdirty, hinfo⟩
  · rcases hentries n with hsame | ⟨-, e', he', -, hcp⟩
    · exact h.flags.clean n e (hsame.symm.trans he) hclean
    · rw [show c.natRoot.lookup n = some e' from he'] at he
      exact Option.some.inj he ▸ hcp
  · rcases hentries n with hsame | ⟨-, e', he', hclean, -⟩
    · exact h.flags.freed n e (hsame.symm.trans he) hd hnull
    · rw [show c.natRoot.lookup n = some e' from he'] at he
      rw [Option.some.inj he, hd] at hclean
      cases hclean

theorem NidsInv.tryToFreeNats (h : NidsInv sbi s) (nrShrink : Nat) :
    NidsInv sbi { s with cache := s.cache.tryToFreeNats nrShrink } ∧
      ∀ n, (s.cache.tryToFreeNats nrShrink).dirty n = s.cache.dirty n := by
  obtain ⟨-, hlook⟩ := NatCache.tryToFreeNats_spec nrShrink h.wf.cache
  obtain ⟨hwf, hinfo⟩ := tryToFreeNats_nodeInfo h.wf nrShrink
  have hdirty : ∀ n, (s.cache.tryToFreeNats nrShrink).dirty n = s.cache.dirty n := by
    intro n
    unfold NatCache.dirty
    rcases hlook n with hsame | ⟨hnone, e, he, hclean⟩
    · rw [hsame]
    · rw [hnone, he]
      exact hclean.symm
  refine ⟨h.cache hwf ⟨fun n e he => ?_, fun n e he => ?_⟩ fun n => Or.inl ⟨hdirty n, hinfo n⟩,
    hdirty⟩
  · rcases hlook n with hsame | ⟨hnone, -⟩
    · exact h.flags.clean n e (hsame.symm.trans he)
    · rw [hnone] at he
      cases he
  · rcases hlook n with hsame | ⟨hnone, -⟩
    · exact h.flags.freed n e (hsame.symm.trans he)
    · rw [hnone] at he
      cases he

/-- `set_node_addr` on one nid. -/
theorem setNodeAddr_dirty (h : NidsInv sbi s) (ni : NodeInfo) (newBlkaddr : Nat)
    (fsyncDone : Bool) (n : Nat) :
    (s.cache.setNodeAddr ni newBlkaddr fsyncDone).dirty n =
      if n = ni.nid then true else s.cache.dirty n := by
  obtain ⟨-, hlook⟩ := NatCache.setNodeAddr_spec h.wf.cache ni newBlkaddr fsyncDone
  unfold NatCache.dirty
  rw [hlook]
  by_cases hn : n = ni.nid
  · rw [if_pos hn, if_pos hn, Option.map_some]
    dsimp only
    split_ifs <;> rfl
  · rw [if_neg hn, if_neg hn]
    cases s.cache.natRoot.lookup n with
    | none => rfl
    | some e =>
        rw [Option.map_some]
        dsimp only
        split_ifs <;> rfl

theorem setNodeAddr_flags (h : NidsInv sbi s) (ni : NodeInfo) (newBlkaddr : Nat)
    (fsyncDone : Bool) : CacheFlags (s.cache.setNodeAddr ni newBlkaddr fsyncDone) := by
  obtain ⟨-, hlook⟩ := NatCache.setNodeAddr_spec h.wf.cache ni newBlkaddr fsyncDone
  -- the marks of an fsync leave the three fields alone
  have hentry : ∀ n e, (s.cache.setNodeAddr ni newBlkaddr fsyncDone).natRoot.lookup n = some e →
      ∃ e₀, (if n = ni.nid then some (s.cache.writtenEntry ni newBlkaddr)
          else s.cache.natRoot.lookup n) = some e₀ ∧ e.isDirty = e₀.isDirty ∧
        e.blkAddr = e₀.blkAddr ∧ e.isCheckpointed = e₀.isCheckpointed := by
    intro n e he
    rw [hlook] at he
    obtain ⟨e₀, h₀, rfl⟩ := Option.map_eq_some_iff.mp he
    refine ⟨e₀, h₀, ?_⟩
    split_ifs <;> exact ⟨rfl, rfl, rfl⟩
  refine ⟨fun n e he hclean => ?_, fun n e he hd hnull => ?_⟩
  · obtain ⟨e₀, h₀, hd₀, -, hcp⟩ := hentry n e he
    rw [hcp]
    split_ifs at h₀ with hn
    · rw [hd₀, ← Option.some.inj h₀] at hclean
      cases hclean
    · exact h.flags.clean n e₀ h₀ (hd₀ ▸ hclean)
  · obtain ⟨e₀, h₀, hd₀, haddr, hcp⟩ := hentry n e he
    rw [hcp]
    split_ifs at h₀ with hn
    · have hnew : newBlkaddr = nullAddr := by
        rw [← hnull, haddr, ← Option.some.inj h₀]
        rfl
      rw [← Option.some.inj h₀]
      show (if newBlkaddr = newAddr ∨ newBlkaddr = nullAddr then false else _) = false
      rw [if_pos (Or.inr hnew)]
    · exact h.flags.freed n e₀ h₀ (hd₀ ▸ hd) (haddr ▸ hnull)

/-- `set_node_addr` on a nid that is not in the list; one that was handed out is not
    unbound by it. -/
theorem NidsInv.setNodeAddr (h : NidsInv sbi s) {ni : NodeInfo} {newBlkaddr : Nat}
    (fsyncDone : Bool) (hmem : ni.nid ∈ usableNids sbi)
    (hfree : (s.free.view ni.nid).state ≠ some .freeNid)
    (hpre : (s.free.view ni.nid).state = some .preallocNid → newBlkaddr ≠ nullAddr) :
    NidsInv sbi { s with cache := s.cache.setNodeAddr ni newBlkaddr fsyncDone } := by
  obtain ⟨hwf, hinfo⟩ := setNodeAddr_nodeInfo h.wf ni newBlkaddr fsyncDone
  have hdirty := setNodeAddr_dirty h ni newBlkaddr fsyncDone
  refine h.cache hwf (setNodeAddr_flags h ni newBlkaddr fsyncDone) fun n => ?_
  by_cases hn : n = ni.nid
  · subst hn
    refine Or.inr ⟨by rw [hdirty, if_pos rfl], hmem, hfree, fun hp => ?_⟩
    rw [hinfo, if_pos rfl]
    exact hpre hp
  · exact Or.inl ⟨by rw [hdirty, if_neg hn], by rw [hinfo, if_neg hn]⟩

/-! ## The free nids -/

theorem FreeNid.asPlausible {n : Nat} (h : FreeNid sbi s n) (hmem : n ∈ usableNids sbi) :
    Plausible sbi s n :=
  ⟨(mem_usableNids.mp hmem).2, fun _ _ => h.1⟩

/-- A nid taken off the list. -/
theorem NidsInv.take (h : NidsInv sbi s) {nid : Nat}
    (he : (s.free.view nid).state = some .freeNid) :
    NidsInv sbi { s with free := s.free.takeFreeNid nid } := by
  have hview := fun n => takeFreeNid_view s.free n he
  obtain ⟨hmem, hfree⟩ := h.free nid he
  refine h.withFree (takeFreeNid_books h.list he).1 (takeFreeNid_bits h.bits nid)
    (fun n hn => ?_) (fun n hn => ?_) fun n hn => ?_
  · by_cases hne : n = nid
    · exact hne ▸ hfree.asPlausible hmem
    · rw [hview, if_neg hne] at hn
      exact h.bit n hn
  · rw [hview] at hn
    split_ifs at hn with hne
    · cases hn
    · exact h.free n hn
  · rw [hview] at hn
    split_ifs at hn with hne
    · exact hne ▸ ⟨hmem, Or.inl hfree⟩
    · exact h.prealloc n hn

theorem NidsInv.done (h : NidsInv sbi s) {nid : Nat}
    (he : (s.free.view nid).state = some .preallocNid) :
    NidsInv sbi { s with free := s.free.allocNidDone nid } := by
  have hview := fun n => allocNidDone_view s.free n he
  refine h.withFree (allocNidDone_books h.list he).1 (allocNidDone_bits h.bits nid)
    (fun n hn => ?_) (fun n hn => ?_) fun n hn => ?_
  · rw [hview] at hn
    split_ifs at hn with hne
    · exact hne ▸ h.bit nid hn
    · exact h.bit n hn
  · by_cases hne : n = nid
    · rw [hview, if_pos hne] at hn
      cases hn
    · rw [hview, if_neg hne] at hn
      exact h.free n hn
  · by_cases hne : n = nid
    · rw [hview, if_pos hne] at hn
      cases hn
    · rw [hview, if_neg hne] at hn
      exact h.prealloc n hn

/-- A nid given back. -/
theorem NidsInv.failed (h : NidsInv sbi s) {nid : Nat} (mem : Bool)
    (he : (s.free.view nid).state = some .preallocNid)
    (hnull : (nodeInfo sbi s nid).blockAddr = nullAddr) :
    NidsInv sbi { s with free := s.free.allocNidFailed nid mem } := by
  obtain ⟨hmem, hcase⟩ := h.prealloc nid he
  have hfree : FreeNid sbi s nid := hcase.resolve_right fun hb => hb hnull
  have h0 := (mem_usableNids.mp hmem).1
  have hview := fun n => allocNidFailed_view s.free h0 mem n he
  refine h.withFree (allocNidFailed_books h.list he h0 mem).1 (allocNidFailed_bits h.bits nid mem)
    (fun n hn => ?_) (fun n hn => ?_) fun n hn => ?_
  · by_cases hne : n = nid
    · exact hne ▸ hfree.asPlausible hmem
    · rw [hview, if_neg hne] at hn
      exact h.bit n hn
  · by_cases hne : n = nid
    · exact hne ▸ ⟨hmem, hfree⟩
    · rw [hview, if_neg hne] at hn
      exact h.free n hn
  · by_cases hne : n = nid
    · exact hne ▸ ⟨hmem, Or.inl hfree⟩
    · rw [hview, if_neg hne] at hn
      exact h.prealloc n hn

theorem NidsInv.removeFreeNid (h : NidsInv sbi s) (nid : Nat) :
    NidsInv sbi { s with free := s.free.removeFreeNid nid } := by
  have hview := removeFreeNid_view s.free nid
  refine h.withFree (removeFreeNid_kept h.list nid).list (removeFreeNid_bits h.bits nid)
    (fun n hn => ?_) (fun n hn => ?_) fun n hn => ?_
  · rw [hview] at hn
    split_ifs at hn with hne
    · exact hne ▸ h.bit nid (NidView.unlist_bit.symm.trans hn)
    · exact h.bit n hn
  · rw [hview] at hn
    split_ifs at hn
    · exact absurd hn NidView.unlist_free
    · exact h.free n hn
  · rw [hview] at hn
    split_ifs at hn with hne
    · exact hne ▸ h.prealloc nid (NidView.unlist_prealloc.mp hn)
    · exact h.prealloc n hn

theorem NidsInv.tryToFreeNids (h : NidsInv sbi s) (nrShrink : Nat) :
    NidsInv sbi { s with free := s.free.tryToFreeNids nrShrink } := by
  unfold FreeNidInfo.tryToFreeNids
  split_ifs
  · exact h
  have hview := shrinkFreeNids_view nrShrink h.list
  refine h.withFree (shrinkFreeNids_kept nrShrink h.list).list (shrinkFreeNids_bits nrShrink h.bits)
    (fun n hn => ?_) (fun n hn => ?_) fun n hn => ?_
  · rcases hview n with hsame | ⟨-, hgone⟩
    · exact h.bit n (hsame ▸ hn)
    · rw [hgone] at hn
      exact h.bit n hn
  · rcases hview n with hsame | ⟨-, hgone⟩
    · exact h.free n (hsame ▸ hn)
    · rw [hgone] at hn
      cases hn
  · rcases hview n with hsame | ⟨-, hgone⟩
    · exact h.prealloc n (hsame ▸ hn)
    · rw [hgone] at hn
      cases hn

/-! ## The flush -/

theorem flushNid_books (f : FreeNidInfo) (addr nid : Nat) :
    (f.ListBooks → (flushNid f addr nid).ListBooks) ∧
      (f.BitBooks → (flushNid f addr nid).BitBooks) := by
  have heq := flushFreeNid_eq f { NatEntry.alloc nid with blkAddr := addr } nid
  rw [show ({ NatEntry.alloc nid with blkAddr := addr } : NatEntry).blkAddr = addr from rfl] at heq
  rw [← heq]
  exact ⟨fun h => (flushFreeNid_kept h _ nid).list, fun h => flushFreeNid_bits h _ nid⟩

section

variable {drained : Bool} {L : List Nat}

/-- The nids a flush writes are usable. -/
theorem NidsFlushed.usable (hf : NidsFlushed sbi s drained L s') (h : NidsInv sbi s) {n : Nat}
    (hn : n ∈ L) : n ∈ usableNids sbi := by
  rcases ((hf.mem n).mp hn).1 with hd | ⟨-, hj⟩
  · exact h.dirty n hd
  · exact h.journal n hj

/-- Nothing happened to a nid that was not written, unless its record was dropped. -/
theorem NidsFlushed.other (hf : NidsFlushed sbi s drained L s') {n : Nat} (hn : n ∉ L) :
    (s'.cache.natRoot.lookup n = s.cache.natRoot.lookup n ∧
        s'.journal.view n = s.journal.view n) ∨
      (drained = true ∧ s.journal.view n ≠ none ∧ s'.cache.dirty n = true ∧
        s'.journal.view n = none ∧ (nodeInfo sbi s n).blockAddr = newAddr) := by
  by_cases hv : drained = true ∧ s.journal.view n ≠ none
  · obtain ⟨hd, hnone⟩ := hf.stranded n hn hv.1 hv.2
    refine Or.inr ⟨hv.1, hv.2, hd, hnone, ?_⟩
    by_contra hne
    exact hn ((hf.mem n).mpr ⟨Or.inr hv, hne⟩)
  · exact Or.inl (hf.kept n hn fun hd => not_not.mp fun hj => hv ⟨hd, hj⟩)

theorem NidsFlushed.dirty_of_mem (hf : NidsFlushed sbi s drained L s') {n : Nat} (hn : n ∈ L) :
    s'.cache.dirty n = false := by
  obtain ⟨e, he, hd, -⟩ := hf.clean n hn
  rw [NatCache.dirty_of_lookup he, hd]

/-- What was free stays free. -/
theorem NidsFlushed.freeNid (hf : NidsFlushed sbi s drained L s') (hwf : s.Wf sbi) {n : Nat}
    (h : FreeNid sbi s n) : FreeNid sbi s' n := by
  have hnull := h.nodeInfo hwf
  have hinfo : (nodeInfo sbi s' n).blockAddr = nullAddr := by rw [hf.info, hnull]
  refine freeNid_of_nodeInfo hf.wf ?_ hinfo
  by_cases hn : n ∈ L
  · exact hf.dirty_of_mem hn
  · rcases hf.other hn with ⟨hlook, -⟩ | ⟨-, -, -, -, hnew⟩
    · unfold NatCache.dirty
      rw [hlook]
      exact h.2
    · rw [hnull] at hnew
      exact absurd hnew (by decide)

/-- The views after the flush. -/
theorem NidsFlushed.view (hf : NidsFlushed sbi s drained L s') (h : NidsInv sbi s) (n : Nat) :
    s'.free.view n = if n ∈ L then (s.free.view n).flush (nodeInfo sbi s n).blockAddr
      else s.free.view n := by
  rw [hf.free, flushNids_view _ hf.nodup]
  by_cases hn : n ∈ L
  · have h0 := (mem_usableNids.mp (hf.usable h hn)).1
    rw [if_pos hn, if_pos hn, if_neg fun hz : n = 0 ∧ _ => h0 hz.1]
    rfl
  · rw [if_neg hn, if_neg hn]
    rfl

theorem NidsInv.flushed (h : NidsInv sbi s) (hf : NidsFlushed sbi s drained L s') :
    NidsInv sbi s' := by
  have hview := hf.view h
  have hlist : s'.free.ListBooks := by
    rw [hf.free]
    exact List.foldlRecOn (motive := ListBooks) _ _ (h.list.congr rfl rfl rfl)
      fun f hlist n _ => (flushNid_books f _ n).1 hlist
  have hbits : s'.free.BitBooks := by
    rw [hf.free]
    exact List.foldlRecOn (motive := BitBooks) _ _ (h.bits.avail _)
      fun f hbits n _ => (flushNid_books f _ n).2 hbits
  refine ⟨⟨hf.wf, ⟨fun n e he hd => ?_, fun n e he hd hnull => ?_⟩, fun n hj => ?_⟩,
    fun n hd => ?_, hlist, hbits, fun n hbit => ?_, fun n hst => ?_, fun n hst => ?_⟩
  · by_cases hn : n ∈ L
    · obtain ⟨e', he', -, hcp⟩ := hf.clean n hn
      rw [he] at he'
      exact Option.some.inj he' ▸ hcp
    · rcases hf.other hn with ⟨hlook, -⟩ | ⟨-, -, hdirty, -⟩
      · exact h.flags.clean n e (hlook ▸ he) hd
      · rw [NatCache.dirty_of_lookup he, hd] at hdirty
        cases hdirty
  · by_cases hn : n ∈ L
    · have hclean := hf.dirty_of_mem hn
      rw [NatCache.dirty_of_lookup he, hd] at hclean
      cases hclean
    · rcases hf.other hn with ⟨hlook, -⟩ | ⟨-, -, -, -, hnew⟩
      · exact h.flags.freed n e (hlook ▸ he) hd hnull
      · rw [← hf.info, nodeInfo_of_lookup he] at hnew
        rw [show e.blkAddr = newAddr from hnew] at hnull
        exact absurd hnull (by decide)
  · by_cases hn : n ∈ L
    · exact hf.usable h hn
    · rcases hf.other hn with ⟨-, hview⟩ | ⟨-, hview, -⟩
      · exact h.journal n (hview ▸ hj)
      · exact h.journal n hview
  · by_cases hn : n ∈ L
    · exact hf.usable h hn
    · rcases hf.other hn with ⟨hlook, -⟩ | ⟨-, hview, -⟩
      · refine h.dirty n ?_
        unfold NatCache.dirty at hd ⊢
        rw [← hlook]
        exact hd
      · exact h.journal n hview
  · -- a bit the flush set belongs to a nid it persisted as free
    rw [hview] at hbit
    by_cases hn : n ∈ L
    · rw [if_pos hn] at hbit
      have hmem := hf.usable h hn
      have hnull : (nodeInfo sbi s n).blockAddr = nullAddr := by
        rw [NidView.flush_bit] at hbit
        split_ifs at hbit with hmark
        · exact of_decide_eq_true hbit
        · exact absurd (h.bits.marked hbit) hmark
      exact (freeNid_of_nodeInfo hf.wf (hf.dirty_of_mem hn) (by rw [hf.info, hnull])).asPlausible
        hmem
    · rw [if_neg hn] at hbit
      obtain ⟨hlt, hplain⟩ := h.bit n hbit
      refine ⟨hlt, fun hj hd => ?_⟩
      rcases hf.other hn with ⟨hlook, hview⟩ | ⟨-, -, hdirty, -⟩
      · have hd' : s.cache.dirty n = false := by
          unfold NatCache.dirty at hd ⊢
          rw [← hlook]
          exact hd
        exact (hf.freeNid h.wf ⟨hplain (hview ▸ hj) hd', hd'⟩).1
      · exact absurd (hd.symm.trans hdirty) (by decide)
  · rw [hview] at hst
    by_cases hn : n ∈ L
    · rw [if_pos hn] at hst
      refine ⟨hf.usable h hn, ?_⟩
      rcases NidView.flush_free hst with hfree | hnull
      · exact hf.freeNid h.wf (h.free n hfree).2
      · exact freeNid_of_nodeInfo hf.wf (hf.dirty_of_mem hn) (by rw [hf.info, hnull])
    · rw [if_neg hn] at hst
      exact ⟨(h.free n hst).1, hf.freeNid h.wf (h.free n hst).2⟩
  · have hpre : (s.free.view n).state = some .preallocNid := by
      rw [hview] at hst
      split_ifs at hst
      · exact NidView.flush_prealloc.mp hst
      · exact hst
    obtain ⟨hmem, hcase⟩ := h.prealloc n hpre
    exact ⟨hmem, hcase.imp (hf.freeNid h.wf) fun hb => by rwa [hf.info]⟩

end

end

end F2fs.Node

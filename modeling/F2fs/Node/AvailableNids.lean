/-
  `available_nids` counts the nids that can be allocated: free, and not handed out.

  A nid freed since the last flush is not among them yet; the flush that writes `NULL_ADDR`
  adds it.  The drain of the journal counts off the nids whose flush will count them again,
  those handed out included, so only the sum over a whole flush is a count of nids
  (`flush_balance`).
-/
import F2fs.Node.MountNids

namespace F2fs.Node

open FreeNidInfo F2fs.Checkpoint

/-- The last flushed value is `NULL_ADDR`, no change is under way, and nobody has the nid. -/
def Allocatable (sbi : SbInfo) (s : NatState) (n : Nat) : Prop :=
  FreeNid sbi s n ∧ s.free.freeNidRoot.lookup n ≠ some .preallocNid

instance (sbi : SbInfo) (s : NatState) (n : Nat) : Decidable (FreeNid sbi s n) :=
  inferInstanceAs (Decidable (_ ∧ _))

instance (sbi : SbInfo) (s : NatState) : DecidablePred (Allocatable sbi s) := fun _ =>
  inferInstanceAs (Decidable (_ ∧ _))

/-- The nids `alloc_nid` can hand out. -/
def allocatableNids (sbi : SbInfo) (s : NatState) : Finset Nat :=
  (usableNids sbi).filter (Allocatable sbi s)

/-- `available_nids` is right. -/
def Counted (sbi : SbInfo) (s : NatState) : Prop :=
  s.free.availableNids = (allocatableNids sbi s).card

section

variable {sbi : SbInfo} {s s' : NatState}

theorem allocatableNids_congr
    (h : ∀ n ∈ usableNids sbi, Allocatable sbi s' n ↔ Allocatable sbi s n) :
    allocatableNids sbi s' = allocatableNids sbi s :=
  Finset.filter_congr h

theorem card_allocatableNids_lt (sbi : SbInfo) (s : NatState) (hmax : maxNid sbi < 2 ^ 32) :
    (allocatableNids sbi s).card < 2 ^ 32 := by
  refine lt_of_le_of_lt ((Finset.card_filter_le _ _).trans ?_) hmax
  unfold usableNids
  rw [Nat.card_Ico]
  exact Nat.sub_le _ _

/-! ## One nid -/

theorem takeFreeNid_avail (f : FreeNidInfo) (nid : Nat) :
    (f.takeFreeNid nid).availableNids = u32Sub f.availableNids 1 := by
  unfold takeFreeNid
  exact (update_sameBooks _ nid false false).avail

theorem allocNidFailed_avail {f : FreeNidInfo} {nid : Nat} (h0 : nid ≠ 0) (mem : Bool)
    (he : (f.view nid).state = some .preallocNid) :
    (f.allocNidFailed nid mem).availableNids = u32 (f.availableNids + 1) := by
  unfold allocNidFailed
  rw [if_neg h0, show f.freeNidRoot.lookup nid = some .preallocNid from he]
  refine (update_sameBooks _ nid true false).avail.trans ?_
  cases mem <;> rfl

theorem allocNidDone_avail {f : FreeNidInfo} {nid : Nat}
    (he : (f.view nid).state = some .preallocNid) :
    (f.allocNidDone nid).availableNids = f.availableNids := by
  unfold allocNidDone
  rw [show f.freeNidRoot.lookup nid = some .preallocNid from he]
  rfl

theorem take_counted (hmax : maxNid sbi < 2 ^ 32) (h : NidsInv sbi s) (hc : Counted sbi s)
    {nid : Nat} (he : (s.free.view nid).state = some .freeNid) :
    Counted sbi { s with free := s.free.takeFreeNid nid } := by
  have hview := fun n => takeFreeNid_view s.free n he
  obtain ⟨hmem, hfree⟩ := h.free nid he
  have havail := takeFreeNid_avail s.free nid
  have hin : nid ∈ allocatableNids sbi s := by
    refine Finset.mem_filter.mpr ⟨hmem, hfree, fun hp => ?_⟩
    rw [show (s.free.view nid).state = some .preallocNid from hp] at he
    cases he
  have hset : allocatableNids sbi { s with free := s.free.takeFreeNid nid } =
      (allocatableNids sbi s).erase nid := by
    ext n
    unfold allocatableNids
    rw [Finset.mem_erase, Finset.mem_filter, Finset.mem_filter]
    have hstate := congrArg NidView.state (hview n)
    by_cases hn : n = nid
    · subst hn
      rw [if_pos rfl] at hstate
      exact ⟨fun hh => absurd hstate hh.2.2, fun hh => absurd rfl hh.1⟩
    · rw [if_neg hn] at hstate
      have hiff : Allocatable sbi { s with free := s.free.takeFreeNid nid } n ↔
          Allocatable sbi s n :=
        and_congr_right fun _ => not_congr (by rw [show
          (s.free.takeFreeNid nid).freeNidRoot.lookup n = s.free.freeNidRoot.lookup n
          from hstate])
      rw [hiff]
      exact ⟨fun hh => ⟨hn, hh⟩, fun hh => hh.2⟩
  have hpos := Finset.card_pos.mpr ⟨nid, hin⟩
  have hlt := card_allocatableNids_lt sbi s hmax
  unfold Counted at hc ⊢
  rw [hset, Finset.card_erase_of_mem hin]
  show (s.free.takeFreeNid nid).availableNids = _
  rw [havail, hc, u32Sub_of_le hpos hlt]

theorem failed_counted (hmax : maxNid sbi < 2 ^ 32) (h : NidsInv sbi s) (hc : Counted sbi s)
    {nid : Nat} (mem : Bool) (he : (s.free.view nid).state = some .preallocNid)
    (hnull : (nodeInfo sbi s nid).blockAddr = nullAddr) :
    Counted sbi { s with free := s.free.allocNidFailed nid mem } := by
  obtain ⟨hmem, hcase⟩ := h.prealloc nid he
  have hfree : FreeNid sbi s nid := hcase.resolve_right fun hb => hb hnull
  have h0 := (mem_usableNids.mp hmem).1
  have hview := fun n => allocNidFailed_view s.free h0 mem n he
  have havail := allocNidFailed_avail h0 mem he
  have hnot : nid ∉ allocatableNids sbi s := fun hin => (Finset.mem_filter.mp hin).2.2 he
  have hset : allocatableNids sbi { s with free := s.free.allocNidFailed nid mem } =
      insert nid (allocatableNids sbi s) := by
    ext n
    unfold allocatableNids
    rw [Finset.mem_insert, Finset.mem_filter, Finset.mem_filter]
    have hstate := congrArg NidView.state (hview n)
    by_cases hn : n = nid
    · subst hn
      rw [if_pos rfl] at hstate
      refine iff_of_true ⟨hmem, hfree, fun hp => ?_⟩ (Or.inl rfl)
      rw [show (s.free.allocNidFailed n mem).freeNidRoot.lookup n = _ from hstate] at hp
      cases mem <;> cases hp
    · rw [if_neg hn] at hstate
      have hiff : Allocatable sbi { s with free := s.free.allocNidFailed nid mem } n ↔
          Allocatable sbi s n :=
        and_congr_right fun _ => not_congr (by rw [show
          (s.free.allocNidFailed nid mem).freeNidRoot.lookup n = s.free.freeNidRoot.lookup n
          from hstate])
      rw [hiff, or_iff_right hn]
  have hlt := card_allocatableNids_lt sbi { s with free := s.free.allocNidFailed nid mem } hmax
  unfold Counted at hc ⊢
  rw [hset, Finset.card_insert_of_notMem hnot] at hlt ⊢
  show (s.free.allocNidFailed nid mem).availableNids = _
  rw [havail, hc]
  unfold u32
  exact Nat.mod_eq_of_lt hlt

/-! ## A flush -/

/-- The drain counts off the nids whose record says free and whose entry is clean. -/
def isDrainedFree (s : NatState) (drained : Bool) (n : Nat) : Bool :=
  drained && !s.cache.dirty n &&
    (s.journal.view n).any fun raw => decide (raw.blockAddr = nullAddr)

theorem card_takenBack (h : NidsInv sbi s) :
    (takenBack s).card = ((usableNids sbi).filter fun n => isDrainedFree s true n).card := by
  have hinj : Set.InjOn (fun i => (s.journal.slot i).1) (takenBack s) := by
    intro a ha b hb hab
    exact h.wf.distinct a b (Finset.mem_range.mp (Finset.mem_filter.mp ha).1)
      (Finset.mem_range.mp (Finset.mem_filter.mp hb).1) hab
  rw [← Finset.card_image_of_injOn hinj]
  congr 1
  ext n
  rw [Finset.mem_image, Finset.mem_filter]
  unfold isDrainedFree takenBack isTakenBack
  constructor
  · rintro ⟨i, hi, rfl⟩
    obtain ⟨hlt, hback⟩ := Finset.mem_filter.mp hi
    have hview := h.wf.distinct.view_slot (Finset.mem_range.mp hlt)
    refine ⟨h.journal _ (by rw [hview]; exact nofun), ?_⟩
    rw [hview]
    simpa using hback
  · rintro ⟨-, hn⟩
    rw [Bool.and_eq_true, Option.any_eq_true] at hn
    obtain ⟨hclean, raw, hraw, hnull⟩ := hn
    obtain ⟨i, hi, hslot⟩ := JournalArray.view_eq_some hraw
    refine ⟨i, Finset.mem_filter.mpr ⟨Finset.mem_range.mpr hi, ?_⟩, by rw [hslot]⟩
    rw [hslot]
    simpa [hnull] using hclean

/-- The nids that a flush writes as free. -/
def freedNids (sbi : SbInfo) (s : NatState) (L : List Nat) : List Nat :=
  L.filter fun n => decide ((nodeInfo sbi s n).blockAddr = nullAddr ∧ n ≠ 0)

section

variable {drained : Bool} {L : List Nat}

theorem NidsFlushed.prealloc (hf : NidsFlushed sbi s drained L s') (n : Nat) :
    (s'.free.view n).state = some .preallocNid ↔ (s.free.view n).state = some .preallocNid := by
  rw [hf.free, flushNids_view _ hf.nodup, view_avail]
  split_ifs
  · rfl
  · exact NidView.flush_prealloc
  · rfl

/-- Over the whole flush, what the drain counts off and what the writes add agree with the
    nids that became allocatable. -/
theorem flush_balance (h : NidsInv sbi s) (hf : NidsFlushed sbi s drained L s') :
    (allocatableNids sbi s').card +
        ((usableNids sbi).filter fun n => isDrainedFree s drained n).card =
      (allocatableNids sbi s).card + (freedNids sbi s L).length := by
  have hfreed : (freedNids sbi s L).length = ((usableNids sbi).filter fun n =>
      n ∈ L ∧ (nodeInfo sbi s n).blockAddr = nullAddr).card := by
    unfold freedNids
    rw [← List.toFinset_card_of_nodup (hf.nodup.filter _)]
    congr 1
    ext n
    rw [List.mem_toFinset, List.mem_filter, Finset.mem_filter, decide_eq_true_eq]
    exact ⟨fun hn => ⟨hf.usable h hn.1, hn.1, hn.2.1⟩,
      fun hn => ⟨hn.2.1, hn.2.2, (mem_usableNids.mp hn.1).1⟩⟩
  rw [hfreed]
  unfold allocatableNids
  simp only [Finset.card_filter]
  rw [← Finset.sum_add_distrib, ← Finset.sum_add_distrib]
  refine Finset.sum_congr rfl fun n hn => ?_
  have hpre : s'.free.freeNidRoot.lookup n = some .preallocNid ↔
      s.free.freeNidRoot.lookup n = some .preallocNid := hf.prealloc n
  -- a record that says free and is not overruled makes the nid free
  have hrecord : isDrainedFree s drained n = true ↔
      drained = true ∧ s.journal.view n ≠ none ∧ FreeNid sbi s n := by
    unfold isDrainedFree FreeNid persisted
    cases s.journal.view n with
    | none => simp
    | some raw =>
        simp only [Bool.and_eq_true, Bool.not_eq_true', Option.any_some, decide_eq_true_eq,
          ne_eq, reduceCtorEq, not_false_eq_true, true_and]
        tauto
  have hstate : ∀ {t : NatState}, Allocatable sbi t n ↔
      FreeNid sbi t n ∧ ¬ t.free.freeNidRoot.lookup n = some .preallocNid := Iff.rfl
  by_cases hL : n ∈ L
  · by_cases hnull : (nodeInfo sbi s n).blockAddr = nullAddr
    · -- it becomes free: it was dirty, or the drain counted it off
      have hfree' : FreeNid sbi s' n :=
        freeNid_of_nodeInfo hf.wf (hf.dirty_of_mem hL) (by rw [hf.info, hnull])
      by_cases hd : s.cache.dirty n = true
      · have hfree : ¬ FreeNid sbi s n := fun hfree => by
          rw [hfree.2] at hd
          cases hd
        have hnot : ¬ s.free.freeNidRoot.lookup n = some .preallocNid := fun hp =>
          (h.prealloc n hp).2.elim hfree fun hb => hb hnull
        simp [hstate, hpre, hrecord, hfree', hfree, hnot, hL, hnull]
      · have hfree : FreeNid sbi s n :=
          freeNid_of_nodeInfo h.wf (Bool.eq_false_iff.mpr hd) hnull
        have hrec := ((hf.mem n).mp hL).1.resolve_left hd
        have hcounted := hrecord.mpr ⟨hrec.1, hrec.2, hfree⟩
        simp [hstate, hpre, hcounted, hfree', hfree, hL, hnull]
    · have hfree : ¬ FreeNid sbi s n := fun hfree => hnull (hfree.nodeInfo h.wf)
      have hfree' : ¬ FreeNid sbi s' n := fun hfree' => by
        have hinfo := hfree'.nodeInfo hf.wf
        rw [hf.info] at hinfo
        exact hnull hinfo
      simp [hstate, hrecord, hfree, hfree', hnull]
  · -- a free nid with a drained record is written
    have hrec : ¬ (drained = true ∧ s.journal.view n ≠ none ∧ FreeNid sbi s n) := by
      rintro ⟨hd, hj, hfree⟩
      refine hL ((hf.mem n).mpr ⟨Or.inr ⟨hd, hj⟩, ?_⟩)
      rw [hfree.nodeInfo h.wf]
      decide
    have hsame : FreeNid sbi s' n ↔ FreeNid sbi s n := by
      refine ⟨fun hfree' => ?_, hf.freeNid h.wf⟩
      have hinfo := hfree'.nodeInfo hf.wf
      rw [hf.info] at hinfo
      rcases hf.other hL with ⟨hlook, -⟩ | ⟨-, -, -, -, hnew⟩
      · refine freeNid_of_nodeInfo h.wf ?_ hinfo
        have hclean := hfree'.2
        unfold NatCache.dirty at hclean ⊢
        rwa [hlook] at hclean
      · rw [hnew] at hinfo
        exact absurd hinfo (by decide)
    simp only [hstate, hpre, hsame, hrecord, hrec, hL, false_and, if_false]

theorem flushNid_avail (f : FreeNidInfo) (addr nid : Nat) : (flushNid f addr nid).availableNids =
    if addr = nullAddr ∧ nid ≠ 0 then (f.availableNids + 1) % 2 ^ 32 else f.availableNids := by
  unfold flushNid
  by_cases haddr : addr = nullAddr
  · rw [if_pos haddr]
    by_cases hnid : nid = 0
    · rw [hnid, addFreeNid_zero, if_neg fun hc : addr = nullAddr ∧ 0 ≠ 0 => hc.2 rfl]
    · rw [addFreeNid_flush none hnid, if_pos ⟨haddr, hnid⟩]
      show u32 _ = _
      rw [(update_sameBooks _ nid true false).avail, (insert_sameBooks f nid).avail, u32]
  · rw [if_neg haddr, if_neg fun hc : addr = nullAddr ∧ nid ≠ 0 => haddr hc.1]
    exact (update_sameBooks f nid false false).avail

theorem flush_counted (hmax : maxNid sbi < 2 ^ 32) (h : NidsInv sbi s) (hc : Counted sbi s)
    (hf : NidsFlushed sbi s drained L s') : Counted sbi s' := by
  unfold Counted at hc ⊢
  have hlt := card_allocatableNids_lt sbi s hmax
  have hlt' := card_allocatableNids_lt sbi s' hmax
  have hbal := flush_balance h hf
  -- `available_nids` when the sets are about to be written
  obtain ⟨a, ha⟩ : ∃ a, a = if drained then countOff (takenBack s).card s.free.availableNids
    else s.free.availableNids := ⟨_, rfl⟩
  have hstart : a < 2 ^ 32 ∧
      (a + ((usableNids sbi).filter fun n => isDrainedFree s drained n).card) % 2 ^ 32 =
        s.free.availableNids := by
    rw [ha]
    cases drained with
    | true =>
        rw [if_pos rfl, ← card_takenBack h]
        exact countOff_add (hc ▸ hlt) _
    | false =>
        rw [if_neg (by decide)]
        have hnone : ((usableNids sbi).filter fun n => isDrainedFree s false n) = ∅ :=
          Finset.filter_eq_empty_iff.mpr fun _ _ => by simp [isDrainedFree]
        rw [hnone, Finset.card_empty, Nat.add_zero]
        exact ⟨hc ▸ hlt, Nat.mod_eq_of_lt (hc ▸ hlt)⟩
  obtain ⟨ha_lt, hback⟩ := hstart
  have hstep : ∀ f n, (flushNid f (nodeInfo sbi s n).blockAddr n).availableNids =
      if (nodeInfo sbi s n).blockAddr = nullAddr ∧ n ≠ 0 then (f.availableNids + 1) % 2 ^ 32
      else f.availableNids := fun f n => flushNid_avail f _ n
  have hcount := FoldView.foldl_count (f := FreeNidInfo.availableNids) hstep L
    { s.free with availableNids := a } ha_lt
  rw [hf.free, ← ha, hcount]
  show (a + (freedNids sbi s L).length) % 2 ^ 32 = _
  rw [hc] at hback
  omega

end

/-! ## Runs -/

/-- A step that keeps what is allocatable and the counter. -/
theorem Counted.congr (hc : Counted sbi s) (havail : s'.free.availableNids = s.free.availableNids)
    (hsame : ∀ n ∈ usableNids sbi, Allocatable sbi s' n ↔ Allocatable sbi s n) :
    Counted sbi s' := by
  unfold Counted at hc ⊢
  rw [havail, hc, allocatableNids_congr hsame]

theorem FreeNid.congr {n : Nat} (hpers : persisted sbi s' n = persisted sbi s n)
    (hdirty : s'.cache.dirty n = s.cache.dirty n) : FreeNid sbi s' n ↔ FreeNid sbi s n := by
  unfold FreeNid
  rw [hpers, hdirty]

/-- A scan changes neither. -/
theorem build_counted {m : NodeManager} (hr : Readable sbi m.nat)
    (hs : Settled sbi m.nat m.nat.free) (hc : Counted sbi m.nat) (sync mount mem : Bool) :
    Counted sbi (buildFreeNids sbi sync mount mem m).nat := by
  obtain ⟨f, next, hbuild, hf⟩ := buildFreeNids_settled hr hs sync mount mem
  rw [hbuild]
  refine hc.congr hf.books.avail fun n _ => ?_
  exact and_congr_right fun _ => not_congr (hf.prealloc n)

theorem shrinkFreeNids_avail (nrShrink : Nat) (f : FreeNidInfo) :
    (shrinkFreeNids nrShrink f).availableNids = f.availableNids := by
  induction nrShrink generalizing f with
  | zero => rfl
  | succ nrShrink ih =>
      unfold shrinkFreeNids
      cases f.freeNidList with
      | nil => rfl
      | cons nid rest =>
          dsimp only
          split_ifs
          · rfl
          · exact ih _

theorem tryToFreeNids_counted (h : NidsInv sbi s) (hc : Counted sbi s) (nrShrink : Nat) :
    Counted sbi { s with free := s.free.tryToFreeNids nrShrink } := by
  unfold FreeNidInfo.tryToFreeNids
  split_ifs
  · exact hc
  refine hc.congr (shrinkFreeNids_avail nrShrink s.free) fun n _ => ?_
  refine and_congr_right fun _ => not_congr ?_
  show ((shrinkFreeNids nrShrink s.free).view n).state = _ ↔ (s.free.view n).state = _
  rcases shrinkFreeNids_view nrShrink h.list n with hsame | ⟨hfree, hgone⟩
  · rw [hsame]
  · rw [hgone, hfree]
    exact iff_of_false nofun nofun

/-- A nid that is not in the list and was not handed out as a free one can be written without
    a word to the free nids. -/
theorem setNodeAddr_counted (h : NidsInv sbi s) (hc : Counted sbi s) {ni : NodeInfo}
    (newBlkaddr : Nat) (fsyncDone : Bool)
    (htaken : (s.free.view ni.nid).state = some .preallocNid ∨
      (nodeInfo sbi s ni.nid).blockAddr ≠ nullAddr) :
    Counted sbi { s with cache := s.cache.setNodeAddr ni newBlkaddr fsyncDone } := by
  have hdirty := setNodeAddr_dirty h ni newBlkaddr fsyncDone
  refine hc.congr rfl fun n _ => ?_
  by_cases hn : n = ni.nid
  · have hd := hdirty n
    rw [if_pos hn] at hd
    refine iff_of_false (fun hfree => ?_) fun hfree => ?_
    · have hclean := hfree.1.2
      rw [show ({ s with cache := s.cache.setNodeAddr ni newBlkaddr fsyncDone } :
        NatState).cache.dirty n = true from hd] at hclean
      cases hclean
    · rcases htaken with hpre | hbound
      · exact hfree.2 (hn ▸ hpre)
      · exact hbound (hn ▸ hfree.1.nodeInfo h.wf)
  · exact and_congr_left' (FreeNid.congr rfl (by
      show (s.cache.setNodeAddr ni newBlkaddr fsyncDone).dirty n = _
      rw [hdirty, if_neg hn]))

theorem done_counted (h : NidsInv sbi s) (hc : Counted sbi s) {nid : Nat}
    (he : (s.free.view nid).state = some .preallocNid)
    (hbound : (nodeInfo sbi s nid).blockAddr ≠ nullAddr) :
    Counted sbi { s with free := s.free.allocNidDone nid } := by
  have hview := fun n => allocNidDone_view s.free n he
  refine hc.congr (allocNidDone_avail he) fun n _ => ?_
  by_cases hn : n = nid
  · refine iff_of_false (fun hfree => ?_) fun hfree => hfree.2 (hn ▸ he)
    exact hbound (hn ▸ FreeNid.nodeInfo (s := s) hfree.1 h.wf)
  · refine and_congr_right fun _ => not_congr ?_
    show ((s.free.allocNidDone nid).view n).state = _ ↔ (s.free.view n).state = _
    rw [hview, if_neg hn]

/-- One move. -/
theorem NidMove.counted {m m' : NodeManager} (hmax : maxNid sbi < 2 ^ 32)
    (h : NidsInv sbi m.nat) (hc : Counted sbi m.nat) (hm : NidMove sbi false m m') :
    Counted sbi m'.nat := by
  cases hm with
  | read nid nomem =>
      obtain ⟨-, hfree, hpers, hdirty, -⟩ := h.getNodeInfo nid nomem
      refine hc.congr (congrArg FreeNidInfo.availableNids hfree) fun n _ => ?_
      refine and_congr (FreeNid.congr (hpers n) (hdirty n)) ?_
      show ¬ (Node.getNodeInfo sbi m.nat nid nomem).2.free.freeNidRoot.lookup n = _ ↔ _
      rw [hfree]
  | write ni newBlkaddr fsyncDone hmem htaken hpre =>
      exact setNodeAddr_counted h hc newBlkaddr fsyncDone htaken
  | recover ni hrec hmem => exact absurd hrec (by decide)
  | dropClean nrShrink =>
      obtain ⟨-, hdirty⟩ := h.tryToFreeNats nrShrink
      exact hc.congr rfl fun n _ => and_congr_left' (FreeNid.congr rfl (hdirty n))
  | take nid he => exact take_counted hmax h hc he
  | done nid he hbound => exact done_counted h hc he hbound
  | failed nid mem he hunbound => exact failed_counted hmax h hc mem he (not_not.mp hunbound)
  | build sync mem => exact build_counted h.toReadable h.settled hc sync false mem
  | dropFree nrShrink => exact tryToFreeNids_counted h hc nrShrink
  | flush drained L s hf => exact flush_counted hmax h hc hf

end

/-! ## From the mount -/

/-- `F2FS_RESERVED_NODE_NUM`. -/
def f2fsReservedNodeNum : Nat := 3

/-- `nm_i->available_nids` as `init_node_manager` computes it. -/
def initAvailableNids (sbi : SbInfo) (totalValidNodeCount nquotaFiles : Nat) : Nat :=
  u32Sub (u32Sub (u32Sub (maxNid sbi) totalValidNodeCount) nquotaFiles) f2fsReservedNodeNum

/-- The usable nids with an address in the persisted NAT. -/
def boundNids (sbi : SbInfo) (s : NatState) : Finset Nat :=
  (usableNids sbi).filter fun n => (persisted sbi s n).blockAddr ≠ nullAddr

/-- The volume's counts fit its NAT: bound are the valid nodes, the hidden quota files, and
    the inodes of the node and meta mappings.  (Nid 0 is the third reserved one.) -/
def CountsFit (sbi : SbInfo) (s : NatState) (totalValidNodeCount nquotaFiles : Nat) : Prop :=
  (boundNids sbi s).card = totalValidNodeCount + nquotaFiles + 2

section

variable {sbi : SbInfo} {s : NatState}

theorem init_counted (hmax : maxNid sbi < 2 ^ 32) (hm : MountedNat sbi s)
    {totalValidNodeCount nquotaFiles : Nat}
    (hfit : CountsFit sbi s totalValidNodeCount nquotaFiles)
    (havail : s.free.availableNids = initAvailableNids sbi totalValidNodeCount nquotaFiles) :
    Counted sbi s := by
  obtain ⟨a, hfree⟩ := hm.free
  have hiff : ∀ n, Allocatable sbi s n ↔ (persisted sbi s n).blockAddr = nullAddr := by
    intro n
    refine ⟨fun h => h.1.1, fun h => ⟨⟨h, by rw [hm.cache]; rfl⟩, ?_⟩⟩
    rw [hfree]
    exact nofun
  have hsplit := Finset.card_filter_add_card_filter_not (s := usableNids sbi)
    fun n => (persisted sbi s n).blockAddr = nullAddr
  have hcard : (usableNids sbi).card = maxNid sbi - 1 := by
    unfold usableNids
    rw [Nat.card_Ico]
  have hbound : ((usableNids sbi).filter fun n => ¬ (persisted sbi s n).blockAddr = nullAddr).card =
      totalValidNodeCount + nquotaFiles + 2 := hfit
  have hroom : totalValidNodeCount + nquotaFiles + 3 ≤ maxNid sbi := by omega
  have hsub : initAvailableNids sbi totalValidNodeCount nquotaFiles =
      maxNid sbi - totalValidNodeCount - nquotaFiles - 3 := by
    have hvalid : u32Sub (maxNid sbi) totalValidNodeCount = maxNid sbi - totalValidNodeCount :=
      u32Sub_of_le (by omega) hmax
    unfold initAvailableNids f2fsReservedNodeNum
    rw [hvalid, show u32Sub (maxNid sbi - totalValidNodeCount) nquotaFiles = _ from
      u32Sub_of_le (by omega) (by omega), u32Sub_of_le (by omega) (by omega)]
  have hset : allocatableNids sbi s =
      (usableNids sbi).filter fun n => (persisted sbi s n).blockAddr = nullAddr :=
    Finset.filter_congr fun n _ => hiff n
  unfold Counted
  rw [hset, havail, hsub]
  omega

/-- The mount itself leaves the count alone. -/
theorem built_counted (hm : MountedNat sbi s) (hc : Counted sbi s) (nextScanNid : Nat)
    (mem : Bool) : Counted sbi (buildNodeManager sbi s nextScanNid mem).nat := by
  have hloaded := hm.loaded
  have hview := loadFreeNidBitmap_view sbi s
  refine build_counted (m := ⟨{ s with free := loadFreeNidBitmap sbi s }, nextScanNid⟩)
    hloaded.toReadable hloaded.settled ?_ true true mem
  refine hc.congr (loadFreeNidBitmap_kept sbi s).1.avail fun n _ => ?_
  refine and_congr_right fun _ => not_congr ?_
  show ((loadFreeNidBitmap sbi s).view n).state = _ ↔ (s.free.view n).state = _
  rw [hview]
  dsimp only
  split_ifs <;> exact Iff.rfl

end

/-- From a sound image whose counts fit its NAT, through every run without the recovery of
    inodes, `available_nids` is the number of nids that can be allocated. -/
theorem availableNids_exact (sbi : SbInfo) (hmax : maxNid sbi < 2 ^ 32) (d : NatImage)
    (totalValidNodeCount nquotaFiles nextScanNid : Nat) (mem : Bool)
    (hm : MountedNat sbi
      (initNodeManager sbi d (initAvailableNids sbi totalValidNodeCount nquotaFiles)))
    (hfit : CountsFit sbi
      (initNodeManager sbi d (initAvailableNids sbi totalValidNodeCount nquotaFiles))
      totalValidNodeCount nquotaFiles)
    (ops : List NidOp) (hops : ∀ op ∈ ops, op.isRecovery = false) (m : NodeManager)
    (hrun : ops.foldlM (nidOp sbi) (buildNodeManager sbi
      (initNodeManager sbi d (initAvailableNids sbi totalValidNodeCount nquotaFiles))
      nextScanNid mem) = some m) :
    m.nat.free.availableNids = (allocatableNids sbi m.nat).card :=
  (nidRun_rule (P := fun m => Counted sbi m.nat)
    (fun _ _ h hc hmove => hmove.counted hmax h hc)
    (fun op hop hrec => absurd ((hops op hop).symm.trans hrec) (by decide))
    (hm.built nextScanNid mem)
    (built_counted hm (init_counted hmax hm hfit rfl) nextScanNid mem) hrun).2

/-! ## A small volume -/

/-- One NAT block. -/
def oneBlockSbi : SbInfo := { smallSbi with natBlocks := 1, natBlocks_lt := by decide }

/-- Only nids 4 and 5 are free. -/
def nearlyFullImage : NatImage where
  pack := .one
  ckpt := {}
  crc := 0
  natBitmap := fun _ => false
  journal := ⟨0, fun _ => (0, ⟨0, 0, nullAddr⟩)⟩
  pages := fun _ i => ⟨0, i, if i = 4 ∨ i = 5 then nullAddr else 7000⟩
  natBits := fun _ => ⟨1, fun _ => false, fun _ => false⟩

/-- The state `init_node_manager` sets up for it: 450 nodes in use, no quota files. -/
def nearlyFull : NatState :=
  initNodeManager oneBlockSbi nearlyFullImage (initAvailableNids oneBlockSbi 450 0)

theorem nearlyFull_mounted : MountedNat oneBlockSbi nearlyFull where
  cache := rfl
  free := ⟨_, rfl⟩
  distinct := by
    intro a b ha
    exact absurd ha (Nat.not_lt_zero a)
  le := Nat.zero_le _
  journal n hn := absurd (JournalArray.view_of_n_zero rfl n) hn
  bits h := by
    have hflag : nearlyFull.natBitsFlag = false := rfl
    rw [hflag] at h
    cases h

/-- Nid 4 is taken, bound, and freed before the next flush. -/
def freedEarly : List NidOp :=
  [.allocNid 1, .newNodePage 4 4, .allocNidDone 4, .truncateNode 4 false]

theorem nearlyFull_available : ∃ m, freedEarly.foldlM (nidOp oneBlockSbi)
      (buildNodeManager oneBlockSbi nearlyFull 4 true) = some m ∧
    m.nat.free.availableNids = (allocatableNids oneBlockSbi m.nat).card := by
  have hrun : (freedEarly.foldlM (nidOp oneBlockSbi)
      (buildNodeManager oneBlockSbi nearlyFull 4 true)).isSome = true := by decide +kernel
  obtain ⟨m, hm⟩ := Option.isSome_iff_exists.mp hrun
  refine ⟨m, hm, availableNids_exact oneBlockSbi (by decide) nearlyFullImage 450 0 4 true
    nearlyFull_mounted ?_ freedEarly (by decide) m hm⟩
  show (boundNids oneBlockSbi nearlyFull).card = 452
  decide +kernel

/-- The nids whose last flushed value is `NULL_ADDR` and that are neither handed out nor
    bound. -/
def unboundNids (sbi : SbInfo) (s : NatState) : Finset Nat :=
  (usableNids sbi).filter fun n => (persisted sbi s n).blockAddr = nullAddr ∧
    s.free.freeNidRoot.lookup n ≠ some .preallocNid ∧ (nodeInfo sbi s n).blockAddr = nullAddr

/-- The freed nid is unbound and was never flushed with an address, but it counts only from
    the next flush on. -/
theorem freedEarly_notCounted : ∃ m, freedEarly.foldlM (nidOp oneBlockSbi)
      (buildNodeManager oneBlockSbi nearlyFull 4 true) = some m ∧
    m.nat.free.availableNids ≠ (unboundNids oneBlockSbi m.nat).card := by
  have hrun : (freedEarly.foldlM (nidOp oneBlockSbi)
      (buildNodeManager oneBlockSbi nearlyFull 4 true)).any (fun m =>
        decide (m.nat.free.availableNids ≠ (unboundNids oneBlockSbi m.nat).card)) = true := by
    decide +kernel
  obtain ⟨m, hm, hne⟩ := (Option.any_eq_true _ _).mp hrun
  exact ⟨m, hm, of_decide_eq_true hne⟩

end F2fs.Node

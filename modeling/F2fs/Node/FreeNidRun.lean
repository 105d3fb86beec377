/-
  Interleavings of the users of the free nids: `alloc_nid` and its two ends, one builder,
  one flush and the shrinker, each locked section one step.

  What a section reads of the NAT (a block's entry, the NAT cache, the journal) is part of
  the step, so a run may find there whatever the NAT allows.  What the locks exclude is in
  the guards: `build_lock` for the builder and the shrinker, and `nat_tree_lock` between
  the builder, who reads under it, and the flush.  `nid_list_lock` is what makes a section
  one step, so `alloc_nid_failed` can come between two nids of a scan.

  That is where a count can go wrong.  `freeNids_exact` says that the list and the counters
  of the two states are always exact, that the counts of the blocks are as long as no scan
  clears a set bit (`ClearsNoSetBit`), and that the first such clear is the first wrong count.
-/
import F2fs.Node.NatBitsMount

namespace F2fs.Node

open FreeNidInfo

/-- Who holds `nat_tree_lock`. -/
inductive NatTreeLock where
  | unlocked | reader | writer
  deriving DecidableEq, Repr

/-- The shared state between two sections.  `held` are the nids that `alloc_nid` has handed
    out and whose caller has reported neither success nor failure; `scan` are the nids that
    the `scan_nat_page` under way has still to visit. -/
structure NidShared where
  free : FreeNidInfo
  held : Finset Nat
  building : Bool
  lock : NatTreeLock
  scan : List Nat

/-- One locked section. -/
inductive NidStep where
  /-- `alloc_nid` takes the head of the list. -/
  | alloc
  | allocDone (nid : Nat)
  | allocFailed (nid : Nat) (mem : Bool)
  | buildLock
  | buildUnlock
  /-- `down_read` and `up_read` of `nat_tree_lock` in `__build_free_nids` and
      `scan_free_nid_bits`. -/
  | downRead
  | upRead
  /-- `scan_nat_page` begins. -/
  | scanPage (startNid : Nat)
  /-- It visits the next nid: what the NAT cache has of it, and the address in the block. -/
  | scanEntry (ne : Option NatEntry) (addr : Nat)
  /-- `add_free_nid` of a bit or of a `NULL_ADDR` in the journal. -/
  | addFree (ne : Option NatEntry) (nid : Nat)
  /-- `remove_free_nid` of a nid in use in the journal. -/
  | removeFree (nid : Nat)
  | flushBegin
  | flushEntry (ne : NatEntry) (nid : Nat)
  | flushEnd
  | shrink (nrShrink : Nat)

/-- One step, where its guard holds. -/
def nidStep (sbi : SbInfo) (s : NidShared) : NidStep → Option NidShared
  | .alloc =>
    if s.free.availableNids ≠ 0 ∧ s.free.nidCnt .freeNid ≠ 0 ∧ s.building = false then
      s.free.freeNidList.head?.map fun nid =>
        { s with free := s.free.takeFreeNid nid, held := insert nid s.held }
    else none
  | .allocDone nid =>
    if nid ∈ s.held then
      some { s with free := s.free.allocNidDone nid, held := s.held.erase nid }
    else none
  | .allocFailed nid mem =>
    if nid ∈ s.held ∧ nid ≠ 0 then
      some { s with free := s.free.allocNidFailed nid mem, held := s.held.erase nid }
    else none
  | .buildLock => if s.building = false then some { s with building := true } else none
  | .buildUnlock =>
    if s.building = true ∧ s.lock ≠ .reader then some { s with building := false } else none
  | .downRead =>
    if s.building = true ∧ s.lock = .unlocked then some { s with lock := .reader } else none
  | .upRead =>
    if s.lock = .reader ∧ s.scan = [] then some { s with lock := .unlocked } else none
  | .scanPage startNid =>
    if s.lock = .reader ∧ s.scan = [] ∧
        s.free.natBlockBitmap (natBlockOffset startNid) = false then
      some { s with
        free := s.free.markBlock (natBlockOffset startNid)
        scan := scanNids sbi startNid }
    else none
  | .scanEntry ne addr =>
    match s.scan with
    | [] => none
    | nid :: rest => some { s with free := s.free.scanNid ne addr nid, scan := rest }
  | .addFree ne nid =>
    if s.lock = .reader ∧ s.scan = [] then
      some { s with free := (s.free.addFreeNid ne nid true false).2 }
    else none
  | .removeFree nid =>
    if s.lock = .reader ∧ s.scan = [] then some { s with free := s.free.removeFreeNid nid }
    else none
  | .flushBegin => if s.lock = .unlocked then some { s with lock := .writer } else none
  | .flushEntry ne nid =>
    if s.lock = .writer then some { s with free := flushFreeNid s.free ne nid } else none
  | .flushEnd => if s.lock = .writer then some { s with lock := .unlocked } else none
  | .shrink nrShrink =>
    if s.building = false then some { s with free := s.free.tryToFreeNids nrShrink } else none

/-- The state `build_node_manager` leaves. -/
def mountedNids (sbi : SbInfo) (m : NatState) (availableNids : Nat) : NidShared where
  free := loadFreeNidBitmap sbi { m with free := init availableNids }
  held := ∅
  building := false
  lock := .unlocked
  scan := []

/-- The states reached from a mount by steps that meet `ok`. -/
inductive Reached (sbi : SbInfo) (ok : NidShared → NidStep → Prop) : NidShared → Prop where
  | mount (m : NatState) (availableNids : Nat) : Reached sbi ok (mountedNids sbi m availableNids)
  | step {s s' : NidShared} {l : NidStep} : Reached sbi ok s → ok s l →
      nidStep sbi s l = some s' → Reached sbi ok s'

/-- No scan is about to clear a bit that is set: `alloc_nid_failed` has not set the bit of a
    nid ahead of the scan whose entry in the block is in use. -/
def ClearsNoSetBit (s : NidShared) : NidStep → Prop
  | .scanEntry ne addr => ∀ nid ∈ s.scan.head?, s.free.scanClears ne addr nid = true →
      s.free.freeNidBitmap (natBlockOffset nid) (nid % natEntryPerBlock) = false
  | _ => True

/-! ## The lists -/

/-- The list, the counters and what callers hold. -/
structure NidInv (s : NidShared) : Prop where
  list : ListBooks s.free
  held : s.free.preallocs = s.held

theorem NidInv.kept {s s' : NidShared} (h : NidInv s) (hk : Kept s.free s'.free)
    (hheld : s'.held = s.held) : NidInv s' :=
  ⟨hk.list, hk.preallocs.trans (h.held.trans hheld.symm)⟩

theorem NidInv.lookup {s : NidShared} (h : NidInv s) {nid : Nat} (hmem : nid ∈ s.held) :
    s.free.freeNidRoot.lookup nid = some .preallocNid := by
  rw [← h.held, mem_preallocs] at hmem
  exact hmem

/-- One step keeps them. -/
theorem nidStep_inv {sbi : SbInfo} {s s' : NidShared} {l : NidStep} (h : NidInv s)
    (hstep : nidStep sbi s l = some s') : NidInv s' := by
  have hrefl : Kept s.free s.free := ⟨h.list, rfl⟩
  cases l with
  | alloc =>
      simp only [nidStep] at hstep
      split_ifs at hstep
      obtain ⟨nid, hhead, rfl⟩ := Option.map_eq_some_iff.mp hstep
      obtain ⟨hlist, hpre⟩ := takeFreeNid_books h.list
        ((h.list.mem nid).mp (List.mem_of_head? hhead))
      exact ⟨hlist, by rw [hpre, h.held]⟩
  | allocDone nid =>
      simp only [nidStep] at hstep
      split_ifs at hstep with hmem
      cases hstep
      obtain ⟨hlist, hpre⟩ := allocNidDone_books h.list (h.lookup hmem)
      exact ⟨hlist, by rw [hpre, h.held]⟩
  | allocFailed nid mem =>
      simp only [nidStep] at hstep
      split_ifs at hstep with hmem
      cases hstep
      obtain ⟨hlist, hpre⟩ := allocNidFailed_books h.list (h.lookup hmem.1) hmem.2 mem
      exact ⟨hlist, by rw [hpre, h.held]⟩
  | scanPage startNid =>
      simp only [nidStep] at hstep
      split_ifs at hstep
      cases hstep
      exact ⟨h.list.congr rfl rfl rfl, h.held⟩
  | scanEntry ne addr =>
      simp only [nidStep] at hstep
      split at hstep
      · cases hstep
      · cases hstep
        exact h.kept (scanNid_kept h.list ne addr _) rfl
  | addFree ne nid =>
      simp only [nidStep] at hstep
      split_ifs at hstep
      cases hstep
      exact h.kept (addFree_kept h.list ne nid) rfl
  | removeFree nid =>
      simp only [nidStep] at hstep
      split_ifs at hstep
      cases hstep
      exact h.kept (removeFreeNid_kept h.list nid) rfl
  | flushEntry ne nid =>
      simp only [nidStep] at hstep
      split_ifs at hstep
      cases hstep
      exact h.kept (flushFreeNid_kept h.list ne nid) rfl
  | shrink nrShrink =>
      simp only [nidStep] at hstep
      split_ifs at hstep
      cases hstep
      refine h.kept ?_ rfl
      unfold tryToFreeNids
      split_ifs
      · exact hrefl
      · exact shrinkFreeNids_kept nrShrink h.list
  | buildLock | buildUnlock | downRead | upRead | flushBegin | flushEnd =>
      simp only [nidStep] at hstep
      split_ifs at hstep
      cases hstep
      exact h.kept hrefl rfl

/-! ## The counts -/

/-- One step keeps the counts, or it is a scan that clears a set bit. -/
theorem nidStep_bits {sbi : SbInfo} {s s' : NidShared} {l : NidStep} (h : BitBooks s.free)
    (hstep : nidStep sbi s l = some s') (hok : ClearsNoSetBit s l) : BitBooks s'.free := by
  cases l with
  | alloc =>
      simp only [nidStep] at hstep
      split_ifs at hstep
      obtain ⟨nid, -, rfl⟩ := Option.map_eq_some_iff.mp hstep
      exact takeFreeNid_bits h nid
  | allocDone nid =>
      simp only [nidStep] at hstep
      split_ifs at hstep
      cases hstep
      exact allocNidDone_bits h nid
  | allocFailed nid mem =>
      simp only [nidStep] at hstep
      split_ifs at hstep
      cases hstep
      exact allocNidFailed_bits h nid mem
  | scanPage startNid =>
      simp only [nidStep] at hstep
      split_ifs at hstep
      cases hstep
      exact h.markBlock _
  | scanEntry ne addr =>
      simp only [nidStep] at hstep
      split at hstep
      · cases hstep
      · rename_i nid rest hscan
        cases hstep
        exact scanNid_bits h (hok nid (by rw [hscan]; rfl))
  | addFree ne nid =>
      simp only [nidStep] at hstep
      split_ifs at hstep
      cases hstep
      exact addFree_bits h ne nid
  | removeFree nid =>
      simp only [nidStep] at hstep
      split_ifs at hstep
      cases hstep
      exact removeFreeNid_bits h nid
  | flushEntry ne nid =>
      simp only [nidStep] at hstep
      split_ifs at hstep
      cases hstep
      exact flushFreeNid_bits h ne nid
  | shrink nrShrink =>
      simp only [nidStep] at hstep
      split_ifs at hstep
      cases hstep
      show BitBooks (s.free.tryToFreeNids nrShrink)
      unfold tryToFreeNids
      split_ifs
      · exact h
      · exact shrinkFreeNids_bits nrShrink h
  | buildLock | buildUnlock | downRead | upRead | flushBegin | flushEnd =>
      simp only [nidStep] at hstep
      split_ifs at hstep
      cases hstep
      exact h

/-- A step that does not meet the condition leaves a count one too high. -/
theorem nidStep_overcounts {sbi : SbInfo} {s s' : NidShared} {l : NidStep}
    (h : BitBooks s.free) (hstep : nidStep sbi s l = some s') (hbad : ¬ClearsNoSetBit s l) :
    ∃ b, s'.free.natBlockBitmap b = true ∧
      s'.free.freeNidCount b = (s'.free.bitSet b).card + 1 := by
  cases l with
  | scanEntry ne addr =>
      simp only [ClearsNoSetBit, not_forall, Bool.not_eq_false] at hbad
      obtain ⟨nid, hhead, hclears, hbit⟩ := hbad
      obtain ⟨rest, hscan⟩ : ∃ rest, s.scan = nid :: rest := List.head?_eq_some_iff.mp hhead
      simp only [nidStep, hscan] at hstep
      cases hstep
      refine ⟨natBlockOffset nid, ?_, ?_⟩
      · dsimp only
        rw [scanNid_of_clears hclears, updateFreeNidBitmap_marks]
        exact h.marked hbit
      · dsimp only
        rw [scanNid_of_clears hclears]
        exact count_clear_build h hbit
  | _ => exact absurd trivial hbad

/-! ## Runs -/

/-- Loading the bits sets bits and marks, and nothing else. -/
theorem loadFreeNidBitmap_books (sbi : SbInfo) (s : NatState) {availableNids : Nat}
    (hfree : s.free = init availableNids) :
    ListBooks (loadFreeNidBitmap sbi s) ∧ (loadFreeNidBitmap sbi s).preallocs = ∅ ∧
      BitBooks (loadFreeNidBitmap sbi s) := by
  obtain ⟨P, hP⟩ : ∃ P : FreeNidInfo → Prop,
      P = fun f => Kept (init availableNids) f ∧ BitBooks f := ⟨_, rfl⟩
  have hmark : ∀ f, P f → ∀ b, P (f.markBlock b) := by
    rw [hP]
    exact fun f h b => ⟨⟨h.1.list.congr rfl rfl rfl, h.1.preallocs⟩, h.2.markBlock b⟩
  have hset : ∀ f, P f → ∀ nid, P (f.updateFreeNidBitmap nid true true) := by
    rw [hP]
    exact fun f h nid => ⟨h.1.bitmap nid true true, h.2.setBit nid true⟩
  have hinit : P (init availableNids) := by
    rw [hP]
    exact ⟨⟨listBooks_init availableNids, rfl⟩, bitBooks_init availableNids⟩
  have hload : P (loadFreeNidBitmap sbi s) := by
    unfold loadFreeNidBitmap
    rw [hfree]
    split_ifs
    · exact hinit
    · refine List.foldlRecOn _ _ (List.foldlRecOn _ _ hinit fun f hf b _ => ?_)
        fun f hf b _ => hmark f hf b
      exact List.foldlRecOn _ _ (hmark f hf b) fun f hf nid _ => hset f hf nid
  rw [hP] at hload
  exact ⟨hload.1.list, hload.1.preallocs, hload.2⟩

theorem mountedNids_inv (sbi : SbInfo) (m : NatState) (availableNids : Nat) :
    NidInv (mountedNids sbi m availableNids) ∧
      BitBooks (mountedNids sbi m availableNids).free := by
  obtain ⟨hlist, hpre, hbits⟩ := loadFreeNidBitmap_books sbi
    { m with free := init availableNids } rfl
  exact ⟨⟨hlist, hpre⟩, hbits⟩

theorem Reached.inv {sbi : SbInfo} {ok : NidShared → NidStep → Prop} {s : NidShared}
    (h : Reached sbi ok s) : NidInv s := by
  induction h with
  | mount m availableNids => exact (mountedNids_inv sbi m availableNids).1
  | step _ _ hstep ih => exact nidStep_inv ih hstep

theorem Reached.bits {sbi : SbInfo} {s : NidShared} (h : Reached sbi ClearsNoSetBit s) :
    BitBooks s.free := by
  induction h with
  | mount m availableNids => exact (mountedNids_inv sbi m availableNids).2
  | step _ hok hstep ih => exact nidStep_bits ih hstep hok

/-- In every interleaving the counters of the two states are exact; in one whose scans clear
    no set bit the count of every marked block is too; and the first scan that does leaves a
    wrong count. -/
theorem freeNids_exact (sbi : SbInfo) :
    (∀ s, Reached sbi (fun _ _ => True) s →
      s.free.nidCnt .freeNid = s.free.freeNidList.length ∧
        s.free.nidCnt .preallocNid = s.free.preallocs.card) ∧
      (∀ s, Reached sbi ClearsNoSetBit s → ∀ b, s.free.natBlockBitmap b = true →
        s.free.freeNidCount b = (s.free.bitSet b).card) ∧
      ∀ s s' l, Reached sbi ClearsNoSetBit s → nidStep sbi s l = some s' →
        ¬ClearsNoSetBit s l → ∃ b, s'.free.natBlockBitmap b = true ∧
          s'.free.freeNidCount b ≠ (s'.free.bitSet b).card := by
  refine ⟨fun s h => ⟨h.inv.list.free, h.inv.list.prealloc⟩, fun s h b _ => h.bits.count b, ?_⟩
  intro s s' l h hstep hbad
  obtain ⟨b, hmark, hcount⟩ := nidStep_overcounts h.bits hstep hbad
  exact ⟨b, hmark, by omega⟩

/-! ## The run that overcounts -/

/-- A run of steps. -/
theorem Reached.run {sbi : SbInfo} {ls : List NidStep} : ∀ {s s' : NidShared},
    Reached sbi (fun _ _ => True) s → ls.foldlM (nidStep sbi) s = some s' →
      Reached sbi (fun _ _ => True) s' := by
  induction ls with
  | nil =>
      intro s s' h hrun
      cases hrun
      exact h
  | cons l ls ih =>
      intro s s' h hrun
      rw [List.foldlM_cons, Option.bind_eq_bind, Option.bind_eq_some_iff] at hrun
      obtain ⟨s₁, hstep, hrest⟩ := hrun
      exact ih (h.step trivial hstep) hrest

/-- Node 455 was freed, and its NULL address went to the journal: the block still has 7000.
    While its nid is handed out a builder starts on block 1, and the caller gives the nid
    back before the scan comes to it. -/
def givenBackAhead : List NidStep :=
  [.flushBegin, .flushEntry { nid := 455, blkAddr := nullAddr } 455, .flushEnd, .alloc,
    .buildLock, .downRead, .scanPage 455, .allocFailed 455 true,
    .scanEntry (some { nid := 455, blkAddr := nullAddr, isCheckpointed := true }) 7000]

/-- The scan clears the bit and leaves the count: 1 for no bit. -/
theorem freeNidCount_overcounts : ∃ s, Reached smallSbi (fun _ _ => True) s ∧
    s.free.natBlockBitmap 1 = true ∧ s.free.freeNidCount 1 = 1 ∧ (s.free.bitSet 1).card = 0 := by
  have hrun : (givenBackAhead.foldlM (nidStep smallSbi)
      (mountedNids smallSbi { emptyNat with natBitsFlag := false } 1000)).any (fun s =>
        s.free.natBlockBitmap 1 && s.free.freeNidCount 1 == 1 &&
          (s.free.bitSet 1).card == 0) = true := by
    decide +kernel
  obtain ⟨s, hs, hbad⟩ := (Option.any_eq_true _ _).mp hrun
  simp only [Bool.and_eq_true, beq_iff_eq] at hbad
  exact ⟨s, (Reached.mount _ _).run hs, hbad.1.1, hbad.1.2, hbad.2⟩

end F2fs.Node

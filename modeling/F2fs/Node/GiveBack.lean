/-
  A nid that is taken and given back.

  `alloc_nid` may have to scan for free nids first, and `alloc_nid_failed` leaves the nid out
  of the list when memory is short.  What can be allocated is the same afterwards, and so is
  what is handed out: `PoolKept`.
-/
import F2fs.Node.AvailableNids

namespace F2fs.Node

open FreeNidInfo F2fs.Checkpoint

/-! ## The counter in its word -/

section

variable {sbi : SbInfo} {recovery : Bool} {m m' : NodeManager}

theorem flushNids_avail_lt (addr : Nat → Nat) : ∀ (L : List Nat) {f : FreeNidInfo},
    f.availableNids < 2 ^ 32 →
      (L.foldl (fun f n => flushNid f (addr n) n) f).availableNids < 2 ^ 32
  | [], _, h => h
  | n :: L, f, h => by
      rw [List.foldl_cons]
      refine flushNids_avail_lt addr L ?_
      rw [flushNid_avail]
      split_ifs
      · exact Nat.mod_lt _ (by decide)
      · exact h

/-- One move keeps `available_nids` in its word. -/
theorem NidMove.avail_lt (h : NidsInv sbi m.nat) (hlt : m.nat.free.availableNids < 2 ^ 32)
    (hm : NidMove sbi recovery m m') : m'.nat.free.availableNids < 2 ^ 32 := by
  cases hm with
  | read nid nomem =>
      obtain ⟨-, hfree, -⟩ := h.getNodeInfo nid nomem
      exact lt_of_eq_of_lt (congrArg FreeNidInfo.availableNids hfree) hlt
  | write => exact hlt
  | recover ni => exact lt_of_eq_of_lt (removeFreeNid_sameBooks m.nat.free ni.nid).avail hlt
  | dropClean => exact hlt
  | take nid he =>
      show (m.nat.free.takeFreeNid nid).availableNids < 2 ^ 32
      rw [takeFreeNid_avail]
      exact Nat.mod_lt _ (by decide)
  | done nid he =>
      exact lt_of_eq_of_lt (allocNidDone_avail he) hlt
  | failed nid mem he =>
      show (m.nat.free.allocNidFailed nid mem).availableNids < 2 ^ 32
      rw [allocNidFailed_avail (mem_usableNids.mp (h.prealloc nid he).1).1 mem he]
      exact u32_lt _
  | build sync mem =>
      obtain ⟨f, next, hbuild, hf⟩ := buildFreeNids_settled h.toReadable h.settled sync false mem
      rw [hbuild]
      exact lt_of_eq_of_lt hf.books.avail hlt
  | dropFree nrShrink =>
      show (m.nat.free.tryToFreeNids nrShrink).availableNids < 2 ^ 32
      unfold FreeNidInfo.tryToFreeNids
      split_ifs
      · exact hlt
      · exact lt_of_eq_of_lt (shrinkFreeNids_avail nrShrink _) hlt
  | flush drained L s hf =>
      show s.free.availableNids < 2 ^ 32
      rw [hf.free]
      refine flushNids_avail_lt _ L ?_
      show (if drained then _ else _) < 2 ^ 32
      split_ifs
      · exact (countOff_add hlt _).1
      · exact hlt

/-- From a sound image, through every run. -/
theorem nidRun_avail_lt {d : NatImage} {totalValidNodeCount nquotaFiles nextScanNid : Nat}
    {mem : Bool} (hm : MountedNat sbi
      (initNodeManager sbi d (initAvailableNids sbi totalValidNodeCount nquotaFiles)))
    {ops : List NidOp} (hrun : ops.foldlM (nidOp sbi) (buildNodeManager sbi
      (initNodeManager sbi d (initAvailableNids sbi totalValidNodeCount nquotaFiles))
      nextScanNid mem) = some m) :
    NidsInv sbi m.nat ∧ m.nat.free.availableNids < 2 ^ 32 := by
  have hloaded := hm.loaded
  obtain ⟨f, next, hbuild, hf⟩ := buildFreeNids_settled
    (m := ⟨{ initNodeManager sbi d (initAvailableNids sbi totalValidNodeCount nquotaFiles) with
      free := loadFreeNidBitmap sbi _ }, nextScanNid⟩)
    hloaded.toReadable hloaded.settled true true mem
  refine nidRun_rule (P := fun m => m.nat.free.availableNids < 2 ^ 32)
    (fun _ _ h hlt hmove => hmove.avail_lt h hlt) (fun _ _ _ => (rfl : true = true))
    (hm.built nextScanNid mem) ?_ hrun
  show (buildFreeNids sbi true true mem _).nat.free.availableNids < 2 ^ 32
  rw [hbuild]
  refine lt_of_eq_of_lt (hf.books.avail.trans (loadFreeNidBitmap_kept sbi _).1.avail) ?_
  exact Nat.mod_lt _ (by decide)

end

/-! ## Taken and given back -/

/-- What is left of the free nids by a caller that gives its nid back: the list alone may
    differ. -/
structure PoolKept (sbi : SbInfo) (mem : Bool) (m m' : NodeManager) : Prop where
  nat : { m'.nat with free := m.nat.free } = m.nat
  avail : m'.nat.free.availableNids = m.nat.free.availableNids
  prealloc : ∀ n, Prealloc m' n ↔ Prealloc m n
  allocatable : allocatableNids sbi m'.nat = allocatableNids sbi m.nat
  /-- without memory one nid may leave the list -/
  listed : ∃ nid, ∀ n ∈ m.nat.free.freeNidList,
    n ∈ m'.nat.free.freeNidList ∨ mem = false ∧ n = nid
  /-- a scan adds nids to an empty list only -/
  scanned : m.nat.free.freeNidList ≠ [] →
    ∀ n ∈ m'.nat.free.freeNidList, n ∈ m.nat.free.freeNidList

theorem PoolKept.refl (sbi : SbInfo) (mem : Bool) (m : NodeManager) : PoolKept sbi mem m m where
  nat := rfl
  avail := rfl
  prealloc _ := Iff.rfl
  allocatable := rfl
  listed := ⟨0, fun _ hn => Or.inl hn⟩
  scanned _ _ hn := hn

/-- The free nids when `alloc_nid` has found some: as they were, or after a scan. -/
structure Searched (sbi : SbInfo) (m : NodeManager) (f : FreeNidInfo) : Prop where
  inv : NidsInv sbi { m.nat with free := f }
  avail : f.availableNids = m.nat.free.availableNids
  prealloc : ∀ n, (f.view n).state = some .preallocNid ↔
    (m.nat.free.view n).state = some .preallocNid
  same : m.nat.free.freeNidList ≠ [] → f = m.nat.free

section

variable {sbi : SbInfo} {m : NodeManager} {f : FreeNidInfo}

theorem Searched.refl (h : NidsInv sbi m.nat) : Searched sbi m m.nat.free where
  inv := h
  avail := rfl
  prealloc _ := Iff.rfl
  same _ := rfl

/-- The states `alloc_nid` can leave behind. -/
theorem allocNid_cases : ∀ (fuel : Nat) {m m' : NodeManager} {r : Option Nat},
    NidsInv sbi m.nat → allocNid sbi fuel m = some (r, m') →
    ∃ f next, Searched sbi m f ∧
      (r = none ∧ m' = ⟨{ m.nat with free := f }, next⟩ ∨
        ∃ nid, r = some nid ∧ (f.view nid).state = some .freeNid ∧ f.availableNids ≠ 0 ∧
          m' = ⟨{ m.nat with free := f.takeFreeNid nid }, next⟩)
  | 0, _, _, _, _, hrun => nomatch hrun
  | fuel + 1, m, m', r, h, hrun => by
      unfold allocNid at hrun
      dsimp only at hrun
      split_ifs at hrun with hzero hcnt
      · cases hrun
        exact ⟨m.nat.free, m.nextScanNid, .refl h, Or.inl ⟨rfl, rfl⟩⟩
      · cases hlist : m.nat.free.freeNidList with
        | nil =>
            rw [hlist] at hrun
            cases hrun
        | cons nid rest =>
            rw [hlist] at hrun
            cases hrun
            have he : (m.nat.free.view nid).state = some .freeNid :=
              (h.list.mem nid).mp (by rw [hlist]; exact List.mem_cons_self)
            exact ⟨m.nat.free, m.nextScanNid, .refl h, Or.inr ⟨nid, rfl, he, hzero, rfl⟩⟩
      · -- the list is empty: whatever the scan lists is new
        have hnil : m.nat.free.freeNidList = [] :=
          List.length_eq_zero_iff.mp (h.list.free.symm.trans (not_not.mp hcnt))
        obtain ⟨f₁, next₁, hbuild, hf₁⟩ :=
          buildFreeNids_settled h.toReadable h.settled true false true
        rw [hbuild] at hrun
        have h₁ : NidsInv sbi (⟨{ m.nat with free := f₁ }, next₁⟩ : NodeManager).nat :=
          h.ofSettled hf₁
        obtain ⟨f, next, hs, hend⟩ := allocNid_cases fuel h₁ hrun
        refine ⟨f, next, ⟨hs.inv, hs.avail.trans hf₁.books.avail, fun n => ?_, fun hne => ?_⟩, hend⟩
        · exact (hs.prealloc n).trans (hf₁.prealloc n)
        · exact absurd hnil hne

theorem Searched.allocatable (h : Searched sbi m f) {f' : FreeNidInfo}
    (hpre : ∀ n, f'.freeNidRoot.lookup n = some .preallocNid ↔
      (f.view n).state = some .preallocNid) :
    allocatableNids sbi { m.nat with free := f' } = allocatableNids sbi m.nat :=
  allocatableNids_congr fun n _ =>
    and_congr_right fun _ => not_congr ((hpre n).trans (h.prealloc n))

/-- `alloc_nid` that found nothing. -/
theorem Searched.none_kept (h : Searched sbi m f) (mem : Bool) (next : Nat) :
    PoolKept sbi mem m ⟨{ m.nat with free := f }, next⟩ where
  nat := rfl
  avail := h.avail
  prealloc := h.prealloc
  allocatable := h.allocatable fun _ => Iff.rfl
  listed := by
    refine ⟨0, fun n hn => Or.inl ?_⟩
    show n ∈ f.freeNidList
    rwa [h.same (List.ne_nil_of_mem hn)]
  scanned hne n hn := by
    rwa [← h.same hne]

/-- `alloc_nid_failed` after `alloc_nid`. -/
theorem Searched.back_kept (h : Searched sbi m f) {nid : Nat} (mem : Bool) (next : Nat)
    (he : (f.view nid).state = some .freeNid) (havail : f.availableNids ≠ 0)
    (hlt : m.nat.free.availableNids < 2 ^ 32) :
    PoolKept sbi mem m ((⟨{ m.nat with free := f.takeFreeNid nid }, next⟩ : NodeManager).withFree
      ((f.takeFreeNid nid).allocNidFailed nid mem)) := by
  have h0 := (mem_usableNids.mp (h.inv.free nid he).1).1
  have htaken : ((f.takeFreeNid nid).view nid).state = some .preallocNid := by
    rw [takeFreeNid_view f nid he, if_pos rfl]
    rfl
  have hview : ∀ n, (((f.takeFreeNid nid).allocNidFailed nid mem).view n).state =
      if n = nid then if mem then some .freeNid else none else (f.view n).state := by
    intro n
    rw [allocNidFailed_view _ h0 mem n htaken]
    split_ifs with hn
    · rfl
    · rfl
    · rw [takeFreeNid_view f n he, if_neg hn]
  have hbooks := (allocNidFailed_books (takeFreeNid_books h.inv.list he).1 htaken h0 mem).1
  have hpre : ∀ n, (((f.takeFreeNid nid).allocNidFailed nid mem).view n).state =
      some .preallocNid ↔ (f.view n).state = some .preallocNid := by
    intro n
    rw [hview]
    by_cases hn : n = nid
    · rw [if_pos hn, hn, he]
      cases mem <;> exact iff_of_false nofun nofun
    · rw [if_neg hn]
  refine ⟨rfl, ?_, fun n => (hpre n).trans (h.prealloc n), h.allocatable hpre,
    ⟨nid, fun n hn => ?_⟩, fun hne n hn => ?_⟩
  · show ((f.takeFreeNid nid).allocNidFailed nid mem).availableNids = _
    rw [allocNidFailed_avail h0 mem htaken, takeFreeNid_avail]
    rw [h.avail] at havail ⊢
    rw [u32Sub_of_le (by omega) hlt, Nat.sub_add_cancel (by omega), u32_of_lt hlt]
  · have hin : (f.view n).state = some .freeNid :=
      (h.inv.list.mem n).mp (by
        show n ∈ f.freeNidList
        rwa [h.same (List.ne_nil_of_mem hn)])
    by_cases hn' : n = nid
    · cases mem with
      | true => exact Or.inl ((hbooks.mem n).mpr ((hview n).trans (by rw [if_pos hn', if_pos rfl])))
      | false => exact Or.inr ⟨rfl, hn'⟩
    · exact Or.inl ((hbooks.mem n).mpr ((hview n).trans (by rw [if_neg hn', hin])))
  · have hin := (hview n).symm.trans ((hbooks.mem n).mp hn)
    rw [← h.same hne]
    refine (h.inv.list.mem n).mpr ?_
    by_cases hn' : n = nid
    · exact hn' ▸ he
    · rw [if_neg hn'] at hin
      exact hin

end

end F2fs.Node

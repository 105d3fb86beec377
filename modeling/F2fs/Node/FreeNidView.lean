/-
  What the free nids say about one nid: its state in the tree, its bit in the bitmap of its
  block, and whether that block is marked as scanned.

  Every operation under `nid_list_lock` is a function of this view at the nids it works on
  and leaves the view of the others alone; a fold over distinct nids is then known nid by
  nid (`flushNids_view`, `scanNatPage_view`).
-/
import F2fs.Lib.FoldView
import F2fs.Node.FreeNidBooks
import F2fs.Node.NatFlushFree

namespace F2fs.Node

/-! ## Views -/

/-- The state, the bit and the mark of one nid. -/
structure NidView where
  state : Option NidState
  bit : Bool
  marked : Bool
  deriving DecidableEq, Repr

namespace NidView

/-- `__insert_free_nid`. -/
def insert (v : NidView) : NidView := { v with state := some (v.state.getD .freeNid) }

/-- `update_free_nid_bitmap`: nothing happens in a block that is not marked. -/
def setBit (v : NidView) (set : Bool) : NidView :=
  { v with bit := if v.marked then set else v.bit }

/-- `add_free_nid` from a scan, without the bit. -/
def offer (v : NidView) (busy : Bool) : NidView :=
  if busy || decide (v.state = some .preallocNid) then v else v.insert

/-- `remove_free_nid`. -/
def unlist (v : NidView) : NidView :=
  if v.state = some .freeNid then { v with state := none } else v

/-- One nid of `scan_nat_page`. -/
def scan (v : NidView) (busy : Bool) (addr : Nat) : NidView :=
  if addr = nullAddr then
    (v.offer busy).setBit !(busy || decide (v.state = some .preallocNid))
  else v.setBit false

/-- One nid of a flush. -/
def flush (v : NidView) (addr : Nat) : NidView :=
  if addr = nullAddr then v.insert.setBit true else v.setBit false

end NidView

namespace FreeNidInfo

/-- What the free nids say about `nid`. -/
def view (f : FreeNidInfo) (nid : Nat) : NidView where
  state := f.freeNidRoot.lookup nid
  bit := f.freeNidBitmap (natBlockOffset nid) (nid % natEntryPerBlock)
  marked := f.natBlockBitmap (natBlockOffset nid)

@[simp] theorem view_avail (f : FreeNidInfo) (a n : Nat) :
    ({ f with availableNids := a } : FreeNidInfo).view n = f.view n := rfl

section

variable {f : FreeNidInfo} {nid : Nat}

theorem insertFreeNid_view (f : FreeNidInfo) (nid n : Nat) :
    (f.insertFreeNid nid).view n = if n = nid then (f.view nid).insert else f.view n := by
  obtain ⟨hmarks, hbits, -⟩ := insertFreeNid_bits f nid
  unfold view
  rw [insertFreeNid_lookup, hmarks, hbits]
  split_ifs with hn
  · rw [hn]
    rfl
  · rfl

theorem same_nid {n nid : Nat} : n = nid ↔
    natBlockOffset n = natBlockOffset nid ∧ n % natEntryPerBlock = nid % natEntryPerBlock := by
  unfold natBlockOffset natEntryPerBlock
  omega

/-- One bit of the bitmap changed. -/
theorem update_bit (g : Nat → Nat → Bool) (nid n : Nat) (v : Bool) :
    Function.update g (natBlockOffset nid)
        (Function.update (g (natBlockOffset nid)) (nid % natEntryPerBlock) v)
        (natBlockOffset n) (n % natEntryPerBlock) =
      if n = nid then v else g (natBlockOffset n) (n % natEntryPerBlock) := by
  by_cases hb : natBlockOffset n = natBlockOffset nid
  · rw [hb, Function.update_self]
    by_cases hi : n % natEntryPerBlock = nid % natEntryPerBlock
    · rw [hi, Function.update_self, if_pos (same_nid.mpr ⟨hb, hi⟩)]
    · rw [Function.update_of_ne hi, if_neg fun hn => hi (same_nid.mp hn).2]
  · rw [Function.update_of_ne hb, if_neg fun hn => hb (same_nid.mp hn).1]

theorem updateFreeNidBitmap_view (f : FreeNidInfo) (nid : Nat) (set build : Bool) (n : Nat) :
    (f.updateFreeNidBitmap nid set build).view n =
      if n = nid then (f.view nid).setBit set else f.view n := by
  have hbit : (f.updateFreeNidBitmap nid set build).freeNidBitmap (natBlockOffset n)
      (n % natEntryPerBlock) = if n = nid then ((f.view nid).setBit set).bit
        else f.freeNidBitmap (natBlockOffset n) (n % natEntryPerBlock) := by
    have hcases : (f.updateFreeNidBitmap nid set build).freeNidBitmap =
        if f.natBlockBitmap (natBlockOffset nid) then
          Function.update f.freeNidBitmap (natBlockOffset nid)
            (Function.update (f.freeNidBitmap (natBlockOffset nid)) (nid % natEntryPerBlock) set)
        else f.freeNidBitmap := by
      unfold updateFreeNidBitmap
      cases hmark : f.natBlockBitmap (natBlockOffset nid) with
      | false => simp [hmark]
      | true =>
          -- setting a set bit and clearing a clear one leave the bitmap as it is
          have hself : f.freeNidBitmap (natBlockOffset nid) (nid % natEntryPerBlock) = set →
              Function.update f.freeNidBitmap (natBlockOffset nid)
                (Function.update (f.freeNidBitmap (natBlockOffset nid)) (nid % natEntryPerBlock)
                  set) = f.freeNidBitmap := by
            rintro rfl
            rw [Function.update_eq_self, Function.update_eq_self]
          cases hbit : f.freeNidBitmap (natBlockOffset nid) (nid % natEntryPerBlock) <;>
            cases set <;> simp only [hmark, hbit, Bool.not_true, Bool.not_false,
              Bool.false_eq_true, if_true, if_false]
          · rw [hself hbit]
          · rw [hself hbit]
    rw [hcases]
    unfold view NidView.setBit
    dsimp only
    split_ifs with hmark hn hn
    · rw [update_bit, if_pos hn]
    · rw [update_bit, if_neg hn]
    · rw [hn]
    · rfl
  unfold view
  rw [updateFreeNidBitmap_root, updateFreeNidBitmap_marks, hbit]
  split_ifs with hn
  · rw [hn]
    rfl
  · rfl

/-- An operation on one nid. -/
theorem view_only {f' : FreeNidInfo} {w : NidView} (hself : f'.view nid = w)
    (hother : ∀ n, n ≠ nid → f'.view n = f.view n) (n : Nat) :
    f'.view n = if n = nid then w else f.view n := by
  split_ifs with hn
  · rw [hn, hself]
  · exact hother n hn

theorem insertFreeNid_self (f : FreeNidInfo) (nid : Nat) :
    (f.insertFreeNid nid).view nid = (f.view nid).insert := by
  rw [insertFreeNid_view, if_pos rfl]

theorem insertFreeNid_other {n : Nat} (hn : n ≠ nid) :
    (f.insertFreeNid nid).view n = f.view n := by
  rw [insertFreeNid_view, if_neg hn]

theorem offer_self (f : FreeNidInfo) (ne : Option NatEntry) (nid : Nat) :
    (if f.turnsDown ne nid then f else f.insertFreeNid nid).view nid =
      (f.view nid).offer (natBusy ne) := by
  unfold NidView.offer turnsDown
  show _ = if (natBusy ne || decide (f.freeNidRoot.lookup nid = some .preallocNid)) = true then
    f.view nid else (f.view nid).insert
  split_ifs
  · rfl
  · exact insertFreeNid_self f nid

theorem offer_other (ne : Option NatEntry) {n : Nat} (hn : n ≠ nid) :
    (if f.turnsDown ne nid then f else f.insertFreeNid nid).view n = f.view n := by
  split_ifs
  · rfl
  · exact insertFreeNid_other hn

/-- `add_free_nid` from a scan, where it does not touch the bitmap. -/
theorem addFree_view (f : FreeNidInfo) (ne : Option NatEntry) (nid n : Nat) :
    (f.addFreeNid ne nid true false).2.view n =
      if n = nid then if nid = 0 then f.view nid else (f.view nid).offer (natBusy ne)
      else f.view n := by
  by_cases hnid : nid = 0
  · rw [hnid, addFreeNid_zero, if_pos rfl]
    exact view_only rfl (fun _ _ => rfl) n
  · rw [addFreeNid_build ne hnid, if_neg hnid]
    exact view_only (offer_self f ne nid) (fun m hm => offer_other ne hm) n

/-- One nid of `scan_nat_page`. -/
theorem scanNid_view (f : FreeNidInfo) (ne : Option NatEntry) (addr nid n : Nat) :
    (f.scanNid ne addr nid).view n =
      if n = nid then
        if nid = 0 ∧ addr = nullAddr then f.view nid else (f.view nid).scan (natBusy ne) addr
      else f.view n := by
  unfold scanNid NidView.scan
  by_cases haddr : addr = nullAddr
  · rw [if_pos haddr, if_pos haddr]
    by_cases hnid : nid = 0
    · rw [hnid, addFreeNid_zero, if_pos (⟨rfl, haddr⟩ : 0 = 0 ∧ addr = nullAddr)]
      exact view_only rfl (fun _ _ => rfl) n
    · rw [addFreeNid_build ne hnid, if_neg fun h : nid = 0 ∧ addr = nullAddr => hnid h.1]
      refine view_only ?_ (fun m hm => ?_) n
      · show ((if f.turnsDown ne nid then f else f.insertFreeNid nid).updateFreeNidBitmap nid
          (!f.turnsDown ne nid) true).view nid = _
        rw [updateFreeNidBitmap_view, if_pos rfl, offer_self]
        rfl
      · show ((if f.turnsDown ne nid then f else f.insertFreeNid nid).updateFreeNidBitmap nid
          (!f.turnsDown ne nid) true).view m = _
        rw [updateFreeNidBitmap_view, if_neg hm, offer_other ne hm]
  · rw [if_neg haddr, if_neg haddr, updateFreeNidBitmap_view]
    simp only [haddr, and_false, if_false]

theorem removeEntry_view (f : FreeNidInfo) (nid : Nat) (state : NidState) (n : Nat) :
    (f.removeFreeNidEntry nid state).view n =
      if n = nid then { f.view nid with state := none } else f.view n := by
  refine view_only ?_ (fun m hm => ?_) n
  · unfold view removeFreeNidEntry
    dsimp only
    rw [RadixTree.lookup_delete_self]
    rfl
  · unfold view removeFreeNidEntry
    dsimp only
    rw [RadixTree.lookup_delete_of_ne _ hm]
    rfl

theorem removeFreeNid_view (f : FreeNidInfo) (nid n : Nat) :
    (f.removeFreeNid nid).view n = if n = nid then (f.view nid).unlist else f.view n := by
  have hstate : (f.view nid).state = f.freeNidRoot.lookup nid := rfl
  unfold removeFreeNid NidView.unlist
  rw [hstate]
  by_cases he : f.freeNidRoot.lookup nid = some .freeNid
  · rw [if_pos he, if_pos he]
    exact removeEntry_view f nid .freeNid n
  · rw [if_neg he, if_neg he]
    exact view_only rfl (fun _ _ => rfl) n

/-- One nid of a flush. -/
theorem flushNid_view (f : FreeNidInfo) (addr nid n : Nat) :
    (flushNid f addr nid).view n =
      if n = nid then if nid = 0 ∧ addr = nullAddr then f.view nid else (f.view nid).flush addr
      else f.view n := by
  unfold flushNid NidView.flush
  by_cases haddr : addr = nullAddr
  · rw [if_pos haddr, if_pos haddr]
    by_cases hnid : nid = 0
    · rw [hnid, addFreeNid_zero, if_pos (⟨rfl, haddr⟩ : 0 = 0 ∧ addr = nullAddr)]
      exact view_only rfl (fun _ _ => rfl) n
    · rw [addFreeNid_flush none hnid, if_neg fun h : nid = 0 ∧ addr = nullAddr => hnid h.1,
        view_avail]
      refine view_only ?_ (fun m hm => ?_) n
      · rw [updateFreeNidBitmap_view, if_pos rfl, insertFreeNid_self]
      · rw [updateFreeNidBitmap_view, if_neg hm, insertFreeNid_other hm]
  · rw [if_neg haddr, if_neg haddr, updateFreeNidBitmap_view]
    simp only [haddr, and_false, if_false]

theorem markBlock_view (f : FreeNidInfo) (b n : Nat) :
    (f.markBlock b).view n =
      { f.view n with marked := decide (natBlockOffset n = b) || (f.view n).marked } := by
  unfold markBlock view
  dsimp only
  congr 1
  by_cases hn : natBlockOffset n = b
  · rw [hn, Function.update_self, decide_eq_true rfl, Bool.true_or]
  · rw [Function.update_of_ne hn, decide_eq_false hn, Bool.false_or]

theorem moveFreeNid_view (f : FreeNidInfo) {nid : Nat} {org : NidState} (dst : NidState) (n : Nat)
    (he : f.freeNidRoot.lookup nid = some org) :
    (f.moveFreeNid nid org dst).view n =
      if n = nid then { f.view nid with state := some dst } else f.view n := by
  refine view_only ?_ (fun m hm => ?_) n
  · unfold view moveFreeNid
    dsimp only
    rw [RadixTree.lookup_modify_self]
    show NidView.mk ((f.freeNidRoot.lookup nid).map _) _ _ = _
    rw [he]
    rfl
  · unfold view moveFreeNid
    dsimp only
    rw [RadixTree.lookup_modify_of_ne _ _ hm]
    rfl

/-- The locked section of `alloc_nid`. -/
theorem takeFreeNid_view (f : FreeNidInfo) {nid : Nat} (n : Nat)
    (he : f.freeNidRoot.lookup nid = some .freeNid) :
    (f.takeFreeNid nid).view n =
      if n = nid then { f.view nid with state := some .preallocNid }.setBit false
      else f.view n := by
  have hmove := fun m => moveFreeNid_view f .preallocNid m he
  refine view_only ?_ (fun m hm => ?_) n
  · unfold takeFreeNid
    dsimp only
    rw [updateFreeNidBitmap_view, if_pos rfl, view_avail, hmove, if_pos rfl]
  · unfold takeFreeNid
    dsimp only
    rw [updateFreeNidBitmap_view, if_neg hm, view_avail, hmove, if_neg hm]

theorem allocNidDone_view (f : FreeNidInfo) {nid : Nat} (n : Nat)
    (he : f.freeNidRoot.lookup nid = some .preallocNid) :
    (f.allocNidDone nid).view n =
      if n = nid then { f.view nid with state := none } else f.view n := by
  unfold allocNidDone
  rw [he]
  exact removeEntry_view f nid .preallocNid n

theorem allocNidFailed_view (f : FreeNidInfo) {nid : Nat} (hnid : nid ≠ 0) (mem : Bool) (n : Nat)
    (he : f.freeNidRoot.lookup nid = some .preallocNid) :
    (f.allocNidFailed nid mem).view n =
      if n = nid then
        { f.view nid with state := if mem then some .freeNid else none }.setBit true
      else f.view n := by
  have hback : ∀ m, (if mem then f.moveFreeNid nid .preallocNid .freeNid
      else f.removeFreeNidEntry nid .preallocNid).view m = if m = nid then
        { f.view nid with state := if mem then some .freeNid else none } else f.view m := by
    intro m
    cases mem with
    | true => exact moveFreeNid_view f .freeNid m he
    | false => exact removeEntry_view f nid .preallocNid m
  unfold allocNidFailed
  rw [if_neg hnid, he]
  dsimp only
  refine view_only ?_ (fun m hm => ?_) n
  · rw [updateFreeNidBitmap_view, if_pos rfl, view_avail, hback, if_pos rfl]
  · rw [updateFreeNidBitmap_view, if_neg hm, view_avail, hback, if_neg hm]

/-- The shrinker drops nids from the list. -/
theorem shrinkFreeNids_view (nrShrink : Nat) : ∀ {f : FreeNidInfo}, ListBooks f → ∀ n,
    (shrinkFreeNids nrShrink f).view n = f.view n ∨
      ((f.view n).state = some .freeNid ∧
        (shrinkFreeNids nrShrink f).view n = { f.view n with state := none }) := by
  induction nrShrink with
  | zero => exact fun _ _ => Or.inl rfl
  | succ nrShrink ih =>
      intro f h n
      unfold shrinkFreeNids
      cases hl : f.freeNidList with
      | nil => exact Or.inl rfl
      | cons nid rest =>
          dsimp only
          split_ifs
          · exact Or.inl rfl
          · have he := (h.mem nid).mp (by rw [hl]; exact List.mem_cons_self)
            have hdrop := removeEntry_view f nid .freeNid n
            rcases ih (h.removeFree he).1 n with hsame | ⟨hfree, hview⟩
            · rw [hsame, hdrop]
              split_ifs with hn
              · subst hn
                exact Or.inr ⟨he, rfl⟩
              · exact Or.inl rfl
            · rw [hdrop] at hfree hview
              by_cases hn : n = nid
              · rw [if_pos hn] at hfree
                cases hfree
              · rw [if_neg hn] at hfree hview
                exact Or.inr ⟨hfree, hview⟩

end

/-! ## Folds -/

/-- The flush of the nids `L`. -/
theorem flushNids_view (addr : Nat → Nat) {L : List Nat} (hnodup : L.Nodup) (f : FreeNidInfo)
    (n : Nat) :
    (L.foldl (fun f nid => flushNid f (addr nid) nid) f).view n =
      if n ∈ L then
        if n = 0 ∧ addr n = nullAddr then f.view n else (f.view n).flush (addr n)
      else f.view n :=
  FoldView.foldl_view view (fun f nid => flushNid f (addr nid) nid)
    (h := fun k v => if k = 0 ∧ addr k = nullAddr then v else v.flush (addr k))
    (fun f nid m => flushNid_view f (addr nid) nid m) f n hnodup

end FreeNidInfo

end F2fs.Node

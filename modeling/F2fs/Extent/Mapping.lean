/-
  The extent cache never invents a mapping: whatever is called in whatever order, an extent
  that a search returns tells of each of its pages the block where the file has it.

  `Tells` is that of one extent.  While `f2fs_update_extent_tree_range` runs, the nodes tell the
  map as it was and the largest extent the map as it is to be; behind the loop no node reaches
  into the range any more, so that the two agree (`Tells.moved`).
-/
import F2fs.Extent.Represented

namespace F2fs.Extent

open IntervalTree

/-! ## What an extent tells -/

/-- The map of one file: the block of a page, `none` where it has none or none yet
    (`NEW_ADDR`). -/
abbrev PageMap := Nat → Option Nat

/-- Each page of the extent is where the extent says. -/
def ExtentInfo.Tells (m : PageMap) (ei : ExtentInfo) : Prop :=
  ∀ p, ei.fofs ≤ p → p < ei.stop → m p = some (u32 (ei.blk + (p - ei.fofs)))

/-- The map when `len` pages from `fofs` on lie at `blkaddr`, or nowhere. -/
def movePages (m : PageMap) (fofs blkaddr len : Nat) : PageMap := fun p =>
  if fofs ≤ p ∧ p < fofs + len then
    if blkaddr = 0 then none else some (u32 (blkaddr + (p - fofs)))
  else m p

namespace ExtentInfo.Tells

variable {m : PageMap} {ei a b : ExtentInfo} {fofs blkaddr len : Nat}

/-- An extent without blocks tells nothing. -/
theorem empty (h : ei.len = 0) : ei.Tells m := by
  intro p hle hlt
  have hstop : ei.stop = ei.fofs := by rw [ExtentInfo.stop, h, Nat.add_zero]
  omega

/-- A part of an extent, its first block counted with the wrap of `block_t`. -/
theorem part (h : ei.Tells m) (hle : ei.fofs ≤ a.fofs) (hstop : a.stop ≤ ei.stop)
    (hblk : u32 a.blk = u32 (ei.blk + (a.fofs - ei.fofs))) : a.Tells m := by
  intro p hp hlt
  have hsum : a.fofs - ei.fofs + (p - a.fofs) = p - ei.fofs := by omega
  rw [h p (hle.trans hp) (hlt.trans_le hstop), ← hsum, ← Nat.add_assoc, ← u32_u32_add, ← hblk,
    u32_u32_add]

/-- Two extents that can be merged tell the same as one. -/
theorem join (ha : a.Tells m) (hb : b.Tells m) (hm : isExtentMergeable a b = true)
    (hfofs : ei.fofs = a.fofs) (hlen : ei.len = a.len + b.len) (hblk : ei.blk = a.blk) :
    ei.Tells m := by
  obtain ⟨hadj, hphys⟩ := Bool.and_eq_true_iff.mp hm
  have hadj' : a.fofs + a.len = b.fofs := of_decide_eq_true hadj
  have hphys' : u32 (a.blk + a.len) = b.blk := of_decide_eq_true hphys
  intro p hp hlt
  have hstop : ei.stop = a.fofs + (a.len + b.len) := by rw [ExtentInfo.stop, hfofs, hlen]
  rw [hfofs] at hp
  rw [hblk, hfofs]
  by_cases hin : p < a.stop
  · exact ha p hp hin
  · have hin' : b.fofs ≤ p := by rw [← hadj']; exact not_lt.mp hin
    have hend : p < b.fofs + b.len := by omega
    have hsum : p - a.fofs = a.len + (p - b.fofs) := by omega
    rw [hb p hin' hend, hsum, ← Nat.add_assoc, ← hphys', u32_u32_add]

/-- Away from the pages that move nothing changes. -/
theorem moved (h : ei.Tells m) (haway : ei.stop ≤ fofs ∨ fofs + len ≤ ei.fofs) :
    ei.Tells (movePages m fofs blkaddr len) := by
  intro p hp hlt
  rw [movePages, if_neg (by omega)]
  exact h p hp hlt

/-- The pages that moved are where they moved to. -/
theorem new (m : PageMap) (hblk : blkaddr ≠ 0) :
    ExtentInfo.Tells (movePages m fofs blkaddr len) ⟨fofs, len, blkaddr⟩ := by
  intro p hp hlt
  rw [movePages, if_pos ⟨hp, hlt⟩, if_neg hblk]

end ExtentInfo.Tells

/-! ## Nodes and the largest extent -/

/-- All extents of a list of nodes tell the map. -/
def TellAll (m : PageMap) (l : List ExtentNode) : Prop := ∀ n ∈ l, n.ei.Tells m

section

variable {m old new : PageMap} {A B M : List ExtentNode} {n : ExtentNode} {l : List ExtentNode}

theorem TellAll.nil : TellAll m [] := fun _ h => absurd h List.not_mem_nil

theorem TellAll.sub (h : TellAll m l) {l' : List ExtentNode} (hsub : l' ⊆ l) : TellAll m l' :=
  fun n hn => h n (hsub hn)

/-- One node in the place of several. -/
theorem TellAll.replace (h : TellAll m (A ++ (M ++ B))) (hn : n.ei.Tells m) :
    TellAll m (A ++ n :: B) := by
  intro c hc
  rcases List.mem_append.mp hc with hc | hc
  · exact h c (List.mem_append_left _ hc)
  · rcases List.mem_cons.mp hc with rfl | hc
    · exact hn
    · exact h c (by simp [hc])

theorem TellAll.mid (h : TellAll m (A ++ n :: B)) : n.ei.Tells m := h n (by simp)

variable {rb : Rebalance ExtentNode} {ino : Nat} {others : List (Nat × Nat)} {w w' : LockedTree}
  {ei : ExtentInfo}

/-- Behind `__try_update_largest_extent` the largest extent is the old one or that of the node. -/
theorem largest_tryUpdate (w : LockedTree) (en : Nat) :
    (tryUpdateLargestExtent w en).et.largest = w.et.largest ∨
      ∃ n ∈ w.nodes, n.id = en ∧ (tryUpdateLargestExtent w en).et.largest = n.ei := by
  unfold tryUpdateLargestExtent
  cases hget : w.get en with
  | none => exact .inl rfl
  | some n =>
    have hid := List.find?_some (p := fun c : ExtentNode => decide (c.id = en)) hget
    dsimp only
    split
    · exact .inr ⟨n, List.mem_of_find?_eq_some hget, of_decide_eq_true hid, rfl⟩
    · exact .inl rfl

theorem tells_tryUpdate {en : Nat} (hl : w.et.largest.Tells m)
    (hn : ∀ n ∈ w.nodes, n.id = en → n.ei.Tells m) :
    (tryUpdateLargestExtent w en).et.largest.Tells m := by
  rcases largest_tryUpdate w en with heq | ⟨n, hmem, hid, heq⟩
  · rw [heq]
    exact hl
  · rw [heq]
    exact hn n hmem hid

/-- `__drop_largest_extent` leaves no largest extent with pages in the range. -/
theorem tells_dropLargest (hl : w.et.largest.Tells m) (fofs blkaddr len : Nat) :
    (dropLargestExtent w fofs len).et.largest.Tells (movePages m fofs blkaddr len) := by
  unfold dropLargestExtent
  dsimp only
  split
  · exact .empty rfl
  · rename_i hno
    exact hl.moved (by show w.et.largest.fofs + w.et.largest.len ≤ fofs ∨ _; omega)

/-- A range of all pages drops it whatever it is. -/
theorem largest_dropAll (hl : w.et.largest.stop < 2 ^ 32) :
    (dropLargestExtent w 0 uintMax).et.largest.len = 0 := by
  have hl' : w.et.largest.fofs + w.et.largest.len < 2 ^ 32 := hl
  unfold dropLargestExtent
  dsimp only
  split
  · rfl
  · rename_i hno
    show w.et.largest.len = 0
    unfold uintMax at hno
    omega

/-- The nodes and the largest extent of a tree tell the map. -/
structure TreeTells (m : PageMap) (w : LockedTree) : Prop where
  nodes : TellAll m w.nodes
  largest : w.et.largest.Tells m

theorem TreeTells.merged (hn : w.nodes = l) (ht : TellAll m l) (hl : w.et.largest.Tells m)
    (en : Nat) : TreeTells m ((tryUpdateLargestExtent w en).touch en) := by
  subst hn
  refine ⟨?_, ?_⟩
  · rw [LockedTree.nodes_touch, nodes_tryUpdateLargestExtent]
    exact ht
  · rw [largest_touch]
    exact tells_tryUpdate hl fun n hn _ => ht n hn

/-! ## Placing an extent -/

variable (rb) in
/-- A merged extent tells what its two parts told. -/
theorem tryMergeExtentNode_tells (h : TreeInv ino others w) (hn : w.nodes = A ++ B)
    (ht : TreeTells m w) (hei : ei.Tells m) (hgap : Gap ei A B) {p q : Option ExtentNode}
    (hp : p = none ∨ p = A.getLast?) (hq : q = B.head?)
    (hmerge : tryMergeExtentNode rb w ei p q = some w') : TreeTells m w' := by
  have hall : TellAll m (A ++ B) := hn ▸ ht.nodes
  unfold tryMergeExtentNode at hmerge
  cases hback : mergeTarget (isBackMergeable ei) p with
  | none =>
    cases hfront : mergeTarget (isFrontMergeable ei) q with
    | none =>
      simp only [hback, hfront] at hmerge
      cases hmerge
    | some next =>
      simp only [hback, hfront] at hmerge
      obtain ⟨hnext, hm⟩ := mergeTarget_some hfront
      obtain ⟨B', rfl⟩ := List.head?_eq_some_iff.mp (hq.symm.trans hnext)
      obtain ⟨hnodes, -⟩ := h.mergeFront hn hgap hm
      rw [← Option.some.inj hmerge]
      refine TreeTells.merged hnodes (TellAll.replace (M := [next]) hall ?_) ht.largest _
      exact hei.join hall.mid hm rfl (Nat.add_comm _ _) rfl
  | some prev =>
    obtain ⟨hprev, hmb⟩ := mergeTarget_some hback
    have hlast : A.getLast? = some prev := by
      rcases hp with hp | hp
      · rw [hprev] at hp
        cases hp
      · exact hp.symm.trans hprev
    obtain ⟨A', rfl⟩ := List.getLast?_eq_some_iff.mp hlast
    rw [← List.append_cons] at hn hall
    obtain ⟨hnodes, -⟩ := h.mergeBack hn hgap hmb
    have hjoin : ExtentInfo.Tells m { prev.ei with len := prev.len + ei.len } :=
      hall.mid.join hei hmb rfl rfl rfl
    cases hfront : mergeTarget (isFrontMergeable { prev.ei with len := prev.len + ei.len }) q with
    | none =>
      simp only [hback, hfront] at hmerge
      rw [← Option.some.inj hmerge]
      exact TreeTells.merged hnodes (TellAll.replace (M := [prev]) hall hjoin) ht.largest _
    | some next =>
      simp only [hback, hfront] at hmerge
      obtain ⟨hnext, hm⟩ := mergeTarget_some hfront
      obtain ⟨B', rfl⟩ := List.head?_eq_some_iff.mp (hq.symm.trans hnext)
      obtain ⟨hnodes, -⟩ := h.mergeBoth rb hn (isExtentMergeable_fofs hm)
      rw [← Option.some.inj hmerge]
      refine TreeTells.merged hnodes
        (TellAll.replace (M := [prev, next]) hall ?_) ht.largest _
      exact hjoin.join (hall next (by simp)) hm rfl (Nat.add_comm _ _) rfl

/-- The largest extent behind `__insert_extent_tree`. -/
theorem largest_insertExtentTree (h : Books ino others w) (hn : w.nodes = A ++ B)
    (hn' : w'.nodes = A ++ ⟨w.nextId, ei⟩ :: B) {s : Option Slot} {alloc : Bool} {r : Option Nat}
    (hins : insertExtentTree rb w ei s alloc = some (w', r)) :
    w'.et.largest = w.et.largest ∨ w'.et.largest = ei := by
  obtain ⟨sl, -, heq⟩ := Option.map_eq_some_iff.mp hins
  cases alloc with
  | false =>
    rw [← (Prod.mk.inj heq).1]
    exact .inl rfl
  | true =>
    rw [← (Prod.mk.inj heq).1] at hn' ⊢
    rcases largest_tryUpdate _ w.nextId with hl | ⟨n, hmem, hid, hl⟩
    · exact .inl hl
    · -- the node with the new pointer is the one that was linked
      rw [← nodes_tryUpdateLargestExtent] at hmem
      have hmem' : n ∈ A ++ ⟨w.nextId, ei⟩ :: B := hn' ▸ hmem
      have hold : ∀ c ∈ A ++ B, c.id ≠ w.nextId := fun c hc =>
        (h.fresh_id (List.mem_map_of_mem (hn ▸ hc))).ne
      rcases List.mem_append.mp hmem' with hA | hB
      · exact absurd hid (hold n (List.mem_append_left _ hA))
      · rcases List.mem_cons.mp hB with rfl | hB
        · exact .inr hl
        · exact absurd hid (hold n (List.mem_append_right _ hB))

variable (rb) in
/-- An inserted extent is a node of the tree. -/
theorem insertExtentTree_tells (h : TreeInv ino others w) (hn : w.nodes = A ++ B)
    (hgap : Gap ei A B) {s : Option Slot} (hs : ∀ sl, s = some sl → LinksNew w sl A B)
    {alloc : Bool} {r : Option Nat} (hall : TellAll old w.nodes) (hei : ei.Tells old)
    (hl : w.et.largest.Tells new) (hnew : ei.Tells new)
    (hins : insertExtentTree rb w ei s alloc = some (w', r)) :
    TellAll old w'.nodes ∧ w'.et.largest.Tells new := by
  obtain ⟨w₂, r₂, hins₂, -, hcase⟩ := insertExtentTree_spec rb h hn hgap hs alloc
  obtain ⟨rfl, rfl⟩ : w₂ = w' ∧ r₂ = r := Prod.mk.inj (Option.some.inj (hins₂.symm.trans hins))
  rcases hcase with ⟨-, rfl⟩ | ⟨-, hnodes⟩
  · exact ⟨hall, hl⟩
  · refine ⟨?_, ?_⟩
    · rw [hnodes]
      exact TellAll.replace (M := []) (hn ▸ hall) hei
    · rcases largest_insertExtentTree h.books hn hnodes hins with heq | heq
      · rw [heq]
        exact hl
      · rw [heq]
        exact hnew

/-! ## The loop -/

variable {s s' : RangeScan} {pos stop : Nat} {alloc : ExtentInfo → Bool}

/-- An extent of the old map that does not reach into the range is one of the new map. -/
def Away (pos stop : Nat) (old new : PageMap) : Prop :=
  ∀ ei : ExtentInfo, ei.Tells old → ei.stop ≤ pos ∨ stop ≤ ei.fofs → ei.Tells new

/-- The nodes tell the old map, the largest extent the new one. -/
def ScanTells (old new : PageMap) (w : LockedTree) : Prop :=
  TellAll old w.nodes ∧ w.et.largest.Tells new

theorem Books.eq_of_id (h : Books ino others w) (hn : w.nodes = A ++ n :: B) {c : ExtentNode}
    (hc : c ∈ w.nodes) (hid : c.id = n.id) : c = n :=
  List.inj_on_of_nodup_map h.ids_nodup hc (by rw [hn]; simp) hid

/-- What is left of the extent in its node may become the largest one. -/
theorem ScanTells.resume (h : ScanTells old new w) (hb : Books ino others w)
    (hn : w.nodes = A ++ n :: B) (hnew : n.ei.Tells new) {en : Nat} (hen : n.id = en) :
    ScanTells old new (tryUpdateLargestExtent w en) := by
  subst hen
  refine ⟨?_, tells_tryUpdate h.2 fun c hc hid => ?_⟩
  · rw [nodes_tryUpdateLargestExtent]
    exact h.1
  · rw [hb.eq_of_id hn hc hid]
    exact hnew

theorem invalidateNode_tells (h : ScanInv ino others pos stop s A (n :: B)) (hlt : n.fofs < stop)
    (hps : pos < stop) (haway : Away pos stop old new) (ht : ScanTells old new s.w)
    (hstep : invalidateNode rb s n pos stop alloc = some s') : ScanTells old new s'.w := by
  have hall : TellAll old (A ++ n :: B) := h.nodes ▸ ht.1
  have hn : n.ei.Tells old := hall.mid
  unfold invalidateNode at hstep
  cases hfront : keepsFront n.ei pos with
  | true =>
    have hf := keepsFront_eq hfront
    set c : ExtentNode := ⟨n.id, { n.ei with len := pos - n.fofs }⟩ with hc
    have hcstop : c.ei.stop = pos := Nat.add_sub_cancel' hf.le
    have hcold : c.ei.Tells old :=
      hn.part le_rfl (hcstop.trans_le (h.above n List.mem_cons_self).le)
        (by rw [Nat.sub_self, Nat.add_zero])
    have hcnew : c.ei.Tells new := haway _ hcold (.inl hcstop.le)
    obtain ⟨hnodes, hinv, hbelow⟩ := h.cutFront hf
    have hnodes' := hnodes.trans (List.append_cons ..).symm
    have hcut : ScanTells old new (Extent.cutFront s.w n.id pos) :=
      ⟨hnodes' ▸ TellAll.replace (M := [n]) hall hcold, ht.2⟩
    cases hback : keepsBack n.ei stop with
    | true =>
      have hb := keepsBack_eq hback
      set ei : ExtentInfo := ⟨stop, n.ei.fofs + n.ei.len - stop,
        u32 (stop - n.ei.fofs + n.ei.blk)⟩ with hei
      have hstop : ei.stop = n.stop := Nat.add_sub_cancel' hb.le
      have hold : ei.Tells old :=
        hn.part hlt.le hstop.le (by rw [u32_of_lt (u32_lt _), Nat.add_comm n.ei.blk])
      have ht' : InTree (A ++ n :: B) := h.nodes ▸ h.inv.tree
      have hgap : Gap ei (A ++ [c]) B := by
        refine ⟨⟨Nat.sub_pos_of_lt hb, ?_⟩, fun a ha => (hbelow a ha).trans hps.le, fun b hb' => ?_⟩
        · exact hstop.trans_lt ht'.valid_mid.stop_lt
        · exact hstop.trans_le (ht'.le_fofs b hb')
      have hlinks : ∀ sl, none = some sl →
          LinksNew (Extent.cutFront s.w n.id pos) sl (A ++ [c]) B := fun _ hs => by cases hs
      obtain ⟨w₂, r, hins, hinv₂, hr⟩ :=
        insertExtentTree_spec rb hinv hnodes hgap hlinks (alloc ei)
      have hcutBack : Extent.cutBack rb (Extent.cutFront s.w n.id pos) n.id n.ei stop true alloc =
          some (w₂, r) := hins
      simp only [hfront, hback, if_true, Bool.or_true, hcutBack, Option.map_some,
        Option.some.injEq] at hstep
      have ht₂ : ScanTells old new w₂ :=
        insertExtentTree_tells rb hinv hnodes hgap hlinks hcut.1 hold hcut.2
          (haway _ hold (.inr le_rfl)) hins
      have hnodes₂ : ∃ B', w₂.nodes = A ++ c :: B' := by
        rcases hr with ⟨-, rfl⟩ | ⟨-, hnodes₂⟩
        · exact ⟨B, hnodes'⟩
        · exact ⟨_, hnodes₂.trans (List.append_cons ..).symm⟩
      obtain ⟨B', hnodes₂⟩ := hnodes₂
      rw [← hstep]
      exact ht₂.resume hinv₂.books hnodes₂ hcnew rfl
    | false =>
      simp only [hfront, hback, if_true, Bool.or_false, Bool.false_eq_true, if_false,
        Option.map_some, Option.some.injEq] at hstep
      rw [← hstep]
      exact hcut.resume hinv.books hnodes' hcnew rfl
  | false =>
    cases hback : keepsBack n.ei stop with
    | true =>
      have hb := keepsBack_eq hback
      obtain ⟨hnodes, hinv, hstop⟩ := h.cutBack hlt hps hb
        fun i => u32 (i.blk + (stop - n.fofs))
      simp only [hfront, hback, if_true, Bool.or_true, Bool.false_eq_true, if_false,
        Extent.cutBack, Option.map_some, Option.some.injEq] at hstep
      rw [← hstep]
      have hold : ExtentInfo.Tells old
          ⟨stop, n.len - (stop - n.fofs), u32 (n.ei.blk + (stop - n.fofs))⟩ :=
        hn.part hlt.le hstop.le (u32_of_lt (u32_lt _))
      have hcut : ScanTells old new (s.w.setInfo n.id fun i =>
          ⟨stop, i.len - (stop - n.fofs), u32 (i.blk + (stop - n.fofs))⟩) :=
        ⟨hnodes ▸ TellAll.replace (M := [n]) hall hold, ht.2⟩
      exact hcut.resume hinv.books hnodes (haway _ hold (.inr le_rfl)) rfl
    | false =>
      obtain ⟨hnodes, -⟩ := releaseExtentNode_spec rb h.inv.books h.nodes
      simp only [hfront, hback, Bool.or_false, Bool.false_eq_true, if_false,
        Option.map_some, Option.some.injEq] at hstep
      rw [← hstep]
      exact ⟨hnodes ▸ hall.sub (by simp), ht.2⟩

theorem invalidateRange_tells (hps : pos < stop) (haway : Away pos stop old new) (fuel : Nat) :
    ∀ {s s' : RangeScan} {A B : List ExtentNode}, ScanInv ino others pos stop s A B →
      ScanTells old new s.w → invalidateRange rb pos stop alloc fuel s = some s' →
      ScanTells old new s'.w := by
  induction fuel with
  | zero => exact fun _ _ hrun => by cases hrun
  | succ fuel ih =>
    intro s s' A B h ht hrun
    unfold invalidateRange at hrun
    rw [h.en] at hrun
    cases B with
    | nil =>
      cases hrun
      exact ht
    | cons n B =>
      have hget : s.w.get n.id = some n := (h.inv.books.at_nodes h.nodes).get_eq
      simp only [List.head?_cons, Option.map_some, hget, Option.bind_eq_bind,
        Option.bind_some] at hrun
      by_cases hlt : n.fofs < stop
      · obtain ⟨s₁, A₁, B₁, hstep, hinv, -⟩ := invalidateNode_spec rb alloc h hlt hps
        rw [if_pos hlt, hstep, Option.bind_some] at hrun
        exact ih hinv (invalidateNode_tells h hlt hps haway ht hstep) hrun
      · rw [if_neg hlt] at hrun
        cases hrun
        exact ht

variable (rb) in
theorem placeExtent_tells (h : ScanDone ino others pos stop s A B) (ht : TreeTells m s.w)
    (hv : ei.Valid) (hpos : ei.fofs = pos) (hstop : ei.stop = stop) (hei : ei.Tells m)
    (hplace : placeExtent rb s ei alloc = some w') : TreeTells m w' := by
  have hgap : Gap ei A B :=
    ⟨hv, fun a ha => (h.below a ha).trans_eq hpos.symm, fun b hb => hstop.trans_le (h.above b hb)⟩
  have hprev : s.prevEn.bind s.w.get = none ∨ s.prevEn.bind s.w.get = A.getLast? := by
    rcases h.prev with hprev | hprev
    · exact .inl (by rw [hprev]; rfl)
    · exact .inr (by rw [hprev, get_getLast? h.inv.books h.nodes])
  have hnext : s.nextEn.bind s.w.get = B.head? := by rw [h.next, get_head? h.inv.books h.nodes]
  unfold placeExtent at hplace
  cases hmerge : tryMergeExtentNode rb s.w ei (s.prevEn.bind s.w.get) (s.nextEn.bind s.w.get) with
  | some w₁ =>
    rw [hmerge] at hplace
    cases hplace
    exact tryMergeExtentNode_tells rb h.inv h.nodes ht hei hgap hprev hnext hmerge
  | none =>
    rw [hmerge] at hplace
    obtain ⟨⟨w₁, r⟩, hins, rfl⟩ := Option.map_eq_some_iff.mp hplace
    obtain ⟨hall, hl⟩ :=
      insertExtentTree_tells rb h.inv h.nodes hgap h.slot ht.nodes hei ht.largest hei hins
    exact ⟨hall, hl⟩

theorem TreeTells.free (hb : Books ino others w) (hl : w.et.largest.Tells m) :
    TreeTells m (freeExtentTree rb w) := by
  obtain ⟨hnil, -⟩ := freeExtentTree_spec rb hb
  exact ⟨hnil.symm ▸ TellAll.nil, (largest_freeExtentTree w).symm ▸ hl⟩

/-- The function moves the pages of its range in what the tree tells; a tree that it gives up is
    empty. -/
theorem updateExtentTreeRange_tells (h : TreeInv ino others w) (ht : TreeTells m w)
    {fofs blkaddr len : Nat} (hlen : 1 ≤ len) (hstop : fofs + len < 2 ^ 32) {noExtent : Bool}
    (hrun : updateExtentTreeRange rb w fofs blkaddr len alloc = some (w', noExtent)) :
    TreeTells (movePages m fofs blkaddr len) w' ∧
      (noExtent = true → w'.nodes = [] ∧ w'.et.largest.len = 0) := by
  have hlt : fofs < fofs + len := Nat.lt_add_of_pos_right hlen
  have haway : Away fofs (fofs + len) m (movePages m fofs blkaddr len) := fun ei hei => hei.moved
  obtain ⟨A, B, hscan⟩ := startScan_spec (h.dropLargest fofs len) hlt
  have hstart : ScanTells m (movePages m fofs blkaddr len) (dropLargestExtent w fofs len) :=
    ⟨(nodes_dropLargestExtent w fofs len).symm ▸ ht.nodes,
      tells_dropLargest ht.largest fofs blkaddr len⟩
  unfold updateExtentTreeRange at hrun
  obtain ⟨s, hloop, hrest⟩ := Option.bind_eq_some_iff.mp hrun
  have hfuel : toChange (fofs + len) B < (dropLargestExtent w fofs len).nodes.length + 2 := by
    have hcount : toChange (fofs + len) B ≤ B.length := List.countP_le_length
    have hnodes : (dropLargestExtent w fofs len).nodes = A ++ B := hscan.nodes
    rw [hnodes, List.length_append]
    omega
  obtain ⟨s₁, A', B', hloop₁, hdone⟩ := invalidateRange_spec rb alloc hlt _ hscan hfuel
  obtain rfl : s₁ = s := Option.some.inj (hloop₁.symm.trans hloop)
  obtain ⟨hall, hl⟩ := invalidateRange_tells hlt haway _ hscan hstart hloop
  -- nothing is left in the range, so the nodes tell the new map as well
  have hdoneTells : TreeTells (movePages m fofs blkaddr len) s₁.w := by
    refine ⟨fun n hn => ?_, hl⟩
    have hn' : n ∈ A' ++ B' := hdone.nodes ▸ hn
    rcases List.mem_append.mp hn' with hA | hB
    · exact (hall n hn).moved (.inl (hdone.below n hA))
    · exact (hall n hn).moved (.inr (hdone.above n hB))
  by_cases hblk : blkaddr = 0
  · rw [if_pos hblk] at hrest
    cases hrest
    exact ⟨hdoneTells, fun hno => by cases hno⟩
  · rw [if_neg hblk] at hrest
    obtain ⟨w₁, hplace, hend⟩ := Option.bind_eq_some_iff.mp hrest
    have hv : ExtentInfo.Valid ⟨fofs, len, blkaddr⟩ := ⟨hlen, hstop⟩
    have hplaced := placeExtent_tells rb hdone hdoneTells hv rfl rfl (.new m hblk) hplace
    obtain ⟨w₂, hplace₂, hinv⟩ := placeExtent_spec rb alloc hdone hv rfl rfl
    obtain rfl : w₂ = w₁ := Option.some.inj (hplace₂.symm.trans hplace)
    split at hend
    · cases hend
      have hdrop := largest_dropAll hinv.largest
      obtain ⟨hnil, -⟩ := freeExtentTree_spec rb (hinv.dropLargest 0 uintMax).books
      refine ⟨TreeTells.free (hinv.dropLargest 0 uintMax).books (.empty hdrop), fun _ => ⟨hnil, ?_⟩⟩
      rw [largest_freeExtentTree]
      exact hdrop
    · cases hend
      exact ⟨hplaced, fun hno => by cases hno⟩

end

end F2fs.Extent

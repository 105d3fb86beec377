/-
  `f2fs_update_extent_tree_range` keeps the extents of a tree disjoint and in order.

  The loop is followed extent by extent (`ScanInv`): in front of the current one nothing
  reaches into the range, and the place found by the first search stays the one between the
  two parts as long as it is kept.  `placeExtent_spec` then puts the new extent there.
-/
import F2fs.Extent.ExtentBooks

namespace F2fs.Extent

open IntervalTree

/-! ## Disjoint extents in order -/

/-- The first block behind an extent. -/
abbrev ExtentInfo.stop (ei : ExtentInfo) : Nat := ei.fofs + ei.len

abbrev ExtentNode.stop (n : ExtentNode) : Nat := n.ei.stop

/-- An extent has blocks, and they can be numbered. -/
structure ExtentInfo.Valid (ei : ExtentInfo) : Prop where
  len_pos : 0 < ei.len
  stop_lt : ei.stop < 2 ^ 32

/-- What the list of nodes of a tree looks like. -/
structure InTree (l : List ExtentNode) : Prop where
  ordered : Ordered ExtentNode.fofs ExtentNode.len l
  valid : ∀ n ∈ l, n.ei.Valid

namespace InTree

variable {A M B : List ExtentNode} {n : ExtentNode}

theorem nil : InTree [] :=
  ⟨List.Pairwise.nil, fun _ h => absurd h List.not_mem_nil⟩

/-- One extent in the place of several. -/
theorem replace (h : InTree (A ++ (M ++ B))) (hv : n.ei.Valid)
    (hA : ∀ a ∈ A, a.stop ≤ n.fofs) (hB : ∀ b ∈ B, n.stop ≤ b.fofs) : InTree (A ++ n :: B) := by
  refine ⟨h.ordered.replace hA hB, fun c hc => ?_⟩
  rcases List.mem_append.mp hc with hc | hc
  · exact h.valid c (List.mem_append_left _ hc)
  · rcases List.mem_cons.mp hc with rfl | hc
    · exact hv
    · exact h.valid c (by simp [hc])

theorem drop (h : InTree (A ++ n :: B)) : InTree (A ++ B) := by
  refine ⟨h.ordered.drop, fun c hc => h.valid c ?_⟩
  rcases List.mem_append.mp hc with hc | hc
  · exact List.mem_append_left _ hc
  · exact List.mem_append_right _ (List.mem_cons_of_mem _ hc)

theorem valid_mid (h : InTree (A ++ n :: B)) : n.ei.Valid :=
  h.valid n (by simp)

theorem stop_le (h : InTree (A ++ n :: B)) : ∀ a ∈ A, a.stop ≤ n.fofs :=
  h.ordered.end_le

theorem le_fofs (h : InTree (A ++ n :: B)) : ∀ b ∈ B, n.stop ≤ b.fofs :=
  h.ordered.le_ofs

end InTree

/-- The invariant of the tree `ino`, its largest extent and its books. -/
structure TreeInv (ino : Nat) (others : List (Nat × Nat)) (w : LockedTree) : Prop where
  tree : InTree w.nodes
  largest : w.et.largest.stop < 2 ^ 32
  books : Books ino others w

section

variable {rb : Rebalance ExtentNode} {ino : Nat} {others : List (Nat × Nat)} {w : LockedTree}
  {A B : List ExtentNode} {n : ExtentNode} {ei : ExtentInfo}

/-! ## The largest extent and the list -/

theorem largest_tryUpdateLargestExtent (ht : InTree w.nodes) (hl : w.et.largest.stop < 2 ^ 32)
    (en : Nat) : (tryUpdateLargestExtent w en).et.largest.stop < 2 ^ 32 := by
  unfold tryUpdateLargestExtent
  cases hget : w.get en with
  | none => exact hl
  | some n =>
    dsimp only
    split
    · exact (ht.valid n (List.mem_of_find?_eq_some hget)).stop_lt
    · exact hl

theorem TreeInv.tryUpdateLargest (h : TreeInv ino others w) (en : Nat) :
    TreeInv ino others (tryUpdateLargestExtent w en) := by
  refine ⟨?_, largest_tryUpdateLargestExtent h.tree h.largest en, h.books.tryUpdateLargest en⟩
  rw [nodes_tryUpdateLargestExtent]
  exact h.tree

theorem TreeInv.dropLargest (h : TreeInv ino others w) (fofs len : Nat) :
    TreeInv ino others (dropLargestExtent w fofs len) := by
  refine ⟨?_, ?_, h.books.dropLargest fofs len⟩
  · rw [nodes_dropLargestExtent]
    exact h.tree
  · unfold dropLargestExtent
    dsimp only
    split
    · exact lt_of_le_of_lt (Nat.add_le_add_left (Nat.zero_le _) _) h.largest
    · exact h.largest

theorem largest_touch (w : LockedTree) (en : Nat) : (w.touch en).et.largest = w.et.largest := by
  unfold LockedTree.touch
  split <;> rfl

theorem TreeInv.touch (h : TreeInv ino others w) {en : Nat} (hen : en ∈ w.ids) :
    TreeInv ino others (w.touch en) :=
  ⟨(w.nodes_touch en).symm ▸ h.tree, (largest_touch w en).symm ▸ h.largest, h.books.touch hen⟩

/-- The end of `__try_merge_extent_node`. -/
theorem TreeInv.merged (h : TreeInv ino others w) {en : Nat} (hen : en ∈ w.ids) :
    TreeInv ino others ((tryUpdateLargestExtent w en).touch en) := by
  have hen' : en ∈ (tryUpdateLargestExtent w en).ids := by
    rw [LockedTree.ids, nodes_tryUpdateLargestExtent]
    exact hen
  exact (h.tryUpdateLargest en).touch hen'

theorem TreeInv.free (h : TreeInv ino others w) : TreeInv ino others (freeExtentTree rb w) := by
  obtain ⟨hnodes, hbooks⟩ := freeExtentTree_spec rb h.books
  exact ⟨hnodes.symm ▸ InTree.nil, (largest_freeExtentTree w).symm ▸ h.largest, hbooks⟩

variable (rb) in
theorem TreeInv.release (h : TreeInv ino others w) (hn : w.nodes = A ++ n :: B) :
    TreeInv ino others (releaseExtentNode rb w n.id) := by
  obtain ⟨hnodes, hbooks⟩ := releaseExtentNode_spec rb h.books hn
  have ht : InTree (A ++ n :: B) := hn ▸ h.tree
  exact ⟨hnodes.symm ▸ ht.drop, h.largest, hbooks⟩

/-! ## Placing an extent in a gap -/

/-- `ei` lies between the extents of `A` and those of `B`. -/
structure Gap (ei : ExtentInfo) (A B : List ExtentNode) : Prop where
  valid : ei.Valid
  below : ∀ a ∈ A, a.stop ≤ ei.fofs
  above : ∀ b ∈ B, ei.stop ≤ b.fofs

theorem mergeTarget_some {mergeable : ExtentInfo → Bool} {p : Option ExtentNode}
    (h : mergeTarget mergeable p = some n) : p = some n ∧ mergeable n.ei = true := by
  obtain ⟨hp, hm⟩ := Option.filter_eq_some_iff.mp h
  exact ⟨hp, hm⟩

theorem isExtentMergeable_fofs {back front : ExtentInfo} (h : isExtentMergeable back front = true) :
    back.stop = front.fofs := by
  unfold isExtentMergeable at h
  exact of_decide_eq_true (Bool.and_eq_true_iff.mp h).1

theorem TreeInv.mergeBack (h : TreeInv ino others w) (hn : w.nodes = A ++ n :: B)
    (hgap : Gap ei (A ++ [n]) B) (hm : isBackMergeable ei n.ei = true) :
    (w.setInfo n.id fun i => { i with len := i.len + ei.len }).nodes =
        A ++ ⟨n.id, { n.ei with len := n.len + ei.len }⟩ :: B ∧
      TreeInv ino others (w.setInfo n.id fun i => { i with len := i.len + ei.len }) := by
  have hadj : n.ei.fofs + n.ei.len = ei.fofs := isExtentMergeable_fofs hm
  have hnodes := setInfo_nodes h.books hn fun i => { i with len := i.len + ei.len }
  have ht : InTree (A ++ ([n] ++ B)) := by
    have := h.tree
    rwa [hn] at this
  have hstop : n.fofs + (n.len + ei.len) = ei.stop := by
    show n.ei.fofs + (n.ei.len + ei.len) = ei.fofs + ei.len
    rw [← Nat.add_assoc, hadj]
  refine ⟨hnodes, ?_, h.largest, h.books.setInfo _ _⟩
  rw [hnodes]
  refine ht.replace ⟨?_, ?_⟩ ht.stop_le fun b hb => hstop.trans_le (hgap.above b hb)
  · exact Nat.add_pos_left ht.valid_mid.len_pos _
  · exact hstop.trans_lt hgap.valid.stop_lt

theorem TreeInv.mergeFront (h : TreeInv ino others w) (hn : w.nodes = A ++ n :: B)
    (hgap : Gap ei A (n :: B)) (hm : isFrontMergeable ei n.ei = true) :
    (w.setInfo n.id fun i => ⟨ei.fofs, i.len + ei.len, ei.blk⟩).nodes =
        A ++ ⟨n.id, ⟨ei.fofs, n.len + ei.len, ei.blk⟩⟩ :: B ∧
      TreeInv ino others (w.setInfo n.id fun i => ⟨ei.fofs, i.len + ei.len, ei.blk⟩) := by
  have hadj : ei.fofs + ei.len = n.ei.fofs := isExtentMergeable_fofs hm
  have hnodes := setInfo_nodes h.books hn fun i => ⟨ei.fofs, i.len + ei.len, ei.blk⟩
  have ht : InTree (A ++ ([n] ++ B)) := by
    have := h.tree
    rwa [hn] at this
  have hstop : ei.fofs + (n.len + ei.len) = n.stop := by
    show ei.fofs + (n.ei.len + ei.len) = n.ei.fofs + n.ei.len
    omega
  refine ⟨hnodes, ?_, h.largest, h.books.setInfo _ _⟩
  rw [hnodes]
  refine ht.replace ⟨?_, ?_⟩ hgap.below fun b hb => hstop.trans_le (ht.le_fofs b hb)
  · exact Nat.add_pos_right _ hgap.valid.len_pos
  · exact hstop.trans_lt ht.valid_mid.stop_lt

variable (rb) in
/-- Between two extents that both touch it the new one joins them. -/
theorem TreeInv.mergeBoth {prev next : ExtentNode} (h : TreeInv ino others w)
    (hn : w.nodes = A ++ prev :: next :: B) {k : Nat} {blk : Nat}
    (hadj : prev.fofs + (prev.len + k) = next.fofs) :
    (releaseExtentNode rb ((w.setInfo prev.id fun i => { i with len := i.len + k }).setInfo
        next.id fun i => ⟨prev.fofs, i.len + (prev.len + k), blk⟩) prev.id).nodes =
        A ++ ⟨next.id, ⟨prev.fofs, next.len + (prev.len + k), blk⟩⟩ :: B ∧
      TreeInv ino others (releaseExtentNode rb
        ((w.setInfo prev.id fun i => { i with len := i.len + k }).setInfo next.id
          fun i => ⟨prev.fofs, i.len + (prev.len + k), blk⟩) prev.id) := by
  set w₁ := w.setInfo prev.id fun i => { i with len := i.len + k } with hw₁
  set w₂ := w₁.setInfo next.id fun i => ⟨prev.fofs, i.len + (prev.len + k), blk⟩ with hw₂
  have hnodes₁ : w₁.nodes =
      (A ++ [⟨prev.id, { prev.ei with len := prev.len + k }⟩]) ++ next :: B := by
    rw [hw₁, setInfo_nodes h.books hn, List.append_cons]
  have hbooks₁ : Books ino others w₁ := h.books.setInfo _ _
  have hnodes₂ := setInfo_nodes hbooks₁ hnodes₁
    fun i => ⟨prev.fofs, i.len + (prev.len + k), blk⟩
  rw [← List.append_cons] at hnodes₂
  have hbooks₂ : Books ino others w₂ := hbooks₁.setInfo _ _
  obtain ⟨hnodes₃, hbooks₃⟩ := releaseExtentNode_spec rb hbooks₂ hnodes₂
  have ht : InTree (A ++ ([prev, next] ++ B)) := by
    have := h.tree
    rwa [hn] at this
  have ht' : InTree ((A ++ [prev]) ++ next :: B) := by simpa using ht
  have hstop : prev.fofs + (next.len + (prev.len + k)) = next.stop := by
    show prev.fofs + (next.len + (prev.len + k)) = next.fofs + next.len
    omega
  refine ⟨hnodes₃, ?_, h.largest, hbooks₃⟩
  rw [hnodes₃]
  refine ht.replace ⟨?_, ?_⟩ ht.stop_le fun b hb => hstop.trans_le (ht'.le_fofs b hb)
  · exact Nat.add_pos_left ht'.valid_mid.len_pos _
  · exact hstop.trans_lt ht'.valid_mid.stop_lt

theorem mem_ids_of_nodes (hn : w.nodes = A ++ n :: B) {en : Nat} (hid : n.id = en) :
    en ∈ w.ids := by
  rw [LockedTree.ids, hn, ← hid]
  simp

variable (rb) in
/-- Merging the new extent into a neighbour. -/
theorem tryMergeExtentNode_spec (h : TreeInv ino others w) (hn : w.nodes = A ++ B)
    (hgap : Gap ei A B) {p q : Option ExtentNode} (hp : p = none ∨ p = A.getLast?)
    (hq : q = B.head?) {w' : LockedTree} (hmerge : tryMergeExtentNode rb w ei p q = some w') :
    TreeInv ino others w' := by
  unfold tryMergeExtentNode at hmerge
  cases hback : mergeTarget (isBackMergeable ei) p with
  | none =>
    cases hfront : mergeTarget (isFrontMergeable ei) q with
    | none =>
      simp only [hback, hfront] at hmerge
      cases hmerge
    | some next =>
      simp only [hback, hfront] at hmerge
      obtain ⟨hnext, hm⟩ := mergeTarget_some hfront
      obtain ⟨B', rfl⟩ := List.head?_eq_some_iff.mp (hq.symm.trans hnext)
      obtain ⟨hnodes, hinv⟩ := h.mergeFront hn hgap hm
      rw [← Option.some.inj hmerge]
      exact hinv.merged (mem_ids_of_nodes hnodes rfl)
  | some prev =>
    obtain ⟨hprev, hmb⟩ := mergeTarget_some hback
    have hlast : A.getLast? = some prev := by
      rcases hp with hp | hp
      · rw [hprev] at hp
        cases hp
      · exact hp.symm.trans hprev
    obtain ⟨A', rfl⟩ := List.getLast?_eq_some_iff.mp hlast
    rw [← List.append_cons] at hn
    obtain ⟨hnodes, hinv⟩ := h.mergeBack hn hgap hmb
    cases hfront : mergeTarget (isFrontMergeable { prev.ei with len := prev.len + ei.len }) q with
    | none =>
      simp only [hback, hfront] at hmerge
      rw [← Option.some.inj hmerge]
      exact hinv.merged (mem_ids_of_nodes hnodes rfl)
    | some next =>
      simp only [hback, hfront] at hmerge
      obtain ⟨hnext, hm⟩ := mergeTarget_some hfront
      obtain ⟨B', rfl⟩ := List.head?_eq_some_iff.mp (hq.symm.trans hnext)
      obtain ⟨hnodes, hinv⟩ := h.mergeBoth rb hn (isExtentMergeable_fofs hm)
      rw [← Option.some.inj hmerge]
      exact hinv.merged (mem_ids_of_nodes hnodes rfl)

variable (rb) in
/-- A new node goes into the gap, at the place that was found before if there is one. -/
theorem insertExtentTree_spec (h : TreeInv ino others w) (hn : w.nodes = A ++ B)
    (hgap : Gap ei A B) {s : Option Slot} (hs : ∀ sl, s = some sl → LinksNew w sl A B)
    (alloc : Bool) :
    ∃ w' r, insertExtentTree rb w ei s alloc = some (w', r) ∧ TreeInv ino others w' ∧
      (r = none ∧ w' = w ∨ r = some w.nextId ∧ w'.nodes = A ++ ⟨w.nextId, ei⟩ :: B) := by
  have hlt : ∀ b ∈ B, ei.fofs < b.fofs := fun b hb =>
    lt_of_lt_of_le (Nat.lt_add_of_pos_right hgap.valid.len_pos) (hgap.above b hb)
  have hfree : ∀ n ∈ w.et.root.toList,
      ¬(ExtentNode.fofs n ≤ ei.fofs ∧ ei.fofs < ExtentNode.fofs n + ExtentNode.len n) := by
    intro n hmem hin
    have hmem' : n ∈ A ++ B := hn ▸ hmem
    rcases List.mem_append.mp hmem' with ha | hb
    · exact absurd hin.2 (not_lt.mpr (hgap.below n ha))
    · exact absurd hin.1 (not_le.mpr (hlt n hb))
  obtain ⟨sl, hslot, hlinks⟩ : ∃ sl,
      s.or (w.et.root.slotFor ExtentNode.fofs ExtentNode.len ExtentNode.id ei.fofs) = some sl ∧
        LinksNew w sl A B := by
    cases s with
    | some sl => exact ⟨sl, rfl, hs sl rfl⟩
    | none =>
      obtain ⟨sl, A', B', hfor, hold, hbetween, hlink⟩ :=
        slotFor_spec h.tree.ordered h.books.ids_nodup hfree
      obtain ⟨rfl, rfl⟩ := hbetween.unique ⟨hgap.below, hlt⟩ (hold.symm.trans hn)
      exact ⟨sl, hfor, fun ei => hlink _⟩
  unfold insertExtentTree
  rw [hslot, Option.map_some]
  cases alloc with
  | false => exact ⟨w, none, rfl, h, .inl ⟨rfl, rfl⟩⟩
  | true =>
    obtain ⟨w₁, hattach, hnodes, hlargest, hbooks⟩ := attachExtentNode_spec rb h.books hn hlinks ei
    rw [hattach]
    have ht : InTree w₁.nodes := by
      have hold : InTree (A ++ ([] ++ B)) := by
        have := h.tree
        rwa [hn] at this
      rw [hnodes]
      exact hold.replace hgap.valid hgap.below hgap.above
    have hl := largest_tryUpdateLargestExtent ht (hlargest ▸ h.largest) w.nextId
    refine ⟨_, _, rfl, ⟨?_, hl, ?_⟩, .inr ⟨rfl, ?_⟩⟩
    · rw [LockedTree.nodes_setCached, LockedTree.nodes_listAddTail, nodes_tryUpdateLargestExtent]
      exact ht
    · obtain ⟨ei', heq⟩ := tryUpdateLargestExtent_eq w₁ w.nextId
      rw [heq]
      exact hbooks.setLargest ei'
    · rw [LockedTree.nodes_setCached, LockedTree.nodes_listAddTail, nodes_tryUpdateLargestExtent,
        hnodes]

variable (rb) in
/-- The first node of a tree. -/
theorem initExtentTree_spec (h : TreeInv ino others w) (hnil : w.nodes = []) (hv : ei.Valid)
    (alloc : Bool) : TreeInv ino others (initExtentTree rb w ei alloc) := by
  unfold initExtentTree
  cases alloc with
  | false => exact h
  | true =>
    have hlinks : LinksNew w .root [] [] := fun _ => rfl
    obtain ⟨w₁, hattach, hnodes, -, hbooks⟩ := attachExtentNode_spec rb h.books hnil hlinks ei
    rw [hattach]
    refine ⟨?_, hv.stop_lt, hbooks.setLargest ei⟩
    show InTree w₁.nodes
    rw [hnodes]
    exact InTree.nil.replace (A := []) (M := []) hv (fun a ha => absurd ha List.not_mem_nil)
      fun b hb => absurd hb List.not_mem_nil

/-! ## The loop -/

/-- At the head of the loop: `A` is done with, `B` is still to be looked at. -/
structure ScanInv (ino : Nat) (others : List (Nat × Nat)) (pos stop : Nat) (s : RangeScan)
    (A B : List ExtentNode) : Prop where
  inv : TreeInv ino others s.w
  nodes : s.w.nodes = A ++ B
  en : s.en = B.head?.map ExtentNode.id
  below : ∀ a ∈ A, a.stop ≤ pos
  above : ∀ b ∈ B, pos < b.stop
  prev : s.prevEn = none ∨ s.prevEn = A.getLast?.map ExtentNode.id
  next : s.nextEn = s.en ∨ ∃ n ∈ B.head?, n.fofs < stop
  slot : ∀ sl, s.slot = some sl → LinksNew s.w sl A B ∧ ∀ b ∈ B, pos ≤ b.fofs

/-- The extents that the loop has to change. -/
def toChange (stop : Nat) (l : List ExtentNode) : Nat := l.countP fun n => decide (n.fofs < stop)

variable {s : RangeScan} {pos stop : Nat} {alloc : ExtentInfo → Bool}

theorem keepsFront_eq {dei : ExtentInfo} (h : keepsFront dei pos = true) : dei.fofs < pos :=
  of_decide_eq_true (Bool.and_eq_true_iff.mp h).1

theorem keepsBack_eq {dei : ExtentInfo} (h : keepsBack dei stop = true) : stop < dei.stop :=
  of_decide_eq_true (Bool.and_eq_true_iff.mp h).1

theorem rbNext_eq (h : Books ino others w) (hn : w.nodes = A ++ n :: B) {en : Nat}
    (hid : n.id = en) : w.rbNext en = B.head? :=
  hid ▸ (h.at_nodes hn).rbNext_eq

/-- Both in front of the range and behind it an extent may be cut. -/
theorem ScanInv.cutFront (h : ScanInv ino others pos stop s A (n :: B)) (hlt : n.fofs < pos) :
    (cutFront s.w n.id pos).nodes = (A ++ [⟨n.id, { n.ei with len := pos - n.fofs }⟩]) ++ B ∧
      TreeInv ino others (cutFront s.w n.id pos) ∧
      ∀ a ∈ A ++ [⟨n.id, { n.ei with len := pos - n.fofs }⟩], a.stop ≤ pos := by
  have hnodes := setInfo_nodes h.inv.books h.nodes fun i => { i with len := pos - i.fofs }
  have ht : InTree (A ++ ([n] ++ B)) := by
    have := h.inv.tree
    rwa [h.nodes] at this
  have hn := h.above n List.mem_cons_self
  have hstop : n.fofs + (pos - n.fofs) = pos := Nat.add_sub_cancel' hlt.le
  refine ⟨hnodes.trans (List.append_cons ..), ⟨?_, h.inv.largest, h.inv.books.setInfo _ _⟩, ?_⟩
  · show InTree (s.w.setInfo n.id fun i => { i with len := pos - i.fofs }).nodes
    rw [hnodes]
    refine ht.replace ⟨Nat.sub_pos_of_lt hlt, ?_⟩ ht.stop_le fun b hb => ?_
    · exact hstop.trans_lt (hn.trans ht.valid_mid.stop_lt)
    · exact hstop.trans_le (hn.le.trans (ht.le_fofs b hb))
  · intro a ha
    rcases List.mem_append.mp ha with ha | ha
    · exact h.below a ha
    · rw [List.mem_singleton.mp ha]
      exact hstop.le

theorem ScanInv.cutBack (h : ScanInv ino others pos stop s A (n :: B)) (hlt : n.fofs < stop)
    (hps : pos < stop) (hback : stop < n.stop) (blk : ExtentInfo → Nat) :
    (s.w.setInfo n.id fun i => ⟨stop, i.len - (stop - n.fofs), blk i⟩).nodes =
        A ++ ⟨n.id, ⟨stop, n.len - (stop - n.fofs), blk n.ei⟩⟩ :: B ∧
      TreeInv ino others (s.w.setInfo n.id fun i => ⟨stop, i.len - (stop - n.fofs), blk i⟩) ∧
      stop + (n.len - (stop - n.fofs)) = n.stop := by
  have hnodes := setInfo_nodes h.inv.books h.nodes
    fun i => ⟨stop, i.len - (stop - n.fofs), blk i⟩
  have ht : InTree (A ++ ([n] ++ B)) := by
    have := h.inv.tree
    rwa [h.nodes] at this
  have hback' : stop < n.fofs + n.len := hback
  have hstop : stop + (n.len - (stop - n.fofs)) = n.fofs + n.len := by omega
  refine ⟨hnodes, ⟨?_, h.inv.largest, h.inv.books.setInfo _ _⟩, hstop⟩
  rw [hnodes]
  refine ht.replace ⟨?_, ?_⟩ (fun a ha => (h.below a ha).trans hps.le) fun b hb => ?_
  · show 0 < n.len - (stop - n.fofs)
    omega
  · exact hstop.trans_lt ht.valid_mid.stop_lt
  · exact hstop.trans_le (ht.le_fofs b hb)

/-- The state behind an iteration that keeps something of the extent. -/
theorem ScanInv.resume {w₁ : LockedTree} {prevEn : Option Nat} {slot : Option Slot}
    {dei : ExtentInfo} (en : Nat) (hinv : TreeInv ino others w₁) (hnodes : w₁.nodes = A ++ B)
    (hbelow : ∀ a ∈ A, a.stop ≤ pos) (habove : ∀ b ∈ B, pos < b.stop)
    (hprev : prevEn = none ∨ prevEn = A.getLast?.map ExtentNode.id)
    (hslot : ∀ sl, slot = some sl → LinksNew w₁ sl A B ∧ ∀ b ∈ B, pos ≤ b.fofs) :
    ScanInv ino others pos stop ⟨tryUpdateLargestExtent w₁ en, B.head?.map ExtentNode.id, prevEn,
      B.head?.map ExtentNode.id, slot, dei⟩ A B := by
  obtain ⟨ei, heq⟩ := tryUpdateLargestExtent_eq w₁ en
  refine ⟨hinv.tryUpdateLargest en, ?_, rfl, hbelow, habove, hprev, .inl rfl, fun sl hsl => ?_⟩
  · rw [nodes_tryUpdateLargestExtent, hnodes]
  · rw [heq]
    exact hslot sl hsl

variable (rb alloc) in
theorem invalidateNode_spec (h : ScanInv ino others pos stop s A (n :: B)) (hlt : n.fofs < stop)
    (hps : pos < stop) :
    ∃ s' A' B', invalidateNode rb s n pos stop alloc = some s' ∧
      ScanInv ino others pos stop s' A' B' ∧ s'.nextEn = s'.en ∧
      toChange stop B' ≤ toChange stop B := by
  have hnpos := h.above n List.mem_cons_self
  have ht : InTree (A ++ n :: B) := by
    have := h.inv.tree
    rwa [h.nodes] at this
  have hB : ∀ b ∈ B, pos < b.stop := fun b hb => h.above b (List.mem_cons_of_mem _ hb)
  unfold invalidateNode
  cases hfront : keepsFront n.ei pos with
  | true =>
    have hf := keepsFront_eq hfront
    obtain ⟨hnodes, hinv, hbelow⟩ := h.cutFront hf
    have hlast : some n.id =
        (A ++ [⟨n.id, { n.ei with len := pos - n.fofs }⟩] : List ExtentNode).getLast?.map
          ExtentNode.id := by
      rw [List.getLast?_concat]
      rfl
    have hnext : (Extent.cutFront s.w n.id pos).rbNext n.id = B.head? :=
      rbNext_eq hinv.books (hnodes.trans (List.append_cons ..).symm) rfl
    cases hback : keepsBack n.ei stop with
    | true =>
      have hb := keepsBack_eq hback
      set ei : ExtentInfo := ⟨stop, n.ei.fofs + n.ei.len - stop,
        u32 (stop - n.ei.fofs + n.ei.blk)⟩ with hei
      have hgap : Gap ei (A ++ [⟨n.id, { n.ei with len := pos - n.fofs }⟩]) B := by
        have hstop : stop + (n.ei.fofs + n.ei.len - stop) = n.stop := Nat.add_sub_cancel' hb.le
        refine ⟨⟨Nat.sub_pos_of_lt hb, ?_⟩, fun a ha => (hbelow a ha).trans hps.le, fun b hb' => ?_⟩
        · exact hstop.trans_lt ht.valid_mid.stop_lt
        · exact hstop.trans_le (ht.le_fofs b hb')
      obtain ⟨w₂, r, hins, hinv₂, hr⟩ := insertExtentTree_spec rb hinv hnodes hgap
        (s := none) (fun _ hs => by cases hs) (alloc ei)
      have hcut : Extent.cutBack rb (Extent.cutFront s.w n.id pos) n.id n.ei stop true alloc =
          some (w₂, r) := hins
      simp only [hfront, hback, if_true, Bool.or_true, hcut, Option.map_some]
      rcases hr with ⟨rfl, rfl⟩ | ⟨rfl, hnodes₂⟩
      · simp only [hnext, Option.none_or]
        exact ⟨_, _, B, rfl, ScanInv.resume n.id hinv hnodes hbelow hB (.inr hlast)
          (fun _ hs => by cases hs), rfl, le_rfl⟩
      · rw [Option.some_or]
        refine ⟨_, _, _ :: B, rfl, ScanInv.resume n.id hinv₂ hnodes₂ hbelow (fun b hb' => ?_)
          (.inr hlast) (fun _ hs => by cases hs), rfl, ?_⟩
        · rcases List.mem_cons.mp hb' with rfl | hb'
          · exact hps.trans (Nat.lt_add_of_pos_right hgap.valid.len_pos)
          · exact hB b hb'
        · exact (List.countP_cons_of_neg (by simp [hei])).le
    | false =>
      simp only [hfront, hback, hnext, if_true, Bool.or_false, Bool.false_eq_true, if_false,
        Option.map_some, Option.none_or]
      refine ⟨_, _, B, rfl, ScanInv.resume n.id hinv hnodes hbelow hB (.inr hlast) ?_, rfl, le_rfl⟩
      intro sl hsl
      exact absurd ((h.slot sl hsl).2 n List.mem_cons_self) (not_le.mpr hf)
  | false =>
    cases hback : keepsBack n.ei stop with
    | true =>
      have hb := keepsBack_eq hback
      obtain ⟨hnodes, hinv, hstop⟩ := h.cutBack hlt hps hb
        fun i => u32 (i.blk + (stop - n.fofs))
      simp only [hfront, hback, if_true, Bool.or_true, Bool.false_eq_true, if_false,
        Extent.cutBack, Option.map_some, Option.some_or]
      refine ⟨_, A, _ :: B, rfl, ScanInv.resume n.id hinv hnodes h.below (fun b hb' => ?_) h.prev
        (fun sl hsl => ?_), rfl, ?_⟩
      · rcases List.mem_cons.mp hb' with rfl | hb'
        · exact hnpos.trans_eq hstop.symm
        · exact hB b hb'
      · obtain ⟨hlinks, hle⟩ := h.slot sl hsl
        refine ⟨hlinks.setInfo h.inv.books h.nodes _, fun b hb' => ?_⟩
        rcases List.mem_cons.mp hb' with rfl | hb'
        · exact hps.le
        · exact hle b (List.mem_cons_of_mem _ hb')
      · exact (List.countP_cons_of_neg (by simp)).le
    | false =>
      obtain ⟨hnodes, -⟩ := releaseExtentNode_spec rb h.inv.books h.nodes
      have hnext : s.w.rbNext n.id = B.head? := rbNext_eq h.inv.books h.nodes rfl
      simp only [hfront, hback, hnext, Bool.or_false, Bool.false_eq_true, if_false,
        Option.map_some, Option.none_or]
      exact ⟨_, A, B, rfl, ⟨h.inv.release rb h.nodes, hnodes, rfl, h.below, hB, h.prev,
        .inl rfl, fun _ hs => by cases hs⟩, rfl, le_rfl⟩

/-- Where the loop ends: the range is free, and `next_en` is the extent behind it. -/
structure ScanDone (ino : Nat) (others : List (Nat × Nat)) (pos stop : Nat) (s : RangeScan)
    (A B : List ExtentNode) : Prop where
  inv : TreeInv ino others s.w
  nodes : s.w.nodes = A ++ B
  below : ∀ a ∈ A, a.stop ≤ pos
  above : ∀ b ∈ B, stop ≤ b.fofs
  prev : s.prevEn = none ∨ s.prevEn = A.getLast?.map ExtentNode.id
  next : s.nextEn = B.head?.map ExtentNode.id
  slot : ∀ sl, s.slot = some sl → LinksNew s.w sl A B

theorem ScanInv.done (h : ScanInv ino others pos stop s A B)
    (hend : ∀ n ∈ B.head?, stop ≤ n.fofs) : ScanDone ino others pos stop s A B := by
  have ht : InTree (A ++ B) := by
    have := h.inv.tree
    rwa [h.nodes] at this
  refine ⟨h.inv, h.nodes, h.below, fun b hb => ?_, h.prev, ?_, fun sl hsl => (h.slot sl hsl).1⟩
  · cases B with
    | nil => cases hb
    | cons n B =>
      have hn := hend n rfl
      rcases List.mem_cons.mp hb with rfl | hb
      · exact hn
      · exact hn.trans ((Nat.le_add_right _ _).trans (ht.le_fofs b hb))
  · rcases h.next with hnext | ⟨n, hn, hlt⟩
    · exact hnext.trans h.en
    · exact absurd (hend n hn) (not_le.mpr hlt)

variable (rb alloc) in
theorem invalidateRange_spec (hps : pos < stop) (fuel : Nat) :
    ∀ {s : RangeScan} {A B : List ExtentNode}, ScanInv ino others pos stop s A B →
      toChange stop B < fuel → ∃ s' A' B', invalidateRange rb pos stop alloc fuel s = some s' ∧
        ScanDone ino others pos stop s' A' B' := by
  induction fuel with
  | zero => exact fun _ hfuel => absurd hfuel (Nat.not_lt_zero _)
  | succ fuel ih =>
    intro s A B h hfuel
    unfold invalidateRange
    rw [h.en]
    cases B with
    | nil => exact ⟨s, A, [], rfl, h.done fun n hn => by cases hn⟩
    | cons n B =>
      have hget : s.w.get n.id = some n := (h.inv.books.at_nodes h.nodes).get_eq
      simp only [List.head?_cons, Option.map_some, hget, Option.bind_eq_bind, Option.bind_some]
      by_cases hlt : n.fofs < stop
      · obtain ⟨s', A', B', hstep, hinv, -, hle⟩ := invalidateNode_spec rb alloc h hlt hps
        have hcount : toChange stop (n :: B) = toChange stop B + 1 :=
          List.countP_cons_of_pos (decide_eq_true hlt)
        rw [if_pos hlt, hstep, Option.bind_some]
        exact ih hinv (by omega)
      · rw [if_neg hlt]
        exact ⟨s, A, n :: B, rfl, h.done fun m hm => Option.some.inj hm ▸ not_lt.mp hlt⟩

/-! ## The whole function -/

theorem get_getLast? (h : Books ino others w) (hn : w.nodes = A ++ B) :
    (A.getLast?.map ExtentNode.id).bind w.get = A.getLast? := by
  rcases List.eq_nil_or_concat A with rfl | ⟨A, a, rfl⟩
  · rfl
  · rw [List.concat_eq_append, ← List.append_cons] at hn
    rw [List.concat_eq_append, List.getLast?_concat]
    exact (h.at_nodes hn).get_eq

theorem get_head? (h : Books ino others w) (hn : w.nodes = A ++ B) :
    (B.head?.map ExtentNode.id).bind w.get = B.head? := by
  cases B with
  | nil => rfl
  | cons b B => exact (h.at_nodes hn).get_eq

theorem cached_mem (w : LockedTree) : ∀ n, w.et.cachedEn.bind w.get = some n →
    n ∈ w.et.root.toList := by
  intro n hn
  obtain ⟨en, -, hget⟩ := Option.bind_eq_some_iff.mp hn
  exact List.mem_of_find?_eq_some hget

/-- The first search leaves the loop at the first extent that the range can touch. -/
theorem startScan_spec (h : TreeInv ino others w) {fofs : Nat} (hlt : fofs < stop) :
    ∃ A B, ScanInv ino others fofs stop (startScan w fofs) A B := by
  have hfound := lookupRet_spec h.tree.ordered h.books.ids_nodup
    (fun n hn => (h.tree.valid n hn).len_pos) (cached_mem w) fofs false
  unfold startScan
  dsimp only
  generalize w.et.root.lookupRet ExtentNode.fofs ExtentNode.len ExtentNode.id
    (w.et.cachedEn.bind w.get) fofs false = r at hfound ⊢
  rcases hfound with ⟨A, n, B, hit⟩ | ⟨A, B, miss⟩
  · have ht : InTree (A ++ n :: B) := by
      have := h.tree
      rwa [show w.nodes = A ++ n :: B from hit.toList] at this
    refine ⟨A, n :: B, h, hit.toList, by rw [hit.entry]; rfl, fun a ha => ?_, fun b hb => ?_, ?_,
      .inr ⟨n, rfl, hit.ofs_le.trans_lt hlt⟩, fun sl hsl => ?_⟩
    · exact (ht.stop_le a ha).trans hit.ofs_le
    · have hn : fofs < n.stop := hit.lt_end
      rcases List.mem_cons.mp hb with rfl | hb
      · exact hn
      · exact hn.trans_le ((ht.le_fofs b hb).trans (Nat.le_add_right _ _))
    · rcases hit.prev with hprev | hprev
      · exact .inl (by rw [hprev]; rfl)
      · exact .inr (by rw [hprev])
    · rw [hit.slot] at hsl
      cases hsl
  · refine ⟨A, B, h, miss.toList, by rw [miss.entry, miss.next, Option.none_or], miss.between.1,
      fun b hb => ?_, .inr (by rw [miss.prev]), .inl (by rw [miss.entry, Option.none_or]),
      fun sl hsl => ⟨fun ei => miss.slot sl hsl _, fun b hb => (miss.between.2 b hb).le⟩⟩
    exact (miss.between.2 b hb).trans_le (Nat.le_add_right _ _)

variable (rb alloc) in
theorem placeExtent_spec (h : ScanDone ino others pos stop s A B) (hv : ei.Valid)
    (hpos : ei.fofs = pos) (hstop : ei.stop = stop) :
    ∃ w', placeExtent rb s ei alloc = some w' ∧ TreeInv ino others w' := by
  have hgap : Gap ei A B :=
    ⟨hv, fun a ha => (h.below a ha).trans_eq hpos.symm, fun b hb => hstop.trans_le (h.above b hb)⟩
  have hprev : s.prevEn.bind s.w.get = none ∨ s.prevEn.bind s.w.get = A.getLast? := by
    rcases h.prev with hprev | hprev
    · exact .inl (by rw [hprev]; rfl)
    · exact .inr (by rw [hprev, get_getLast? h.inv.books h.nodes])
  have hnext : s.nextEn.bind s.w.get = B.head? := by rw [h.next, get_head? h.inv.books h.nodes]
  unfold placeExtent
  cases hmerge : tryMergeExtentNode rb s.w ei (s.prevEn.bind s.w.get) (s.nextEn.bind s.w.get) with
  | some w' => exact ⟨w', rfl, tryMergeExtentNode_spec rb h.inv h.nodes hgap hprev hnext hmerge⟩
  | none =>
    obtain ⟨w', r, hins, hinv, -⟩ := insertExtentTree_spec rb h.inv h.nodes hgap h.slot (alloc ei)
    exact ⟨w', by rw [hins]; rfl, hinv⟩

variable (rb alloc) in
/-- The function ends, with the invariant. -/
theorem updateExtentTreeRange_spec (h : TreeInv ino others w) {fofs len : Nat} (hlen : 1 ≤ len)
    (hstop : fofs + len < 2 ^ 32) (blkaddr : Nat) :
    ∃ w' noExtent, updateExtentTreeRange rb w fofs blkaddr len alloc = some (w', noExtent) ∧
      TreeInv ino others w' := by
  have hlt : fofs < fofs + len := Nat.lt_add_of_pos_right hlen
  obtain ⟨A, B, hscan⟩ := startScan_spec (h.dropLargest fofs len) hlt
  have hfuel : toChange (fofs + len) B < (dropLargestExtent w fofs len).nodes.length + 2 := by
    have hcount : toChange (fofs + len) B ≤ B.length := List.countP_le_length
    have hnodes : (dropLargestExtent w fofs len).nodes = A ++ B := hscan.nodes
    rw [hnodes, List.length_append]
    omega
  obtain ⟨s, A', B', hloop, hdone⟩ := invalidateRange_spec rb alloc hlt _ hscan hfuel
  unfold updateExtentTreeRange
  simp only [hloop, Option.bind_eq_bind, Option.bind_some]
  by_cases hblk : blkaddr = 0
  · rw [if_pos hblk]
    exact ⟨s.w, false, rfl, hdone.inv⟩
  · have hv : ExtentInfo.Valid ⟨fofs, len, blkaddr⟩ := ⟨hlen, hstop⟩
    obtain ⟨w', hplace, hinv⟩ := placeExtent_spec rb alloc hdone hv rfl rfl
    rw [if_neg hblk, hplace, Option.bind_some]
    split
    · exact ⟨_, true, rfl, (hinv.dropLargest 0 uintMax).free⟩
    · exact ⟨w', false, rfl, hinv⟩

end

end F2fs.Extent

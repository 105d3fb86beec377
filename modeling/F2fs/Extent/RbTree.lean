/-
  The lookups in a red-black tree of ranges (`extent_cache.c`), which the extent cache and the
  discard commands share.

  The loops go down the tree by one comparison with the offset and one with the end of the
  entry, an unsigned sum that may wrap (`walk`).  What they find is settled by the ranges in
  order alone, as long as no end wraps (`RangeTree`): the range that contains the offset, or
  the last one in front of it and the first one behind it.
-/
import F2fs.Lib.TreePointers

namespace F2fs.Extent

open IntervalTree

/-! ## The lookups -/

/-- `struct rb_entry`, with its address. -/
structure RbEntry where
  ptr : Nat
  ofs : UInt32
  len : UInt32
  deriving DecidableEq, Repr

/-- Where a way down the tree ends: at an entry that contains the offset, or at a child pointer
    that is null, with the node that it belongs to. -/
inductive Walk where
  | hit (re : RbEntry)
  | miss (parent : Option RbEntry) (pnode : Slot)
  deriving DecidableEq, Repr

/-- `while (*pnode)`, in the tree behind `pnode`. -/
def walk (ofs : UInt32) : SearchTree RbEntry → Option RbEntry → Slot → Walk
  | .leaf, parent, pnode => .miss parent pnode
  | .node _ left re right, _, _ =>
    if ofs < re.ofs then walk ofs left (some re) (.child re.ptr true)
    else if ofs ≥ re.ofs + re.len then walk ofs right (some re) (.child re.ptr false)
    else .hit re

/-- `__lookup_rb_tree_fast`. -/
def lookupRbTreeFast (cachedRe : Option RbEntry) (ofs : UInt32) : Option RbEntry :=
  match cachedRe with
  | some re => if re.ofs ≤ ofs ∧ re.ofs + re.len > ofs then some re else none
  | none => none

/-- `__lookup_rb_tree_slow`. -/
def lookupRbTreeSlow (root : SearchTree RbEntry) (ofs : UInt32) : Option RbEntry :=
  match walk ofs root none .root with
  | .hit re => some re
  | .miss _ _ => none

/-- `__lookup_rb_tree`. -/
def lookupRbTree (root : SearchTree RbEntry) (cachedRe : Option RbEntry) (ofs : UInt32) :
    Option RbEntry :=
  match lookupRbTreeFast cachedRe ofs with
  | none => lookupRbTreeSlow root ofs
  | some re => some re

/-- `__lookup_rb_tree_for_insert`, with `*parent`. At an entry that contains the offset
    `f2fs_bug_on` only warns, and the loop stays there for good. -/
def lookupRbTreeForInsert (root : SearchTree RbEntry) (ofs : UInt32) :
    Option (Option RbEntry × Slot) :=
  match walk ofs root none .root with
  | .hit _ => none
  | .miss parent p => some (parent, p)

/-- What `__lookup_rb_tree_ret` returns and stores. -/
structure RbFound where
  re : Option RbEntry
  prevEntry : Option RbEntry
  nextEntry : Option RbEntry
  insertP : Option Slot
  insertParent : Option RbEntry
  deriving DecidableEq, Repr

/-- `lookup_neighbors`. -/
def lookupNeighbors (root : SearchTree RbEntry) (re : RbEntry) (ofs : UInt32) (force : Bool) :
    RbFound where
  re := some re
  prevEntry := if ofs = re.ofs ∨ force then root.rbPrev RbEntry.ptr re.ptr else none
  nextEntry := if ofs = re.ofs + re.len - 1 ∨ force then root.rbNext RbEntry.ptr re.ptr else none
  insertP := none
  insertParent := none

/-- The neighbours of an offset that no entry contains, from the last node visited. -/
def lookupAround (root : SearchTree RbEntry) (parent : Option RbEntry) (pnode : Slot)
    (ofs : UInt32) : RbFound where
  re := none
  prevEntry := parent.bind fun re =>
    if ofs < re.ofs then root.rbPrev RbEntry.ptr re.ptr else some re
  nextEntry := parent.bind fun re =>
    if ofs > re.ofs then root.rbNext RbEntry.ptr re.ptr else some re
  insertP := some pnode
  insertParent := parent

/-- `__lookup_rb_tree_ret`. -/
def lookupRbTreeRet (root : SearchTree RbEntry) (cachedRe : Option RbEntry) (ofs : UInt32)
    (force : Bool) : RbFound :=
  match root with
  | .leaf => ⟨none, none, none, none, none⟩
  | root =>
    match lookupRbTreeFast cachedRe ofs with
    | some re => lookupNeighbors root re ofs force
    | none =>
      match walk ofs root none .root with
      | .hit re => lookupNeighbors root re ofs force
      | .miss parent pnode => lookupAround root parent pnode ofs

/-! ## Ranges -/

/-- The first unit of a range. -/
abbrev RbEntry.start (re : RbEntry) : Nat := re.ofs.toNat

abbrev RbEntry.size (re : RbEntry) : Nat := re.len.toNat

/-- A search tree of disjoint ranges with units, whose ends do not wrap. -/
structure RangeTree where
  root : SearchTree RbEntry
  bst : root.Bst RbEntry.start
  disjoint : root.toList.Pairwise fun a b =>
    a.start + a.size ≤ b.start ∨ b.start + b.size ≤ a.start
  nonEmpty : ∀ re ∈ root.toList, 0 < re.size
  noWrap : ∀ re ∈ root.toList, re.start + re.size < 2 ^ 32
  /-- the nodes have different addresses -/
  ptrs : (root.toList.map RbEntry.ptr).Nodup

theorem RangeTree.ordered (t : RangeTree) :
    Ordered RbEntry.start RbEntry.size t.root.toList := by
  refine ((SearchTree.bst_iff.mp t.bst).and t.disjoint).imp_of_mem fun {a b} ha _ h => ?_
  have hpos := t.nonEmpty a ha
  omega

theorem RbEntry.end_eq {re : RbEntry} (h : re.start + re.size < 2 ^ 32) :
    (re.ofs + re.len).toNat = re.start + re.size := by
  rw [UInt32.toNat_add, Nat.mod_eq_of_lt h]

/-- The comparisons at a node, in numbers. -/
theorem walk_node {ofs : UInt32} {c : Bool} {l r : SearchTree RbEntry} {y : RbEntry}
    (hy : y.start + y.size < 2 ^ 32) (parent : Option RbEntry) (pnode : Slot) :
    walk ofs (.node c l y r) parent pnode =
      if ofs.toNat < y.start then walk ofs l (some y) (.child y.ptr true)
      else if y.start + y.size ≤ ofs.toNat then walk ofs r (some y) (.child y.ptr false)
      else .hit y := by
  simp only [walk, UInt32.lt_iff_toNat_lt, ge_iff_le, UInt32.le_iff_toNat_le, RbEntry.end_eq hy]

/-- An entry that a way down ends at contains the offset. -/
theorem walk_hit {ofs : UInt32} {re : RbEntry} (t : SearchTree RbEntry)
    (hwrap : ∀ re ∈ t.toList, re.start + re.size < 2 ^ 32) :
    ∀ {parent : Option RbEntry} {pnode : Slot}, walk ofs t parent pnode = .hit re →
      re ∈ t.toList ∧ re.start ≤ ofs.toNat ∧ ofs.toNat < re.start + re.size := by
  induction t with
  | leaf => exact nofun
  | node c l y r ihl ihr =>
    intro parent pnode h
    rw [walk_node (hwrap y (by simp))] at h
    split_ifs at h with hlt hge
    · obtain ⟨hmem, hin⟩ := ihl (fun a ha => hwrap a (by simp [ha])) h
      exact ⟨by simp [hmem], hin⟩
    · obtain ⟨hmem, hin⟩ := ihr (fun b hb => hwrap b (by simp [hb])) h
      exact ⟨by simp [hmem], hin⟩
    · cases h
      exact ⟨by simp, by omega, by omega⟩

/-- A way down that ends at a null pointer is the one of the search on numbers. -/
theorem walk_miss {ofs : UInt32} {parent' : Option RbEntry} {pnode' : Slot}
    (t : SearchTree RbEntry) (hwrap : ∀ re ∈ t.toList, re.start + re.size < 2 ^ 32)
    (hne : t ≠ .leaf) :
    ∀ (base : Nat) (pi : Option Nat) {parent : Option RbEntry} {pnode : Slot},
    walk ofs t parent pnode = .miss parent' pnode' →
      ∃ i re, descend RbEntry.start RbEntry.size ofs.toNat t base pi = .miss (some (base + i)) ∧
        t.toList[i]? = some re ∧ parent' = some re ∧
        pnode' = .child re.ptr (decide (ofs < re.ofs)) := by
  induction t with
  | leaf => exact absurd rfl hne
  | node c l y r ihl ihr =>
    intro base pi parent pnode h
    have hroot : (SearchTree.node c l y r).toList[l.size]? = some y := by
      rw [SearchTree.toList_node, ← l.length_toList]
      exact getElem?_length l.toList (y :: r.toList)
    rw [walk_node (hwrap y (by simp))] at h
    rw [descend]
    by_cases hlt : ofs.toNat < y.start
    · rw [if_pos hlt] at h ⊢
      by_cases hleaf : l = .leaf
      · subst hleaf
        cases h
        exact ⟨0, y, rfl, hroot, rfl, by rw [decide_eq_true (UInt32.lt_iff_toNat_lt.mpr hlt)]⟩
      · obtain ⟨i, re, hd, hget, hre⟩ := ihl (fun a ha => hwrap a (by simp [ha])) hleaf _ _ h
        refine ⟨i, re, hd, ?_, hre⟩
        rw [SearchTree.toList_node, List.getElem?_append_left]
        · exact hget
        · exact (List.getElem?_eq_some_iff.mp hget).1
    · rw [if_neg hlt] at h ⊢
      by_cases hge : y.start + y.size ≤ ofs.toNat
      · rw [if_pos hge] at h ⊢
        by_cases hleaf : r = .leaf
        · subst hleaf
          cases h
          refine ⟨l.size, y, rfl, hroot, rfl, ?_⟩
          rw [decide_eq_false fun hofs => hlt (UInt32.lt_iff_toNat_lt.mp hofs)]
        · obtain ⟨i, re, hd, hget, hre⟩ := ihr (fun b hb => hwrap b (by simp [hb])) hleaf _ _ h
          refine ⟨l.size + 1 + i, re, hd.trans (congrArg _ (congrArg some (by omega))), ?_, hre⟩
          rw [SearchTree.toList_node, List.getElem?_append_right (by
            rw [l.length_toList]; omega), l.length_toList,
            show l.size + 1 + i - l.size = i + 1 by omega, List.getElem?_cons_succ]
          exact hget
      · rw [if_neg hge] at h
        cases h

/-! ## What is found -/

/-- `A` are the ranges that end at or in front of `ofs`, and `B` those behind it. -/
structure Uncovered (t : SearchTree RbEntry) (ofs : UInt32) (A B : List RbEntry) : Prop where
  toList : t.toList = A ++ B
  front : ∀ re ∈ A, re.start + re.size ≤ ofs.toNat
  behind : ∀ re ∈ B, ofs.toNat < re.start

/-- `re` contains `ofs`, and lies between `A` and `B`. -/
structure Covered (t : SearchTree RbEntry) (ofs : UInt32) (A : List RbEntry) (re : RbEntry)
    (B : List RbEntry) : Prop where
  toList : t.toList = A ++ re :: B
  start_le : re.start ≤ ofs.toNat
  lt_end : ofs.toNat < re.start + re.size

/-- A range that is found. -/
structure FoundRange (A : List RbEntry) (re : RbEntry) (B : List RbEntry) (ofs : UInt32)
    (force : Bool) (r : RbFound) : Prop where
  found : r.re = some re
  prevEntry : ofs = re.ofs ∨ force = true → r.prevEntry = A.getLast?
  nextEntry : ofs.toNat + 1 = re.start + re.size ∨ force = true → r.nextEntry = B.head?
  insertP : r.insertP = none

/-- A range that starts at `ofs` and is linked at `p` comes between `A` and `B`, and the tree
    remains a search tree. -/
structure PlaceFor (t : SearchTree RbEntry) (A B : List RbEntry) (ofs : UInt32) (p : Slot) :
    Prop where
  links : LinksAt RbEntry.ptr t p A B
  bst : ∀ z : RbEntry, z.ofs = ofs → (t.linkAt RbEntry.ptr p z).Bst RbEntry.start

/-- No range is found. -/
structure FoundGap (t : SearchTree RbEntry) (A B : List RbEntry) (ofs : UInt32) (r : RbFound) :
    Prop where
  found : r.re = none
  prevEntry : r.prevEntry = A.getLast?
  nextEntry : r.nextEntry = B.head?
  insertP : t ≠ .leaf → ∃ p, r.insertP = some p ∧ PlaceFor t A B ofs p
  /-- in the empty tree no place is reported -/
  empty : t = .leaf → r.insertP = none

variable {t : RangeTree} {ofs : UInt32} {A B : List RbEntry} {re : RbEntry}

theorem lookupNeighbors_found (h : Covered t.root ofs A re B) (force : Bool) :
    FoundRange A re B ofs force (lookupNeighbors t.root re ofs force) := by
  have hat := at_of_nodup t.ptrs h.toList
  have hmem : re ∈ t.root.toList := by rw [h.toList]; simp
  refine ⟨rfl, fun hfirst => ?_, fun hlast => ?_, rfl⟩
  · exact (if_pos hfirst).trans hat.rbPrev_eq
  · refine (if_pos (hlast.imp_left fun hofs => ?_)).trans hat.rbNext_eq
    have hend := RbEntry.end_eq (t.noWrap re hmem)
    have hle : (1 : UInt32) ≤ re.ofs + re.len := by
      rw [UInt32.le_iff_toNat_le, hend, ← hofs]
      exact Nat.le_add_left 1 _
    refine UInt32.toNat_inj.mp ?_
    rw [UInt32.toNat_sub_of_le _ _ hle, hend, ← hofs]
    rfl

/-- The test of the cached entry. -/
theorem lookupRbTreeFast_some {cachedRe : Option RbEntry}
    (hcached : ∀ re, cachedRe = some re → re ∈ t.root.toList)
    (h : lookupRbTreeFast cachedRe ofs = some re) :
    re ∈ t.root.toList ∧ re.start ≤ ofs.toNat ∧ ofs.toNat < re.start + re.size := by
  cases cachedRe with
  | none => cases h
  | some y =>
    have hmem := hcached y rfl
    simp only [lookupRbTreeFast, UInt32.le_iff_toNat_le, gt_iff_lt, UInt32.lt_iff_toNat_lt,
      RbEntry.end_eq (t.noWrap y hmem)] at h
    split_ifs at h with hin
    cases h
    exact ⟨hmem, hin⟩

theorem Covered.of_mem (hmem : re ∈ t.root.toList) (hle : re.start ≤ ofs.toNat)
    (hlt : ofs.toNat < re.start + re.size) : ∃ A B, Covered t.root ofs A re B := by
  obtain ⟨A, B, hl⟩ := List.append_of_mem hmem
  exact ⟨A, B, hl, hle, hlt⟩

/-- Between the ranges in front and those behind there is the place for a new one. -/
theorem Uncovered.place {p : Slot} (h : Uncovered t.root ofs A B)
    (hlinks : LinksAt RbEntry.ptr t.root p A B) : PlaceFor t.root A B ofs p := by
  refine ⟨hlinks, fun z hz => SearchTree.bst_iff.mpr ?_⟩
  have hsorted := SearchTree.bst_iff.mp t.bst
  rw [h.toList] at hsorted
  obtain ⟨hA, hB, hAB⟩ := List.pairwise_append.mp hsorted
  have hstart : z.start = ofs.toNat := congrArg UInt32.toNat hz
  rw [hlinks z]
  refine List.pairwise_append.mpr ⟨hA, List.pairwise_cons.mpr ⟨fun b hb => ?_, hB⟩, ?_⟩
  · rw [hstart]
    exact h.behind b hb
  · intro a ha b hb
    rcases List.mem_cons.mp hb with rfl | hb
    · have hfront := h.front a ha
      have hpos := t.nonEmpty a (h.toList ▸ List.mem_append_left B ha)
      omega
    · exact hAB a ha b hb

/-- The last node visited is one of the two neighbours of the offset. -/
theorem lookupAround_found {parent : Option RbEntry} {pnode : Slot} (hne : t.root ≠ .leaf)
    (hwalk : walk ofs t.root none .root = .miss parent pnode) :
    ∃ A B, Uncovered t.root ofs A B ∧ PlaceFor t.root A B ofs pnode ∧
      FoundGap t.root A B ofs (lookupAround t.root parent pnode ofs) := by
  obtain ⟨i, y, hd, hget, rfl, rfl⟩ :=
    walk_miss t.root t.noWrap hne 0 none hwalk
  obtain ⟨i', y', A, B, hi, hl, hy, hb, hlinks⟩ :=
    descend_parent t.root t.ordered t.ptrs hne hd
  have hsame : y' = y := by
    have hget' := hy.getElem?
    rw [← hl, show i' = i by simpa using hi.symm, hget] at hget'
    exact (Option.some.inj hget').symm
  subst hsame
  have hside : decide (ofs < y'.ofs) = decide (ofs.toNat < y'.start) :=
    decide_eq_decide.mpr UInt32.lt_iff_toNat_lt
  rw [hside]
  have hmem : y' ∈ t.root.toList := List.mem_of_getElem? hget
  have hpos := t.nonEmpty y' hmem
  have hun : Uncovered t.root ofs A B := ⟨hl, hb.1, hb.2⟩
  have hplace := hun.place hlinks
  refine ⟨A, B, hun, hplace, ?_⟩
  suffices hnear : (lookupAround t.root (some y') (.child y'.ptr (decide (ofs.toNat < y'.start)))
        ofs).prevEntry = A.getLast? ∧
      (lookupAround t.root (some y') (.child y'.ptr (decide (ofs.toNat < y'.start)))
        ofs).nextEntry = B.head? from
    ⟨rfl, hnear.1, hnear.2, fun _ => ⟨_, rfl, hplace⟩, fun h => absurd h hne⟩
  have hstart : y'.ofs.toNat = y'.start := rfl
  unfold lookupAround
  simp only [Option.bind_some, UInt32.lt_iff_toNat_lt, gt_iff_lt, hstart]
  rcases hy with ⟨A', rfl, -⟩ | ⟨B', rfl, -⟩
  · have hfront := hb.1 y' (by simp)
    rw [← List.append_cons] at hl
    rw [if_neg (by omega), if_pos (by omega), (at_of_nodup t.ptrs hl).rbNext_eq,
      List.getLast?_concat]
    exact ⟨rfl, rfl⟩
  · have hbehind := hb.2 y' (by simp)
    rw [if_pos hbehind, if_neg (by omega), (at_of_nodup t.ptrs hl).rbPrev_eq]
    exact ⟨rfl, rfl⟩

/-- `__lookup_rb_tree_ret` behind the test for an empty tree. -/
theorem lookupRbTreeRet_node (hne : t.root ≠ .leaf) (cachedRe : Option RbEntry) (force : Bool) :
    lookupRbTreeRet t.root cachedRe ofs force =
      match lookupRbTreeFast cachedRe ofs with
      | some re => lookupNeighbors t.root re ofs force
      | none =>
        match walk ofs t.root none .root with
        | .hit re => lookupNeighbors t.root re ofs force
        | .miss parent pnode => lookupAround t.root parent pnode ofs := by
  cases hroot : t.root with
  | leaf => exact absurd hroot hne
  | node c l x r => rfl

/-- A way down that ends at a null pointer: the offset lies in a gap. -/
theorem walk_gap {parent : Option RbEntry} {pnode : Slot}
    (hwalk : walk ofs t.root none .root = .miss parent pnode) :
    ∃ A B, Uncovered t.root ofs A B ∧ PlaceFor t.root A B ofs pnode ∧
      ∀ force, FoundGap t.root A B ofs (lookupRbTreeRet t.root none ofs force) := by
  by_cases hleaf : t.root = .leaf
  · have hun : Uncovered t.root ofs [] [] := by
      rw [hleaf]
      exact ⟨rfl, nofun, nofun⟩
    rw [hleaf] at hwalk
    cases hwalk
    refine ⟨[], [], hun, hun.place ?_, fun force => ?_⟩
    · rw [hleaf]
      exact fun _ => rfl
    · rw [hleaf]
      exact ⟨rfl, rfl, rfl, fun h => absurd rfl h, fun _ => rfl⟩
  · obtain ⟨A, B, hun, hplace, hfound⟩ := lookupAround_found hleaf hwalk
    refine ⟨A, B, hun, hplace, fun force => ?_⟩
    rw [lookupRbTreeRet_node hleaf, lookupRbTreeFast]
    simp only [hwalk]
    exact hfound

/-- A cached entry that does not contain the offset does not matter. -/
theorem lookupRbTreeRet_uncached {cachedRe : Option RbEntry}
    (h : lookupRbTreeFast cachedRe ofs = none) (force : Bool) :
    lookupRbTreeRet t.root cachedRe ofs force = lookupRbTreeRet t.root none ofs force := by
  by_cases hleaf : t.root = .leaf
  · rw [hleaf]
    rfl
  · rw [lookupRbTreeRet_node hleaf, lookupRbTreeRet_node hleaf, h]
    rfl

/-- The lookups find the range that contains the offset, with its neighbours, or the gap that
    the offset lies in. -/
theorem lookupRbTree_agrees (t : RangeTree) {cachedRe : Option RbEntry}
    (hcached : ∀ re, cachedRe = some re → re ∈ t.root.toList) (ofs : UInt32) (force : Bool) :
    (∃ A re B, Covered t.root ofs A re B ∧ lookupRbTree t.root cachedRe ofs = some re ∧
      FoundRange A re B ofs force (lookupRbTreeRet t.root cachedRe ofs force)) ∨
    ∃ A B, Uncovered t.root ofs A B ∧ lookupRbTree t.root cachedRe ofs = none ∧
      FoundGap t.root A B ofs (lookupRbTreeRet t.root cachedRe ofs force) ∧
      ∃ parent p, lookupRbTreeForInsert t.root ofs = some (parent, p) ∧
        PlaceFor t.root A B ofs p := by
  have hroot : ∀ re ∈ t.root.toList, t.root ≠ .leaf := fun re hmem hleaf => by
    rw [hleaf] at hmem
    cases hmem
  cases hfast : lookupRbTreeFast cachedRe ofs with
  | some re =>
    obtain ⟨hmem, hle, hlt⟩ := lookupRbTreeFast_some hcached hfast
    obtain ⟨A, B, hcov⟩ := Covered.of_mem hmem hle hlt
    refine .inl ⟨A, re, B, hcov, by rw [lookupRbTree, hfast], ?_⟩
    rw [lookupRbTreeRet_node (hroot re hmem), hfast]
    exact lookupNeighbors_found hcov force
  | none =>
    rw [lookupRbTree, hfast, lookupRbTreeRet_uncached hfast, lookupRbTreeForInsert]
    simp only [lookupRbTreeSlow]
    cases hwalk : walk ofs t.root none .root with
    | hit re =>
      obtain ⟨hmem, hle, hlt⟩ := walk_hit t.root t.noWrap hwalk
      obtain ⟨A, B, hcov⟩ := Covered.of_mem hmem hle hlt
      refine .inl ⟨A, re, B, hcov, rfl, ?_⟩
      rw [lookupRbTreeRet_node (hroot re hmem), lookupRbTreeFast]
      simp only [hwalk]
      exact lookupNeighbors_found hcov force
    | miss parent p =>
      obtain ⟨A, B, hun, hplace, hfound⟩ := walk_gap hwalk
      exact .inr ⟨A, B, hun, rfl, hfound force, parent, p, rfl, hplace⟩

/-! ## Two trees -/

/-- The ranges 10 to 13 and 20 to 24. -/
def twoRanges : RangeTree where
  root := .node false .leaf ⟨1, 10, 4⟩ (.node true .leaf ⟨2, 20, 5⟩ .leaf)
  bst := ⟨trivial, ⟨trivial, trivial, nofun, nofun⟩, nofun, by decide⟩
  disjoint := by decide
  nonEmpty := by decide
  noWrap := by decide
  ptrs := by decide

def emptyRanges : RangeTree where
  root := .leaf
  bst := trivial
  disjoint := .nil
  nonEmpty := nofun
  noWrap := nofun
  ptrs := .nil

/-- The gap at 15, looked up with the first range as the cached one. -/
theorem twoRanges_agrees :
    (∃ A re B, Covered twoRanges.root 15 A re B ∧
      lookupRbTree twoRanges.root (some ⟨1, 10, 4⟩) 15 = some re ∧
      FoundRange A re B 15 true (lookupRbTreeRet twoRanges.root (some ⟨1, 10, 4⟩) 15 true)) ∨
    ∃ A B, Uncovered twoRanges.root 15 A B ∧
      lookupRbTree twoRanges.root (some ⟨1, 10, 4⟩) 15 = none ∧
      FoundGap twoRanges.root A B 15
        (lookupRbTreeRet twoRanges.root (some ⟨1, 10, 4⟩) 15 true) ∧
      ∃ parent p, lookupRbTreeForInsert twoRanges.root 15 = some (parent, p) ∧
        PlaceFor twoRanges.root A B 15 p := by
  refine lookupRbTree_agrees twoRanges (fun re hre => ?_) 15 true
  cases hre
  exact List.mem_cons_self

/-- In the empty tree no place is reported. -/
theorem emptyRanges_noPlace :
    Uncovered emptyRanges.root 0 [] [] ∧
      ¬∃ p, (lookupRbTreeRet emptyRanges.root none 0 false).insertP = some p ∧
        PlaceFor emptyRanges.root [] [] 0 p :=
  ⟨⟨rfl, nofun, nofun⟩, fun ⟨_, hp, _⟩ => nomatch hp⟩

end F2fs.Extent

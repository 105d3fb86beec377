/-
  Pointers into a binary search tree of intervals.

  An entry carries an `id`, which stands for its address: entries are read, changed in place
  and taken out through it (`At`).  A place to link a new entry is a child pointer that is
  null (`Slot`).  A place that was found earlier is still the right one after an entry behind
  it was changed in place (`At.linkAt_modify`), whatever its interval is by then.
-/
import F2fs.Lib.IntervalTree

universe u

namespace IntervalTree

variable {α : Type u}

/-! ## Changing ordered intervals -/

section Ordered

variable {ofs len : α → Nat} {A M B : List α} {y : α}

/-- One interval in the place of several. -/
theorem Ordered.replace (h : Ordered ofs len (A ++ (M ++ B)))
    (hA : ∀ a ∈ A, ofs a + len a ≤ ofs y) (hB : ∀ b ∈ B, ofs y + len y ≤ ofs b) :
    Ordered ofs len (A ++ y :: B) := by
  obtain ⟨hoA, hoMB, hAMB⟩ := Ordered.append.mp h
  obtain ⟨-, hoB, -⟩ := Ordered.append.mp hoMB
  refine Ordered.append.mpr ⟨hoA, Ordered.cons.mpr ⟨hB, hoB⟩, fun a ha b hb => ?_⟩
  rcases List.mem_cons.mp hb with rfl | hb
  · exact hA a ha
  · exact hAMB a ha b (List.mem_append_right _ hb)

theorem Ordered.drop (h : Ordered ofs len (A ++ y :: B)) : Ordered ofs len (A ++ B) :=
  h.sublist (List.Sublist.append_left (List.sublist_cons_self _ _) _)

theorem Ordered.end_le (h : Ordered ofs len (A ++ y :: B)) : ∀ a ∈ A, ofs a + len a ≤ ofs y :=
  fun a ha => (Ordered.append.mp h).2.2 a ha y List.mem_cons_self

theorem Ordered.le_ofs (h : Ordered ofs len (A ++ y :: B)) : ∀ b ∈ B, ofs y + len y ≤ ofs b :=
  fun b hb => (Ordered.cons.mp (Ordered.append.mp h).2.1).1 b hb

end Ordered

/-! ## Entries behind pointers -/

section Pointers

variable (id : α → Nat)

/-- The entry at `p`. -/
def SearchTree.get (t : SearchTree α) (p : Nat) : Option α :=
  t.toList.find? fun y => decide (id y = p)

/-- Write through the pointer `p`. -/
def SearchTree.modify (t : SearchTree α) (p : Nat) (f : α → α) : SearchTree α :=
  t.map fun y => if id y = p then f y else y

/-- The place of the entry at `p` in order. -/
def SearchTree.indexOf (t : SearchTree α) (p : Nat) : Nat :=
  t.toList.findIdx fun y => decide (id y = p)

/-- `rb_next`. -/
def SearchTree.rbNext (t : SearchTree α) (p : Nat) : Option α :=
  t.toList[t.indexOf id p + 1]?

/-- `rb_prev`. -/
def SearchTree.rbPrev (t : SearchTree α) (p : Nat) : Option α :=
  before t.toList (t.indexOf id p)

/-- An entry and the entries around it. -/
structure At (t : SearchTree α) (A : List α) (y : α) (B : List α) : Prop where
  toList : t.toList = A ++ y :: B
  before : ∀ a ∈ A, id a ≠ id y
  after : ∀ b ∈ B, id b ≠ id y

variable {id} {t : SearchTree α} {A B : List α} {y : α}

theorem at_of_nodup (hids : (t.toList.map id).Nodup) (h : t.toList = A ++ y :: B) :
    At id t A y B := by
  rw [h, List.map_append, List.map_cons, List.nodup_append, List.nodup_cons] at hids
  obtain ⟨-, ⟨hB, -⟩, hA⟩ := hids
  refine ⟨h, fun a ha heq => ?_, fun b hb heq => ?_⟩
  · exact hA _ (List.mem_map_of_mem ha) _ List.mem_cons_self heq
  · exact hB (heq ▸ List.mem_map_of_mem hb)

namespace At

theorem get_eq (h : At id t A y B) : t.get id (id y) = some y := by
  have hnone : A.find? (fun c => decide (id c = id y)) = none :=
    List.find?_eq_none.mpr fun a ha => by simp [h.before a ha]
  rw [SearchTree.get, h.toList, List.find?_append, hnone, List.find?_cons]
  simp

theorem modify_eq (h : At id t A y B) (f : α → α) :
    (t.modify id (id y) f).toList = A ++ f y :: B := by
  rw [SearchTree.modify, SearchTree.toList_map, h.toList, List.map_append, List.map_cons,
    if_pos rfl]
  refine congrArg₂ (· ++ ·) ?_ (congrArg _ ?_)
  · exact (List.map_congr_left fun a ha => if_neg (h.before a ha)).trans (List.map_id A)
  · exact (List.map_congr_left fun b hb => if_neg (h.after b hb)).trans (List.map_id B)

theorem indexOf_eq (h : At id t A y B) : t.indexOf id (id y) = A.length := by
  have hnone : A.findIdx (fun c => decide (id c = id y)) = A.length :=
    List.findIdx_eq_length_of_false fun a ha => by simp [h.before a ha]
  rw [SearchTree.indexOf, h.toList, List.findIdx_append, hnone, if_neg (lt_irrefl _),
    List.findIdx_cons]
  simp

theorem rbNext_eq (h : At id t A y B) : t.rbNext id (id y) = B.head? := by
  rw [SearchTree.rbNext, h.indexOf_eq, h.toList, getElem?_length_succ]

theorem rbPrev_eq (h : At id t A y B) : t.rbPrev id (id y) = A.getLast? := by
  rw [SearchTree.rbPrev, h.indexOf_eq, h.toList, before_append]

theorem erase_eq (h : At id t A y B) (rb : Rebalance α) :
    (rb.erase t (t.indexOf id (id y))).toList = A ++ B := by
  rw [rb.toList_erase, h.indexOf_eq, h.toList, List.eraseIdx_append_of_length_le le_rfl,
    Nat.sub_self, List.eraseIdx_cons_zero]

end At

end Pointers

/-! ## Child pointers -/

/-- A child pointer: that of the tree itself, or one of the two of a node. -/
inductive Slot where
  | root
  | child (parent : Nat) (left : Bool)
  deriving DecidableEq, Repr

section Slots

variable (id : α → Nat)

/-- `*p = node` for a child pointer of the node at `p`; what hung there is lost. -/
def SearchTree.linkChild (t : SearchTree α) (p : Nat) (left : Bool) (z : α) : SearchTree α :=
  match t with
  | .leaf => .leaf
  | .node c l y r =>
    if id y = p then
      if left then .node c (.node true .leaf z .leaf) y r
      else .node c l y (.node true .leaf z .leaf)
    else .node c (l.linkChild p left z) y (r.linkChild p left z)

/-- `rb_link_node`. -/
def SearchTree.linkAt (t : SearchTree α) (s : Slot) (z : α) : SearchTree α :=
  match s with
  | .root => .node true .leaf z .leaf
  | .child p left => t.linkChild id p left z

/-- Whatever is linked at `s` comes between `A` and `B`. -/
def LinksAt (t : SearchTree α) (s : Slot) (A B : List α) : Prop :=
  ∀ z, (t.linkAt id s z).toList = A ++ z :: B

variable {id}

theorem linkChild_of_forall_ne {t : SearchTree α} {p : Nat} (h : ∀ y ∈ t.toList, id y ≠ p)
    (left : Bool) (z : α) : t.linkChild id p left z = t := by
  induction t with
  | leaf => rfl
  | node c l y r ihl ihr =>
      rw [SearchTree.linkChild, if_neg (h y (by simp)), ihl fun a ha => h a (by simp [ha]),
        ihr fun a ha => h a (by simp [ha])]

theorem map_linkChild {f : α → α} (hf : ∀ y, id (f y) = id y) (t : SearchTree α) (p : Nat)
    (left : Bool) (z : α) :
    (t.linkChild id p left z).map f = (t.map f).linkChild id p left (f z) := by
  induction t with
  | leaf => rfl
  | node c l y r ihl ihr =>
      rw [SearchTree.linkChild, SearchTree.map, SearchTree.linkChild, hf]
      split_ifs
      · rfl
      · rfl
      · rw [SearchTree.map, ihl, ihr]

theorem map_linkAt {f : α → α} (hf : ∀ y, id (f y) = id y) (t : SearchTree α) (s : Slot)
    (z : α) : (t.linkAt id s z).map f = (t.map f).linkAt id s (f z) := by
  cases s with
  | root => rfl
  | child p left => exact map_linkChild hf t p left z

end Slots

/-! ## Finding a place -/

section Search

variable (ofs len id : α → Nat)

/-- The child pointer where the way down for `x` ends; an entry on it that contains `x`
    leaves none. -/
def SearchTree.slotFor (t : SearchTree α) (x : Nat) : Option Slot :=
  match descend ofs len x t 0 none with
  | .hit _ => none
  | .miss none => some .root
  | .miss (some i) => t.toList[i]?.map fun y => .child (id y) (decide (x < ofs y))

variable {ofs len id}

/-- Entry number `i`, at the end of one list or at the head of the other. -/
def Beside (i : Nat) (y : α) (pre post : List α) : Prop :=
  (∃ pre', pre = pre' ++ [y] ∧ i = pre'.length) ∨ ∃ post', post = y :: post' ∧ i = pre.length

theorem Beside.getElem? {i : Nat} {y : α} {pre post : List α} (h : Beside i y pre post) :
    (pre ++ post)[i]? = some y := by
  rcases h with ⟨pre', rfl, rfl⟩ | ⟨post', rfl, rfl⟩
  · rw [← List.append_cons]
    exact getElem?_length pre' (y :: post)
  · exact getElem?_length pre (y :: post')

/-- The last node on the way down is next to the offset, and its pointer on the side of the
    offset is null. -/
theorem descend_parent {x : Nat} (t : SearchTree α) : ∀ {base : Nat} {parent p : Option Nat},
    Ordered ofs len t.toList → (t.toList.map id).Nodup → t ≠ .leaf →
    descend ofs len x t base parent = .miss p →
      ∃ i y pre post, p = some (base + i) ∧ t.toList = pre ++ post ∧ Beside i y pre post ∧
        Between ofs len x pre post ∧
          LinksAt id t (.child (id y) (decide (x < ofs y))) pre post := by
  induction t with
  | leaf => exact fun _ _ hne => absurd rfl hne
  | node c l y r ihl ihr =>
      intro base parent p ho hids _ h
      rw [SearchTree.toList_node] at ho hids
      obtain ⟨hol, hor, -⟩ := Ordered.append.mp ho
      have hor := (Ordered.cons.mp hor).2
      rw [List.map_append, List.map_cons, List.nodup_append, List.nodup_cons] at hids
      obtain ⟨hidl, ⟨hyr, hidr⟩, hlr⟩ := hids
      have hly : ∀ a ∈ l.toList, id a ≠ id y := fun a ha =>
        hlr _ (List.mem_map_of_mem ha) _ List.mem_cons_self
      have hry : ∀ b ∈ r.toList, id b ≠ id y := fun b hb heq =>
        hyr (heq ▸ List.mem_map_of_mem hb)
      have hrl : ∀ a ∈ l.toList, ∀ b ∈ r.toList, id a ≠ id b := fun a ha b hb =>
        hlr _ (List.mem_map_of_mem ha) _ (List.mem_cons_of_mem _ (List.mem_map_of_mem hb))
      rw [descend] at h
      split_ifs at h with hlt hge
      · have hbelow := ho.below hlt
        by_cases hleaf : l = .leaf
        · subst hleaf
          cases h
          refine ⟨0, y, [], y :: r.toList, rfl, rfl, .inr ⟨_, rfl, rfl⟩, ⟨by simp, hbelow⟩,
            fun z => ?_⟩
          simp [SearchTree.linkAt, SearchTree.linkChild, hlt]
        · obtain ⟨i, w, pre, post, rfl, hl, hw, ⟨hpre, hpost⟩, hlink⟩ := ihl hol hidl hleaf h
          have hmem : w ∈ l.toList := hl ▸ List.mem_of_getElem? hw.getElem?
          refine ⟨i, w, pre, post ++ y :: r.toList, rfl, by simp [hl], ?_, ⟨hpre, fun b hb => ?_⟩,
            fun z => ?_⟩
          · rcases hw with hw | ⟨post', rfl, hi⟩
            · exact .inl hw
            · exact .inr ⟨post' ++ y :: r.toList, rfl, hi⟩
          · exact (List.mem_append.mp hb).elim (hpost b) (hbelow b)
          · have hz := hlink z
            rw [SearchTree.linkAt] at hz ⊢
            rw [SearchTree.linkChild, if_neg (hly w hmem).symm,
              linkChild_of_forall_ne fun b hb => (hrl w hmem b hb).symm, SearchTree.toList_node,
              hz, List.append_assoc, List.cons_append]
      · have habove := ho.above hge
        by_cases hleaf : r = .leaf
        · subst hleaf
          cases h
          refine ⟨l.size, y, l.toList ++ [y], [], rfl, by simp,
            .inl ⟨l.toList, rfl, l.length_toList.symm⟩, ⟨habove, by simp⟩, fun z => ?_⟩
          simp [SearchTree.linkAt, SearchTree.linkChild, hlt]
        · obtain ⟨i, w, pre, post, rfl, hr, hw, ⟨hpre, hpost⟩, hlink⟩ := ihr hor hidr hleaf h
          have hmem : w ∈ r.toList := hr ▸ List.mem_of_getElem? hw.getElem?
          refine ⟨l.size + 1 + i, w, l.toList ++ y :: pre, post, congrArg some (by omega),
            by simp [hr], ?_, ⟨fun a ha => ?_, hpost⟩, fun z => ?_⟩
          · rcases hw with ⟨pre', rfl, rfl⟩ | ⟨post', rfl, rfl⟩
            · refine .inl ⟨l.toList ++ y :: pre', by simp, ?_⟩
              rw [List.length_append, List.length_cons, l.length_toList]
              omega
            · refine .inr ⟨post', rfl, ?_⟩
              rw [List.length_append, List.length_cons, l.length_toList]
              omega
          · rw [List.append_cons] at ha
            exact (List.mem_append.mp ha).elim (habove a) (hpre a)
          · have hz := hlink z
            rw [SearchTree.linkAt] at hz ⊢
            rw [SearchTree.linkChild, if_neg (hry w hmem).symm,
              linkChild_of_forall_ne fun a ha => hrl a ha w hmem, SearchTree.toList_node, hz,
              List.append_assoc, List.cons_append]

/-- The place for an offset that no entry contains. -/
theorem slotFor_spec {t : SearchTree α} (ho : Ordered ofs len t.toList)
    (hids : (t.toList.map id).Nodup) {x : Nat}
    (hx : ∀ y ∈ t.toList, ¬ (ofs y ≤ x ∧ x < ofs y + len y)) :
    ∃ s pre post, t.slotFor ofs len id x = some s ∧ t.toList = pre ++ post ∧
      Between ofs len x pre post ∧ LinksAt id t s pre post := by
  by_cases hleaf : t = .leaf
  · subst hleaf
    exact ⟨.root, [], [], rfl, rfl, ⟨by simp, by simp⟩, fun _ => rfl⟩
  unfold SearchTree.slotFor
  cases hd : descend ofs len x t 0 none with
  | hit i =>
      obtain ⟨pre, y, post, hl, -, hy⟩ := descend_hit t hd
      exact absurd hy (hx y (by simp [hl]))
  | miss p =>
      obtain ⟨i, y, pre, post, rfl, hl, hy, hb, hlink⟩ := descend_parent t ho hids hleaf hd
      refine ⟨_, pre, post, ?_, hl, hb, hlink⟩
      simp only [Nat.zero_add, hl, hy.getElem?, Option.map_some]

/-- Writing through a pointer behind the place does not move the place. -/
theorem At.linkAt_modify {t : SearchTree α} {A B : List α} {y z : α} {s : Slot}
    (h : At id t A y B) (hs : (t.linkAt id s z).toList = A ++ z :: y :: B) (hz : id z ≠ id y)
    {f : α → α} (hf : ∀ y, id (f y) = id y) :
    ((t.modify id (id y) f).linkAt id s z).toList = A ++ z :: f y :: B := by
  have hg : ∀ v, id (if id v = id y then f v else v) = id v := by
    intro v
    split
    · exact hf v
    · rfl
  have hA : A.map (fun v => if id v = id y then f v else v) = A :=
    (List.map_congr_left fun a ha => if_neg (h.before a ha)).trans (List.map_id A)
  have hB : B.map (fun v => if id v = id y then f v else v) = B :=
    (List.map_congr_left fun b hb => if_neg (h.after b hb)).trans (List.map_id B)
  have hlink := map_linkAt hg t s z
  rw [if_neg hz] at hlink
  rw [SearchTree.modify, ← hlink, SearchTree.toList_map, hs, List.map_append, List.map_cons,
    List.map_cons, if_neg hz, if_pos rfl, hA, hB]

/-! ## The search with a cached entry -/

variable (ofs len id)

/-- An entry found, with its neighbours where they are looked up, or the neighbours of the
    offset and the place for it. -/
structure Found (α : Type u) where
  entry : Option α
  prev : Option α
  next : Option α
  slot : Option Slot

/-- `__lookup_rb_tree`. -/
def SearchTree.lookupEntry (t : SearchTree α) (cached : Option α) (x : Nat) : Option α :=
  (cached.filter fun y => decide (ofs y ≤ x ∧ x < ofs y + len y)).or <|
    match descend ofs len x t 0 none with
    | .hit i => t.toList[i]?
    | .miss _ => none

/-- `lookup_neighbors` for entry number `i`. -/
def neighbours (l : List α) (i : Nat) (y : α) (x : Nat) (force : Bool) : Found α where
  entry := some y
  prev := if x = ofs y ∨ force = true then before l i else none
  next := if x = ofs y + len y - 1 ∨ force = true then l[i + 1]? else none
  slot := none

/-- Go down from the root for `x`. -/
def SearchTree.lookupSlow (t : SearchTree α) (x : Nat) (force : Bool) : Found α :=
  match descend ofs len x t 0 none with
  | .hit i =>
    match t.toList[i]? with
    | none => ⟨none, none, none, none⟩
    | some y => neighbours ofs len t.toList i y x force
  | .miss none => ⟨none, none, none, none⟩
  | .miss (some i) =>
    match t.toList[i]? with
    | none => ⟨none, none, none, none⟩
    | some y =>
      { entry := none
        prev := if x < ofs y then before t.toList i else some y
        next := if ofs y < x then t.toList[i + 1]? else some y
        slot := some (.child (id y) (decide (x < ofs y))) }

/-- `__lookup_rb_tree_ret`. -/
def SearchTree.lookupRet (t : SearchTree α) (cached : Option α) (x : Nat) (force : Bool) :
    Found α :=
  match t, cached with
  | .leaf, _ => ⟨none, none, none, none⟩
  | t, some y =>
    if ofs y ≤ x ∧ x < ofs y + len y then
      neighbours ofs len t.toList (t.indexOf id (id y)) y x force
    else t.lookupSlow ofs len id x force
  | t, none => t.lookupSlow ofs len id x force

/-- The search found the entry `y`. -/
structure Hit (t : SearchTree α) (x : Nat) (r : Found α) (A : List α) (y : α) (B : List α) :
    Prop where
  toList : t.toList = A ++ y :: B
  entry : r.entry = some y
  ofs_le : ofs y ≤ x
  lt_end : x < ofs y + len y
  prev : r.prev = none ∨ r.prev = A.getLast?
  slot : r.slot = none

/-- No entry contains the offset. -/
structure Miss (t : SearchTree α) (x : Nat) (r : Found α) (A B : List α) : Prop where
  toList : t.toList = A ++ B
  between : Between ofs len x A B
  entry : r.entry = none
  prev : r.prev = A.getLast?
  next : r.next = B.head?
  slot : ∀ s, r.slot = some s → LinksAt id t s A B

variable {ofs len id}

theorem neighbours_hit {t : SearchTree α} {x : Nat} {A B : List α} {y : α}
    (ht : t.toList = A ++ y :: B) (hle : ofs y ≤ x) (hlt : x < ofs y + len y) (force : Bool) :
    Hit ofs len t x (neighbours ofs len t.toList A.length y x force) A y B := by
  refine ⟨ht, rfl, hle, hlt, ?_, rfl⟩
  unfold neighbours
  rw [ht, before_append]
  dsimp only
  split
  · exact Or.inr rfl
  · exact Or.inl rfl

theorem lookupSlow_spec {t : SearchTree α} (ho : Ordered ofs len t.toList)
    (hids : (t.toList.map id).Nodup) (hpos : ∀ y ∈ t.toList, 0 < len y) (x : Nat)
    (force : Bool) :
    (∃ A y B, Hit ofs len t x (t.lookupSlow ofs len id x force) A y B) ∨
      ∃ A B, Miss ofs len id t x (t.lookupSlow ofs len id x force) A B := by
  by_cases hleaf : t = .leaf
  · subst hleaf
    exact .inr ⟨[], [], rfl, ⟨by simp, by simp⟩, rfl, rfl, rfl, fun _ h => by cases h⟩
  unfold SearchTree.lookupSlow
  cases hd : descend ofs len x t 0 none with
  | hit i =>
      obtain ⟨A, y, B, hl, hi, hy⟩ := descend_hit t hd
      rw [Nat.zero_add] at hi
      subst hi
      have hget : t.toList[A.length]? = some y := by
        rw [hl]
        exact getElem?_length A (y :: B)
      simp only [hget]
      exact .inl ⟨A, y, B, neighbours_hit hl hy.1 hy.2 force⟩
  | miss p =>
      obtain ⟨i, y, A, B, rfl, hl, hy, hb, hlink⟩ := descend_parent t ho hids hleaf hd
      have hget := hy.getElem?
      have hlen := hpos y (hl ▸ List.mem_of_getElem? hget)
      simp only [Nat.zero_add, hl, hget]
      refine .inr ⟨A, B, hl, hb, rfl, ?_, ?_, fun s hs => Option.some.inj hs ▸ hlink⟩
      · rcases hy with ⟨A', rfl, rfl⟩ | ⟨B', rfl, rfl⟩
        · have hle := hb.1 y (by simp)
          dsimp only
          rw [if_neg (by omega), List.getLast?_concat]
        · have hlt := hb.2 y (by simp)
          dsimp only
          rw [if_pos hlt, before_append]
      · rcases hy with ⟨A', rfl, rfl⟩ | ⟨B', rfl, rfl⟩
        · have hle := hb.1 y (by simp)
          dsimp only
          rw [if_pos (by omega), ← List.append_cons, getElem?_length_succ]
        · have hlt := hb.2 y (by simp)
          dsimp only
          rw [if_neg (by omega), List.head?_cons]

theorem lookupEntry_some {t : SearchTree α} {cached : Option α}
    (hc : ∀ y, cached = some y → y ∈ t.toList) {x : Nat} {y : α}
    (h : t.lookupEntry ofs len cached x = some y) :
    y ∈ t.toList ∧ ofs y ≤ x ∧ x < ofs y + len y := by
  rw [SearchTree.lookupEntry, Option.or_eq_some_iff] at h
  rcases h with h | ⟨-, h⟩
  · obtain ⟨hy, hin⟩ := Option.filter_eq_some_iff.mp h
    exact ⟨hc y hy, of_decide_eq_true hin⟩
  · cases hd : descend ofs len x t 0 none with
    | hit i =>
        obtain ⟨A, z, B, hl, hi, hz⟩ := descend_hit t hd
        simp only [hd, hl, hi, Nat.zero_add] at h
        rw [getElem?_length A (z :: B)] at h
        cases h
        exact ⟨by simp [hl], hz⟩
    | miss p =>
        simp only [hd] at h
        cases h

/-- An entry of the tree as the cached one does not change what is found. -/
theorem lookupRet_spec {t : SearchTree α} (ho : Ordered ofs len t.toList)
    (hids : (t.toList.map id).Nodup) (hpos : ∀ y ∈ t.toList, 0 < len y) {cached : Option α}
    (hc : ∀ y, cached = some y → y ∈ t.toList) (x : Nat) (force : Bool) :
    (∃ A y B, Hit ofs len t x (t.lookupRet ofs len id cached x force) A y B) ∨
      ∃ A B, Miss ofs len id t x (t.lookupRet ofs len id cached x force) A B := by
  have hslow := lookupSlow_spec ho hids hpos x force
  unfold SearchTree.lookupRet
  split
  · exact .inr ⟨[], [], rfl, ⟨by simp, by simp⟩, rfl, rfl, rfl, fun _ h => by cases h⟩
  · rename_i y _
    split
    · rename_i hin
      obtain ⟨A, B, hl⟩ := List.append_of_mem (hc y rfl)
      rw [(at_of_nodup hids hl).indexOf_eq]
      exact .inl ⟨A, y, B, neighbours_hit hl hin.1 hin.2 force⟩
    · exact hslow
  · exact hslow

end Search

end IntervalTree

/-
  Binary search trees of intervals.

  A node holds an entry with an offset and a length.  Searching and linking go down the
  tree by comparing one offset with the entries met; where they end is settled by the
  in-order list alone as long as its intervals are disjoint and in order (`Ordered`):
  `lookup_hit`, `lookup_miss` and `toList_link`.  What rebalancing does besides is left
  open (`Rebalance`): any operations that keep the in-order list.
-/
import Mathlib

universe u

namespace IntervalTree

/-- A binary tree; the colour is for the rebalancing only. -/
inductive SearchTree (α : Type u) where
  | leaf
  | node (red : Bool) (left : SearchTree α) (entry : α) (right : SearchTree α)

namespace SearchTree

variable {α : Type u}

/-- The entries in order. -/
def toList : SearchTree α → List α
  | leaf => []
  | node _ l x r => l.toList ++ x :: r.toList

def size : SearchTree α → Nat
  | leaf => 0
  | node _ l _ r => l.size + 1 + r.size

/-- Entries changed in place. -/
def map (f : α → α) : SearchTree α → SearchTree α
  | leaf => leaf
  | node c l x r => node c (l.map f) (f x) (r.map f)

/-- A search tree for `key`: at each node what is on the left is smaller, and what is on the
    right larger. -/
def Bst (key : α → Nat) : SearchTree α → Prop
  | leaf => True
  | node _ l x r => l.Bst key ∧ r.Bst key ∧ (∀ a ∈ l.toList, key a < key x) ∧
      ∀ b ∈ r.toList, key x < key b

@[simp] theorem toList_leaf : (leaf : SearchTree α).toList = [] := rfl

@[simp] theorem toList_node (c : Bool) (l : SearchTree α) (x : α) (r : SearchTree α) :
    (node c l x r).toList = l.toList ++ x :: r.toList := rfl

theorem length_toList (t : SearchTree α) : t.toList.length = t.size := by
  induction t with
  | leaf => rfl
  | node c l x r ihl ihr =>
      rw [toList_node, List.length_append, List.length_cons, ihl, ihr, size]
      omega

@[simp] theorem toList_map (f : α → α) (t : SearchTree α) : (t.map f).toList = t.toList.map f := by
  induction t with
  | leaf => rfl
  | node c l x r ihl ihr =>
      rw [map, toList_node, ihl, ihr, toList_node, List.map_append, List.map_cons]

/-- A search tree is one whose entries are in order. -/
theorem bst_iff {key : α → Nat} {t : SearchTree α} :
    t.Bst key ↔ t.toList.Pairwise fun a b => key a < key b := by
  induction t with
  | leaf => exact iff_of_true trivial List.Pairwise.nil
  | node c l x r ihl ihr =>
      rw [Bst, ihl, ihr, toList_node, List.pairwise_append, List.pairwise_cons]
      constructor
      · rintro ⟨hl, hr, hlx, hxr⟩
        refine ⟨hl, ⟨hxr, hr⟩, fun a ha b hb => ?_⟩
        rcases List.mem_cons.mp hb with rfl | hb
        · exact hlx a ha
        · exact (hlx a ha).trans (hxr b hb)
      · rintro ⟨hl, ⟨hxr, hr⟩, hcross⟩
        exact ⟨hl, hr, fun a ha => hcross a ha x List.mem_cons_self, hxr⟩

end SearchTree

/-! ## Order -/

section Search

variable {α : Type u} (ofs len : α → Nat)

/-- Disjoint intervals, the smaller offsets first. -/
def Ordered (l : List α) : Prop := l.Pairwise fun a b => ofs a + len a ≤ ofs b

/-- Where the way down for an offset ends: at an entry that contains it, given by its
    place in order, or below the last entry visited, if there was one. -/
inductive Descent where
  | hit (i : Nat)
  | miss (parent : Option Nat)

/-- Go down from a subtree whose first entry is number `base`. -/
def descend (x : Nat) : SearchTree α → Nat → Option Nat → Descent
  | .leaf, _, parent => .miss parent
  | .node _ l y r, base, _ =>
    if x < ofs y then descend x l base (some (base + l.size))
    else if ofs y + len y ≤ x then descend x r (base + l.size + 1) (some (base + l.size))
    else .hit (base + l.size)

/-- The entry found, and its neighbours or those of the offset. -/
structure Neighbours (α : Type u) where
  entry : Option α
  prev : Option α
  next : Option α

/-- The entry before number `i`. -/
def before (l : List α) : Nat → Option α
  | 0 => none
  | i + 1 => l[i]?

/-- The search; unless `force` is set, an entry found reports a neighbour only where the
    offset is its first or its last one. -/
def lookup (t : SearchTree α) (x : Nat) (force : Bool) : Neighbours α :=
  let l := t.toList
  match descend ofs len x t 0 none with
  | .hit i =>
    match l[i]? with
    | none => ⟨none, none, none⟩
    | some y =>
      { entry := some y
        prev := if x = ofs y ∨ force = true then before l i else none
        next := if x + 1 = ofs y + len y ∨ force = true then l[i + 1]? else none }
  | .miss none => ⟨none, none, none⟩
  | .miss (some p) =>
    match l[p]? with
    | none => ⟨none, none, none⟩
    | some y =>
      { entry := none
        prev := if x < ofs y then before l p else l[p]?
        next := if ofs y < x then l[p + 1]? else l[p]? }

/-- Link an entry where the way down for `x` ends; an entry on it that contains `x` leaves
    no place. -/
def link (x : Nat) (z : α) : SearchTree α → Option (SearchTree α)
  | .leaf => some (.node true .leaf z .leaf)
  | .node c l y r =>
    if x < ofs y then (link x z l).map fun l' => .node c l' y r
    else if ofs y + len y ≤ x then (link x z r).map fun r' => .node c l y r'
    else none

variable {ofs len}

theorem Ordered.append {l r : List α} : Ordered ofs len (l ++ r) ↔
    Ordered ofs len l ∧ Ordered ofs len r ∧ ∀ a ∈ l, ∀ b ∈ r, ofs a + len a ≤ ofs b :=
  List.pairwise_append

theorem Ordered.cons {x : α} {l : List α} : Ordered ofs len (x :: l) ↔
    (∀ b ∈ l, ofs x + len x ≤ ofs b) ∧ Ordered ofs len l :=
  List.pairwise_cons

/-- `x` is beyond everything in `pre` and before everything in `post`. -/
def Between (ofs len : α → Nat) (x : Nat) (pre post : List α) : Prop :=
  (∀ a ∈ pre, ofs a + len a ≤ x) ∧ ∀ b ∈ post, x < ofs b

/-- An offset splits the intervals in one way only. -/
theorem Between.unique {x : Nat} {pre post pre' post' : List α} (h : Between ofs len x pre post)
    (h' : Between ofs len x pre' post') (heq : pre ++ post = pre' ++ post') :
    pre = pre' ∧ post = post' := by
  rcases List.append_eq_append_iff.mp heq with ⟨c, rfl, rfl⟩ | ⟨c, rfl, rfl⟩
  · cases c with
    | nil => simp
    | cons y c =>
        have h1 := h.2 y (by simp)
        have h2 := h'.1 y (by simp)
        omega
  · cases c with
    | nil => simp
    | cons y c =>
        have h1 := h.1 y (by simp)
        have h2 := h'.2 y (by simp)
        omega

/-- Everything from an entry on lies behind an offset before that entry. -/
theorem Ordered.below {x : Nat} {l : List α} {y : α} {r : List α}
    (h : Ordered ofs len (l ++ y :: r)) (hx : x < ofs y) : ∀ b ∈ y :: r, x < ofs b := by
  intro b hb
  rcases List.mem_cons.mp hb with rfl | hb
  · exact hx
  · have := (Ordered.cons.mp (Ordered.append.mp h).2.1).1 b hb
    omega

/-- Everything up to an entry ends before an offset behind that entry. -/
theorem Ordered.above {x : Nat} {l : List α} {y : α} {r : List α}
    (h : Ordered ofs len (l ++ y :: r)) (hx : ofs y + len y ≤ x) :
    ∀ a ∈ l ++ [y], ofs a + len a ≤ x := by
  intro a ha
  rcases List.mem_append.mp ha with ha | ha
  · have := (Ordered.append.mp h).2.2 a ha y List.mem_cons_self
    omega
  · rw [List.mem_singleton.mp ha]
    exact hx

theorem descend_hit {x : Nat} (t : SearchTree α) : ∀ {base i : Nat} {parent : Option Nat},
    descend ofs len x t base parent = .hit i →
      ∃ pre y post, t.toList = pre ++ y :: post ∧ i = base + pre.length ∧
        ofs y ≤ x ∧ x < ofs y + len y := by
  induction t with
  | leaf => intro base i parent h; cases h
  | node c l y r ihl ihr =>
      intro base i parent h
      rw [descend] at h
      split_ifs at h with hlt hge
      · obtain ⟨pre, z, post, hl, hi, hz⟩ := ihl h
        exact ⟨pre, z, post ++ y :: r.toList, by simp [hl], hi, hz⟩
      · obtain ⟨pre, z, post, hr, hi, hz⟩ := ihr h
        refine ⟨l.toList ++ y :: pre, z, post, by simp [hr], ?_, hz⟩
        rw [List.length_append, List.length_cons, l.length_toList, hi]
        omega
      · cases h
        exact ⟨l.toList, y, r.toList, rfl, by rw [l.length_toList], by omega, by omega⟩

theorem descend_miss {x : Nat} (t : SearchTree α) : ∀ {base : Nat} {parent p : Option Nat},
    Ordered ofs len t.toList → descend ofs len x t base parent = .miss p →
      ∃ pre post, t.toList = pre ++ post ∧ Between ofs len x pre post ∧
        (t = .leaf ∧ p = parent ∨
          (∃ pre' y, pre = pre' ++ [y] ∧ p = some (base + pre'.length)) ∨
          (∃ y post', post = y :: post' ∧ p = some (base + pre.length))) := by
  induction t with
  | leaf =>
      intro base parent p _ h
      cases h
      exact ⟨[], [], rfl, by simp [Between], Or.inl ⟨rfl, rfl⟩⟩
  | node c l y r ihl ihr =>
      intro base parent p ho h
      rw [SearchTree.toList_node] at ho
      obtain ⟨hol, hor, -⟩ := Ordered.append.mp ho
      rw [descend] at h
      split_ifs at h with hlt hge
      · obtain ⟨pre, post, hl, ⟨hpre, hpost⟩, hp⟩ := ihl hol h
        have hbelow := ho.below hlt
        refine ⟨pre, post ++ y :: r.toList, by simp [hl], ⟨hpre, fun b hb => ?_⟩, Or.inr ?_⟩
        · exact (List.mem_append.mp hb).elim (hpost b) (hbelow b)
        · rcases hp with ⟨rfl, rfl⟩ | ⟨pre', z, hz, rfl⟩ | ⟨z, post', rfl, rfl⟩
          · obtain ⟨rfl, rfl⟩ := List.append_eq_nil_iff.mp hl.symm
            exact Or.inr ⟨y, r.toList, rfl, rfl⟩
          · exact Or.inl ⟨pre', z, hz, rfl⟩
          · exact Or.inr ⟨z, post' ++ y :: r.toList, rfl, rfl⟩
      · obtain ⟨pre, post, hr, ⟨hpre, hpost⟩, hp⟩ := ihr (Ordered.cons.mp hor).2 h
        have habove := ho.above hge
        refine ⟨l.toList ++ y :: pre, post, by simp [hr], ⟨fun a ha => ?_, hpost⟩, Or.inr ?_⟩
        · rw [List.append_cons] at ha
          exact (List.mem_append.mp ha).elim (habove a) (hpre a)
        · rcases hp with ⟨rfl, rfl⟩ | ⟨pre', z, rfl, rfl⟩ | ⟨z, post', rfl, rfl⟩
          · obtain ⟨rfl, rfl⟩ := List.append_eq_nil_iff.mp hr.symm
            exact Or.inl ⟨l.toList, y, rfl, by rw [l.length_toList]⟩
          · refine Or.inl ⟨l.toList ++ y :: pre', z, by simp, ?_⟩
            rw [List.length_append, List.length_cons, l.length_toList]
            congr 1
            omega
          · refine Or.inr ⟨z, post', rfl, ?_⟩
            rw [List.length_append, List.length_cons, l.length_toList]
            congr 1
            omega

theorem before_append (pre post : List α) : before (pre ++ post) pre.length = pre.getLast? := by
  rcases List.eq_nil_or_concat pre with rfl | ⟨l, y, rfl⟩
  · rfl
  · simp [before]

theorem getElem?_length (pre post : List α) : (pre ++ post)[pre.length]? = post.head? := by
  rw [List.getElem?_append_right le_rfl, Nat.sub_self, List.head?_eq_getElem?]

theorem getElem?_length_succ (pre : List α) (y : α) (post : List α) :
    (pre ++ y :: post)[pre.length + 1]? = post.head? := by
  have h := getElem?_length (pre ++ [y]) post
  rwa [List.length_append, List.length_singleton, ← List.append_cons] at h

/-- The search on ordered intervals: an entry that contains the offset, or none. -/
theorem lookup_spec {t : SearchTree α} (ho : Ordered ofs len t.toList)
    (hpos : ∀ y ∈ t.toList, 0 < len y) (x : Nat) :
    (∃ pre y post, t.toList = pre ++ y :: post ∧ ofs y ≤ x ∧ x < ofs y + len y ∧
      lookup ofs len t x true = ⟨some y, pre.getLast?, post.head?⟩) ∨
    ∃ pre post, t.toList = pre ++ post ∧ Between ofs len x pre post ∧
      lookup ofs len t x true = ⟨none, pre.getLast?, post.head?⟩ := by
  unfold lookup
  cases hd : descend ofs len x t 0 none with
  | hit i =>
      obtain ⟨pre, y, post, hl, hi, hy⟩ := descend_hit t hd
      rw [Nat.zero_add] at hi
      refine Or.inl ⟨pre, y, post, hl, hy.1, hy.2, ?_⟩
      have hget : (pre ++ y :: post)[pre.length]? = some y := getElem?_length pre (y :: post)
      simp only [hl, hi, hget, before_append, getElem?_length_succ, or_true, if_true]
  | miss p =>
      obtain ⟨pre, post, hl, hb, hp⟩ := descend_miss t ho hd
      refine Or.inr ⟨pre, post, hl, hb, ?_⟩
      rcases hp with ⟨rfl, rfl⟩ | ⟨pre', y, rfl, rfl⟩ | ⟨y, post', rfl, rfl⟩
      · obtain ⟨rfl, rfl⟩ := List.append_eq_nil_iff.mp hl.symm
        rfl
      · -- the last entry visited is the one before the offset
        have hle := hb.1 y (by simp)
        have hlen := hpos y (by simp [hl])
        have hcons : pre' ++ [y] ++ post = pre' ++ y :: post := (List.append_cons _ _ _).symm
        have hget : (pre' ++ y :: post)[pre'.length]? = some y := getElem?_length pre' (y :: post)
        simp only [hl, hcons, Nat.zero_add, hget, getElem?_length_succ, List.getLast?_concat]
        rw [if_neg (by omega), if_pos (by omega)]
      · -- the last entry visited is the one behind the offset
        have hlt := hb.2 y (by simp)
        have hget : (pre ++ y :: post')[pre.length]? = some y := getElem?_length pre (y :: post')
        simp only [hl, Nat.zero_add, hget, before_append, List.head?_cons]
        rw [if_pos hlt, if_neg (by omega)]

/-- Linking on ordered intervals puts the entry where its offset belongs. -/
theorem toList_link {x : Nat} {z : α} (t : SearchTree α) : ∀ {t' : SearchTree α},
    Ordered ofs len t.toList → link ofs len x z t = some t' →
      ∃ pre post, t.toList = pre ++ post ∧ Between ofs len x pre post ∧
        t'.toList = pre ++ z :: post := by
  induction t with
  | leaf =>
      intro t' _ h
      cases h
      exact ⟨[], [], rfl, by simp [Between], rfl⟩
  | node c l y r ihl ihr =>
      intro t' ho h
      rw [SearchTree.toList_node] at ho
      obtain ⟨hol, hor, -⟩ := Ordered.append.mp ho
      rw [link] at h
      split_ifs at h with hlt hge
      · obtain ⟨l', hl', rfl⟩ := Option.map_eq_some_iff.mp h
        obtain ⟨pre, post, hl, ⟨hpre, hpost⟩, hz⟩ := ihl hol hl'
        have hbelow := ho.below hlt
        refine ⟨pre, post ++ y :: r.toList, by simp [hl], ⟨hpre, fun b hb => ?_⟩, by simp [hz]⟩
        exact (List.mem_append.mp hb).elim (hpost b) (hbelow b)
      · obtain ⟨r', hr', rfl⟩ := Option.map_eq_some_iff.mp h
        obtain ⟨pre, post, hr, ⟨hpre, hpost⟩, hz⟩ := ihr (Ordered.cons.mp hor).2 hr'
        have habove := ho.above hge
        refine ⟨l.toList ++ y :: pre, post, by simp [hr], ⟨fun a ha => ?_, hpost⟩, by simp [hz]⟩
        rw [List.append_cons] at ha
        exact (List.mem_append.mp ha).elim (habove a) (hpre a)

/-- Linking adds the entry and no other, in order or not. -/
theorem mem_link {x : Nat} {z w : α} (t : SearchTree α) : ∀ {t' : SearchTree α},
    link ofs len x z t = some t' → (w ∈ t'.toList ↔ w = z ∨ w ∈ t.toList) := by
  induction t with
  | leaf =>
      intro t' h
      cases h
      simp
  | node c l y r ihl ihr =>
      intro t' h
      rw [link] at h
      split_ifs at h with hlt hge
      · obtain ⟨l', hl', rfl⟩ := Option.map_eq_some_iff.mp h
        simp only [SearchTree.toList_node, List.mem_append, List.mem_cons, ihl hl']
        tauto
      · obtain ⟨r', hr', rfl⟩ := Option.map_eq_some_iff.mp h
        simp only [SearchTree.toList_node, List.mem_append, List.mem_cons, ihr hr']
        tauto

/-- An offset that no entry contains has a place. -/
theorem link_isSome {x : Nat} (z : α) (t : SearchTree α)
    (h : ∀ y ∈ t.toList, ¬ (ofs y ≤ x ∧ x < ofs y + len y)) :
    ∃ t', link ofs len x z t = some t' := by
  induction t with
  | leaf => exact ⟨_, rfl⟩
  | node c l y r ihl ihr =>
      have hy := h y (by simp)
      rw [link]
      split_ifs with hlt hge
      · obtain ⟨l', hl'⟩ := ihl fun a ha => h a (by simp [ha])
        exact ⟨_, by rw [hl']; rfl⟩
      · obtain ⟨r', hr'⟩ := ihr fun a ha => h a (by simp [ha])
        exact ⟨_, by rw [hr']; rfl⟩
      · exact absurd ⟨by omega, by omega⟩ hy

end Search

/-! ## Rebalancing -/

/-- What a balanced tree does after a node was linked, and to take one out. -/
structure Rebalance (α : Type u) where
  insertColor : SearchTree α → SearchTree α
  erase : SearchTree α → Nat → SearchTree α
  toList_insertColor : ∀ t, (insertColor t).toList = t.toList
  toList_erase : ∀ t i, (erase t i).toList = t.toList.eraseIdx i

/-- One tree behind the other. -/
def SearchTree.join {α : Type u} : SearchTree α → SearchTree α → SearchTree α
  | .leaf, r => r
  | .node c l x r', r => .node c l x (r'.join r)

theorem SearchTree.toList_join {α : Type u} (l r : SearchTree α) :
    (l.join r).toList = l.toList ++ r.toList := by
  induction l with
  | leaf => rfl
  | node c l' x r' _ ih => rw [SearchTree.join, SearchTree.toList_node, ih, SearchTree.toList_node,
      List.append_assoc, List.cons_append]

/-- Entry number `i` taken out, the rest left as it is. -/
def SearchTree.eraseAt {α : Type u} : SearchTree α → Nat → SearchTree α
  | .leaf, _ => .leaf
  | .node c l x r, i =>
    if i < l.size then .node c (l.eraseAt i) x r
    else if i = l.size then l.join r
    else .node c l x (r.eraseAt (i - l.size - 1))

theorem SearchTree.toList_eraseAt {α : Type u} (t : SearchTree α) : ∀ i,
    (t.eraseAt i).toList = t.toList.eraseIdx i := by
  induction t with
  | leaf => intro i; rfl
  | node c l x r ihl ihr =>
      intro i
      have hlen := l.length_toList
      rw [SearchTree.eraseAt, SearchTree.toList_node]
      split_ifs with hlt heq
      · rw [SearchTree.toList_node, ihl, List.eraseIdx_append_of_lt_length (by omega)]
      · rw [SearchTree.toList_join, List.eraseIdx_append_of_length_le (by omega), hlen, heq,
          Nat.sub_self, List.eraseIdx_cons_zero]
      · rw [SearchTree.toList_node, ihr, List.eraseIdx_append_of_length_le (by omega), hlen,
          show i - l.size = i - l.size - 1 + 1 by omega, List.eraseIdx_cons_succ]
        rfl

/-- Without any rebalancing. -/
def Rebalance.unbalanced (α : Type u) : Rebalance α where
  insertColor t := t
  erase := SearchTree.eraseAt
  toList_insertColor _ := rfl
  toList_erase := SearchTree.toList_eraseAt

end IntervalTree

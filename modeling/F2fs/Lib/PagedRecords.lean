/-
  Records of one size packed into pages.

  A page is `size` cells, a record `n` cells, and a record never crosses a page end.
  Whoever writes records and whoever reads them back walks the same positions: one
  record after the other while another one still fits below `limit`, then the next
  page from its start.  `loadAll_storeAll` is the round trip along that walk; it needs
  no closed form of the positions, only that a later one never overlaps an earlier one.
-/
import Mathlib

universe u v

namespace PagedRecords

variable {α : Type u} {β : Type v} [DecidableEq β] {size n k limit : Nat}

/-- A memory of pages. -/
abbrev Pages (β : Type v) (α : Type u) (size : Nat) := β → Fin size → α

/-- The `n` cells of page `a` from `off`, inside the page. -/
def load (n : Nat) (m : Pages β α size) (a : β) (off : Nat) : Option (Fin n → α) :=
  if h : off + n ≤ size then some fun i => m a ⟨off + i, by omega⟩ else none

/-- `x` stored into page `a` from `off`, inside the page. -/
def store (m : Pages β α size) (a : β) (off : Nat) (x : Fin n → α) :
    Option (Pages β α size) :=
  if off + n ≤ size then
    some (Function.update m a fun i =>
      if h : off ≤ i ∧ i < off + n then x ⟨i - off, by omega⟩ else m a i)
  else none

theorem store_isSome (m : Pages β α size) (a : β) {off : Nat} (x : Fin n → α)
    (h : off + n ≤ size) : ∃ m', store m a off x = some m' := by
  unfold store
  rw [if_pos h]
  exact ⟨_, rfl⟩

theorem load_store_same {m m' : Pages β α size} {a : β} {off : Nat} {x : Fin n → α}
    (h : store m a off x = some m') : load n m' a off = some x := by
  unfold store at h
  split_ifs at h with hin
  rw [← Option.some.inj h, load, dif_pos hin]
  refine congrArg some (funext fun i => ?_)
  rw [Function.update_self, dif_pos ⟨Nat.le_add_right _ _, by simp⟩]
  exact congrArg x (Fin.ext (Nat.add_sub_cancel_left off i))

/-- A store leaves every other page alone. -/
theorem store_page {m m' : Pages β α size} {a b : β} {off : Nat} {x : Fin n → α}
    (h : store m a off x = some m') (hne : b ≠ a) : m' b = m b := by
  unfold store at h
  split_ifs at h with hin
  rw [← Option.some.inj h, Function.update_of_ne hne]

/-- A store leaves every cell outside its own alone. -/
theorem load_store_other {m m' : Pages β α size} {a b : β} {off off' : Nat} {x : Fin n → α}
    (h : store m a off x = some m') (hne : b ≠ a ∨ off' + k ≤ off) :
    load k m' b off' = load k m b off' := by
  unfold store at h
  split_ifs at h with hin
  rw [← Option.some.inj h]
  unfold load
  split_ifs with hk
  · refine congrArg some (funext fun i => ?_)
    by_cases hab : b = a
    · subst hab
      have hlt : ¬ (off ≤ off' + (i : Nat) ∧ off' + (i : Nat) < off + n) := by
        have hi := i.isLt
        rcases hne with hne | hne
        · exact absurd rfl hne
        · omega
      rw [Function.update_self, dif_neg hlt]
    · rw [Function.update_of_ne hab]
  · rfl

/-! ## The walk -/

/-- A position: the page's number along the walk and the offset in it. -/
structure Cursor where
  page : Nat
  off : Nat

variable (n limit) in
/-- The position after a record. -/
def Cursor.next (c : Cursor) : Cursor :=
  if c.off + n + n ≤ limit then ⟨c.page, c.off + n⟩ else ⟨c.page + 1, 0⟩

variable (n limit) in
/-- The position after `j` records. -/
def Cursor.after (c : Cursor) : Nat → Cursor
  | 0 => c
  | j + 1 => (c.next n limit).after j

variable (n limit) in
/-- A record fits at the position. -/
def Cursor.Fits (c : Cursor) : Prop := c.off + n ≤ limit

theorem Cursor.Fits.next (hn : n ≤ limit) (c : Cursor) : (c.next n limit).Fits n limit := by
  unfold Cursor.Fits Cursor.next
  split_ifs with h
  · exact h
  · simpa using hn

variable (n limit) in
theorem Cursor.next_page_le (c : Cursor) :
    c.page ≤ (c.next n limit).page ∧ (c.next n limit).page ≤ c.page + 1 := by
  unfold Cursor.next
  split_ifs <;> simp

theorem Cursor.next_off {c : Cursor} (h : (c.next n limit).page = c.page) :
    (c.next n limit).off = c.off + n := by
  unfold Cursor.next at *
  split_ifs at * with hfit
  · rfl
  · simp at h

/-! ## Writing and reading along it -/

variable (addr : Nat → β)

/-- Store the records one after the other. -/
def storeAll (limit : Nat) (m : Pages β α size) (c : Cursor) :
    List (Fin n → α) → Option (Pages β α size)
  | [] => some m
  | x :: xs => do
    let m' ← store m (addr c.page) c.off x
    storeAll limit m' (c.next n limit) xs

/-- Load `j` records one after the other. -/
def loadAll (n limit : Nat) (m : Pages β α size) (c : Cursor) : Nat → Option (List (Fin n → α))
  | 0 => some []
  | j + 1 => do
    let x ← load n m (addr c.page) c.off
    let xs ← loadAll n limit m (c.next n limit) j
    return x :: xs

omit [DecidableEq β] in
theorem loadAll_cons {m : Pages β α size} {c : Cursor} {x : Fin n → α}
    {xs : List (Fin n → α)} :
    loadAll addr n limit m c (x :: xs).length = some (x :: xs) ↔
      load n m (addr c.page) c.off = some x ∧
        loadAll addr n limit m (c.next n limit) xs.length = some xs := by
  rw [List.length_cons, loadAll]
  cases load n m (addr c.page) c.off with
  | none => simp
  | some y =>
      cases loadAll addr n limit m (c.next n limit) xs.length with
      | none => simp
      | some ys => simp

omit [DecidableEq β] in
/-- What was read in one go can be read in two. -/
theorem loadAll_append {m : Pages β α size} {xs ys : List (Fin n → α)} :
    ∀ {c : Cursor}, loadAll addr n limit m c (xs ++ ys).length = some (xs ++ ys) ↔
      loadAll addr n limit m c xs.length = some xs ∧
        loadAll addr n limit m (c.after n limit xs.length) ys.length = some ys := by
  induction xs with
  | nil => intro c; simp [loadAll, Cursor.after]
  | cons x xs ih =>
      intro c
      rw [List.cons_append, loadAll_cons, ih, loadAll_cons, and_assoc]
      rfl

/-- Records stored along the walk from `c` are read back there, and what ends before
    `c` keeps its contents. -/
theorem loadAll_storeAll (hlimit : limit ≤ size) (hn : n ≤ limit) (xs : List (Fin n → α)) :
    ∀ (m : Pages β α size) (c : Cursor), c.Fits n limit →
      Set.InjOn addr (Set.Iic (c.page + xs.length)) →
      ∃ m', storeAll addr limit m c xs = some m' ∧
        loadAll addr n limit m' c xs.length = some xs ∧
        ∀ p k off, p ≤ c.page → (p = c.page → off + k ≤ c.off) →
          load k m' (addr p) off = load k m (addr p) off := by
  induction xs with
  | nil =>
      intro m c _ _
      exact ⟨m, rfl, rfl, fun _ _ _ _ _ => rfl⟩
  | cons x xs ih =>
      intro m c hfit hinj
      obtain ⟨m₁, hm₁⟩ := store_isSome m (addr c.page) x
        (Nat.le_trans hfit hlimit)
      obtain ⟨hle, hle'⟩ := c.next_page_le n limit
      have hinj' : Set.InjOn addr (Set.Iic ((c.next n limit).page + xs.length)) := by
        refine hinj.mono (Set.Iic_subset_Iic.mpr ?_)
        rw [List.length_cons]
        omega
      obtain ⟨m₂, hm₂, hload, hframe⟩ := ih m₁ _ (Cursor.Fits.next hn c) hinj'
      refine ⟨m₂, by rw [storeAll, hm₁]; exact hm₂, (loadAll_cons addr).mpr ⟨?_, hload⟩, ?_⟩
      · -- the record just stored is in front of everything stored later
        rw [hframe c.page n c.off hle fun heq => (Cursor.next_off heq.symm).ge]
        exact load_store_same hm₁
      · intro p k off hp hoff
        have hlater : load k m₂ (addr p) off = load k m₁ (addr p) off := by
          refine hframe p k off (Nat.le_trans hp hle) fun heq => ?_
          have hpc : p = c.page := by omega
          have hoff' := Cursor.next_off (show (c.next n limit).page = c.page by omega)
          have := hoff hpc
          omega
        rw [hlater]
        refine load_store_other hm₁ ?_
        by_cases hpc : p = c.page
        · exact Or.inr (hoff hpc)
        · refine Or.inl fun heq => hpc (hinj ?_ ?_ heq)
          · exact Set.mem_Iic.mpr (by omega)
          · exact Set.mem_Iic.mpr (by omega)

end PagedRecords

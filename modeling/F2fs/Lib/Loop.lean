/-
  `while (1)` loops and walks.

  A loop is a step that goes round again or leaves with a result; `run` bounds it by
  fuel, `Trail` records the states it stands in.  A walk follows a function until a
  predicate stops it; a walk that stops never stood in one place twice.
-/
import Mathlib

universe u v w

namespace Loop

variable {α : Type u} {β : Type v}

/-- One round: go on from a new state, or leave the loop with a result. -/
inductive Turn (α : Type u) (β : Type v) where
  | next (a : α)
  | done (b : β)

/-- The new state, if the loop goes on. -/
def Turn.next? : Turn α β → Option α
  | .next a => some a
  | .done _ => none

/-! ## Runs and trails -/

/-- At most `n` rounds of the loop. -/
def run (step : α → Turn α β) : Nat → α → Option β
  | 0, _ => none
  | n + 1, a =>
      match step a with
      | .next a' => run step n a'
      | .done b => some b

/-- From `a` the loop stands in the states of the list, in order, and leaves with `b`. -/
inductive Trail (step : α → Turn α β) : α → List α → β → Prop
  | done {a : α} {b : β} (h : step a = .done b) : Trail step a [a] b
  | next {a a' : α} {l : List α} {b : β} (h : step a = .next a') (t : Trail step a' l b) :
    Trail step a (a :: l) b

variable {step : α → Turn α β} {a : α} {l : List α} {b : β}

theorem Trail.run_eq (t : Trail step a l b) {n : Nat} (hn : l.length ≤ n) :
    run step n a = some b := by
  induction t generalizing n with
  | done h =>
      obtain ⟨m, rfl⟩ : ∃ m, n = m + 1 := ⟨n - 1, by simp at hn; omega⟩
      simp only [run, h]
  | next h t ih =>
      obtain ⟨m, rfl⟩ : ∃ m, n = m + 1 := ⟨n - 1, by simp at hn; omega⟩
      simp only [run, h]
      exact ih (by simpa using hn)

theorem exists_trail {n : Nat} (h : run step n a = some b) :
    ∃ l, Trail step a l b ∧ l.length ≤ n := by
  induction n generalizing a with
  | zero => cases h
  | succ n ih =>
      rw [run] at h
      cases hs : step a with
      | next a' =>
          rw [hs] at h
          obtain ⟨l, t, hl⟩ := ih h
          exact ⟨a :: l, .next hs t, by simpa using hl⟩
      | done b' =>
          rw [hs] at h
          obtain rfl : b' = b := Option.some.inj h
          exact ⟨[a], .done hs, by simp⟩

theorem Trail.det {l' : List α} {b' : β} (t : Trail step a l b) (t' : Trail step a l' b') :
    l = l' ∧ b = b' := by
  induction t generalizing l' with
  | done h =>
      cases t' with
      | done h' => exact ⟨rfl, Turn.done.inj (h.symm.trans h')⟩
      | next h' _ => cases h.symm.trans h'
  | next h t ih =>
      cases t' with
      | done h' => cases h.symm.trans h'
      | next h' t' =>
          obtain rfl := Turn.next.inj (h.symm.trans h')
          obtain ⟨rfl, rfl⟩ := ih t'
          exact ⟨rfl, rfl⟩

theorem run_unique {n m : Nat} {b' : β} (h : run step n a = some b) (h' : run step m a = some b') :
    b = b' := by
  obtain ⟨l, t, -⟩ := exists_trail h
  obtain ⟨l', t', -⟩ := exists_trail h'
  exact (t.det t').2

/-- A loop whose rounds keep `P` and bring `m` down leaves, and where it leaves `Q` holds. -/
theorem run_total {P : α → Prop} {Q : β → Prop} {m : α → Nat}
    (turn : ∀ a, P a → (∃ a', step a = .next a' ∧ P a' ∧ m a' < m a) ∨
      ∃ b, step a = .done b ∧ Q b) :
    ∀ {n : Nat} {a : α}, P a → m a < n → ∃ b, run step n a = some b ∧ Q b
  | 0, _, _, hn => absurd hn (Nat.not_lt_zero _)
  | n + 1, a, ha, hn => by
      rw [run]
      rcases turn a ha with ⟨a', hs, ha', hm⟩ | ⟨b, hs, hb⟩
      · rw [hs]
        exact run_total turn ha' (by omega)
      · rw [hs]
        exact ⟨b, rfl, hb⟩

/-- The states the loop stands in. -/
inductive Stands (step : α → Turn α β) (a : α) : α → Prop
  | start : Stands step a a
  | next {b c : α} (h : Stands step a b) (hs : step b = .next c) : Stands step a c

theorem Stands.trans {b c : α} (h : Stands step a b) (h' : Stands step b c) : Stands step a c := by
  induction h' with
  | start => exact h
  | next _ hs ih => exact ih.next hs

/-- The loop stands in its start, or it goes on from the next state. -/
theorem Stands.head {b : α} (h : Stands step a b) :
    b = a ∨ ∃ c, step a = .next c ∧ Stands step c b := by
  induction h with
  | start => exact Or.inl rfl
  | next _ hs ih =>
    rcases ih with rfl | ⟨c, hc, hstands⟩
    · exact Or.inr ⟨_, hs, .start⟩
    · exact Or.inr ⟨c, hc, hstands.next hs⟩

/-- A loop leaves if its rounds keep `P` and bring a measure down wherever `C` holds, and `C`
    holds in every state it stands in. -/
theorem run_of_stands {γ : Type w} [LT γ] [WellFoundedLT γ] {P C : α → Prop} (m : α → γ)
    (turn : ∀ b c, P b → C b → step b = .next c → P c ∧ m c < m b) (hP : P a)
    (hC : ∀ b, Stands step a b → C b) : ∃ n r, run step n a = some r := by
  have hends : ∀ (k : γ) (b : α), m b = k → Stands step a b → P b →
      ∃ n r, run step n b = some r := by
    intro k
    induction k using WellFoundedLT.induction with
    | ind k ih =>
        rintro b rfl hb hPb
        cases hs : step b with
        | next c =>
            obtain ⟨hPc, hlt⟩ := turn b c hPb (hC b hb) hs
            obtain ⟨n, r, hrun⟩ := ih (m c) hlt c rfl (hb.next hs) hPc
            exact ⟨n + 1, r, by simp only [run, hs, hrun]⟩
        | done r => exact ⟨1, r, by simp only [run, hs]⟩
  exact hends (m a) a rfl .start hP

/-- A loop whose rounds go on wherever `P` holds, and keep `P`, does not leave. -/
theorem run_none {P : α → Prop} (turn : ∀ b, P b → ∃ c, step b = .next c ∧ P c) :
    ∀ (n : Nat) {a : α}, P a → run step n a = none
  | 0, _, _ => rfl
  | n + 1, a, h => by
      obtain ⟨c, hs, hc⟩ := turn a h
      simp only [run, hs]
      exact run_none turn n hc

/-! ## Walks -/

/-- Following `next` from `a`, the places of the list, then `z`, where `stop` holds. -/
inductive Walk (next : α → α) (stop : α → Prop) : α → List α → α → Prop
  | stop {a : α} (h : stop a) : Walk next stop a [] a
  | step {a : α} {l : List α} {z : α} (h : ¬stop a) (w : Walk next stop (next a) l z) :
    Walk next stop a (a :: l) z

variable {next : α → α} {stop : α → Prop} {z : α}

theorem Walk.cons (a' : α) (h : ¬stop a) (hn : next a = a') (w : Walk next stop a' l z) :
    Walk next stop a (a :: l) z :=
  .step h (hn ▸ w)

theorem Walk.stop_end (w : Walk next stop a l z) : stop z := by
  induction w with
  | stop h => exact h
  | step _ _ ih => exact ih

theorem Walk.det {l' : List α} {z' : α} (w : Walk next stop a l z) (w' : Walk next stop a l' z') :
    l = l' ∧ z = z' := by
  induction w generalizing l' with
  | stop h =>
      cases w' with
      | stop _ => exact ⟨rfl, rfl⟩
      | step h' _ => exact absurd h h'
  | step h _ ih =>
      cases w' with
      | stop h' => exact absurd h' h
      | step _ w' =>
          obtain ⟨rfl, rfl⟩ := ih w'
          exact ⟨rfl, rfl⟩

/-- From a place on the walk on, what is left of it. -/
theorem Walk.of_mem (w : Walk next stop a l z) {x : α} (hx : x ∈ l) :
    ∃ l', l' <:+ l ∧ Walk next stop x l' z := by
  induction w with
  | stop _ => cases hx
  | step h w ih =>
      obtain rfl | hx := List.mem_cons.mp hx
      · exact ⟨_, List.suffix_refl _, .step h w⟩
      · obtain ⟨l', hl', w'⟩ := ih hx
        exact ⟨l', hl'.trans (List.suffix_cons _ _), w'⟩

/-- A walk that ends does not come back. -/
theorem Walk.nodup (w : Walk next stop a l z) : (l ++ [z]).Nodup := by
  induction w with
  | stop _ => simp
  | @step a l z h w ih =>
      have hz : a ≠ z := fun e => h (e ▸ w.stop_end)
      have ha : a ∉ l := by
        intro hmem
        obtain ⟨l', hl', w'⟩ := w.of_mem hmem
        obtain ⟨rfl, -⟩ := w'.det (.step h w)
        have := hl'.length_le
        simp at this
      rw [List.cons_append, List.nodup_cons]
      exact ⟨by simp [ha, hz], ih⟩

/-- There is a walk exactly when some iterate stops. -/
theorem exists_walk_iff : (∃ l z, Walk next stop a l z) ↔ ∃ k, stop (next^[k] a) := by
  constructor
  · rintro ⟨l, z, w⟩
    induction w with
    | stop h => exact ⟨0, h⟩
    | step _ _ ih =>
        obtain ⟨k, hk⟩ := ih
        exact ⟨k + 1, hk⟩
  · rintro ⟨k, hk⟩
    induction k generalizing a with
    | zero => exact ⟨[], a, .stop hk⟩
    | succ k ih =>
        by_cases ha : stop a
        · exact ⟨[], a, .stop ha⟩
        · obtain ⟨l, z, w⟩ := ih hk
          exact ⟨a :: l, z, .step ha w⟩

end Loop

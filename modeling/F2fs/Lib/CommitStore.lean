/-
  A store that keeps what its last commit saw.

  Slots hold contents.  Some are live, and some were live at the last commit (`saved`).  A
  write goes to a slot that is neither, so the saved contents stay where they are until the
  next commit; a crash goes back to the saved slots and may leave anything in the others.

  `kept_of_refines` carries this over to a system whose steps are steps of such a store.
-/
import Mathlib

universe u v w

/-- Slots with contents, the live ones, and those that were live at the last commit. -/
structure CommitStore (κ : Type u) (α : Type v) where
  content : κ → α
  live : Set κ
  saved : Set κ

namespace CommitStore

variable {κ : Type u} {α : Type v} [DecidableEq κ]

/-- A step that commits nothing. -/
inductive Quiet : CommitStore κ α → CommitStore κ α → Prop
  | write (s : CommitStore κ α) (k : κ) (x : α) (hlive : k ∉ s.live) (hsaved : k ∉ s.saved) :
      Quiet s { s with content := Function.update s.content k x, live := insert k s.live }
  | release (s : CommitStore κ α) (k : κ) : Quiet s { s with live := s.live \ {k} }
  | crash (s : CommitStore κ α) (content : κ → α) (h : Set.EqOn content s.content s.saved) :
      Quiet s { s with content := content, live := s.saved }

/-- The live slots become the saved ones. -/
def commit (s : CommitStore κ α) : CommitStore κ α := { s with saved := s.live }

/-- `t` has saved what `s` has saved, with the same contents. -/
structure Kept (s t : CommitStore κ α) : Prop where
  saved : t.saved = s.saved
  content : Set.EqOn t.content s.content s.saved

omit [DecidableEq κ] in
theorem Kept.refl (s : CommitStore κ α) : Kept s s := ⟨rfl, fun _ _ => rfl⟩

omit [DecidableEq κ] in
theorem Kept.trans {s t r : CommitStore κ α} (h : Kept s t) (h' : Kept t r) : Kept s r where
  saved := h'.saved.trans h.saved
  content _ hk := (h'.content (h.saved.symm ▸ hk)).trans (h.content hk)

theorem Quiet.kept {s t : CommitStore κ α} (h : Quiet s t) : Kept s t := by
  cases h with
  | write k x hlive hsaved =>
      refine ⟨rfl, fun j hj => Function.update_of_ne ?_ _ _⟩
      rintro rfl
      exact hsaved hj
  | release k => exact ⟨rfl, fun _ _ => rfl⟩
  | crash content h => exact ⟨rfl, h⟩

/-- Any number of steps that commit nothing. -/
def Quiets : CommitStore κ α → CommitStore κ α → Prop := Relation.ReflTransGen Quiet

theorem Quiets.kept {s t : CommitStore κ α} (h : Quiets s t) : Kept s t := by
  induction h with
  | refl => exact Kept.refl s
  | tail _ hstep ih => exact ih.trans hstep.kept

/-- A system with an invariant, each step of which is a number of quiet steps of the store
    it implements. -/
theorem kept_of_refines {σ : Type w} {step : σ → σ → Prop} {inv : σ → Prop}
    (abs : σ → CommitStore κ α)
    (href : ∀ a b, inv a → step a b → inv b ∧ Quiets (abs a) (abs b)) {a b : σ}
    (ha : inv a) (hrun : Relation.ReflTransGen step a b) : inv b ∧ Kept (abs a) (abs b) := by
  induction hrun with
  | refl => exact ⟨ha, Kept.refl _⟩
  | tail _ hstep ih =>
      obtain ⟨hinv, hkept⟩ := ih
      obtain ⟨hinv', hquiet⟩ := href _ _ hinv hstep
      exact ⟨hinv', hkept.trans hquiet.kept⟩

end CommitStore

/-
  Runs of slots, allocated in a bitmap.

  Each of a list of things takes the slots from `start` on, `len` of them; a bit is set if a
  thing takes its slot.  `Tiled` says that bitmap and list agree.  `Boundary` is what a
  walk over the bitmap keeps that skips a thing as a whole, `Scanned` what it knows of the
  free runs behind it, and `FirstFit` where the next thing of a size would go.
-/
import Mathlib

universe u

namespace SlotRuns

variable {ε : Type u} {bit : Nat → Bool} {size : Nat} {start len : ε → Nat} {es : List ε}

/-! ## Things and their bits -/

/-- The `n` slots from `a` on are free. -/
def Free (bit : Nat → Bool) (a n : Nat) : Prop := ∀ i, a ≤ i → i < a + n → bit i = false

/-- Two things take no slot in common. -/
def Apart (start len : ε → Nat) (a b : ε) : Prop :=
  start a + len a ≤ start b ∨ start b + len b ≤ start a

instance : Std.Symm (Apart start len) where
  symm := fun _ _ => Or.symm

/-- The bits of a map of `size` slots are those of the things in the list. -/
structure Tiled (bit : Nat → Bool) (size : Nat) (start len : ε → Nat) (es : List ε) : Prop where
  pos : ∀ e ∈ es, 0 < len e
  inside : ∀ e ∈ es, start e + len e ≤ size
  apart : es.Pairwise (Apart start len)
  covered : ∀ i, i < size → (bit i = true ↔ ∃ e ∈ es, start e ≤ i ∧ i < start e + len e)

theorem Tiled.nil (h : ∀ i, i < size → bit i = false) : Tiled bit size start len [] where
  pos := fun _ he => absurd he List.not_mem_nil
  inside := fun _ he => absurd he List.not_mem_nil
  apart := List.Pairwise.nil
  covered := fun i hi => by simp [h i hi]

theorem Tiled.start_lt (h : Tiled bit size start len es) {e : ε} (he : e ∈ es) :
    start e < size := by
  have hpos := h.pos e he
  have hin := h.inside e he
  omega

/-- The bits of a thing are set. -/
theorem Tiled.taken (h : Tiled bit size start len es) {e : ε} (he : e ∈ es) {i : Nat}
    (hi : start e ≤ i) (hlt : i < start e + len e) : bit i = true := by
  have hin := h.inside e he
  exact (h.covered i (by omega)).mpr ⟨e, he, hi, hlt⟩

/-- A free run is apart from every thing. -/
theorem Tiled.apart_free (h : Tiled bit size start len es) {e : ε} (he : e ∈ es) {a n : Nat}
    (hfree : Free bit a n) : a + n ≤ start e ∨ start e + len e ≤ a ∨ n = 0 := by
  have hpos := h.pos e he
  by_contra hno
  obtain ⟨hlo, hhi, hn⟩ : start e < a + n ∧ a < start e + len e ∧ 0 < n := by omega
  have hset := h.taken he (le_max_right a (start e)) (max_lt hhi (by omega))
  have hclear := hfree _ (le_max_left a (start e)) (max_lt (by omega) hlo)
  rw [hset] at hclear
  cases hclear

/-- Two things with a slot in common are one. -/
theorem Tiled.eq_of_mem (h : Tiled bit size start len es) {e e' : ε} (he : e ∈ es) (he' : e' ∈ es)
    {i : Nat} (hi : start e ≤ i ∧ i < start e + len e)
    (hi' : start e' ≤ i ∧ i < start e' + len e') : e = e' := by
  by_contra hne
  rcases h.apart.forall he he' hne with hap | hap <;> omega

/-- A new thing in a free run. -/
theorem Tiled.insert (h : Tiled bit size start len es) {e : ε} (hpos : 0 < len e)
    (hin : start e + len e ≤ size) (hfree : Free bit (start e) (len e)) :
    Tiled (fun i => decide (start e ≤ i ∧ i < start e + len e) || bit i) size start len
      (e :: es) where
  pos := List.forall_mem_cons.mpr ⟨hpos, h.pos⟩
  inside := List.forall_mem_cons.mpr ⟨hin, h.inside⟩
  apart := List.Pairwise.cons
    (fun e' he' => by
      have hpos' := h.pos e' he'
      rcases h.apart_free he' hfree with hap | hap | hzero
      · exact Or.inl hap
      · exact Or.inr hap
      · omega) h.apart
  covered := fun i hi => by
    rw [Bool.or_eq_true, decide_eq_true_eq, h.covered i hi]
    simp only [List.mem_cons, exists_eq_or_imp]

/-- A thing taken away. -/
theorem Tiled.erase [DecidableEq ε] (h : Tiled bit size start len es) {e : ε} (he : e ∈ es) :
    Tiled (fun i => !decide (start e ≤ i ∧ i < start e + len e) && bit i) size start len
      (es.filter (· ≠ e)) where
  pos := fun e' he' => h.pos e' (List.mem_of_mem_filter he')
  inside := fun e' he' => h.inside e' (List.mem_of_mem_filter he')
  apart := h.apart.filter _
  covered := fun i hi => by
    rw [Bool.and_eq_true, h.covered i hi, Bool.not_eq_true', decide_eq_false_iff_not]
    constructor
    · rintro ⟨hout, e', he', hi'⟩
      refine ⟨e', List.mem_filter.mpr ⟨he', ?_⟩, hi'⟩
      exact decide_eq_true fun heq => hout (heq ▸ hi')
    · rintro ⟨e', he', hi'⟩
      obtain ⟨hmem, hne⟩ := List.mem_filter.mp he'
      exact ⟨fun hi => of_decide_eq_true hne (h.eq_of_mem hmem he hi' hi), e', hmem, hi'⟩

/-! ## Walking over the map -/

/-- No thing lies on both sides of `b`. -/
def Boundary (start len : ε → Nat) (es : List ε) (b : Nat) : Prop :=
  ∀ e ∈ es, start e < b → start e + len e ≤ b

theorem boundary_zero : Boundary start len es 0 := fun _ _ h => absurd h (Nat.not_lt_zero _)

/-- Past a free slot. -/
theorem Boundary.next {b : Nat} (h : Boundary start len es b) (ht : Tiled bit size start len es)
    (hb : bit b = false) : Boundary start len es (b + 1) := by
  intro e he hlt
  rcases Nat.lt_or_eq_of_le (Nat.le_of_lt_succ hlt) with hlt' | heq
  · exact Nat.le_succ_of_le (h e he hlt')
  · have hlt' : b < start e + len e := heq ▸ Nat.lt_add_of_pos_right (ht.pos e he)
    have hset := ht.taken he heq.le hlt'
    rw [hb] at hset
    cases hset

/-- A taken slot at a boundary is the first slot of a thing, and the walk skips the thing. -/
theorem Boundary.thing {b : Nat} (h : Boundary start len es b) (ht : Tiled bit size start len es)
    (hlt : b < size) (hb : bit b = true) :
    ∃ e ∈ es, start e = b ∧ Boundary start len es (b + len e) := by
  obtain ⟨e, he, hlo, hhi⟩ := (ht.covered b hlt).mp hb
  obtain rfl : start e = b := by
    by_contra hne
    have hend := h e he (by omega)
    omega
  refine ⟨e, he, rfl, fun e' he' hlt' => ?_⟩
  by_cases heq : e = e'
  · rw [heq]
  · have hpos := ht.pos e he
    rcases ht.apart.forall he he' heq with hap | hap
    · omega
    · omega

/-- Past a run of free slots. -/
theorem Boundary.skip {b c : Nat} (h : Boundary start len es b) (ht : Tiled bit size start len es)
    (hle : b ≤ c) (hfree : ∀ i, b ≤ i → i < c → bit i = false) : Boundary start len es c := by
  induction c, hle using Nat.le_induction with
  | base => exact h
  | succ c hle ih =>
    exact (ih fun i hlo hhi => hfree i hlo (Nat.lt_succ_of_lt hhi)).next ht
      (hfree c hle (Nat.lt_succ_self c))

/-! ## In order -/

/-- The things from slot `b` on. -/
def behind (start : ε → Nat) (es : List ε) (b : Nat) : List ε :=
  es.filter fun e => decide (b ≤ start e)

theorem behind_append (es fs : List ε) (b : Nat) :
    behind start (es ++ fs) b = behind start es b ++ behind start fs b := List.filter_append ..

theorem behind_eq_self {b : Nat} (h : ∀ e ∈ es, b ≤ start e) : behind start es b = es :=
  List.filter_eq_self.mpr fun e he => decide_eq_true (h e he)

theorem behind_zero : behind start es 0 = es := behind_eq_self fun _ _ => Nat.zero_le _

theorem behind_nil {b : Nat} (h : ∀ e ∈ es, start e < b) : behind start es b = [] :=
  List.filter_eq_nil_iff.mpr fun e he => by
    have hlt := h e he
    simp only [decide_eq_true_eq]
    omega

theorem behind_size (ht : Tiled bit size start len es) {b : Nat} (hb : size ≤ b) :
    behind start es b = [] :=
  behind_nil fun _ he => Nat.lt_of_lt_of_le (ht.start_lt he) hb

/-- A run of free slots has nothing behind its start that is not behind its end. -/
theorem behind_skip {b c : Nat} (ht : Tiled bit size start len es) (hle : b ≤ c)
    (hfree : ∀ i, b ≤ i → i < c → bit i = false) : behind start es b = behind start es c := by
  refine List.filter_congr fun e he => ?_
  rw [decide_eq_decide]
  refine ⟨fun hb => ?_, fun hc => Nat.le_trans hle hc⟩
  by_contra hno
  have hset := ht.taken he (Nat.le_refl _) (Nat.lt_add_of_pos_right (ht.pos e he))
  rw [hfree _ hb (Nat.not_le.mp hno)] at hset
  cases hset

/-- From its first slot on there is the thing, and what is behind its end. -/
theorem behind_thing (ht : Tiled bit size start len es) (hsorted : es.Pairwise (start · < start ·))
    {e : ε} (he : e ∈ es) :
    behind start es (start e) = e :: behind start es (start e + len e) := by
  have hpos := ht.pos e he
  obtain ⟨pre, post, rfl⟩ := List.append_of_mem he
  obtain ⟨-, htail, hpre⟩ := List.pairwise_append.mp hsorted
  obtain ⟨hpost, -⟩ := List.pairwise_cons.mp htail
  have hlow : ∀ e' ∈ pre, start e' < start e := fun e' he' => hpre e' he' e List.mem_cons_self
  have hhigh : ∀ e' ∈ post, start e + len e ≤ start e' := fun e' he' => by
    have hgt := hpost e' he'
    rcases (List.pairwise_cons.mp (List.pairwise_append.mp ht.apart).2.1).1 e' he' with hap | hap
    · exact hap
    · omega
  have hkeep : behind start (e :: post) (start e) = e :: behind start post (start e) :=
    List.filter_cons_of_pos (by simp)
  have hdrop : behind start (e :: post) (start e + len e) = behind start post (start e + len e) :=
    List.filter_cons_of_neg (by simp only [decide_eq_true_eq]; omega)
  rw [behind_append, behind_append, behind_nil hlow,
    behind_nil fun e' he' => Nat.lt_of_lt_of_le (hlow e' he') (Nat.le_add_right _ _), hkeep, hdrop,
    behind_eq_self fun e' he' => Nat.le_trans (Nat.le_add_right _ _) (hhigh e' he'),
    behind_eq_self hhigh]
  rfl

/-! ## Free runs -/

/-- The longest free run below `upto` has `n` slots. -/
def Longest (bit : Nat → Bool) (upto n : Nat) : Prop :=
  (∃ a, a + n ≤ upto ∧ Free bit a n) ∧ ∀ a m, a + m ≤ upto → Free bit a m → m ≤ n

/-- What a walk that has come to `b` knows: the free run in front of it, and the longest of
    the others. -/
structure Scanned (bit : Nat → Bool) (b run longest : Nat) : Prop where
  run_le : run ≤ b
  free : Free bit (b - run) run
  stop : run < b → bit (b - run - 1) = true
  attained : ∃ a, a + longest ≤ b ∧ Free bit a longest
  bound : ∀ a m, a + m ≤ b → Free bit a m → m ≤ max longest run

theorem free_zero (a : Nat) : Free bit a 0 := fun _ _ _ => by omega

theorem scanned_zero : Scanned bit 0 0 0 where
  run_le := Nat.le_refl _
  free := free_zero _
  stop := fun h => absurd h (Nat.lt_irrefl _)
  attained := ⟨0, Nat.le_refl _, free_zero _⟩
  bound := fun _ _ h _ => by omega

/-- A free slot makes the run longer. -/
theorem Scanned.free_slot {b run longest : Nat} (h : Scanned bit b run longest)
    (hb : bit b = false) : Scanned bit (b + 1) (run + 1) longest where
  run_le := Nat.succ_le_succ h.run_le
  free := fun i hlo hhi => by
    have hle := h.run_le
    rcases Nat.lt_or_ge i b with hlt | hge
    · exact h.free i (by omega) (by omega)
    · obtain rfl : i = b := by omega
      exact hb
  stop := fun hlt => by
    have hstop := h.stop (by omega)
    rwa [Nat.add_sub_add_right]
  attained := by
    obtain ⟨a, ha, hfree⟩ := h.attained
    exact ⟨a, by omega, hfree⟩
  bound := fun a m ha hfree => by
    rcases Nat.lt_or_ge b (a + m) with hlt | hge
    · -- the run ends at the new slot, so it began behind the last taken one
      by_contra hlong
      have hstop := h.stop (by omega)
      have hclear := hfree (b - run - 1) (by omega) (by omega)
      rw [hstop] at hclear
      cases hclear
    · have hm := h.bound a m hge hfree
      omega

/-- Taken slots end the run. -/
theorem Scanned.taken {b n run longest : Nat} (h : Scanned bit b run longest) (hn : 0 < n)
    (hset : ∀ i, b ≤ i → i < b + n → bit i = true) : Scanned bit (b + n) 0 (max longest run) where
  run_le := Nat.zero_le _
  free := free_zero _
  stop := fun _ => hset _ (by omega) (by omega)
  attained := by
    rcases Nat.le_total run longest with hle | hle
    · obtain ⟨a, ha, hfree⟩ := h.attained
      rw [max_eq_left hle]
      exact ⟨a, by omega, hfree⟩
    · have hrun := h.run_le
      rw [max_eq_right hle]
      exact ⟨b - run, by omega, h.free⟩
  bound := fun a m ha hfree => by
    rcases Nat.lt_or_ge b (a + m) with hlt | hge
    · rcases Nat.eq_zero_or_pos m with rfl | hm
      · exact Nat.zero_le _
      · have hclear := hfree (a + m - 1) (by omega) (by omega)
        rw [hset (a + m - 1) (by omega) (by omega)] at hclear
        cases hclear
    · have hm := h.bound a m hge hfree
      omega

/-- The walk knows the longest run when it has come to the end. -/
theorem Scanned.longest {b run longest : Nat} (h : Scanned bit b run longest) :
    Longest bit b (max longest run) := by
  refine ⟨?_, h.bound⟩
  rcases Nat.le_total run longest with hle | hle
  · rw [max_eq_left hle]
    exact h.attained
  · have hrun := h.run_le
    rw [max_eq_right hle]
    exact ⟨b - run, by omega, h.free⟩

/-! ## The first free run of a size -/

/-- `n` slots fit at `p`. -/
def Fits (bit : Nat → Bool) (size n p : Nat) : Prop := p + n ≤ size ∧ Free bit p n

/-- The first place where `n` slots fit. -/
def FirstFit (bit : Nat → Bool) (size n p : Nat) : Prop :=
  Fits bit size n p ∧ ∀ q, q < p → ¬Fits bit size n q

/-- Nothing fits where a slot is taken. -/
theorem not_fits_taken {n p : Nat} (hn : 0 < n) (h : bit p = true) : ¬Fits bit size n p := by
  intro hfit
  have hclear := hfit.2 p (Nat.le_refl p) (by omega)
  rw [h] at hclear
  cases hclear

/-- Nothing fits into a free run that is too short and ends at a taken slot. -/
theorem not_fits_short {n p e : Nat} (hp : p ≤ e) (hshort : e - p < n)
    (h : e < size → bit e = true) : ¬Fits bit size n p := by
  intro hfit
  have hin := hfit.1
  have hset := h (by omega)
  have hclear := hfit.2 e hp (by omega)
  rw [hset] at hclear
  cases hclear

end SlotRuns

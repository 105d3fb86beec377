/-
  A finite map with ordered keys, as the kernel's radix trees are used: lookup,
  insertion, deletion, in-place update of a stored object, and the gang lookup
  that returns the next few objects from a start key in key order.

  The set of keys is kept next to the lookup function and tied to it by a field,
  so that counts over a tree are `Finset` sums.
-/
import Mathlib

universe u

/-- A finite partial map from `Nat`. -/
structure RadixTree (α : Type u) where
  lookup : Nat → Option α
  keys : Finset Nat
  mem_keys : ∀ k, k ∈ keys ↔ (lookup k).isSome

namespace RadixTree

variable {α : Type u}

/-- The empty tree. -/
def empty : RadixTree α where
  lookup := fun _ => none
  keys := ∅
  mem_keys := by simp

/-- `radix_tree_insert` (overwriting, where the kernel reports `-EEXIST`). -/
def insert (t : RadixTree α) (k : Nat) (v : α) : RadixTree α where
  lookup := Function.update t.lookup k (some v)
  keys := Insert.insert k t.keys
  mem_keys := by
    intro j
    by_cases h : j = k
    · subst h; simp
    · simp [h, t.mem_keys]

/-- `radix_tree_delete`. -/
def delete (t : RadixTree α) (k : Nat) : RadixTree α where
  lookup := Function.update t.lookup k none
  keys := t.keys.erase k
  mem_keys := by
    intro j
    by_cases h : j = k
    · subst h; simp
    · simp [h, t.mem_keys]

/-- Assignment through the stored pointer, if there is one. -/
def modify (t : RadixTree α) (k : Nat) (f : α → α) : RadixTree α where
  lookup := Function.update t.lookup k ((t.lookup k).map f)
  keys := t.keys
  mem_keys := by
    intro j
    by_cases h : j = k
    · subst h; simp [t.mem_keys]
    · simp [h, t.mem_keys]

@[simp] theorem lookup_empty (k : Nat) : (empty : RadixTree α).lookup k = none := rfl

@[simp] theorem lookup_insert_self (t : RadixTree α) (k : Nat) (v : α) :
    (t.insert k v).lookup k = some v := by simp [insert]

theorem lookup_insert_of_ne (t : RadixTree α) {j k : Nat} (v : α) (h : j ≠ k) :
    (t.insert k v).lookup j = t.lookup j := by simp [insert, h]

@[simp] theorem lookup_delete_self (t : RadixTree α) (k : Nat) :
    (t.delete k).lookup k = none := by simp [delete]

theorem lookup_delete_of_ne (t : RadixTree α) {j k : Nat} (h : j ≠ k) :
    (t.delete k).lookup j = t.lookup j := by simp [delete, h]

@[simp] theorem lookup_modify_self (t : RadixTree α) (k : Nat) (f : α → α) :
    (t.modify k f).lookup k = (t.lookup k).map f := by simp [modify]

theorem lookup_modify_of_ne (t : RadixTree α) {j k : Nat} (f : α → α) (h : j ≠ k) :
    (t.modify k f).lookup j = t.lookup j := by simp [modify, h]

theorem mem_keys_of_lookup {t : RadixTree α} {k : Nat} {v : α} (h : t.lookup k = some v) :
    k ∈ t.keys := (t.mem_keys k).mpr (by rw [h]; rfl)

/-! ## Gang lookup -/

/-- `radix_tree_gang_lookup`: at most `nr` keys from `start`, ascending. -/
def gangLookup (t : RadixTree α) (start nr : Nat) : List Nat :=
  ((t.keys.filter (start ≤ ·)).sort (· ≤ ·)).take nr

/-- `while ((found = gang_lookup(idx, nr, vec))) { idx = vec[found - 1] + 1; .. }`: the
    batches in the order they are looked up.  `fuel` bounds the iterations. -/
def gangLoop (t : RadixTree α) (nr : Nat) : Nat → Nat → List Nat
  | 0, _ => []
  | fuel + 1, idx =>
    match (t.gangLookup idx nr).getLast? with
    | none => []
    | some last => t.gangLookup idx nr ++ gangLoop t nr fuel (last + 1)

theorem mem_gangLookup {t : RadixTree α} {start nr k : Nat} (h : k ∈ t.gangLookup start nr) :
    k ∈ t.keys ∧ start ≤ k := by
  have hk := List.mem_of_mem_take h
  rwa [Finset.mem_sort, Finset.mem_filter] at hk

/-- Whatever follows the batch lies above its last key. -/
theorem mem_gangLookup_or_gt {t : RadixTree α} {start nr last k : Nat}
    (hlast : (t.gangLookup start nr).getLast? = some last) (hk : k ∈ t.keys)
    (hstart : start ≤ k) : k ∈ t.gangLookup start nr ∨ last < k := by
  set l := (t.keys.filter (start ≤ ·)).sort (· ≤ ·) with hl
  have hsorted : l.Pairwise (· ≤ ·) := Finset.pairwise_sort _ _
  have hnodup : l.Nodup := Finset.sort_nodup _ _
  have hmem : k ∈ l := by
    rw [hl, Finset.mem_sort, Finset.mem_filter]
    exact ⟨hk, hstart⟩
  have hbatch : t.gangLookup start nr = l.take nr := rfl
  rw [hbatch] at hlast ⊢
  rw [← List.take_append_drop nr l] at hmem hsorted hnodup
  rcases List.mem_append.mp hmem with h | h
  · exact Or.inl h
  · right
    have hin : last ∈ l.take nr := List.mem_of_getLast? hlast
    have hle := (List.pairwise_append.mp hsorted).2.2 last hin k h
    have hne : last ≠ k := fun heq => (List.nodup_append.mp hnodup).2.2 last hin k h heq
    omega

/-- With enough fuel the loop visits every key from `idx`, each once. -/
theorem mem_gangLoop (t : RadixTree α) {nr : Nat} (hnr : 0 < nr) :
    ∀ (fuel idx : Nat), (t.keys.filter (idx ≤ ·)).card < fuel → ∀ k,
      k ∈ t.gangLoop nr fuel idx ↔ k ∈ t.keys ∧ idx ≤ k
  | 0, _, hfuel, _ => absurd hfuel (by omega)
  | fuel + 1, idx, hfuel, k => by
    rw [gangLoop]
    cases hlast : (t.gangLookup idx nr).getLast? with
    | none =>
        have hempty : t.gangLookup idx nr = [] := List.getLast?_eq_none_iff.mp hlast
        have hnil : (t.keys.filter (idx ≤ ·)).sort (· ≤ ·) = [] := by
          rcases List.take_eq_nil_iff.mp hempty with h | h
          · omega
          · exact h
        simp only [List.not_mem_nil, false_iff]
        intro hk
        have hin : k ∈ (t.keys.filter (idx ≤ ·)).sort (· ≤ ·) := by
          rw [Finset.mem_sort, Finset.mem_filter]
          exact hk
        rw [hnil] at hin
        cases hin
    | some last =>
        have hlastmem := mem_gangLookup (List.mem_of_getLast? hlast)
        have hcard : (t.keys.filter (last + 1 ≤ ·)).card < (t.keys.filter (idx ≤ ·)).card := by
          refine Finset.card_lt_card ⟨fun j hj => ?_, fun hsub => ?_⟩
          · rw [Finset.mem_filter] at hj ⊢
            exact ⟨hj.1, by omega⟩
          · have hin := hsub (Finset.mem_filter.mpr hlastmem)
            have := (Finset.mem_filter.mp hin).2
            omega
        simp only [List.mem_append]
        rw [mem_gangLoop t hnr fuel (last + 1) (by omega)]
        constructor
        · rintro (h | h)
          · exact mem_gangLookup h
          · exact ⟨h.1, by omega⟩
        · intro h
          rcases mem_gangLookup_or_gt hlast h.1 h.2 with hin | hgt
          · exact Or.inl hin
          · exact Or.inr ⟨h.1, by omega⟩

theorem nodup_gangLoop (t : RadixTree α) (nr : Nat) :
    ∀ fuel idx : Nat, (t.gangLoop nr fuel idx).Nodup ∧ ∀ k ∈ t.gangLoop nr fuel idx, idx ≤ k
  | 0, _ => ⟨List.nodup_nil, by simp [gangLoop]⟩
  | fuel + 1, idx => by
    rw [gangLoop]
    cases hlast : (t.gangLookup idx nr).getLast? with
    | none => exact ⟨List.nodup_nil, by simp⟩
    | some last =>
        obtain ⟨hnodup, hge⟩ := nodup_gangLoop t nr fuel (last + 1)
        have hlastmem := mem_gangLookup (List.mem_of_getLast? hlast)
        have hbatch : (t.gangLookup idx nr).Nodup :=
          (Finset.sort_nodup _ _).sublist (List.take_sublist _ _)
        have hle : ∀ k ∈ t.gangLookup idx nr, k ≤ last := by
          have hsorted : (t.gangLookup idx nr).Pairwise (· ≤ ·) :=
            (Finset.pairwise_sort _ _).sublist (List.take_sublist _ _)
          obtain ⟨ys, hys⟩ := List.getLast?_eq_some_iff.mp hlast
          intro k hk
          rw [hys] at hk hsorted
          rcases List.mem_append.mp hk with h | h
          · exact (List.pairwise_append.mp hsorted).2.2 k h last (List.mem_singleton_self _)
          · rw [List.mem_singleton.mp h]
        refine ⟨List.nodup_append.mpr ⟨hbatch, hnodup, fun a ha b hb hab => ?_⟩, fun k hk => ?_⟩
        · have h1 := hle a ha
          have h2 := hge b hb
          omega
        · rcases List.mem_append.mp hk with h | h
          · exact (mem_gangLookup h).2
          · have := hge k h
            omega

end RadixTree

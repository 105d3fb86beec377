/-
  The packed list of entries: its bytes, and what the walks of `xattr.c` find in it.

  `Packed b e es` says that from offset `e` the buffer holds the entries `es` and then
  zeros.  Each walk is described on such a buffer; the walk over the inline part is
  described on the cut buffer, by what it would find in the whole one.
-/
import F2fs.Xattr.Area

namespace F2fs.Xattr

/-! ## Entries -/

/-- An attribute as an entry can hold it.  Index 0 is no attribute's, and an entry with it
    could look like the last one. -/
structure XattrEntry where
  index : UInt8
  name : Bytes
  value : Bytes
  index_ne : index ≠ 0
  name_le : name.length ≤ f2fsNameLen
  value_lt : value.length < 2 ^ 16

abbrev XattrKey := UInt8 × Bytes

namespace XattrEntry

def key (x : XattrEntry) : XattrKey := (x.index, x.name)

/-- The four bytes before the name. -/
def head (x : XattrEntry) : Bytes :=
  [x.index, UInt8.ofNat x.name.length, UInt8.ofNat (x.value.length % 256),
    UInt8.ofNat (x.value.length / 256)]

/-- The length of the entry without padding. -/
def rawSize (x : XattrEntry) : Nat := xattrEntrySize + x.name.length + x.value.length

/-- The entry, padded to a multiple of four. -/
def encode (x : XattrEntry) : Bytes :=
  x.head ++ x.name ++ x.value ++ List.replicate (xattrAlign x.rawSize - x.rawSize) 0

end XattrEntry

theorem le_xattrAlign (n : Nat) : n ≤ xattrAlign n := by
  unfold xattrAlign
  omega

theorem xattrAlign_of_mod {n : Nat} (h : n % 4 = 0) : xattrAlign n = n := by
  unfold xattrAlign
  omega

@[simp] theorem XattrEntry.length_head (x : XattrEntry) : x.head.length = 4 := rfl

@[simp] theorem XattrEntry.length_encode (x : XattrEntry) : x.encode.length =
    xattrAlign x.rawSize := by
  have := le_xattrAlign x.rawSize
  unfold XattrEntry.encode
  simp only [List.length_append, XattrEntry.length_head, List.length_replicate]
  unfold XattrEntry.rawSize xattrEntrySize at *
  omega

theorem XattrEntry.four_le_encode (x : XattrEntry) : 4 ≤ x.encode.length := by
  have := le_xattrAlign x.rawSize
  rw [XattrEntry.length_encode]
  unfold XattrEntry.rawSize xattrEntrySize at *
  omega

def encodeAll (es : List XattrEntry) : Bytes := es.flatMap XattrEntry.encode

@[simp] theorem encodeAll_nil : encodeAll [] = [] := rfl

@[simp] theorem encodeAll_cons (x : XattrEntry) (es : List XattrEntry) :
    encodeAll (x :: es) = x.encode ++ encodeAll es := rfl

@[simp] theorem encodeAll_append (es fs : List XattrEntry) :
    encodeAll (es ++ fs) = encodeAll es ++ encodeAll fs := by
  unfold encodeAll
  rw [List.flatMap_append]

theorem four_mul_le_encodeAll (es : List XattrEntry) : 4 * es.length ≤ (encodeAll es).length := by
  induction es with
  | nil => simp
  | cons x es ih =>
      have := x.four_le_encode
      rw [encodeAll_cons, List.length_append, List.length_cons]
      omega

/-! ## Buffers -/

theorem access_some {α : Type} (a : α) : access (some a) = .ok a := rfl

theorem ok_bind {α β : Type} (a : α) (f : α → XattrM β) : (Except.ok a >>= f) = f a := rfl

theorem error_bind {α β : Type} (e : XattrError) (f : α → XattrM β) :
    ((.error e : XattrM α) >>= f) = .error e := rfl

/-- From `e` the buffer holds the entries and then zeros, at least a word of them. -/
def Packed (b : Bytes) (e : Nat) (es : List XattrEntry) : Prop :=
  ∃ pre z, b = pre ++ encodeAll es ++ List.replicate z 0 ∧ pre.length = e ∧ 4 ≤ z

theorem Packed.end_le {b : Bytes} {e : Nat} {es : List XattrEntry} (h : Packed b e es) :
    e + (encodeAll es).length + 4 ≤ b.length := by
  obtain ⟨pre, z, rfl, rfl, hz⟩ := h
  simp only [List.length_append, List.length_replicate]
  omega

/-- The fuel of a walk over the whole list. -/
theorem Packed.fuel {b : Bytes} {e : Nat} {es : List XattrEntry} (h : Packed b e es) :
    es.length < b.length := by
  have := h.end_le
  have := four_mul_le_encodeAll es
  omega

theorem Packed.tail {b : Bytes} {e : Nat} {x : XattrEntry} {es : List XattrEntry}
    (h : Packed b e (x :: es)) : Packed b (e + x.encode.length) es := by
  obtain ⟨pre, z, rfl, rfl, hz⟩ := h
  exact ⟨pre ++ x.encode, z, by simp, by simp, hz⟩

theorem Packed.skip {b : Bytes} {e : Nat} {l es : List XattrEntry} (h : Packed b e (l ++ es)) :
    Packed b (e + (encodeAll l).length) es := by
  obtain ⟨pre, z, rfl, rfl, hz⟩ := h
  exact ⟨pre ++ encodeAll l, z, by simp, by simp, hz⟩

/-- The first entry and what is around it. -/
theorem Packed.cut {b : Bytes} {e : Nat} {x : XattrEntry} {es : List XattrEntry}
    (h : Packed b e (x :: es)) :
    ∃ pre post, b = pre ++ x.encode ++ post ∧ pre.length = e := by
  obtain ⟨pre, z, rfl, rfl, -⟩ := h
  exact ⟨pre, encodeAll es ++ List.replicate z 0, by simp, rfl⟩

/-! ### Reading one entry -/

section Entry

variable {b pre post : Bytes} {e : Nat} {x : XattrEntry}

theorem read_head (hb : b = pre ++ x.encode ++ post) (he : pre.length = e) :
    Splice.read b e 4 = some x.head := by
  subst hb he
  have : pre ++ x.encode ++ post = pre ++ x.head ++ (x.name ++ x.value ++
      List.replicate (xattrAlign x.rawSize - x.rawSize) 0 ++ post) := by
    simp [XattrEntry.encode]
  rw [this]
  exact Splice.read_middle rfl x.length_head.symm

theorem isLastEntry_of_read {w : Bytes} (h : Splice.read b e 4 = some w) :
    isLastEntry b e = .ok (decide (w = [0, 0, 0, 0])) := by
  unfold isLastEntry
  rw [h]
  rfl

theorem head_ne (x : XattrEntry) : x.head ≠ [0, 0, 0, 0] := fun h =>
  x.index_ne (List.head_eq_of_cons_eq h)

theorem entryHead_of_read (h : Splice.read b e 4 = some x.head) :
    entryHead b e = .ok (x.index, x.name.length, x.value.length) := by
  have hname : (UInt8.ofNat x.name.length).toNat = x.name.length := by
    rw [UInt8.toNat_ofNat_of_lt' (Nat.lt_of_le_of_lt x.name_le (by decide))]
  have hlo : (UInt8.ofNat (x.value.length % 256)).toNat = x.value.length % 256 :=
    UInt8.toNat_ofNat_of_lt' (Nat.mod_lt _ (by decide))
  have hhi : (UInt8.ofNat (x.value.length / 256)).toNat = x.value.length / 256 :=
    UInt8.toNat_ofNat_of_lt' (by have := x.value_lt; show _ < 256; omega)
  unfold entryHead
  rw [h]
  show (.ok (x.index, (UInt8.ofNat x.name.length).toNat,
    (UInt8.ofNat (x.value.length % 256)).toNat +
      256 * (UInt8.ofNat (x.value.length / 256)).toNat) : XattrM _) = _
  rw [hname, hlo, hhi, Nat.mod_add_div]

theorem entrySize_of_read (h : Splice.read b e 4 = some x.head) :
    entrySize b e = .ok x.encode.length := by
  unfold entrySize
  rw [entryHead_of_read h, XattrEntry.length_encode]
  rfl

theorem nextEntry_of_read (h : Splice.read b e 4 = some x.head) :
    nextEntry b e = .ok (e + x.encode.length) := by
  unfold nextEntry
  rw [entrySize_of_read h]
  rfl

theorem read_name (hb : b = pre ++ x.encode ++ post) (he : pre.length = e) :
    Splice.read b (e + 4) x.name.length = some x.name := by
  subst hb he
  have : pre ++ x.encode ++ post = (pre ++ x.head) ++ x.name ++ (x.value ++
      List.replicate (xattrAlign x.rawSize - x.rawSize) 0 ++ post) := by
    simp [XattrEntry.encode]
  rw [this]
  exact Splice.read_middle (by simp) rfl

theorem read_value (hb : b = pre ++ x.encode ++ post) (he : pre.length = e) :
    Splice.read b (e + 4 + x.name.length) x.value.length = some x.value := by
  subst hb he
  have : pre ++ x.encode ++ post = (pre ++ x.head ++ x.name) ++ x.value ++
      (List.replicate (xattrAlign x.rawSize - x.rawSize) 0 ++ post) := by
    simp [XattrEntry.encode]
  rw [this]
  exact Splice.read_middle (by simp [Nat.add_assoc]) rfl

theorem sameName_eq (hb : b = pre ++ x.encode ++ post) (he : pre.length = e) (k : XattrKey) :
    sameName b e k.1 k.2 = .ok (decide (x.key = k)) := by
  obtain ⟨index, name⟩ := k
  unfold sameName
  rw [entryHead_of_read (read_head hb he), ok_bind]
  by_cases hi : x.index = index
  · by_cases hl : x.name.length = name.length
    · have hread := read_name hb he
      rw [hl] at hread
      simp only [hi, ne_eq, not_true_eq_false, if_false, hl]
      rw [hread]
      show (.ok (decide (x.name = name)) : XattrM Bool) = _
      simp [XattrEntry.key, hi]
    · have hne : x.key ≠ (index, name) := fun heq => hl (by
        rw [← (Prod.mk.inj heq).2])
      simp only [hi, hl, ne_eq, not_true_eq_false, not_false_eq_true, if_true, if_false]
      rw [decide_eq_false hne]
      rfl
  · have hne : x.key ≠ (index, name) := fun heq => hi (Prod.mk.inj heq).1
    simp only [hi, ne_eq, not_false_eq_true, if_true]
    rw [decide_eq_false hne]
    rfl

end Entry

theorem Packed.isLast_nil {b : Bytes} {e : Nat} (h : Packed b e []) :
    isLastEntry b e = .ok true := by
  obtain ⟨pre, z, rfl, rfl, hz⟩ := h
  have hsplit : pre ++ encodeAll [] ++ List.replicate z 0 =
      pre ++ List.replicate 4 0 ++ List.replicate (z - 4) (0 : UInt8) := by
    rw [encodeAll_nil, List.append_nil, List.append_assoc, List.replicate_append_replicate,
      Nat.add_sub_cancel' hz]
  rw [hsplit, isLastEntry_of_read (Splice.read_middle rfl (by simp))]
  rfl

theorem Packed.isLast_cons {b : Bytes} {e : Nat} {x : XattrEntry} {es : List XattrEntry}
    (h : Packed b e (x :: es)) : isLastEntry b e = .ok false := by
  obtain ⟨pre, post, hb, he⟩ := h.cut
  rw [isLastEntry_of_read (read_head hb he), decide_eq_false (head_ne x)]

/-! ## Walks over the whole list -/

/-- The entries before the first one with the key. -/
def before (k : XattrKey) (es : List XattrEntry) : List XattrEntry :=
  es.takeWhile fun x => x.key ≠ k

/-- The entries from the first one with the key. -/
def fromKey (k : XattrKey) (es : List XattrEntry) : List XattrEntry :=
  es.dropWhile fun x => x.key ≠ k

theorem before_append_fromKey (k : XattrKey) (es : List XattrEntry) :
    before k es ++ fromKey k es = es := List.takeWhile_append_dropWhile

theorem before_cons_of_ne {k : XattrKey} {x : XattrEntry} (h : x.key ≠ k) (es : List XattrEntry) :
    before k (x :: es) = x :: before k es := by
  unfold before
  rw [List.takeWhile_cons_of_pos (by simpa using h)]

theorem before_cons_of_eq {k : XattrKey} {x : XattrEntry} (h : x.key = k) (es : List XattrEntry) :
    before k (x :: es) = [] := by
  unfold before
  rw [List.takeWhile_cons_of_neg (by simpa using h)]

theorem findXattrFrom_eq (k : XattrKey) : ∀ {es : List XattrEntry} {b : Bytes} {e fuel : Nat},
    Packed b e es → es.length < fuel →
    findXattrFrom b k.1 k.2 fuel e = .ok (e + (encodeAll (before k es)).length) := by
  intro es
  induction es with
  | nil =>
      intro b e fuel h hfuel
      obtain ⟨n, rfl⟩ : ∃ n, fuel = n + 1 := ⟨fuel - 1, by omega⟩
      unfold findXattrFrom
      rw [h.isLast_nil]
      rfl
  | cons x es ih =>
      intro b e fuel h hfuel
      obtain ⟨n, rfl⟩ : ∃ n, fuel = n + 1 := ⟨fuel - 1, by omega⟩
      obtain ⟨pre, post, hb, he⟩ := h.cut
      unfold findXattrFrom
      rw [h.isLast_cons, ok_bind, if_neg Bool.false_ne_true, sameName_eq hb he, ok_bind]
      by_cases hk : x.key = k
      · rw [decide_eq_true hk, if_pos rfl, before_cons_of_eq hk]
        rfl
      · rw [decide_eq_false hk, if_neg Bool.false_ne_true, nextEntry_of_read (read_head hb he),
          ok_bind, ih h.tail (by simpa using hfuel), before_cons_of_ne hk, encodeAll_cons,
          List.length_append, Nat.add_assoc]

/-- The entry a key is looked up at. -/
def entryOf (es : List XattrEntry) (k : XattrKey) : Nat :=
  xattrHeaderSize + (encodeAll (before k es)).length

theorem Packed.findXattr_eq {b : Bytes} {es : List XattrEntry} (h : Packed b xattrHeaderSize es)
    (k : XattrKey) : findXattr b 0 k.1 k.2 = .ok (entryOf es k) := by
  unfold findXattr
  rw [Nat.zero_add]
  exact findXattrFrom_eq k h h.fuel

theorem lastEntryFrom_eq : ∀ {es : List XattrEntry} {b : Bytes} {e fuel : Nat},
    Packed b e es → es.length < fuel →
    lastEntryFrom b fuel e = .ok (e + (encodeAll es).length) := by
  intro es
  induction es with
  | nil =>
      intro b e fuel h hfuel
      obtain ⟨n, rfl⟩ : ∃ n, fuel = n + 1 := ⟨fuel - 1, by omega⟩
      unfold lastEntryFrom
      rw [h.isLast_nil]
      rfl
  | cons x es ih =>
      intro b e fuel h hfuel
      obtain ⟨n, rfl⟩ : ∃ n, fuel = n + 1 := ⟨fuel - 1, by omega⟩
      obtain ⟨pre, post, hb, he⟩ := h.cut
      unfold lastEntryFrom
      rw [h.isLast_cons, ok_bind, if_neg Bool.false_ne_true, nextEntry_of_read (read_head hb he),
        ok_bind, ih h.tail (by simpa using hfuel), encodeAll_cons, List.length_append,
        Nat.add_assoc]

/-- The line of the listing for an entry. -/
def listedLine (handler : UInt8 → Option Bytes) (k : XattrKey) : Option Bytes :=
  (handler k.1).map fun pre => pre ++ k.2 ++ [0]

/-- What the listing returns from an entry on, `listed` bytes being listed before it. -/
def listedFrom (handler : UInt8 → Option Bytes) (keys : List XattrKey) (buffer : Option Nat)
    (listed : Nat) (out : Bytes) : XattrM (Nat × Bytes) :=
  let lines := (keys.filterMap (listedLine handler)).flatten
  match buffer with
  | none => .ok (listed + lines.length, out)
  | some bufferSize =>
    if listed + lines.length > bufferSize then .error .erange
    else .ok (listed + lines.length, out ++ lines)

/-- A line that does not fit ends the listing: the lines behind it make it no shorter. -/
theorem listedFrom_cons {handler : UInt8 → Option Bytes} {k : XattrKey} {keys : List XattrKey}
    {line : Bytes} (hline : listedLine handler k = some line) (buffer : Option Nat) (listed : Nat)
    (out : Bytes) :
    listedFrom handler (k :: keys) buffer listed out =
      match buffer with
      | none => listedFrom handler keys none (listed + line.length) out
      | some bufferSize =>
        if listed + line.length > bufferSize then .error .erange
        else listedFrom handler keys (some bufferSize) (listed + line.length) (out ++ line) := by
  unfold listedFrom
  rw [List.filterMap_cons_some hline, List.flatten_cons]
  cases buffer with
  | none => simp only [List.length_append, Nat.add_assoc]
  | some bufferSize =>
      simp only [List.length_append, ← Nat.add_assoc, ← List.append_assoc]
      by_cases hfit : listed + line.length > bufferSize
      · rw [if_pos hfit, if_pos (by omega)]
      · rw [if_neg hfit]

theorem listxattrFrom_eq (handler : UInt8 → Option Bytes) (buffer : Option Nat) :
    ∀ {es : List XattrEntry} {b : Bytes} {e fuel listed : Nat} {out : Bytes},
    Packed b e es → es.length < fuel → (∀ n, buffer = some n → listed ≤ n) →
    listxattrFrom b handler buffer fuel e listed out =
      listedFrom handler (es.map XattrEntry.key) buffer listed out := by
  intro es
  induction es with
  | nil =>
      intro b e fuel listed out h hfuel hle
      obtain ⟨n, rfl⟩ : ∃ n, fuel = n + 1 := ⟨fuel - 1, by omega⟩
      unfold listxattrFrom listedFrom
      rw [h.isLast_nil, ok_bind, if_pos rfl]
      cases buffer with
      | none => rfl
      | some bufferSize =>
          simp only [List.map_nil, List.filterMap_nil, List.flatten_nil, List.length_nil,
            Nat.add_zero, List.append_nil]
          rw [if_neg (Nat.not_lt.mpr (hle bufferSize rfl))]
          rfl
  | cons x es ih =>
      intro b e fuel listed out h hfuel hle
      obtain ⟨n, rfl⟩ : ∃ n, fuel = n + 1 := ⟨fuel - 1, by omega⟩
      obtain ⟨pre, post, hb, he⟩ := h.cut
      have hread := read_head hb he
      have hn : es.length < n := by simpa using hfuel
      unfold listxattrFrom
      rw [h.isLast_cons, ok_bind, if_neg Bool.false_ne_true, entryHead_of_read hread, ok_bind,
        nextEntry_of_read hread, List.map_cons]
      simp only [ok_bind]
      cases hh : handler x.index with
      | none =>
          have hline : listedLine handler x.key = none := by
            unfold listedLine
            rw [show x.key.1 = x.index from rfl, hh]
            rfl
          simp only
          rw [ih h.tail hn hle]
          unfold listedFrom
          rw [List.filterMap_cons_none hline]
      | some p =>
          have hline : listedLine handler x.key = some (p ++ x.name ++ [0]) := by
            unfold listedLine
            rw [show x.key.1 = x.index from rfl, hh]
            rfl
          have hlen : (p ++ x.name ++ [0]).length = p.length + x.name.length + 1 := by
            rw [List.length_append, List.length_append]
            rfl
          rw [listedFrom_cons hline, hlen]
          cases buffer with
          | none =>
              simp only
              rw [ih h.tail hn (by simp)]
          | some bufferSize =>
              simp only [read_name hb he, access_some, ok_bind]
              by_cases hfit : listed + (p.length + x.name.length + 1) > bufferSize
              · rw [if_pos hfit, if_pos hfit]
              · rw [if_neg hfit, if_neg hfit, ih h.tail hn ?_]
                · simp only [List.append_assoc]
                · rintro m hm
                  cases hm
                  omega

/-! ## The walk over the inline part -/

/-- A buffer cut behind a piece of it. -/
theorem take_middle (pre mid post c : Bytes) {n : Nat} (h : pre.length + mid.length ≤ n) :
    (pre ++ mid ++ post).take n ++ c =
      pre ++ mid ++ (post.take (n - (pre.length + mid.length)) ++ c) := by
  rw [List.take_append, List.take_of_length_le (by simpa using h), List.length_append,
    List.append_assoc]

/-- A read inside the part that is kept. -/
theorem read_cut {b c : Bytes} {e n : Nat} (hn : n ≤ b.length) (he : e + 4 ≤ n) :
    Splice.read (b.take n ++ c) e 4 = Splice.read b e 4 := by
  rw [Splice.read_append (by rw [List.length_take]; omega), Splice.read_take he (by omega)]

/-- `__find_inline_xattr` on a buffer that agrees with `b` in the inline part: it stops at
    the first entry with the key or at the end of the list if it gets there with a word to
    spare, and else at an entry before them. -/
theorem findInlineXattrFrom_eq (k : XattrKey) {b : Bytes} (c : Bytes) {inlineSize : Nat}
    (hb : inlineSize ≤ b.length) : ∀ {es : List XattrEntry} {e fuel : Nat},
    Packed b e es → es.length < fuel → e + 4 ≤ inlineSize →
    ∃ r, findInlineXattrFrom (b.take inlineSize ++ c) inlineSize k.1 k.2 fuel e = .ok r ∧
      ((r = .entry (e + (encodeAll (before k es)).length) ∧
        ∀ s, fromKey k es = s → e + (encodeAll (before k es)).length +
          ((s.head?.map fun x => x.encode.length).getD 4) ≤ inlineSize) ∨
      ∃ l s, es = l ++ s ∧ before k es = l ++ before k s ∧
        r = .past (e + (encodeAll l).length)) := by
  intro es
  induction es with
  | nil =>
      intro e fuel h hfuel he
      obtain ⟨n, rfl⟩ : ∃ n, fuel = n + 1 := ⟨fuel - 1, by omega⟩
      have hlast := h.isLast_nil
      unfold isLastEntry at hlast
      refine ⟨.entry e, ?_, Or.inl ⟨rfl, ?_⟩⟩
      · unfold findInlineXattrFrom isLastEntry
        rw [read_cut hb he, hlast]
        rfl
      · rintro s rfl
        exact he
  | cons x es ih =>
      intro e fuel h hfuel he
      obtain ⟨n, rfl⟩ : ∃ n, fuel = n + 1 := ⟨fuel - 1, by omega⟩
      obtain ⟨pre, post, hcut, hpre⟩ := h.cut
      have hread : Splice.read (b.take inlineSize ++ c) e 4 = some x.head := by
        rw [read_cut hb he, read_head hcut hpre]
      unfold findInlineXattrFrom
      rw [isLastEntry_of_read hread, decide_eq_false (head_ne x), ok_bind,
        if_neg Bool.false_ne_true, if_neg (by omega), nextEntry_of_read hread]
      simp only [ok_bind]
      by_cases hnext : e + x.encode.length + 4 > inlineSize
      · rw [if_pos hnext]
        exact ⟨_, rfl, Or.inr ⟨[], x :: es, rfl, rfl, rfl⟩⟩
      rw [if_neg hnext]
      have hcut' : b.take inlineSize ++ c = pre ++ x.encode ++
          (post.take (inlineSize - (pre.length + x.encode.length)) ++ c) := by
        rw [hcut, take_middle _ _ _ _ (by omega)]
      rw [sameName_eq hcut' hpre, ok_bind]
      by_cases hk : x.key = k
      · rw [decide_eq_true hk, if_pos rfl]
        refine ⟨_, rfl, Or.inl ⟨by rw [before_cons_of_eq hk]; rfl, ?_⟩⟩
        rintro s rfl
        rw [before_cons_of_eq hk, fromKey, List.dropWhile_cons_of_neg (by simpa using hk)]
        simp only [encodeAll_nil, List.length_nil, Nat.add_zero, List.head?_cons, Option.map_some,
          Option.getD_some]
        omega
      · rw [decide_eq_false hk, if_neg Bool.false_ne_true]
        obtain ⟨r, hr, hcase⟩ := ih h.tail (show es.length < n by simpa using hfuel) (by omega)
        have hfrom : fromKey k (x :: es) = fromKey k es := by
          unfold fromKey
          rw [List.dropWhile_cons_of_pos (by simpa using hk)]
        refine ⟨r, hr, ?_⟩
        rw [before_cons_of_ne hk, hfrom, encodeAll_cons, List.length_append, ← Nat.add_assoc]
        rcases hcase with hfound | ⟨l, s, hes, hbefore, hpast⟩
        · exact Or.inl hfound
        · refine Or.inr ⟨x :: l, s, by rw [hes]; rfl, by rw [hbefore]; rfl, ?_⟩
          rw [hpast, encodeAll_cons, List.length_append, ← Nat.add_assoc]

/-! ## Changing the list -/

/-- Removal moves the entries behind the removed one up, and zeroes the end. -/
theorem removeEntry_eq {pre : Bytes} {l r : List XattrEntry} {x : XattrEntry} {z here last : Nat}
    (hhere : here = pre.length + (encodeAll l).length)
    (hlast : last = here + x.encode.length + (encodeAll r).length) :
    removeEntry (pre ++ encodeAll (l ++ x :: r) ++ List.replicate z 0) here last =
      .ok (pre ++ encodeAll (l ++ r) ++ List.replicate (x.encode.length + z) 0,
        last - x.encode.length) := by
  set b := pre ++ encodeAll (l ++ x :: r) ++ List.replicate z (0 : UInt8) with hb
  have hpre : (pre ++ encodeAll l).length = here := by rw [List.length_append, hhere]
  have hcut : b = (pre ++ encodeAll l) ++ x.encode ++ (encodeAll r ++ List.replicate z 0) := by
    simp [hb]
  have hread := read_head hcut hpre
  unfold removeEntry
  rw [nextEntry_of_read hread, entrySize_of_read hread]
  simp only [ok_bind]
  -- the entries behind it
  have htail : Splice.read b (here + x.encode.length) (last - (here + x.encode.length)) =
      some (encodeAll r) := by
    have hb' : b = (pre ++ encodeAll l ++ x.encode) ++ encodeAll r ++ List.replicate z 0 := by
      simp [hb]
    rw [hb']
    refine Splice.read_middle ?_ (by omega)
    rw [List.length_append, hpre]
  rw [htail, access_some, ok_bind]
  -- moved up over the first bytes of the old entry and of themselves
  set rest := (x.encode ++ encodeAll r).drop (encodeAll r).length with hrest
  have hlen : rest.length = x.encode.length := by
    rw [hrest, List.length_drop, List.length_append]
    omega
  have hsplit : (x.encode ++ encodeAll r) =
      (x.encode ++ encodeAll r).take (encodeAll r).length ++ rest :=
    (List.take_append_drop _ _).symm
  have hmove : Splice.write b here (encodeAll r) =
      some ((pre ++ encodeAll l) ++ encodeAll r ++ (rest ++ List.replicate z 0)) := by
    have hb' : b = (pre ++ encodeAll l) ++
        (x.encode ++ encodeAll r).take (encodeAll r).length ++ (rest ++ List.replicate z 0) := by
      rw [hcut, List.append_assoc _ ((x.encode ++ encodeAll r).take _), ← List.append_assoc _ rest,
        ← hsplit]
      simp
    rw [hb']
    refine Splice.write_middle hpre.symm ?_
    rw [List.length_take, List.length_append]
    omega
  rw [hmove, access_some, ok_bind]
  have hzero : Splice.write ((pre ++ encodeAll l) ++ encodeAll r ++ (rest ++ List.replicate z 0))
      (last - x.encode.length) (List.replicate x.encode.length 0) =
      some ((pre ++ encodeAll l ++ encodeAll r) ++ List.replicate x.encode.length 0 ++
        List.replicate z 0) := by
    rw [← List.append_assoc _ rest]
    refine Splice.write_middle ?_ (by rw [List.length_replicate, hlen])
    rw [List.length_append, hpre]
    omega
  rw [hzero, access_some, ok_bind, List.append_assoc _ (List.replicate _ _),
    List.replicate_append_replicate]
  simp only [encodeAll_append, List.append_assoc]
  rfl

/-- A new entry goes over the zeros behind the last one. -/
theorem writeEntry_eq {pre : Bytes} {es : List XattrEntry} {x : XattrEntry} {z last : Nat}
    (hlast : last = pre.length + (encodeAll es).length) (hz : x.encode.length ≤ z) :
    writeEntry (pre ++ encodeAll es ++ List.replicate z 0) last x.index x.name x.value =
      .ok (pre ++ encodeAll (es ++ [x]) ++ List.replicate (z - x.encode.length) 0) := by
  have hraw := le_xattrAlign x.rawSize
  have hsize : x.rawSize = 4 + x.name.length + x.value.length := rfl
  rw [x.length_encode] at hz
  have hzeros : List.replicate z (0 : UInt8) = List.replicate 4 0 ++
      (List.replicate x.name.length 0 ++ (List.replicate x.value.length 0 ++
        (List.replicate (xattrAlign x.rawSize - x.rawSize) 0 ++
          List.replicate (z - xattrAlign x.rawSize) 0))) := by
    simp only [List.replicate_append_replicate]
    congr 1
    omega
  set front := pre ++ encodeAll es with hfront
  have hlen : front.length = last := by rw [hfront, List.length_append, hlast]
  unfold writeEntry
  rw [hzeros, ← List.append_assoc front]
  have h₁ : Splice.write (front ++ List.replicate 4 0 ++ (List.replicate x.name.length 0 ++
      (List.replicate x.value.length 0 ++ (List.replicate (xattrAlign x.rawSize - x.rawSize) 0 ++
        List.replicate (z - xattrAlign x.rawSize) 0)))) last x.head =
      some (front ++ x.head ++ (List.replicate x.name.length 0 ++
        (List.replicate x.value.length 0 ++
          (List.replicate (xattrAlign x.rawSize - x.rawSize) 0 ++
            List.replicate (z - xattrAlign x.rawSize) 0)))) :=
    Splice.write_middle hlen.symm (by simp)
  unfold XattrEntry.head at h₁
  simp only
  rw [h₁, access_some, ok_bind, ← List.append_assoc,
    Splice.write_middle (by simp [hlen]) (by simp), access_some, ok_bind, ← List.append_assoc,
    Splice.write_middle (by rw [List.length_append, List.length_append, hlen]; rfl) (by simp),
    access_some, x.length_encode]
  simp [hfront, XattrEntry.encode, XattrEntry.head]

end F2fs.Xattr

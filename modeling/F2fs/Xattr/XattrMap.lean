/-
  Extended attributes as a map.

  The lookup of `f2fs_getxattr` reads the area in two steps.  It asks whether the first
  entry is the last one before it has read the xattr block, so an inline part that ends
  before the first word behind the header makes every attribute of the block invisible.
  Above the 923 words of `i_addr[]` the inline part starts outside it.  `xattrsAreMap_iff`
  says that these are the only sizes that go wrong.
-/
import F2fs.Xattr.Stored

namespace F2fs.Xattr

open F2fs.Node (defAddrsPerInode)

/-! ## The lookup -/

/-- From `e` the buffer shows the list `s`: its first entry, or the end. -/
def Shows (t : Bytes) (e : Nat) : List XattrEntry → Prop
  | [] => Splice.read t e 4 = some [0, 0, 0, 0]
  | x :: _ => ∃ pre post, t = pre ++ x.encode ++ post ∧ pre.length = e

theorem Packed.shows {b : Bytes} {e : Nat} : ∀ {s : List XattrEntry}, Packed b e s → Shows b e s
  | [], h => by
      obtain ⟨pre, z, rfl, rfl, hz⟩ := h
      have hzeros : List.replicate z (0 : UInt8) = [0, 0, 0, 0] ++ List.replicate (z - 4) 0 := by
        rw [show ([0, 0, 0, 0] : Bytes) = List.replicate 4 0 from rfl,
          List.replicate_append_replicate, Nat.add_sub_cancel' hz]
      rw [hzeros, encodeAll_nil, List.append_nil, ← List.append_assoc]
      exact Splice.read_middle rfl rfl
  | _ :: _, h => h.cut

/-- The part of the buffer that is kept shows the list if it holds its first entry. -/
theorem Shows.cut {b c : Bytes} {e n : Nat} {s : List XattrEntry} (h : Shows b e s)
    (hn : n ≤ b.length) (he : e + ((s.head?.map fun x => x.encode.length).getD 4) ≤ n) :
    Shows (b.take n ++ c) e s := by
  cases s with
  | nil =>
      show Splice.read (b.take n ++ c) e 4 = _
      rw [read_cut hn he]
      exact h
  | cons x s =>
      obtain ⟨pre, post, rfl, rfl⟩ := h
      exact ⟨pre, _, take_middle pre x.encode post c he, rfl⟩

theorem checkEntry_of_nil {t : Bytes} {e : Nat} (h : Shows t e []) :
    checkEntry t e = .error .enodata := by
  unfold checkEntry
  rw [isLastEntry_of_read h]
  rfl

theorem checkEntry_of_cons {t : Bytes} {e : Nat} {x : XattrEntry} {s : List XattrEntry}
    (h : Shows t e (x :: s)) : checkEntry t e = .ok (e, t) := by
  obtain ⟨pre, post, hb, he⟩ := h
  unfold checkEntry
  rw [isLastEntry_of_read (read_head hb he), decide_eq_false (head_ne x)]
  rfl

theorem Packed.shows_entryOf {b : Bytes} {es : List XattrEntry} (h : Packed b xattrHeaderSize es)
    (k : XattrKey) : Shows b (entryOf es k) (fromKey k es) := by
  have hsplit : Packed b xattrHeaderSize (before k es ++ fromKey k es) := by
    rwa [before_append_fromKey]
  exact hsplit.skip.shows

/-- A list that ends in the kept part is still there, with the zeros that are put behind. -/
theorem Packed.cut_zeros {b : Bytes} {es : List XattrEntry} {i n : Nat}
    (h : Packed b xattrHeaderSize es) (hfit : xattrHeaderSize + (encodeAll es).length ≤ i)
    (hi : i ≤ b.length) (hn : 4 ≤ n) :
    Packed (b.take i ++ List.replicate n 0) xattrHeaderSize es := by
  obtain ⟨pre, z, rfl, hpre, -⟩ := h
  refine ⟨pre, min (i - (pre.length + (encodeAll es).length)) z + n, ?_, hpre, by omega⟩
  rw [take_middle _ _ _ _ (by omega), List.take_replicate, List.replicate_append_replicate]

section Lookup

variable {inode : XattrInode} {es : List XattrEntry}

theorem Stores.take_area (h : Stores inode es) :
    (area inode).take (inlineXattrBytes inode) = inlineBytes inode := by
  unfold area
  rw [List.append_assoc, List.take_left' h.wellSized.length_inline]

/-- The second walk, over the whole list. -/
theorem findFromLast_eq {t : Bytes} (h : Packed t xattrHeaderSize es) (k : XattrKey)
    {l s : List XattrEntry} (hes : es = l ++ s) (hbefore : before k es = l ++ before k s) :
    findFromLast t (xattrHeaderSize + (encodeAll l).length) k.1 k.2 = .ok (entryOf es k) := by
  have hskip : Packed t xattrHeaderSize (l ++ s) := hes ▸ h
  unfold findFromLast
  rw [if_pos (by unfold xattrHeaderSize; omega), findXattrFrom_eq k hskip.skip hskip.skip.fuel,
    entryOf, hbefore,
    encodeAll_append, List.length_append, Nat.add_assoc]

/-- Without an inline part the lookup is the scan over the block, if there is one. -/
theorem Stores.lookup_block (h : Stores inode es) (h0 : inlineXattrBytes inode = 0)
    (k : XattrKey) : ∃ t, Shows t (entryOf es k) (fromKey k es) ∧
      lookupAllXattrs {} inode k.1 k.2 = checkEntry t (entryOf es k) := by
  refine ⟨area inode, h.packed.shows_entryOf k, ?_⟩
  have hfirst := h.wellSized.firstRead_eq {} (validXattrBlockSize + xattrPaddingSize)
  have hsecond := h.wellSized.secondRead_eq {}
  rw [← Nat.add_assoc, h0, if_neg (by simp)] at hfirst
  rw [if_neg (by simp)] at hsecond
  cases hb : inode.xattrBlock with
  | none =>
      have hnil : es = [] := by
        rcases h.inlineOnly hb with hnil | hfit
        · exact hnil
        · unfold xattrHeaderSize at hfit
          omega
      subst hnil
      rw [checkEntry_of_nil (h.packed.shows_entryOf k)]
      unfold lookupAllXattrs
      simp [hb, h0]
  | some blk =>
      unfold lookupAllXattrs findInlinePart
      simp only [hb, Option.isSome_some, if_true, h0, hfirst, ok_bind, ne_eq, not_true_eq_false,
        if_false, hsecond]
      rw [if_neg (by simp), if_neg (by simp), findFromLast, if_neg (by simp),
        h.packed.findXattr_eq k, ok_bind]

/-- The buffer after the second step: the area, or its inline part if there is no block. -/
theorem Stores.secondPart_eq (h : Stores inode es)
    (hn : xattrHeaderSize + 4 ≤ inlineXattrBytes inode) {size : Nat}
    (hsize : size = if inode.xattrBlock.isSome = true then validXattrBlockSize else 0) :
    ∃ t, readBlockPart {} inode (inlineBytes inode ++ List.replicate (size + xattrPaddingSize) 0) =
      .ok t ∧ Packed t xattrHeaderSize es ∧
        t.length = inlineXattrBytes inode + size + xattrPaddingSize := by
  cases hb : inode.xattrBlock with
  | some blk =>
      rw [hb, Option.isSome_some, if_pos rfl] at hsize
      refine ⟨area inode, ?_, h.packed, by rw [h.wellSized.length_area, hsize]⟩
      have hsecond := h.wellSized.secondRead_eq {}
      rwa [if_neg (by simp), ← hsize] at hsecond
  | none =>
      rw [hb, Option.isSome_none, if_neg Bool.false_ne_true] at hsize
      have hfit : xattrHeaderSize + (encodeAll es).length ≤ inlineXattrBytes inode := by
        rcases h.inlineOnly hb with hnil | hfit
        · rw [hnil, encodeAll_nil, List.length_nil]
          omega
        · exact hfit
      have hle : inlineXattrBytes inode ≤ (area inode).length := by
        rw [h.wellSized.length_area]
        omega
      refine ⟨_, by rw [readBlockPart, hb], ?_, ?_⟩
      · rw [← h.take_area]
        exact h.packed.cut_zeros hfit hle (by unfold xattrPaddingSize; omega)
      · rw [List.length_append, h.wellSized.length_inline, List.length_replicate, Nat.add_assoc]

/-- With an inline part of more than the header the first walk finds the entry, or stops
    before it and the second one goes on. -/
theorem Stores.lookup_inline (h : Stores inode es)
    (hn : xattrHeaderSize + 4 ≤ inlineXattrBytes inode) (k : XattrKey) :
    ∃ t, Shows t (entryOf es k) (fromKey k es) ∧
      lookupAllXattrs {} inode k.1 k.2 = checkEntry t (entryOf es k) := by
  obtain ⟨size, hsize⟩ : ∃ size, size =
    if inode.xattrBlock.isSome = true then validXattrBlockSize else 0 := ⟨_, rfl⟩
  obtain ⟨t, hsecond, ht, hlen⟩ := h.secondPart_eq hn hsize
  have h0 : inlineXattrBytes inode ≠ 0 := by
    unfold xattrHeaderSize at hn
    omega
  have hle : inlineXattrBytes inode ≤ (area inode).length := by
    rw [h.wellSized.length_area]
    omega
  have hfirst := h.wellSized.firstRead_eq {} (size + xattrPaddingSize)
  rw [if_neg (by simp), ← Nat.add_assoc] at hfirst
  set t₁ := inlineBytes inode ++ List.replicate (size + xattrPaddingSize) 0 with ht₁
  have hlen₁ : t₁.length = t.length := by
    rw [hlen, ht₁, List.length_append, h.wellSized.length_inline, List.length_replicate,
      Nat.add_assoc]
  rw [← h.take_area] at ht₁
  have hfuel : es.length < t.length := ht.fuel
  obtain ⟨r, hr, hcase⟩ := findInlineXattrFrom_eq k
    (List.replicate (size + xattrPaddingSize) 0) hle h.packed hfuel hn
  rw [← ht₁] at hr
  have hfind : findInlinePart inode t₁ k.1 k.2 = .ok r := by
    rw [findInlinePart, if_pos h0, findInlineXattr, hlen₁, hr]
  rcases hcase with ⟨rfl, hbound⟩ | ⟨l, s, hes, hbefore, rfl⟩
  · refine ⟨t₁, ?_, ?_⟩
    · rw [ht₁]
      exact (h.packed.shows_entryOf k).cut hle (hbound _ rfl)
    · unfold lookupAllXattrs
      simp only [← hsize, h0, and_false, if_false, Bool.false_eq_true, hfirst, ok_bind, hfind]
      rfl
  · refine ⟨t, ht.shows_entryOf k, ?_⟩
    unfold lookupAllXattrs
    simp only [← hsize, h0, and_false, if_false, Bool.false_eq_true, hfirst, ok_bind, hfind,
      hsecond, findFromLast_eq ht k hes hbefore]

/-- `lookup_all_xattrs` ends at the entry of the key, in a buffer that shows it, unless the
    inline part ends before the first word behind the header. -/
theorem Stores.lookupAllXattrs_eq (h : Stores inode es)
    (hn : inode.inlineXattrSize = 0 ∨ 7 ≤ inode.inlineXattrSize) (k : XattrKey) :
    ∃ t, Shows t (entryOf es k) (fromKey k es) ∧
      lookupAllXattrs {} inode k.1 k.2 = checkEntry t (entryOf es k) := by
  rcases hn with h0 | hn
  · exact h.lookup_block (by rw [inlineXattrBytes, h0]) k
  · exact h.lookup_inline (by unfold inlineXattrBytes xattrHeaderSize; omega) k

end Lookup

/-! ## Attributes as a map -/

/-- What `f2fs_getxattr` is to return for a name with this value. -/
def valueResult (name : Bytes) (value : Option Bytes) (buffer : Option Nat) :
    XattrM (Nat × Bytes) :=
  if name.length > f2fsNameLen then .error .erange
  else
    match value with
    | none => .error .enodata
    | some v =>
      match buffer with
      | none => .ok (v.length, [])
      | some bufferSize => if v.length > bufferSize then .error .erange else .ok (v.length, v)

/-- The lookup as `__f2fs_setxattr` does it: one scan over the whole area. -/
def fullScan (env : XattrEnv) (inode : XattrInode) (index : UInt8) (name : Bytes) :
    XattrM (Nat × Bytes) := do
  let b ← readAllXattrs env inode
  let here ← findXattr b 0 index name
  checkEntry b here

/-- The calls read the attributes of the inode as the map `m`. -/
structure ReadsAs (inode : XattrInode) (m : XattrKey → Option Bytes) : Prop where
  get : ∀ index name buffer,
    getxattr {} inode index name buffer = valueResult name (m (index, name)) buffer
  list : ∃ keys : List XattrKey, keys.Nodup ∧ (∀ k, k ∈ keys ↔ (m k).isSome = true) ∧
    ∀ handler buffer, listxattr {} inode handler buffer = listedFrom handler keys buffer 0 []
  agree : ∀ index name, (lookupAllXattrs {} inode index name).map Prod.fst =
    (fullScan {} inode index name).map Prod.fst

section Reads

variable {inode : XattrInode} {es : List XattrEntry}

theorem valueOf_of_fromKey_nil {k : XattrKey} (hf : fromKey k es = []) : valueOf es k = none := by
  rcases fromKey_cases k es with ⟨-, hb⟩ | ⟨x, r, hf', -, -⟩
  · refine valueOf_of_ne fun x hx => ?_
    rw [← hb] at hx
    exact key_ne_of_mem_before hx
  · rw [hf] at hf'
    cases hf'

theorem valueOf_of_fromKey_cons {k : XattrKey} {x : XattrEntry} {r : List XattrEntry}
    (hf : fromKey k es = x :: r) : x.key = k ∧ valueOf es k = some x.value := by
  rcases fromKey_cases k es with ⟨hf', -⟩ | ⟨y, s, hf', hy, hes⟩
  · rw [hf] at hf'
    cases hf'
  · rw [hf] at hf'
    cases hf'
    refine ⟨hy, ?_⟩
    subst hy
    rw [hes]
    exact valueOf_middle r fun y hy => key_ne_of_mem_before hy

theorem isSome_valueOf (k : XattrKey) :
    (valueOf es k).isSome = true ↔ k ∈ es.map XattrEntry.key := by
  unfold valueOf
  rw [Option.isSome_map, List.find?_isSome]
  simp

theorem getxattr_eq (hlookup : ∀ k : XattrKey, ∃ t, Shows t (entryOf es k) (fromKey k es) ∧
      lookupAllXattrs {} inode k.1 k.2 = checkEntry t (entryOf es k))
    (index : UInt8) (name : Bytes) (buffer : Option Nat) :
    getxattr {} inode index name buffer = valueResult name (valueOf es (index, name)) buffer := by
  unfold getxattr valueResult
  by_cases hname : name.length > f2fsNameLen
  · rw [if_pos hname, if_pos hname]
  rw [if_neg hname, if_neg hname]
  obtain ⟨t, ht, heq⟩ := hlookup (index, name)
  rw [heq]
  cases hf : fromKey (index, name) es with
  | nil =>
      rw [hf] at ht
      rw [checkEntry_of_nil ht, valueOf_of_fromKey_nil hf]
      rfl
  | cons x r =>
      rw [hf] at ht
      obtain ⟨-, hvalue⟩ := valueOf_of_fromKey_cons hf
      obtain ⟨pre, post, hcut, he⟩ := ht
      have hread := read_value hcut he
      rw [checkEntry_of_cons (s := r) ⟨pre, post, hcut, he⟩, hvalue]
      simp only [ok_bind, entryHead_of_read (read_head hcut he), hread, access_some]
      cases buffer <;> rfl

theorem Stores.readsAs (h : Stores inode es)
    (hlookup : ∀ k : XattrKey, ∃ t, Shows t (entryOf es k) (fromKey k es) ∧
      lookupAllXattrs {} inode k.1 k.2 = checkEntry t (entryOf es k)) :
    ReadsAs inode (valueOf es) := by
  obtain ⟨b, hb, -, hread⟩ := h.readAllXattrs_eq {}
  rw [if_neg (by simp), if_neg (by simp), if_neg (by simp)] at hread
  refine ⟨getxattr_eq hlookup, ⟨es.map XattrEntry.key, h.nodup, fun k => (isSome_valueOf k).symm,
    ?_⟩, ?_⟩
  · intro handler buffer
    unfold listxattr
    rw [hread, ok_bind, listxattrFrom_eq handler buffer hb hb.fuel fun _ _ => Nat.zero_le _]
  · intro index name
    obtain ⟨t, ht, heq⟩ := hlookup (index, name)
    have hb' := hb.shows_entryOf (index, name)
    unfold fullScan
    rw [heq, hread, ok_bind, hb.findXattr_eq (index, name), ok_bind]
    cases hf : fromKey (index, name) es with
    | nil =>
        rw [hf] at ht hb'
        rw [checkEntry_of_nil ht, checkEntry_of_nil hb']
    | cons x r =>
        rw [hf] at ht hb'
        rw [checkEntry_of_cons ht, checkEntry_of_cons hb']
        rfl

end Reads

/-! ## Runs -/

/-- A call of `f2fs_setxattr`, and what fails in it. -/
structure XattrSet where
  index : UInt8
  name : Bytes
  value : Option Bytes
  flags : XattrFlags := {}
  env : XattrEnv := {}
  index_ne : index ≠ 0

def XattrSet.run (inode : XattrInode) (s : XattrSet) : XattrM XattrInode :=
  setxattr s.env inode s.index s.name s.value s.flags

/-- A sequence of calls, all of them successful if there is a result. -/
def setAll (inode : XattrInode) (sets : List XattrSet) : XattrM XattrInode :=
  sets.foldlM XattrSet.run inode

/-- The map after a call. -/
def XattrSet.update (m : XattrKey → Option Bytes) (s : XattrSet) : XattrKey → Option Bytes :=
  Function.update m (s.index, s.name) s.value

/-- The last value of each name. -/
def lastValues (sets : List XattrSet) : XattrKey → Option Bytes :=
  sets.foldl XattrSet.update fun _ => none

/-- No attribute yet: the area is zeros behind its header. -/
structure NoXattrs (inode : XattrInode) : Prop where
  addrs : inode.iAddr.length = 4 * defAddrsPerInode
  block : ∀ blk, inode.xattrBlock = some blk → blk.length = validXattrBlockSize
  zeros : ∀ x ∈ (area inode).drop xattrHeaderSize, x = 0

/-- Extended attributes behave as a map with an inline part of `n` words. -/
def XattrsAreMap (n : Nat) : Prop :=
  ∀ inode, inode.inlineXattrSize = n → NoXattrs inode → ∀ sets inode',
    setAll inode sets = .ok inode' → ReadsAs inode' (lastValues sets)

theorem NoXattrs.stores {inode : XattrInode} (h : NoXattrs inode)
    (hsize : inode.inlineXattrSize ≤ defAddrsPerInode) : Stores inode [] := by
  refine ⟨hsize, h.addrs, h.block, by simp, ?_, fun _ => Or.inl rfl⟩
  have hlen : validXattrBlockSize + xattrPaddingSize ≤ (area inode).length := by
    unfold area
    rw [List.length_append, List.length_append, List.length_replicate]
    cases hb : inode.xattrBlock with
    | none =>
        rw [Option.getD_none, List.length_replicate]
        omega
    | some blk =>
        rw [Option.getD_some, h.block blk hb]
        omega
  refine ⟨(area inode).take xattrHeaderSize, (area inode).length - xattrHeaderSize, ?_, ?_, ?_⟩
  · have hzeros : (area inode).drop xattrHeaderSize =
        List.replicate ((area inode).length - xattrHeaderSize) 0 :=
      List.eq_replicate_iff.mpr ⟨List.length_drop, h.zeros⟩
    rw [encodeAll_nil, List.append_nil, ← hzeros, List.take_append_drop]
  · rw [List.length_take]
    unfold xattrHeaderSize validXattrBlockSize at *
    omega
  · unfold xattrHeaderSize validXattrBlockSize at *
    omega

/-- A run keeps what is stored a list, of the last values. -/
theorem setAll_stores : ∀ {sets : List XattrSet} {inode inode' : XattrInode}
    {es : List XattrEntry} {m : XattrKey → Option Bytes}, Stores inode es → valueOf es = m →
    setAll inode sets = .ok inode' →
    ∃ es', Stores inode' es' ∧ inode'.inlineXattrSize = inode.inlineXattrSize ∧
      valueOf es' = sets.foldl XattrSet.update m := by
  intro sets
  induction sets with
  | nil =>
      intro inode inode' es m h hm hrun
      cases hrun
      exact ⟨es, h, rfl, hm⟩
  | cons s sets ih =>
      intro inode inode' es m h hm hrun
      unfold setAll at hrun
      rw [List.foldlM_cons] at hrun
      cases hs : XattrSet.run inode s with
      | error e =>
          rw [hs, error_bind] at hrun
          cases hrun
      | ok inode₁ =>
          rw [hs, ok_bind] at hrun
          obtain ⟨es₁, h₁, hsize₁, hvalue⟩ := h.setxattr_of s.index_ne hs
          obtain ⟨es', h', hsize', hvalue'⟩ := ih (m := XattrSet.update m s) h₁
            (by rw [hvalue, hm]; rfl) hrun
          exact ⟨es', h', hsize'.trans hsize₁, hvalue'⟩

/-! ## The sizes that go wrong -/

/-- An inode without attributes, as it is created. -/
def freshInode (n : Nat) : XattrInode :=
  ⟨n, List.replicate (4 * defAddrsPerInode) 0, none⟩

theorem noXattrs_freshInode (n : Nat) : NoXattrs (freshInode n) := by
  refine ⟨List.length_replicate, by simp [freshInode], ?_⟩
  intro x hx
  have hx := List.mem_of_mem_drop hx
  unfold area inlineBytes freshInode at hx
  simp only [Option.getD_none, List.drop_replicate, List.replicate_append_replicate] at hx
  exact (List.mem_replicate.mp hx).2

/-- A short attribute. -/
def shortSet : XattrSet :=
  { index := 1, name := [0x61], value := some [0x78], index_ne := by decide }

theorem exists_setAll_freshInode {n : Nat} (hn : n ≤ defAddrsPerInode) :
    ∃ inode', setAll (freshInode n) [shortSet] = .ok inode' := by
  have h := (noXattrs_freshInode n).stores hn
  obtain ⟨b, hb, hlen, hread⟩ := h.readAllXattrs_eq {}
  rw [if_neg (by simp), if_neg (by simp), if_neg (by simp)] at hread
  obtain ⟨b₁, hb₁, hlen₁, heq⟩ := setxattr_scan hb hread 1 [0x61] (some [0x78]) {}
  have hoffset : 4 * n + 4072 ≤ minOffset (freshInode n) := le_xattrAlign _
  have hwithout : without ((1, [0x61]) : XattrKey) [] = [] := rfl
  rw [hwithout] at heq hb₁
  rw [if_neg (by decide), if_neg, if_neg (by decide), if_neg (by decide),
    if_neg (by simp [valueOf]),
    if_neg] at heq
  · let x : XattrEntry := ⟨1, [0x61], [0x78], by decide, by decide, by decide⟩
    have hroom : xattrHeaderSize + (encodeAll []).length + x.encode.length ≤
        minOffset (freshInode n) := by
      have hx : x.encode.length = 8 := by
        rw [x.length_encode]
        decide
      rw [hx, encodeAll_nil, List.length_nil]
      unfold xattrHeaderSize
      omega
    obtain ⟨b₂, hw, -, hlen₂⟩ := writeEntry_room hb₁ (hlen₁.trans hlen) hroom
    obtain ⟨inode', hok⟩ := h.writeAllXattrs_ok (hlen₂.trans (hlen₁.trans hlen))
      (xattrHeaderSize + (encodeAll []).length + 8)
    refine ⟨inode', ?_⟩
    show (setxattr {} (freshInode n) 1 [0x61] (some [0x78]) {} >>= fun i => .ok i) = _
    rw [heq, storeNewEntry, hw, ok_bind]
    exact (congrArg (· >>= fun i => .ok i) hok).trans rfl
  · rintro ⟨-, hlt⟩
    have hx : xattrAlign (xattrEntrySize + ([0x61] : Bytes).length +
      ((some [0x78] : Option Bytes).getD []).length) = 8 := by decide
    rw [hx, encodeAll_nil, List.length_nil] at hlt
    unfold xattrHeaderSize at hlt
    omega
  · unfold maxValueLen
    rw [show ((some [0x78] : Option Bytes).getD []).length = 1 from rfl]
    unfold xattrHeaderSize xattrEntrySize
    omega

theorem packed_zeros {inl : Bytes} {e m : Nat} (hle : inl.length ≤ e)
    (hm : e + 4 ≤ inl.length + m) : Packed (inl ++ List.replicate m 0) e [] := by
  refine ⟨inl ++ List.replicate (e - inl.length) 0, m - (e - inl.length), ?_, ?_, by omega⟩
  · rw [encodeAll_nil, List.append_nil, List.append_assoc, List.replicate_append_replicate]
    congr 2
    omega
  · rw [List.length_append, List.length_replicate]
    omega

/-- The first step sees the end of the list if the inline part is no more than a header. -/
theorem Stores.lookup_small {inode : XattrInode} {es : List XattrEntry} (h : Stores inode es)
    (h0 : inlineXattrBytes inode ≠ 0) (hn : inlineXattrBytes inode ≤ xattrHeaderSize)
    (hblock : inode.xattrBlock.isSome = true) (k : XattrKey) :
    lookupAllXattrs {} inode k.1 k.2 = .error .enodata := by
  have hfirst := h.wellSized.firstRead_eq {} (validXattrBlockSize + xattrPaddingSize)
  rw [if_neg (by simp), ← Nat.add_assoc] at hfirst
  have hzeros : Packed (inlineBytes inode ++
      List.replicate (validXattrBlockSize + xattrPaddingSize) 0) xattrHeaderSize [] :=
    packed_zeros (h.wellSized.length_inline ▸ hn) (by
      unfold xattrHeaderSize validXattrBlockSize
      omega)
  obtain ⟨fuel, hfuel⟩ := Nat.exists_eq_succ_of_ne_zero (Nat.ne_of_gt hzeros.fuel)
  have hfind : findInlinePart inode (inlineBytes inode ++
      List.replicate (validXattrBlockSize + xattrPaddingSize) 0) k.1 k.2 =
      .ok (.entry xattrHeaderSize) := by
    rw [findInlinePart, if_pos h0, findInlineXattr, hfuel, findInlineXattrFrom, hzeros.isLast_nil]
    rfl
  unfold lookupAllXattrs
  simp only [hblock, if_true, h0, and_false, if_false, Bool.false_eq_true, hfirst, ok_bind, hfind]
  exact checkEntry_of_nil hzeros.shows

/-- An inline part of one to six words: what is set in the block is not found. -/
theorem not_xattrsAreMap_of_small {n : Nat} (h0 : n ≠ 0) (hn : n < 7) : ¬XattrsAreMap n := by
  intro hmap
  have hle : n ≤ defAddrsPerInode := by
    unfold defAddrsPerInode
    omega
  have h := (noXattrs_freshInode n).stores hle
  obtain ⟨inode, hrun⟩ := exists_setAll_freshInode hle
  have hget := (hmap _ rfl (noXattrs_freshInode n) _ _ hrun).get 1 [0x61] none
  obtain ⟨es, hst, hsize, hvalue⟩ := setAll_stores h rfl hrun
  have hbytes : inlineXattrBytes inode = 4 * n := congrArg (4 * ·) hsize
  -- the attribute is in the block
  have hblock : inode.xattrBlock.isSome = true := by
    cases hb : inode.xattrBlock with
    | some blk => rfl
    | none =>
        have hne : es ≠ [] := by
          rintro rfl
          have := congrFun hvalue ((1, [0x61]) : XattrKey)
          simp [valueOf, shortSet, XattrSet.update] at this
        have hlen := four_mul_le_encodeAll es
        have hpos := List.length_pos_iff.mpr hne
        rcases hst.inlineOnly hb with hnil | hfit
        · exact absurd hnil hne
        · rw [hbytes] at hfit
          unfold xattrHeaderSize at hfit
          omega
  have hlookup := hst.lookup_small (by omega) (by unfold xattrHeaderSize; omega) hblock (1, [0x61])
  rw [getxattr, if_neg (by decide), hlookup] at hget
  exact absurd hget (by decide)

/-- An inline part that starts outside `i_addr[]`. -/
theorem not_xattrsAreMap_of_large {n : Nat} (hn : defAddrsPerInode < n) : ¬XattrsAreMap n := by
  intro hmap
  have hget := (hmap _ rfl (noXattrs_freshInode n) [] _ rfl).get 1 [0x61] none
  have h0 : inlineXattrBytes (freshInode n) ≠ 0 := by
    show 4 * n ≠ 0
    omega
  have haddr : inlineXattrAddr (freshInode n) = none := if_neg (Nat.not_le.mpr hn)
  have hfault (txattr : Bytes) : readInlinePart {} (freshInode n) txattr = .error .fault := by
    rw [readInlinePart, if_pos h0, readInlineXattr, haddr]
    rfl
  have hlookup : lookupAllXattrs {} (freshInode n) 1 [0x61] = .error .fault := by
    unfold lookupAllXattrs
    simp only [h0, and_false, if_false, Bool.false_eq_true, hfault, error_bind]
  rw [getxattr, if_neg (by decide), hlookup] at hget
  exact absurd hget (by decide)

/-- The sizes that go right. -/
theorem xattrsAreMap_of_size {n : Nat} (hn : n = 0 ∨ 7 ≤ n) (hle : n ≤ defAddrsPerInode) :
    XattrsAreMap n := by
  rintro inode rfl hno sets inode' hrun
  obtain ⟨es, hst, hsize, hvalue⟩ := setAll_stores (hno.stores hle) rfl hrun
  have hreads := hst.readsAs (hst.lookupAllXattrs_eq (by rwa [hsize]))
  rw [hvalue] at hreads
  exact hreads

/-! ## The claim about all sizes -/

/-- Extended attributes are a map exactly when the inline part is empty, or holds a word
    behind the header and starts in `i_addr[]`. -/
theorem xattrsAreMap_iff (n : Nat) : XattrsAreMap n ↔ n = 0 ∨ (7 ≤ n ∧ n ≤ defAddrsPerInode) := by
  constructor
  · intro h
    by_cases h0 : n = 0
    · exact Or.inl h0
    refine Or.inr ⟨?_, ?_⟩
    · by_contra hlt
      exact not_xattrsAreMap_of_small h0 (by omega) h
    · by_contra hlt
      exact not_xattrsAreMap_of_large (by omega) h
  · rintro (rfl | ⟨h7, hle⟩)
    · exact xattrsAreMap_of_size (Or.inl rfl) (Nat.zero_le _)
    · exact xattrsAreMap_of_size (Or.inr h7) hle

/-- `inline_xattr_size=1` is accepted, and loses every attribute that is set. -/
theorem one_word_loses : inlineXattrSizeInRange 1 = true ∧ ¬XattrsAreMap 1 :=
  ⟨by decide, not_xattrsAreMap_of_small (by decide) (by decide)⟩

end F2fs.Xattr

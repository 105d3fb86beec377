/-
  What `f2fs_acl_from_disk` reads of a value that is not an ACL.

  The loop compares the start of an entry with the end of the value, once, and then reads
  as many bytes as the tag asks for; before that it has read the header without a look at
  the size.  So it stays inside the value if and only if the header does and the entries
  that the tags ask for do.  The new ACL is never overrun, and an ACL is only returned if its
  entries fill the value.

  The size is the positive `int` that `f2fs_getxattr` has returned.
-/
import F2fs.Acl.RoundTrip

namespace F2fs.Acl

open LittleEndian (Memory)

/-- The tags of up to `n` entries from `entry`, the first unknown one being the last. -/
def tagsFrom (m : Memory) : Nat → Nat → List UInt16
  | 0, _ => []
  | n + 1, entry =>
    let tag := le16 m entry
    if isUnnamed tag || isNamed tag then tag :: tagsFrom m n (entry + entryLen tag) else [tag]

/-- The bytes that these tags ask for: eight for a named entry, four for any other. -/
def tagBytes (m : Memory) (n entry : Nat) : Nat := ((tagsFrom m n entry).map entryLen).sum

section

variable {m : Memory} {size n i entry : Nat} {acl : List PosixAclEntry}

/-- A turn of the loop that finds an entry. -/
theorem fromDiskEntries_known {tag : UInt16} (hle : entry ≤ size) (htag : le16 m entry = tag)
    (hknown : isUnnamed tag = true ∨ isNamed tag = true) :
    ∃ e : PosixAclEntry, e.eTag = tag ∧ ∃ accesses : List AclAccess,
      fromDiskEntries m size (n + 1) i entry acl =
        (fromDiskEntries m size n (i + 1) (entry + entryLen tag) (acl.set i e)).after accesses ∧
      (∀ j, .write j ∈ accesses ↔ j = i) ∧
      ((∀ a len, .read a len ∈ accesses → a + len ≤ size) ↔ entry + entryLen tag ≤ size) := by
  subst htag
  by_cases hunnamed : isUnnamed (le16 m entry) = true
  · have hnot : ¬ isNamed (le16 m entry) = true := fun hn => by
      rw [not_unnamed hn] at hunnamed
      cases hunnamed
    refine ⟨_, rfl, [.read entry 4, .write i],
      by rw [fromDiskEntries_unnamed hle hunnamed, entryLen, if_neg hnot], fun j => by simp, ?_⟩
    simp [entryLen, hnot]
  · have hnamed := hknown.resolve_left hunnamed
    refine ⟨_, rfl, [.read entry 4, .write i, .read (entry + 4) 4],
      by rw [fromDiskEntries_named hle hunnamed hnamed, entryLen, if_pos hnamed],
      fun j => by simp, ?_⟩
    have height : entryLen (le16 m entry) = 8 := if_pos hnamed
    rw [height]
    constructor
    · intro h
      exact h (entry + 4) 4 (by simp)
    · intro h a len hmem
      simp only [List.mem_cons, AclAccess.read.injEq, reduceCtorEq, List.not_mem_nil, or_false,
        false_or] at hmem
      omega

variable (m size) in
/-- A loop that starts inside the value stays inside if the entries do that the tags ask
    for. -/
theorem fromDiskEntries_reads_iff (acl : List PosixAclEntry) (hle : entry ≤ size) :
    (∀ a len, .read a len ∈ (fromDiskEntries m size n i entry acl).trace → a + len ≤ size) ↔
      entry + tagBytes m n entry ≤ size := by
  induction n generalizing i entry acl with
  | zero =>
    have htrace : (fromDiskEntries m size 0 i entry acl).trace = [] := by
      rw [fromDiskEntries_zero]
      split_ifs <;> rfl
    rw [htrace]
    exact iff_of_true (fun _ _ hmem => absurd hmem List.not_mem_nil) hle
  | succ n ih =>
    by_cases hknown : isUnnamed (le16 m entry) = true ∨ isNamed (le16 m entry) = true
    · obtain ⟨e, -, accesses, heq, -, hreads⟩ := fromDiskEntries_known hle rfl hknown
      have hbytes : tagBytes m (n + 1) entry =
          entryLen (le16 m entry) + tagBytes m n (entry + entryLen (le16 m entry)) := by
        rw [tagBytes, tagsFrom, if_pos (by simpa using hknown), List.map_cons, List.sum_cons,
          tagBytes]
      rw [heq, hbytes, ← Nat.add_assoc]
      constructor
      · intro h
        have hin := hreads.mp fun a len hmem => h a len (List.mem_append_left _ hmem)
        exact (ih _ hin).mp fun a len hmem => h a len (List.mem_append_right _ hmem)
      · intro h a len hmem
        have hin : entry + entryLen (le16 m entry) ≤ size := by omega
        rcases List.mem_append.mp hmem with hmem | hmem
        · exact hreads.mpr hin a len hmem
        · exact (ih _ hin).mpr h a len hmem
    · obtain ⟨hunnamed, hnamed⟩ := not_or.mp hknown
      have hbytes : tagBytes m (n + 1) entry = 4 := by
        have hlen : entryLen (le16 m entry) = 4 := if_neg hnamed
        simp [tagBytes, tagsFrom, hunnamed, hnamed, hlen]
      rw [fromDiskEntries_unknown hle hunnamed hnamed, hbytes]
      simp

/-- The loop writes the entries to come and no other. -/
theorem fromDiskEntries_writes {j : Nat}
    (h : .write j ∈ (fromDiskEntries m size n i entry acl).trace) : i ≤ j ∧ j < i + n := by
  induction n generalizing i entry acl with
  | zero =>
    rw [fromDiskEntries_zero] at h
    split_ifs at h <;> exact absurd h List.not_mem_nil
  | succ n ih =>
    by_cases hle : entry ≤ size
    · by_cases hknown : isUnnamed (le16 m entry) = true ∨ isNamed (le16 m entry) = true
      · obtain ⟨e, -, accesses, heq, hwrites, -⟩ := fromDiskEntries_known hle rfl hknown
        rw [heq] at h
        rcases List.mem_append.mp h with h | h
        · have hj := (hwrites j).mp h
          omega
        · have hj := ih h
          omega
      · obtain ⟨hunnamed, hnamed⟩ := not_or.mp hknown
        rw [fromDiskEntries_unknown hle hunnamed hnamed] at h
        simp only [List.mem_cons, reduceCtorEq, AclAccess.write.injEq, List.not_mem_nil, or_false,
          false_or] at h
        omega
    · rw [fromDiskEntries_beyond (Nat.not_le.mp hle)] at h
      exact absurd h List.not_mem_nil

/-- An ACL is returned with all its entries decoded, and they end where the value ends. -/
theorem fromDiskEntries_fills {done fresh es : List PosixAclEntry} (hfresh : fresh.length = n)
    (h : (fromDiskEntries m size n done.length entry (done ++ fresh)).result = .acl es) :
    ∃ es', es = done ++ es' ∧ es'.length = n ∧ entry + entriesLen es' = size := by
  induction n generalizing entry done fresh with
  | zero =>
    obtain rfl := List.length_eq_zero_iff.mp hfresh
    rw [fromDiskEntries_zero] at h
    split_ifs at h with hend
    cases h
    exact ⟨[], rfl, rfl, not_not.mp hend⟩
  | succ n ih =>
    obtain ⟨old, fresh, rfl⟩ := List.exists_cons_of_length_eq_add_one hfresh
    by_cases hle : entry ≤ size
    · by_cases hknown : isUnnamed (le16 m entry) = true ∨ isNamed (le16 m entry) = true
      · obtain ⟨e, htag, accesses, heq, -⟩ := fromDiskEntries_known hle rfl hknown
        have hset : (done ++ old :: fresh).set done.length e = done ++ [e] ++ fresh := by simp
        have hlen : done.length + 1 = (done ++ [e]).length := by simp
        rw [heq, hset, hlen] at h
        obtain ⟨es', hes, hn, hend⟩ := ih (Nat.succ.inj hfresh) h
        refine ⟨e :: es', by rw [hes, List.append_assoc]; rfl, by rw [List.length_cons, hn], ?_⟩
        have hsum : entriesLen (e :: es') = entryLen e.eTag + entriesLen es' := rfl
        rw [hsum, htag]
        omega
      · obtain ⟨hunnamed, hnamed⟩ := not_or.mp hknown
        rw [fromDiskEntries_unknown hle hunnamed hnamed] at h
        cases h
    · rw [fromDiskEntries_beyond (Nat.not_le.mp hle)] at h
      cases h

end

/-! ## The whole value -/

section

variable (alloc : (n : Nat) → Option (Vector PosixAclEntry n)) (value : Memory) (size : Nat)

/-- The decoder reads only the value, writes only the entries it has allocated, and returns
    an ACL only if its entries fill the value. -/
structure Contained : Prop where
  reads : ∀ a len, .read a len ∈ (f2fsAclFromDisk alloc value size).trace → a + len ≤ size
  writes : ∀ i : Nat, .write i ∈ (f2fsAclFromDisk alloc value size).trace →
    (i : Int) < f2fsAclCount size
  fills : ∀ es, (f2fsAclFromDisk alloc value size).result = .acl es →
    (es.length : Int) = f2fsAclCount size ∧ aclHeaderSize + entriesLen es = size

/-- There is a header, and if it is that of an ACL whose entries are decoded, the first of
    them up to an unknown tag lie in the value. -/
def Fits : Prop :=
  aclHeaderSize ≤ size ∧ (LittleEndian.load value 0 4 = f2fsAclVersion →
    ∀ n, f2fsAclSize n = size → (alloc n).isSome = true →
      aclHeaderSize + tagBytes value n aclHeaderSize ≤ size)

variable {alloc value size}

/-- The decoder ends with the header, or it has entries to decode. -/
theorem f2fsAclFromDisk_cases :
    (∃ r, f2fsAclFromDisk alloc value size = ⟨[.read 0 4], r⟩ ∧ (∀ es, r ≠ .acl es) ∧
      (LittleEndian.load value 0 4 = f2fsAclVersion → ∀ n : Nat, 0 < n →
        f2fsAclCount size = n → alloc n = none)) ∨
    ∃ (n : Nat) (cells : Vector PosixAclEntry n), LittleEndian.load value 0 4 = f2fsAclVersion ∧
      0 < n ∧ f2fsAclCount size = n ∧ alloc n = some cells := by
  by_cases hversion : LittleEndian.load value 0 4 = f2fsAclVersion
  · by_cases hpos : 0 < f2fsAclCount size
    · obtain ⟨n, hcount⟩ := Int.eq_ofNat_of_zero_le hpos.le
      cases hcells : alloc n with
      | some cells => exact Or.inr ⟨n, cells, hversion, by omega, hcount, hcells⟩
      | none =>
        obtain rfl : (f2fsAclCount size).toNat = n := by rw [hcount, Int.toNat_natCast]
        refine Or.inl ⟨.err .enomem, ?_, fun _ hacl => (by cases hacl), fun _ n' _ hcount' => ?_⟩
        · rw [f2fsAclFromDisk, if_neg (not_not.mpr hversion)]
          simp only [if_neg hpos.not_gt, if_neg hpos.ne', hcells]
        · obtain rfl : (f2fsAclCount size).toNat = n' := by rw [hcount', Int.toNat_natCast]
          exact hcells
    · have hstop : ∀ n : Nat, 0 < n → f2fsAclCount size = n → alloc n = none := by
        intro n hn hcount
        omega
      rw [f2fsAclFromDisk, if_neg (not_not.mpr hversion)]
      by_cases hneg : f2fsAclCount size < 0
      · exact Or.inl ⟨.err .einval, if_pos hneg, fun _ hacl => (by cases hacl), fun _ => hstop⟩
      · have hzero : f2fsAclCount size = 0 := by omega
        exact Or.inl ⟨.null, (if_neg hneg).trans (if_pos hzero), fun _ hacl => (by cases hacl),
          fun _ => hstop⟩
  · exact Or.inl ⟨.err .einval, if_pos hversion, fun _ hacl => (by cases hacl),
      fun h => absurd h hversion⟩

/-- The header is read whatever the size is. -/
theorem read_header : .read 0 4 ∈ (f2fsAclFromDisk alloc value size).trace := by
  rcases @f2fsAclFromDisk_cases alloc value size with
    ⟨r, heq, -⟩ | ⟨n, cells, hversion, hn, hcount, hcells⟩
  · rw [heq]
    exact List.mem_cons_self
  · rw [f2fsAclFromDisk_entries hversion hcount hn hcells]
    exact List.mem_cons_self

end

/-- The decoder is contained in its value if and only if the value holds what its tags ask
    for. -/
theorem aclContained_iff (alloc : (n : Nat) → Option (Vector PosixAclEntry n)) (value : Memory)
    (size : Nat) (hpos : 1 ≤ size) (hint : size < 2 ^ 31) :
    Contained alloc value size ↔ Fits alloc value size := by
  by_cases h4 : aclHeaderSize ≤ size
  · have hsizes : ∀ n, f2fsAclSize n = size → f2fsAclCount size = n := by
      intro n hn
      have hn31 : n < 2 ^ 31 := by
        rw [f2fsAclSize_eq] at hn
        split_ifs at hn <;> omega
      rw [← hn, f2fsAclCount_size hn31]
    rcases @f2fsAclFromDisk_cases alloc value size with
      ⟨r, heq, hnone, hstop⟩ | ⟨n, cells, hversion, hn, hcount, hcells⟩
    · refine iff_of_true ⟨fun a len h => ?_, fun i h => ?_, fun es h => ?_⟩
        ⟨h4, fun hversion n hsize halloc => ?_⟩
      · rw [heq] at h
        cases List.mem_singleton.mp h
        exact h4
      · rw [heq] at h
        cases List.mem_singleton.mp h
      · rw [heq] at h
        exact absurd h (hnone es)
      · rcases Nat.eq_zero_or_pos n with rfl | hn
        · exact h4
        · rw [hstop hversion n hn (hsizes n hsize)] at halloc
          cases halloc
    · have hrun := f2fsAclFromDisk_entries hversion hcount hn hcells
      have hreads := @fromDiskEntries_reads_iff value size n 0 aclHeaderSize cells.toList h4
      constructor
      · intro h
        refine ⟨h4, fun _ n' hsize _ => ?_⟩
        obtain rfl : n' = n := by
          have hcount' := hsizes n' hsize
          omega
        refine hreads.mp fun a len hmem => h.reads a len ?_
        rw [hrun]
        exact List.mem_append_right _ hmem
      · intro h
        have hsize : f2fsAclSize n = size := by
          rcases f2fsAclCount_cases h4 (by omega) with ⟨hneg, -⟩ | ⟨n', hcount', hsize⟩
          · omega
          · obtain rfl : n' = n := by omega
            exact hsize
        have hfit := h.2 hversion n hsize (by rw [hcells]; rfl)
        refine ⟨fun a len hmem => ?_, fun i hmem => ?_, fun es hres => ?_⟩
        · rw [hrun] at hmem
          rcases List.mem_append.mp hmem with hmem | hmem
          · cases List.mem_singleton.mp hmem
            exact h4
          · exact hreads.mpr hfit a len hmem
        · rw [hrun] at hmem
          rcases List.mem_append.mp hmem with hmem | hmem
          · cases List.mem_singleton.mp hmem
          · have hi := fromDiskEntries_writes hmem
            omega
        · rw [hrun] at hres
          obtain ⟨es', hes, hlen, hend⟩ :=
            @fromDiskEntries_fills value size n aclHeaderSize [] cells.toList es cells.length_toList
              hres
          rw [List.nil_append] at hes
          subst hes
          exact ⟨by omega, hend⟩
  · exact iff_of_false (fun h => h4 (h.reads 0 4 read_header)) fun h => h4 h.1

/-- An allocation that succeeds. -/
def allocAcl (n : Nat) : Option (Vector PosixAclEntry n) := some (Vector.replicate n ⟨0, 0, 0⟩)

/-- The header of an ACL and nothing else. -/
def emptyAcl : Memory := fun a => if a = 0 then 1 else 0

theorem emptyAcl_contained : Contained allocAcl emptyAcl 4 :=
  (aclContained_iff allocAcl emptyAcl 4 (by decide) (by decide)).mpr
    ⟨by decide, fun _ n hn _ => by
      rw [f2fsAclSize_eq] at hn
      have hzero : n = 0 := by split_ifs at hn <;> omega
      rw [hzero]
      decide⟩

/-- One entry of four bytes, whose tag says `ACL_USER`. -/
def shortUser : Memory := fun a => if a = 0 then 1 else if a = 4 then 2 else if a = 6 then 7 else 0

/-- The user id is read behind the value. -/
theorem shortUser_overread : ¬ Contained allocAcl shortUser 8 := fun h =>
  absurd (h.reads 8 4 (by decide)) (by decide)

end F2fs.Acl

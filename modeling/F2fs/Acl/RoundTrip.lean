/-
  What `f2fs_acl_to_disk` writes, `f2fs_acl_from_disk` reads back.

  Two facts carry it.  Later entries leave the bytes of earlier ones alone, so the decoder
  finds each entry where the encoder put it.  And a valid ACL has at most four unnamed
  entries, and exactly four as soon as it has a named one, which is what `f2fs_acl_size`
  and `f2fs_acl_count` assume.
-/
import F2fs.Acl.Codec

namespace F2fs.Acl

open LittleEndian (Memory)

/-! ## Valid ACLs -/

/-- The bytes an entry takes. -/
def entryLen (tag : UInt16) : Nat := if isNamed tag then aclEntrySize else aclEntryShortSize

/-- The bytes a list of entries takes. -/
def entriesLen (es : List PosixAclEntry) : Nat := (es.map fun e => entryLen e.eTag).sum

/-- The named and the unnamed entries of a list. -/
def namedCount (es : List PosixAclEntry) : Nat := es.countP fun e => isNamed e.eTag
def unnamedCount (es : List PosixAclEntry) : Nat := es.countP fun e => isUnnamed e.eTag

/-- The unnamed entries to come in a state, when named ones do or do not make a mask
    necessary. -/
def AclState.Rest (state : AclState) (needsMask : Bool) (named unnamed : Nat) : Prop :=
  match state with
  | .userObj => unnamed = 4 ∨ unnamed = 3 ∧ named = 0 ∧ needsMask = false
  | .user => unnamed = 3 ∨ unnamed = 2 ∧ named = 0 ∧ needsMask = false
  | .group => unnamed = 2 ∨ unnamed = 1 ∧ named = 0 ∧ needsMask = false
  | .other => unnamed = 1 ∧ named = 0
  | .done => unnamed = 0 ∧ named = 0

section

variable {state state' : AclState} {needsMask needsMask' : Bool} {tag : UInt16}
  {named unnamed : Nat} {e : PosixAclEntry} {es : List PosixAclEntry}

/-- The tags that `posix_acl_valid` accepts. -/
theorem validTag_cases (h : validTag state needsMask tag = some (state', needsMask')) :
    (tag = aclUserObj ∧ state = .userObj ∧ state' = .user ∧ needsMask' = needsMask) ∨
    (tag = aclUser ∧ state = .user ∧ state' = .user ∧ needsMask' = true) ∨
    (tag = aclGroupObj ∧ state = .user ∧ state' = .group ∧ needsMask' = needsMask) ∨
    (tag = aclGroup ∧ state = .group ∧ state' = .group ∧ needsMask' = true) ∨
    (tag = aclMask ∧ state = .group ∧ state' = .other ∧ needsMask' = needsMask) ∨
    (tag = aclOther ∧ (state = .other ∨ state = .group ∧ needsMask = false) ∧
      state' = .done ∧ needsMask' = needsMask) := by
  unfold validTag at h
  split_ifs at h with h₁ hs h₂ hs h₃ hs h₄ hs h₅ hs h₆ hs
  all_goals cases h
  · exact Or.inl ⟨h₁, hs, rfl, rfl⟩
  · exact Or.inr (Or.inl ⟨h₂, hs, rfl, rfl⟩)
  · exact Or.inr (Or.inr (Or.inl ⟨h₃, hs, rfl, rfl⟩))
  · exact Or.inr (Or.inr (Or.inr (Or.inl ⟨h₄, hs, rfl, rfl⟩)))
  · exact Or.inr (Or.inr (Or.inr (Or.inr (Or.inl ⟨h₅, hs, rfl, rfl⟩))))
  · exact Or.inr (Or.inr (Or.inr (Or.inr (Or.inr ⟨h₆, hs, rfl, rfl⟩))))

/-- An accepted tag is named or unnamed, and counts accordingly. -/
theorem AclState.Rest.step (h : validTag state needsMask tag = some (state', needsMask'))
    (hrest : state'.Rest needsMask' named unnamed) :
    (isNamed tag = true ∧ isUnnamed tag = false ∧ state.Rest needsMask (named + 1) unnamed) ∨
      (isNamed tag = false ∧ isUnnamed tag = true ∧
        state.Rest needsMask named (unnamed + 1)) := by
  rcases validTag_cases h with ⟨rfl, rfl, rfl, rfl⟩ | ⟨rfl, rfl, rfl, rfl⟩ | ⟨rfl, rfl, rfl, rfl⟩ |
    ⟨rfl, rfl, rfl, rfl⟩ | ⟨rfl, rfl, rfl, rfl⟩ | ⟨rfl, rfl | ⟨rfl, rfl⟩, rfl, rfl⟩ <;>
    simp only [AclState.Rest] at hrest ⊢
  · exact Or.inr ⟨rfl, rfl, hrest.imp (congrArg (· + 1)) (And.imp_left (congrArg (· + 1)))⟩
  · exact Or.inl ⟨rfl, rfl, hrest.imp_right fun hno => Bool.noConfusion hno.2.2⟩
  · exact Or.inr ⟨rfl, rfl, hrest.imp (congrArg (· + 1)) (And.imp_left (congrArg (· + 1)))⟩
  · exact Or.inl ⟨rfl, rfl, hrest.imp_right fun hno => Bool.noConfusion hno.2.2⟩
  · exact Or.inr ⟨rfl, rfl, by omega⟩
  · exact Or.inr ⟨rfl, rfl, by omega⟩
  · exact Or.inr ⟨rfl, rfl, by simp only [and_true]; omega⟩

theorem validFrom_cons (h : validFrom state needsMask (e :: es) = true) :
    ∃ state' needsMask', validTag state needsMask e.eTag = some (state', needsMask') ∧
      validFrom state' needsMask' es = true := by
  rw [validFrom] at h
  cases htag : validTag state needsMask e.eTag with
  | none =>
    rw [htag] at h
    cases h
  | some next =>
    obtain ⟨state', needsMask'⟩ := next
    simp only [htag, Bool.and_eq_true] at h
    exact ⟨state', needsMask', rfl, h.2⟩

/-- The entries of a valid list: all named or unnamed, in the right numbers. -/
theorem validFrom_counts (h : validFrom state needsMask es = true) :
    (∀ e ∈ es, isNamed e.eTag = true ∨ isUnnamed e.eTag = true) ∧
      es.length = namedCount es + unnamedCount es ∧
      entriesLen es = 8 * namedCount es + 4 * unnamedCount es ∧
      state.Rest needsMask (namedCount es) (unnamedCount es) := by
  induction es generalizing state needsMask with
  | nil =>
    rw [validFrom, decide_eq_true_iff] at h
    subst h
    exact ⟨fun e he => absurd he List.not_mem_nil, rfl, rfl, rfl, rfl⟩
  | cons e es ih =>
    obtain ⟨state', needsMask', htag, hvalid⟩ := validFrom_cons h
    obtain ⟨hall, hlen, hbytes, hrest⟩ := ih hvalid
    have hsum : entriesLen (e :: es) = entryLen e.eTag + entriesLen es := rfl
    rcases AclState.Rest.step htag hrest with ⟨hn, hu, hstate⟩ | ⟨hn, hu, hstate⟩
    · have hnamed : namedCount (e :: es) = namedCount es + 1 := List.countP_cons_of_pos hn
      have hunnamed : unnamedCount (e :: es) = unnamedCount es :=
        List.countP_cons_of_neg (by simp [hu])
      have hentry : entryLen e.eTag = 8 := if_pos hn
      rw [hnamed, hunnamed, hsum, List.length_cons]
      exact ⟨List.forall_mem_cons.mpr ⟨Or.inl hn, hall⟩, by omega, by omega, hstate⟩
    · have hnamed : namedCount (e :: es) = namedCount es :=
        List.countP_cons_of_neg (by simp [hn])
      have hunnamed : unnamedCount (e :: es) = unnamedCount es + 1 := List.countP_cons_of_pos hu
      have hentry : entryLen e.eTag = 4 := if_neg (by simp [hn])
      rw [hnamed, hunnamed, hsum, List.length_cons]
      exact ⟨List.forall_mem_cons.mpr ⟨Or.inr hu, hall⟩, by omega, by omega, hstate⟩

end

theorem f2fsAclSize_eq (count : Nat) :
    f2fsAclSize count = if count ≤ 4 then 4 + 4 * count else 20 + 8 * (count - 4) := by
  simp only [f2fsAclSize, aclHeaderSize, aclEntryShortSize, aclEntrySize]
  split_ifs <;> omega

/-- The entries of a valid ACL fill the size that is computed from their number. -/
theorem f2fsAclSize_of_valid {acl : PosixAcl} (h : posixAclValid acl = true) :
    aclHeaderSize + entriesLen acl.aEntries = f2fsAclSize acl.aCount ∧ 0 < acl.aCount := by
  obtain ⟨-, hlen, hbytes, hrest⟩ := validFrom_counts h
  simp only [AclState.Rest, and_true] at hrest
  rw [f2fsAclSize_eq, PosixAcl.aCount, hlen, hbytes, aclHeaderSize]
  split_ifs <;> omega

theorem f2fsAclCount_eq {size : Nat} (h4 : 4 ≤ size) (hlt : size < 2 ^ 63) :
    f2fsAclCount size =
      if size < 20 then if size % 4 ≠ 0 then (-1 : Int) else ((size - 4) / 4 : Nat)
      else if (size - 20) % 8 ≠ 0 then (-1 : Int) else ((size - 20) / 8 + 4 : Nat) := by
  have hsize : (size + 2 ^ 64 - 4) % 2 ^ 64 = size - 4 := by omega
  simp only [f2fsAclCount, aclHeaderSize, aclEntryShortSize, aclEntrySize, hsize]
  by_cases hshort : size < 20
  · have hneg : toSsize ((size - 4 + 2 ^ 64 - 4 * 4) % 2 ^ 64) < 0 := by
      unfold toSsize
      split_ifs <;> omega
    have hmod : (size - 4) % 4 = size % 4 := by omega
    rw [if_pos hneg, if_pos hshort, hmod]
  · have hs : toSsize ((size - 4 + 2 ^ 64 - 4 * 4) % 2 ^ 64) = (size - 20 : Nat) := by
      unfold toSsize
      split_ifs <;> omega
    rw [hs, if_neg (by omega), if_neg hshort]
    split_ifs <;> omega

/-- A size has a number of entries if it is the size of that many. -/
theorem f2fsAclCount_cases {size : Nat} (h4 : 4 ≤ size) (hlt : size < 2 ^ 63) :
    (f2fsAclCount size = -1 ∧ ∀ n, f2fsAclSize n ≠ size) ∨
      ∃ n : Nat, f2fsAclCount size = n ∧ f2fsAclSize n = size := by
  rw [f2fsAclCount_eq h4 hlt]
  simp only [f2fsAclSize_eq]
  split_ifs with hshort hmod hmod
  · refine Or.inl ⟨rfl, fun n => ?_⟩
    split_ifs <;> omega
  · refine Or.inr ⟨(size - 4) / 4, rfl, ?_⟩
    split_ifs <;> omega
  · refine Or.inl ⟨rfl, fun n => ?_⟩
    split_ifs <;> omega
  · refine Or.inr ⟨(size - 20) / 8 + 4, rfl, ?_⟩
    split_ifs <;> omega

theorem f2fsAclSize_inj {n n' : Nat} (h : f2fsAclSize n = f2fsAclSize n') : n = n' := by
  rw [f2fsAclSize_eq, f2fsAclSize_eq] at h
  split_ifs at h <;> omega

/-- The number of entries from the size. -/
theorem f2fsAclCount_size {count : Nat} (h : count < 2 ^ 31) :
    f2fsAclCount (f2fsAclSize count) = count := by
  have hsize := f2fsAclSize_eq count
  have h4 : 4 ≤ f2fsAclSize count := by
    rw [hsize]
    split_ifs <;> omega
  have hlt : f2fsAclSize count < 2 ^ 63 := by
    rw [hsize]
    split_ifs <;> omega
  rcases f2fsAclCount_cases h4 hlt with hnone | ⟨n, hn, heq⟩
  · exact absurd rfl (hnone.2 count)
  · rw [hn, f2fsAclSize_inj heq]

/-! ## One entry after the other -/

section

variable {m m' : Memory} {entry endOff : Nat} {e : PosixAclEntry} {es : List PosixAclEntry}

theorem writeShort_below (m : Memory) (entry : Nat) (e : PosixAclEntry) {a : Nat}
    (h : a < entry) : writeShort m entry e a = m a := by
  rw [writeShort, LittleEndian.store_outside (Or.inl (by omega)),
    LittleEndian.store_outside (Or.inl h)]

theorem le16_tag (m : Memory) (entry : Nat) (e : PosixAclEntry) :
    le16 (writeShort m entry e) entry = e.eTag := by
  rw [le16, writeShort, LittleEndian.load_store_other (Or.inl (Nat.le_refl _)),
    LittleEndian.load_store e.eTag.toNat_lt, UInt16.ofNat_toNat]

theorem le16_perm (m : Memory) (entry : Nat) (e : PosixAclEntry) :
    le16 (writeShort m entry e) (entry + 2) = e.ePerm := by
  rw [le16, writeShort, LittleEndian.load_store e.ePerm.toNat_lt, UInt16.ofNat_toNat]

theorem le16_congr {a : Nat} (h : ∀ x, x < a + 2 → m x = m' x) : le16 m a = le16 m' a := by
  rw [le16, le16, LittleEndian.load_congr fun i hi => h (a + i) (by omega)]

theorem le32_congr {a : Nat} (h : ∀ x, x < a + 4 → m x = m' x) : le32 m a = le32 m' a := by
  rw [le32, le32, LittleEndian.load_congr fun i hi => h (a + i) (by omega)]

/-- One turn of the loop of `f2fs_acl_to_disk`: the entry can be read from the memory it
    leaves, which is the old one below the entry. -/
theorem toDiskEntries_cons (h : toDiskEntries m entry (e :: es) = some (m', endOff)) :
    ∃ m₁, toDiskEntries m₁ (entry + entryLen e.eTag) es = some (m', endOff) ∧
      (∀ a, a < entry → m₁ a = m a) ∧ le16 m₁ entry = e.eTag ∧ le16 m₁ (entry + 2) = e.ePerm ∧
      (isNamed e.eTag = true ∧ le32 m₁ (entry + 4) = e.eId ∨
        isNamed e.eTag = false ∧ isUnnamed e.eTag = true) := by
  rw [toDiskEntries] at h
  by_cases hnamed : isNamed e.eTag = true
  · rw [if_pos hnamed] at h
    have hlow : ∀ a, a < entry + 4 →
        LittleEndian.store (writeShort m entry e) (entry + 4) 4 e.eId.toNat a =
          writeShort m entry e a := fun a ha => LittleEndian.store_outside (Or.inl ha)
    refine ⟨_, by rwa [entryLen, if_pos hnamed], fun a ha => ?_, ?_, ?_, Or.inl ⟨hnamed, ?_⟩⟩
    · rw [hlow a (by omega), writeShort_below m entry e ha]
    · rw [le16_congr fun x hx => hlow x (by omega), le16_tag]
    · rw [le16_congr fun x hx => hlow x (by omega), le16_perm]
    · rw [le32, LittleEndian.load_store e.eId.toNat_lt, UInt32.ofNat_toNat]
  · rw [if_neg hnamed] at h
    split_ifs at h with hunnamed
    exact ⟨_, by rwa [entryLen, if_neg hnamed], fun a ha => writeShort_below m entry e ha,
      le16_tag m entry e, le16_perm m entry e, Or.inr ⟨by simpa using hnamed, hunnamed⟩⟩

/-- The loop writes behind where it starts, as many bytes as the entries take. -/
theorem toDiskEntries_frame (h : toDiskEntries m entry es = some (m', endOff)) :
    endOff = entry + entriesLen es ∧ ∀ a, a < entry → m' a = m a := by
  induction es generalizing m entry with
  | nil =>
    rw [toDiskEntries] at h
    cases h
    exact ⟨rfl, fun _ _ => rfl⟩
  | cons e es ih =>
    obtain ⟨m₁, hrest, hlow, -⟩ := toDiskEntries_cons h
    obtain ⟨hend, hframe⟩ := ih hrest
    have hsum : entriesLen (e :: es) = entryLen e.eTag + entriesLen es := rfl
    exact ⟨by omega, fun a ha => (hframe a (by omega)).trans (hlow a ha)⟩

/-- Only an unknown tag stops the loop. -/
theorem toDiskEntries_isSome (m : Memory) (entry : Nat)
    (h : ∀ e ∈ es, isNamed e.eTag = true ∨ isUnnamed e.eTag = true) :
    ∃ out, toDiskEntries m entry es = some out := by
  induction es generalizing m entry with
  | nil => exact ⟨_, rfl⟩
  | cons e es ih =>
    have hrest := fun m entry => ih m entry fun e' he' => h e' (List.mem_cons_of_mem e he')
    rw [toDiskEntries]
    by_cases hnamed : isNamed e.eTag = true
    · rw [if_pos hnamed]
      exact hrest _ _
    · rw [if_neg hnamed, if_pos ((h e List.mem_cons_self).resolve_left hnamed)]
      exact hrest _ _

/-- No tag is both. -/
theorem not_unnamed {tag : UInt16} (h : isNamed tag = true) : isUnnamed tag = false := by
  simp only [isNamed, decide_eq_true_eq] at h
  rcases h with rfl | rfl <;> rfl

/-- The decoder finds what the loop has written, whatever it decodes into. -/
theorem fromDiskEntries_toDiskEntries {value : Memory}
    (h : toDiskEntries m entry es = some (m', endOff)) (hvalue : ∀ a, a < endOff → value a = m' a)
    (done fresh : List PosixAclEntry) (hfresh : fresh.length = es.length) :
    ∃ es', (fromDiskEntries value endOff es.length done.length entry (done ++ fresh)).result =
        .acl (done ++ es') ∧ List.Forall₂ PosixAclEntry.Same es' es := by
  induction es generalizing m entry done fresh with
  | nil =>
    obtain rfl := List.length_eq_zero_iff.mp hfresh
    obtain ⟨hend, -⟩ := toDiskEntries_frame h
    have hat : ¬ entry ≠ endOff := fun hne => hne hend.symm
    refine ⟨[], ?_, List.Forall₂.nil⟩
    rw [List.length_nil, fromDiskEntries_zero, if_neg hat]
  | cons e es ih =>
    cases fresh with
    | nil => cases hfresh
    | cons old fresh =>
      obtain ⟨m₁, hrest, -, htag, hperm, hkind⟩ := toDiskEntries_cons h
      obtain ⟨hend, hframe⟩ := toDiskEntries_frame hrest
      have hlen : entryLen e.eTag = 8 ∨ entryLen e.eTag = 4 := ite_eq_or_eq _ _ _
      have hsee : ∀ a, a < entry + entryLen e.eTag → value a = m₁ a := fun a ha =>
        (hvalue a (by omega)).trans (hframe a ha)
      have htag' : le16 value entry = e.eTag :=
        (le16_congr fun x hx => hsee x (by omega)).trans htag
      have hperm' : le16 value (entry + 2) = e.ePerm :=
        (le16_congr fun x hx => hsee x (by omega)).trans hperm
      have hin : entry ≤ endOff := by omega
      -- the entry goes into the first cell that is not decoded yet
      have hnext : ∀ x : PosixAclEntry, PosixAclEntry.Same x e →
          ∃ es', (fromDiskEntries value endOff es.length (done.length + 1)
              (entry + entryLen e.eTag) ((done ++ old :: fresh).set done.length x)).result =
            .acl (done ++ es') ∧ List.Forall₂ PosixAclEntry.Same es' (e :: es) := by
        intro x hx
        obtain ⟨es', hres, hsame⟩ := ih hrest (done ++ [x]) fresh (Nat.succ.inj hfresh)
        have hset : (done ++ old :: fresh).set done.length x = done ++ [x] ++ fresh := by simp
        refine ⟨x :: es', ?_, List.Forall₂.cons hx hsame⟩
        rw [List.length_append, List.length_singleton, List.append_assoc done [x] es'] at hres
        rw [hset]
        exact hres
      rw [List.length_cons]
      rcases hkind with ⟨hnamed, hid⟩ | ⟨hnot, hunnamed⟩
      · have height : entryLen e.eTag = 8 := if_pos hnamed
        have hid' : le32 value (entry + 4) = e.eId :=
          (le32_congr fun x hx => hsee x (by omega)).trans hid
        rw [fromDiskEntries_named hin (by simp [htag', not_unnamed hnamed]) (by rwa [htag']),
          htag', hperm', hid', aclEntrySize, ← height]
        exact hnext ⟨e.eTag, e.ePerm, e.eId⟩ ⟨rfl, rfl, fun _ => rfl⟩
      · have hfour : entryLen e.eTag = 4 := if_neg (by simp [hnot])
        rw [fromDiskEntries_unnamed hin (by rwa [htag']), htag', hperm', aclEntryShortSize, ← hfour]
        exact hnext _ ⟨rfl, rfl, fun hn => by rw [hnot] at hn; cases hn⟩

end

/-! ## The round trip -/

/-- Decoding a value with a number of entries. -/
theorem f2fsAclFromDisk_entries {alloc : (n : Nat) → Option (Vector PosixAclEntry n)}
    {value : Memory} {size n : Nat} {cells : Vector PosixAclEntry n}
    (hversion : LittleEndian.load value 0 4 = f2fsAclVersion) (hcount : f2fsAclCount size = n)
    (hpos : 0 < n) (hcells : alloc n = some cells) :
    f2fsAclFromDisk alloc value size =
      (fromDiskEntries value size n 0 aclHeaderSize cells.toList).after [.read 0 4] := by
  have hnot : ¬ LittleEndian.load value 0 4 ≠ f2fsAclVersion := fun hne => hne hversion
  obtain rfl : (f2fsAclCount size).toNat = n := by rw [hcount, Int.toNat_natCast]
  rw [f2fsAclFromDisk, if_neg hnot]
  simp only [if_neg (show ¬ f2fsAclCount size < 0 by omega),
    if_neg (show ¬ f2fsAclCount size = 0 by omega), hcells]

/-- A valid ACL is decoded from what was encoded, and the size is that of its entries. -/
theorem acl_roundTrip (acl : PosixAcl) (hvalid : posixAclValid acl = true) (fresh : Memory)
    (alloc : (n : Nat) → Option (Vector PosixAclEntry n)) (halloc : (alloc acl.aCount).isSome) :
    ∃ enc, f2fsAclToDisk (some fresh) acl = .ok enc ∧
      (∀ value : Memory, (∀ a, a < enc.size → value a = enc.value a) →
        ∃ es, (f2fsAclFromDisk alloc value enc.size).result = .acl es ∧
          List.Forall₂ PosixAclEntry.Same es acl.aEntries) ∧
      enc.size = f2fsAclSize acl.aCount ∧ enc.endOff = enc.size ∧
      f2fsAclCount enc.size = acl.aCount := by
  obtain ⟨hsize, hpos⟩ := f2fsAclSize_of_valid hvalid
  have hcount : f2fsAclCount (f2fsAclSize acl.aCount) = acl.aCount := f2fsAclCount_size acl.count_lt
  obtain ⟨⟨value, endOff⟩, hto⟩ := toDiskEntries_isSome
    (LittleEndian.store fresh 0 4 f2fsAclVersion) aclHeaderSize (validFrom_counts hvalid).1
  obtain ⟨hend, hframe⟩ := toDiskEntries_frame hto
  rw [hsize] at hend
  refine ⟨⟨value, endOff, f2fsAclSize acl.aCount⟩, by simp [f2fsAclToDisk, hto],
    fun value' hvalue => ?_, rfl, hend, hcount⟩
  obtain ⟨cells, hcells⟩ := Option.isSome_iff_exists.mp halloc
  subst hend
  have h4 : 4 ≤ f2fsAclSize acl.aCount := by
    rw [← hsize]
    exact Nat.le_add_right _ _
  have hversion : LittleEndian.load value' 0 4 = f2fsAclVersion := by
    have hbytes : ∀ i, i < 4 → value' (0 + i) =
        LittleEndian.store fresh 0 4 f2fsAclVersion (0 + i) := fun i hi =>
      (hvalue (0 + i) (by rw [Nat.zero_add]; exact Nat.lt_of_lt_of_le hi h4)).trans
      (hframe (0 + i) (by rw [Nat.zero_add]; exact hi))
    rw [LittleEndian.load_congr hbytes, LittleEndian.load_store (by decide)]
  obtain ⟨es, hres, hsame⟩ := fromDiskEntries_toDiskEntries hto hvalue [] cells.toList
    cells.length_toList
  refine ⟨es, ?_, hsame⟩
  rw [f2fsAclFromDisk_entries hversion hcount hpos hcells]
  exact hres

/-- The ACL `u::rw-,u:1000:r--,g::r--,m::r--,o::---`. -/
def namedUserAcl : PosixAcl where
  aEntries := [⟨aclUserObj, 6, 0⟩, ⟨aclUser, 4, 1000⟩, ⟨aclGroupObj, 4, 0⟩, ⟨aclMask, 4, 0⟩,
    ⟨aclOther, 0, 0⟩]
  count_lt := by decide

theorem namedUserAcl_roundTrip :
    ∃ enc, f2fsAclToDisk (some fun _ => 0) namedUserAcl = .ok enc ∧
      (∀ value : Memory, (∀ a, a < enc.size → value a = enc.value a) →
        ∃ es, (f2fsAclFromDisk (fun n => some (Vector.replicate n ⟨0, 0, 0⟩)) value
            enc.size).result = .acl es ∧
          List.Forall₂ PosixAclEntry.Same es namedUserAcl.aEntries) ∧
      enc.size = 28 ∧ enc.endOff = enc.size ∧ f2fsAclCount enc.size = 5 :=
  acl_roundTrip namedUserAcl (by decide) _ _ rfl

end F2fs.Acl

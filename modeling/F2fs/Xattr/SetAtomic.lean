/-
  `__f2fs_setxattr` with the nid and the node of the xattr block.

  The new area is built in memory and written to two places; before the second one a nid is
  allocated and a node made, or a node is freed.  Each of these can fail, and the copies come
  last: `setxattrOn` is the call on the inode and the node manager, and a failure leaves both,
  but for the list of free nids (`PoolKept`).

  `Lists` reads the area as a list of entries whatever their bytes mean, so that what does not
  fit is said for every area a walk gets through.
-/
import F2fs.Node.GiveBack
import F2fs.Xattr.WalkBounds

namespace F2fs.Xattr

open F2fs.Node

/-! ## The call -/

/-- What a node page cannot be had for. -/
inductive NodeError where
  | enoent | enomem | eio | einval | eperm | enospc | edquot
  deriving DecidableEq, Repr

inductive SetError where
  | xattr (e : XattrError)
  | node (e : NodeError)
  deriving DecidableEq, Repr

/-- What `__f2fs_setxattr` works on. -/
structure XattrFs where
  ino : Nat
  /-- `i_inline_xattr_size`, in words -/
  inlineXattrSize : Nat
  /-- `i_addr[]` of the inode page -/
  iAddr : Bytes
  /-- `i_xattr_nid`, if it is not 0, and the block of that node -/
  xattrNode : Option (Nat × Bytes)
  node : NodeManager

namespace XattrFs

/-- What the attributes consist of. -/
def inode (s : XattrFs) : XattrInode :=
  ⟨s.inlineXattrSize, s.iAddr, s.xattrNode.map Prod.snd⟩

end XattrFs

/-- What fails in a call, and how far the loop of `alloc_nid` gets. -/
structure SetEnv where
  read : XattrEnv := {}
  /-- a fault injected into `alloc_nid` -/
  nidFault : Bool := false
  fuel : Nat := 1
  /-- `available_free_memory(sbi, FREE_NIDS)` -/
  mem : Bool := true
  /-- no memory for a NAT entry -/
  nomem : Bool := false
  /-- `get_node_page` on the inode, when the caller has not got its page -/
  inodePage : Option NodeError := none
  /-- `get_node_page` on the xattr node -/
  xattrPage : Option NodeError := none
  newNodePage : Option NodeError := none

section Call

variable (sbi : SbInfo) (env : SetEnv) (s : XattrFs)

/-- `alloc_nid_failed(sbi, new_nid)`. -/
def giveBack (newNid : Nat) : XattrFs :=
  { s with node := s.node.withFree (s.node.nat.free.allocNidFailed newNid env.mem) }

/-- `truncate_xattr_node`. -/
def truncateXattrNode : Except SetError Unit × XattrFs :=
  match s.xattrNode with
  | none => (.ok (), s)
  | some (nid, _) =>
    match env.xattrPage with
    | some e => (.error (.node e), s)
    | none =>
      (.ok (), { s with xattrNode := none, node := s.node.truncateNode sbi nid env.nomem })

/-- The copy into the inode page. -/
def copyInline (txattr : Bytes) : Except SetError Unit × XattrFs :=
  match storeInlinePart {} s.inode txattr with
  | .error e => (.error (.xattr e), s)
  | .ok iAddr => (.ok (), { s with iAddr := iAddr })

/-- The copies into both pages, with the xattr node `nid`. -/
def copyBoth (nid : Nat) (txattr : Bytes) : Except SetError Unit × XattrFs :=
  match storeInlinePart {} s.inode txattr,
    access (Splice.read txattr (inlineXattrBytes s.inode) validXattrBlockSize) with
  | .ok iAddr, .ok block => (.ok (), { s with iAddr := iAddr, xattrNode := some (nid, block) })
  | .error e, _ => (.error (.xattr e), s)
  | _, .error e => (.error (.xattr e), s)

/-- "no need to use xattr node block". -/
def writeInline (newNid : Nat) (txattr : Bytes) : Except SetError Unit × XattrFs :=
  match truncateXattrNode sbi env s with
  | (.error e, s₁) => (.error e, giveBack env s₁ newNid)
  | (.ok (), s₁) => copyInline (giveBack env s₁ newNid) txattr

/-- "write to xattr node block". -/
def writeBlock (newNid : Nat) (txattr : Bytes) : Except SetError Unit × XattrFs :=
  match s.xattrNode with
  | some (nid, _) =>
    match env.xattrPage with
    | some e => (.error (.node e), giveBack env s newNid)
    | none => copyBoth s nid txattr
  | none =>
    match env.newNodePage with
    | some e => (.error (.node e), giveBack env s newNid)
    | none =>
      let m := s.node.newNodePage newNid s.ino
      copyBoth { s with node := m.withFree (m.nat.free.allocNidDone newNid) } newNid txattr

/-- `write_all_xattrs` behind `alloc_nid`. -/
def writeArea (newNid hsize : Nat) (txattr : Bytes) : Except SetError Unit × XattrFs :=
  if inlineXattrBytes s.inode ≠ 0 then
    match env.inodePage with
    | some e => (.error (.node e), giveBack env s newNid)
    | none =>
      if hsize ≤ inlineXattrBytes s.inode then writeInline sbi env s newNid txattr
      else writeBlock env s newNid txattr
  else writeBlock env s newNid txattr

/-- `write_all_xattrs`; `none` is a loop of `alloc_nid` that is still running. -/
def writeAllOn (hsize : Nat) (txattr : Bytes) : Option (Except SetError Unit × XattrFs) :=
  if hsize > inlineXattrBytes s.inode ∧ s.xattrNode.isNone then
    if env.nidFault then some (.error (.xattr .enospc), s)
    else
      (allocNid sbi env.fuel s.node).map fun (r, m) =>
        match r with
        | none => (.error (.xattr .enospc), { s with node := m })
        | some nid => writeArea sbi env { s with node := m } nid hsize txattr
  else some (writeArea sbi env s 0 hsize txattr)

/-- `__f2fs_setxattr`. -/
def setxattrOn (index : UInt8) (name : Bytes) (value : Option Bytes) (flags : XattrFlags) :
    Option (Except SetError Unit × XattrFs) :=
  match editXattrs (minOffset s.inode) (readAllXattrs env.read s.inode) index name value flags with
  | .error e => some (.error (.xattr e), s)
  | .ok none => some (.ok (), s)
  | .ok (some (txattr, hsize)) => writeAllOn sbi env s hsize txattr

end Call

/-! ## A failed call -/

/-- The inode is as it was, and the nids that can be allocated are. -/
structure Unchanged (sbi : SbInfo) (mem : Bool) (s s' : XattrFs) : Prop where
  ino : s'.ino = s.ino
  inlineXattrSize : s'.inlineXattrSize = s.inlineXattrSize
  iAddr : s'.iAddr = s.iAddr
  xattrNode : s'.xattrNode = s.xattrNode
  pool : PoolKept sbi mem s.node s'.node

section Failed

variable {sbi : SbInfo} {env : SetEnv} {s s' : XattrFs}

theorem Unchanged.node {m : NodeManager} {mem : Bool} (h : PoolKept sbi mem s.node m) :
    Unchanged sbi mem s { s with node := m } :=
  ⟨rfl, rfl, rfl, rfl, h⟩

theorem Unchanged.refl (s : XattrFs) (mem : Bool) : Unchanged sbi mem s s :=
  .node (.refl sbi mem s.node)

theorem copyInline_error {txattr : Bytes} {e : SetError}
    (h : copyInline s txattr = (.error e, s')) : ∃ e', e = .xattr e' ∧
      storeInlinePart {} s.inode txattr = .error e' := by
  unfold copyInline at h
  cases hs : storeInlinePart {} s.inode txattr with
  | error e' =>
    rw [hs] at h
    cases h
    exact ⟨e', rfl, rfl⟩
  | ok iAddr =>
    rw [hs] at h
    cases h

theorem access_error {α : Type} {o : Option α} {e : XattrError} (h : access o = .error e) :
    e = .fault := by
  cases o with
  | none => exact (Except.error.inj h).symm
  | some a => cases h

/-- With the inode page at hand a copy fails outside its buffers only. -/
theorem storeInlinePart_error {inode : XattrInode} {txattr : Bytes} {e : XattrError}
    (h : storeInlinePart {} inode txattr = .error e) : e = .fault := by
  unfold storeInlinePart at h
  split_ifs at h with h0 hp
  · exact absurd hp (by decide)
  · cases haddr : inlineXattrAddr inode with
    | none =>
      rw [haddr] at h
      cases h
      rfl
    | some off =>
      rw [haddr, access_some, ok_bind] at h
      cases hsrc : Splice.read txattr 0 (inlineXattrBytes inode) with
      | none =>
        rw [hsrc] at h
        cases h
        rfl
      | some src =>
        rw [hsrc, access_some, ok_bind] at h
        exact access_error h

theorem copyInline_fault {txattr : Bytes} {e : SetError}
    (h : copyInline s txattr = (.error e, s')) : e = .xattr .fault := by
  obtain ⟨e', rfl, hs⟩ := copyInline_error h
  rw [storeInlinePart_error hs]

theorem copyBoth_fault {nid : Nat} {txattr : Bytes} {e : SetError}
    (h : copyBoth s nid txattr = (.error e, s')) : e = .xattr .fault := by
  unfold copyBoth at h
  cases hs : storeInlinePart {} s.inode txattr with
  | error e' =>
    rw [hs] at h
    cases h
    rw [storeInlinePart_error hs]
  | ok iAddr =>
    rw [hs] at h
    cases hb : access (Splice.read txattr (inlineXattrBytes s.inode) validXattrBlockSize) with
    | error e' =>
      rw [hb] at h
      cases h
      rw [access_error hb]
    | ok block =>
      rw [hb] at h
      cases h

/-- A node that cannot be read is still there. -/
theorem truncateXattrNode_error {e : SetError}
    (h : truncateXattrNode sbi env s = (.error e, s')) : (∃ e', e = .node e') ∧ s' = s := by
  unfold truncateXattrNode at h
  split at h
  · cases h
  · split at h
    · cases h
      exact ⟨⟨_, rfl⟩, rfl⟩
    · cases h

/-- Behind `alloc_nid` a failure is a page that cannot be had; it gives the nid back and does
    nothing else. -/
theorem writeArea_error {newNid hsize : Nat} {txattr : Bytes} {e : SetError}
    (h : writeArea sbi env s newNid hsize txattr = (.error e, s')) :
    e = .xattr .fault ∨ (∃ e', e = .node e') ∧ s' = giveBack env s newNid := by
  have hblock : writeBlock env s newNid txattr = (.error e, s') →
      e = .xattr .fault ∨ (∃ e', e = .node e') ∧ s' = giveBack env s newNid := by
    intro h
    unfold writeBlock at h
    split at h
    · split at h
      · cases h
        exact Or.inr ⟨⟨_, rfl⟩, rfl⟩
      · exact Or.inl (copyBoth_fault h)
    · split at h
      · cases h
        exact Or.inr ⟨⟨_, rfl⟩, rfl⟩
      · exact Or.inl (copyBoth_fault h)
  have hinline : writeInline sbi env s newNid txattr = (.error e, s') →
      e = .xattr .fault ∨ (∃ e', e = .node e') ∧ s' = giveBack env s newNid := by
    intro h
    unfold writeInline at h
    cases htrunc : truncateXattrNode sbi env s with
    | mk r s₁ =>
      rw [htrunc] at h
      cases r with
      | ok _ => exact Or.inl (copyInline_fault h)
      | error e₁ =>
        cases h
        obtain ⟨hnode, rfl⟩ := truncateXattrNode_error htrunc
        exact Or.inr ⟨hnode, rfl⟩
  unfold writeArea at h
  by_cases h0 : inlineXattrBytes s.inode ≠ 0
  · rw [if_pos h0] at h
    cases hp : env.inodePage with
    | some e' =>
      rw [hp] at h
      cases h
      exact Or.inr ⟨⟨e', rfl⟩, rfl⟩
    | none =>
      rw [hp] at h
      dsimp only at h
      split_ifs at h
      · exact hinline h
      · exact hblock h
  · rw [if_neg h0] at h
    exact hblock h

theorem writeAllOn_error (hinv : NidsInv sbi s.node.nat)
    (hlt : s.node.nat.free.availableNids < 2 ^ 32) {hsize : Nat} {txattr : Bytes} {e : SetError}
    (h : writeAllOn sbi env s hsize txattr = some (.error e, s')) :
    e = .xattr .fault ∨ e ≠ .xattr .e2big ∧ Unchanged sbi env.mem s s' := by
  unfold writeAllOn at h
  split_ifs at h with hneed hfault
  · cases h
    exact Or.inr ⟨nofun, .refl s env.mem⟩
  · obtain ⟨⟨r, m⟩, halloc, hrest⟩ := Option.map_eq_some_iff.mp h
    obtain ⟨f, next, hsearch, hend⟩ := allocNid_cases env.fuel hinv halloc
    rcases hend with ⟨rfl, rfl⟩ | ⟨nid, rfl, hstate, havail, rfl⟩
    · cases hrest
      exact Or.inr ⟨nofun, .node (hsearch.none_kept env.mem next)⟩
    · refine (writeArea_error hrest).imp_right ?_
      rintro ⟨⟨e', rfl⟩, rfl⟩
      exact ⟨nofun, .node (hsearch.back_kept env.mem next hstate havail hlt)⟩
  · -- no nid was taken
    have hback : giveBack env s 0 = s := by
      unfold giveBack FreeNidInfo.allocNidFailed
      rw [if_pos rfl]
      rfl
    refine (writeArea_error (Option.some.inj h)).imp_right ?_
    rintro ⟨⟨e', rfl⟩, rfl⟩
    rw [hback]
    exact ⟨nofun, .refl s env.mem⟩

/-- What fails has changed nothing. -/
theorem setxattrOn_error (hinv : NidsInv sbi s.node.nat)
    (hlt : s.node.nat.free.availableNids < 2 ^ 32) {index : UInt8} {name : Bytes}
    {value : Option Bytes} {flags : XattrFlags} {e : SetError}
    (h : setxattrOn sbi env s index name value flags = some (.error e, s'))
    (he : e ≠ .xattr .fault) : Unchanged sbi env.mem s s' := by
  unfold setxattrOn at h
  split at h
  · cases h
    exact .refl s env.mem
  · cases h
  · exact ((writeAllOn_error hinv hlt h).resolve_left he).2

/-- "1. Check space" alone says that the entry is too big. -/
theorem setxattrOn_e2big (hinv : NidsInv sbi s.node.nat)
    (hlt : s.node.nat.free.availableNids < 2 ^ 32) (index : UInt8) (name : Bytes)
    (value : Option Bytes) (flags : XattrFlags) :
    (∃ s', setxattrOn sbi env s index name value flags = some (.error (.xattr .e2big), s')) ↔
      editXattrs (minOffset s.inode) (readAllXattrs env.read s.inode) index name value flags =
        .error .e2big := by
  unfold setxattrOn
  constructor
  · rintro ⟨s', h⟩
    split at h
    · rename_i heq
      cases h
      exact heq
    · cases h
    · rcases writeAllOn_error hinv hlt h with hfault | ⟨hne, -⟩
      · cases hfault
      · exact absurd rfl hne
  · intro h
    rw [h]
    exact ⟨s, rfl⟩

end Failed

/-! ## What fits -/

/-- An entry as the walks see it, whatever its bytes mean. -/
structure ListedEntry where
  index : UInt8
  name : Bytes
  valueLength : Nat
  deriving DecidableEq, Repr

namespace ListedEntry

def key (x : ListedEntry) : XattrKey := (x.index, x.name)

/-- `ENTRY_SIZE`. -/
def size (x : ListedEntry) : Nat := xattrAlign (xattrEntrySize + x.name.length + x.valueLength)

theorem four_le_size (x : ListedEntry) : 4 ≤ x.size := by
  have hle := le_xattrAlign (xattrEntrySize + x.name.length + x.valueLength)
  unfold size
  simp only [xattrEntrySize] at *
  omega

end ListedEntry

/-- From one offset the buffer holds these entries, and at the other one the last entry. -/
inductive Lists (b : Bytes) : Nat → List ListedEntry → Nat → Prop where
  | last {e : Nat} (h : isLastEntry b e = .ok true) : Lists b e [] e
  | entry {e last : Nat} {es : List ListedEntry} (x : ListedEntry)
      (hgo : isLastEntry b e = .ok false)
      (hhead : entryHead b e = .ok (x.index, x.name.length, x.valueLength))
      (hname : Splice.read b (e + xattrEntrySize) x.name.length = some x.name)
      (h : Lists b (e + x.size) es last) : Lists b e (x :: es) last

/-- The bytes of a list of entries. -/
def listSize (es : List ListedEntry) : Nat := (es.map ListedEntry.size).sum

/-- The list without the first entry of that name. -/
def dropKey (k : XattrKey) (es : List ListedEntry) : List ListedEntry :=
  es.eraseP fun x => x.key = k

/-- The flags refuse the call. -/
def RefusedBy (k : XattrKey) (es : List ListedEntry) (flags : XattrFlags) : Prop :=
  if k ∈ es.map ListedEntry.key then flags.create = true else flags.replace = true

instance (k : XattrKey) (es : List ListedEntry) (flags : XattrFlags) :
    Decidable (RefusedBy k es flags) := by
  unfold RefusedBy
  infer_instance

/-- The new entry is too big for an area of `room` bytes with these entries in it. -/
def TooBig (room : Nat) (es : List ListedEntry) (index : UInt8) (name : Bytes)
    (value : Option Bytes) (flags : XattrFlags) : Prop :=
  name.length ≤ f2fsNameLen ∧ ∃ v, value = some v ∧
    (v.length > room - xattrHeaderSize - xattrEntrySize ∨
      ¬RefusedBy (index, name) es flags ∧
        room < xattrHeaderSize + listSize (dropKey (index, name) es) +
          xattrAlign (xattrEntrySize + name.length + v.length))

section Fits

variable {b : Bytes} {e last : Nat} {es : List ListedEntry} {x : ListedEntry} {k : XattrKey}

theorem Lists.size_eq (h : Lists b e es last) : last = e + listSize es := by
  induction h with
  | last h => rfl
  | @entry e last es x hgo hhead hname h ih =>
    rw [ih, listSize, listSize, List.map_cons, List.sum_cons, Nat.add_assoc]

theorem Lists.head_in (h : Lists b e es last) : e + 4 ≤ b.length := by
  cases h with
  | last h => exact head_in_of_isLast h
  | entry x hgo _ _ _ => exact head_in_of_isLast hgo

theorem Lists.last_in (h : Lists b e es last) : last + 4 ≤ b.length := by
  induction h with
  | last h => exact head_in_of_isLast h
  | entry x hgo hhead hname h ih => exact ih

theorem entrySize_listed (hhead : entryHead b e = .ok (x.index, x.name.length, x.valueLength)) :
    entrySize b e = .ok x.size := by
  rw [entrySize, hhead]
  rfl

theorem nextEntry_listed (hhead : entryHead b e = .ok (x.index, x.name.length, x.valueLength)) :
    nextEntry b e = .ok (e + x.size) := by
  rw [nextEntry, entrySize_listed hhead]
  rfl

/-- A list is a chain. -/
theorem Lists.chain (h : Lists b e es last) : Chain b e := by
  induction h with
  | last h => exact .last h
  | entry x hgo hhead hname h ih => exact .next hgo (nextEntry_listed hhead) ih

theorem sameName_listed (hhead : entryHead b e = .ok (x.index, x.name.length, x.valueLength))
    (hname : Splice.read b (e + xattrEntrySize) x.name.length = some x.name) (k : XattrKey) :
    sameName b e k.1 k.2 = .ok (decide (x.key = k)) := by
  obtain ⟨index, name⟩ := k
  rw [sameName, hhead, ok_bind]
  unfold ListedEntry.key
  by_cases hi : x.index = index
  · by_cases hl : x.name.length = name.length
    · rw [hl] at hname
      simp only [hi, hl, ne_eq, not_true_eq_false, if_false, hname, access_some, ok_bind,
        Prod.mk.injEq, true_and]
      rfl
    · have hne : x.name ≠ name := fun heq => hl (congrArg List.length heq)
      simp [hi, hl, hne]
      rfl
  · simp [hi]
    rfl

/-- `__find_xattr` stops at the first entry of that name, or at the last one. -/
theorem Lists.find (h : Lists b e es last) (k : XattrKey) {fuel : Nat}
    (hfuel : b.length < e + 4 * fuel) :
    ∃ here, findXattrFrom b k.1 k.2 fuel e = .ok here ∧
      Lists b here (es.dropWhile fun x => x.key ≠ k) last := by
  induction h generalizing fuel with
  | @last e h =>
    have hin := head_in_of_isLast h
    obtain ⟨fuel, rfl⟩ : ∃ n, fuel = n + 1 := ⟨fuel - 1, by omega⟩
    rw [findXattrFrom, h, ok_bind]
    exact ⟨e, rfl, .last h⟩
  | @entry e last es x hgo hhead hname h ih =>
    have hin := head_in_of_isLast hgo
    obtain ⟨fuel, rfl⟩ : ∃ n, fuel = n + 1 := ⟨fuel - 1, by omega⟩
    rw [findXattrFrom, hgo, ok_bind, sameName_listed hhead hname, ok_bind,
      nextEntry_listed hhead]
    by_cases hk : x.key = k
    · rw [List.dropWhile_cons_of_neg (by simp [hk]), decide_eq_true hk]
      exact ⟨e, rfl, .entry x hgo hhead hname h⟩
    · rw [List.dropWhile_cons_of_pos (by simp [hk]), decide_eq_false hk]
      have hle := x.four_le_size
      exact ih (by omega)

/-- The walk to the last entry. -/
theorem Lists.lastEntry (h : Lists b e es last) {fuel : Nat} (hfuel : b.length < e + 4 * fuel) :
    lastEntryFrom b fuel e = .ok last := by
  induction h generalizing fuel with
  | @last e h =>
    have hin := head_in_of_isLast h
    obtain ⟨fuel, rfl⟩ : ∃ n, fuel = n + 1 := ⟨fuel - 1, by omega⟩
    rw [lastEntryFrom, h, ok_bind]
    rfl
  | @entry e last es x hgo hhead hname h ih =>
    have hin := head_in_of_isLast hgo
    obtain ⟨fuel, rfl⟩ : ∃ n, fuel = n + 1 := ⟨fuel - 1, by omega⟩
    rw [lastEntryFrom, hgo, ok_bind, nextEntry_listed hhead]
    have hle := x.four_le_size
    exact ih (by omega)

/-- The list from the first entry of that name on. -/
theorem listSize_dropKey (k : XattrKey) (es : List ListedEntry) :
    (es.dropWhile (fun x => x.key ≠ k) = [] ∧ dropKey k es = es ∧
        k ∉ es.map ListedEntry.key) ∨
      ∃ x r, es.dropWhile (fun x => x.key ≠ k) = x :: r ∧ x.key = k ∧
        k ∈ es.map ListedEntry.key ∧ listSize es = listSize (dropKey k es) + x.size := by
  induction es with
  | nil => exact Or.inl ⟨rfl, rfl, by simp⟩
  | cons y es ih =>
    by_cases hk : y.key = k
    · refine Or.inr ⟨y, es, List.dropWhile_cons_of_neg (by simp [hk]), hk, ?_, ?_⟩
      · rw [List.map_cons, hk]
        exact List.mem_cons_self
      · rw [dropKey, List.eraseP_cons_of_pos (by simp [hk]), listSize, listSize, List.map_cons,
          List.sum_cons, Nat.add_comm]
    · rw [List.dropWhile_cons_of_pos (by simp [hk]), List.map_cons, dropKey,
        List.eraseP_cons_of_neg (by simp [hk])]
      rcases ih with ⟨hnil, hdrop, hnot⟩ | ⟨x, r, hcons, hx, hmem, hsize⟩
      · refine Or.inl ⟨hnil, congrArg (y :: ·) hdrop, ?_⟩
        rw [List.mem_cons, not_or]
        exact ⟨fun heq => hk heq.symm, hnot⟩
      · refine Or.inr ⟨x, r, hcons, hx, List.mem_cons_of_mem _ hmem, ?_⟩
        unfold listSize at hsize ⊢
        unfold dropKey at hsize
        rw [List.map_cons, List.sum_cons, List.map_cons, List.sum_cons, hsize]
        omega

/-- What `__f2fs_setxattr` finds before it edits. -/
structure Finds (b : Bytes) (es : List ListedEntry) (last : Nat) (k : XattrKey)
    (flags : XattrFlags) (e : Nat) (found : Bool) (size : Nat) : Prop where
  here : findXattr b 0 k.1 k.2 = .ok e
  isLast : isLastEntry b e = .ok (!found)
  toLast : lastEntryFrom b b.length e = .ok last
  lastIn : last + 4 ≤ b.length
  next : isLastEntry b e = .ok true ∧ last = e ∨ ∃ e', nextEntry b e = .ok e' ∧ e' ≤ last
  oldsize : oldEntrySize b e found = .ok size
  sizes : last = xattrHeaderSize + listSize (dropKey k es) + size
  refused : RefusedBy k es flags ↔ (if found then flags.create else flags.replace) = true
  inBuffer : isLastEntry b e = .ok false → EntryIn b e
  same : ∀ v, alreadySet b e found (some v) = .ok true →
    size = xattrAlign (xattrEntrySize + k.2.length + v.length)

theorem Lists.finds (h : Lists b xattrHeaderSize es last) (k : XattrKey) (flags : XattrFlags) :
    ∃ here found oldsize, Finds b es last k flags here found oldsize := by
  have hpos := h.head_in
  have hfuel : b.length < xattrHeaderSize + 4 * b.length := by omega
  obtain ⟨here, hfind, hhere⟩ := h.find k hfuel
  have hherein := hhere.head_in
  have hfuel' : b.length < here + 4 * b.length := by omega
  have hfindx : findXattr b 0 k.1 k.2 = .ok here := by
    rw [findXattr, Nat.zero_add]
    exact hfind
  have hlast := hhere.lastEntry hfuel'
  have hsize := h.size_eq
  have hin : isLastEntry b here = .ok false → EntryIn b here := fun hgo => by
    obtain ⟨i, len, lo, hi, his⟩ := exists_head hherein
    obtain ⟨-, hend⟩ := hhere.chain.entry_in hgo his
    exact ⟨i, len, lo, hi, his, by omega⟩
  rcases listSize_dropKey k es with ⟨hnil, hdrop, hnot⟩ | ⟨x, r, hcons, hx, hmem, hsizes⟩
  · rw [hnil] at hhere
    cases hhere with
    | last hend =>
      refine ⟨last, false, 0, hfindx, hend, hlast, hherein, Or.inl ⟨hend, rfl⟩, rfl, ?_, ?_, hin,
        fun v hv => absurd (Except.ok.inj hv) Bool.false_ne_true⟩
      · rw [hdrop, Nat.add_zero]
        exact hsize
      · unfold RefusedBy
        rw [if_neg hnot]
        rfl
  · rw [hcons] at hhere
    cases hhere with
    | entry x hgo hhead hname hrest =>
      refine ⟨here, true, x.size, hfindx, hgo, hlast, h.last_in, Or.inr ⟨_, nextEntry_listed hhead,
        ?_⟩, entrySize_listed hhead, by omega, ?_, hin, fun v hv => ?_⟩
      · have hle := hrest.size_eq
        omega
      · unfold RefusedBy
        rw [if_pos hmem]
        rfl
      · have hname' : x.name = k.2 := congrArg Prod.snd hx
        have hsame : xattrValueSame b here v = .ok true := hv
        rw [xattrValueSame, hhead, ok_bind] at hsame
        by_cases hlen : x.valueLength ≠ v.length
        · simp only [if_pos hlen] at hsame
          cases hsame
        · rw [ListedEntry.size, hname', not_not.mp hlen]

/-- The calls refused for their size. -/
theorem editXattrs_e2big {room : Nat} (h : Lists b xattrHeaderSize es last)
    (hlen : b.length = room + xattrPaddingSize) (index : UInt8) (name : Bytes)
    (value : Option Bytes) (flags : XattrFlags) :
    editXattrs room (.ok b) index name value flags = .error .e2big ↔
      TooBig room es index name value flags := by
  obtain ⟨here, found, oldsize, hf⟩ := h.finds (index, name) flags
  have hfindx : findXattr b 0 index name = .ok here := hf.here
  have hlast := hf.isLast
  have hlastIn := hf.lastIn
  have hsizes := hf.sizes
  simp only [xattrPaddingSize] at hlen
  unfold editXattrs TooBig
  dsimp only
  by_cases hname : name.length > f2fsNameLen
  · rw [if_pos hname]
    exact iff_of_false nofun fun hbig => absurd hbig.1 (Nat.not_le.mpr hname)
  rw [if_neg hname]
  by_cases hlong : (value.getD []).length > room - xattrHeaderSize - xattrEntrySize
  · rw [if_pos hlong]
    refine iff_of_true rfl ⟨Nat.not_lt.mp hname, ?_⟩
    cases value with
    | none => exact absurd hlong (Nat.not_lt_zero _)
    | some v => exact ⟨v, rfl, Or.inl hlong⟩
  rw [if_neg hlong, ok_bind, hfindx, ok_bind, hlast, ok_bind, Bool.not_not]
  -- what is left of the condition
  have hiff : (name.length ≤ f2fsNameLen ∧ ∃ v, value = some v ∧
      (v.length > room - xattrHeaderSize - xattrEntrySize ∨ ¬RefusedBy (index, name) es flags ∧
        room < xattrHeaderSize + listSize (dropKey (index, name) es) +
          xattrAlign (xattrEntrySize + name.length + v.length))) ↔
      ¬RefusedBy (index, name) es flags ∧ (value.isSome = true ∧
        ((room : Int) - last + oldsize <
          xattrAlign (xattrEntrySize + name.length + (value.getD []).length))) := by
    constructor
    · rintro ⟨-, v, rfl, hv | ⟨hnot, hlt⟩⟩
      · exact absurd hv hlong
      · refine ⟨hnot, rfl, ?_⟩
        rw [Option.getD_some]
        omega
    · rintro ⟨hnot, hsome, hlt⟩
      obtain ⟨v, rfl⟩ := Option.isSome_iff_exists.mp hsome
      rw [Option.getD_some] at hlt
      exact ⟨Nat.not_lt.mp hname, v, rfl, Or.inr ⟨hnot, by omega⟩⟩
  rw [hiff]
  by_cases hrefused : RefusedBy (index, name) es flags
  · refine iff_of_false ?_ fun hboth => hboth.1 hrefused
    have hflags := hf.refused.mp hrefused
    cases found with
    | true =>
      rw [if_pos rfl] at hflags
      rw [hflags]
      nofun
    | false =>
      rw [if_neg Bool.false_ne_true] at hflags
      rw [hflags]
      nofun
  · have hflags : ¬(if found then flags.create else flags.replace) = true := fun hh =>
      hrefused (hf.refused.mpr hh)
    have hcreate : ¬(found && flags.create) = true := by
      cases found with
      | true => simpa using hflags
      | false => exact Bool.false_ne_true
    have hreplace : ¬(!found && flags.replace) = true := by
      cases found with
      | true => exact Bool.false_ne_true
      | false => simpa using hflags
    rw [if_neg hcreate, if_neg hreplace]
    obtain ⟨same, hsame⟩ := alreadySet_ok hf.inBuffer hlast value
    rw [hsame, ok_bind]
    cases same with
    | true =>
      -- the entry that is there is as big as the new one
      refine iff_of_false nofun fun hboth => ?_
      obtain ⟨-, hsome, hlt⟩ := hboth
      obtain ⟨v, rfl⟩ := Option.isSome_iff_exists.mp hsome
      have heq := hf.same v hsame
      rw [Option.getD_some] at hlt
      dsimp only at heq
      omega
    | false =>
      rw [if_neg Bool.false_ne_true, hf.toLast, ok_bind, hf.oldsize, ok_bind]
      by_cases hspace : value.isSome = true ∧ ((room : Int) - last + oldsize <
          xattrAlign (xattrEntrySize + name.length + (value.getD []).length))
      · rw [if_pos hspace]
        exact iff_of_true rfl ⟨hrefused, hspace⟩
      · rw [if_neg hspace]
        refine iff_of_false ?_ fun hboth => hspace hboth.2
        obtain ⟨old, b₁, last₁, hold, hdropped, hlen₁, hlast₁⟩ := dropOldEntry_ok hlast hlastIn
          hf.next
        rw [hf.oldsize] at hold
        cases hold
        have hfit : value.isSome → last₁ + xattrAlign (xattrEntrySize + name.length +
            (value.getD []).length) ≤ b₁.length := by
          intro hsome
          have hnot : ¬((room : Int) - last + oldsize <
              (xattrAlign (xattrEntrySize + name.length + (value.getD []).length) : Nat)) :=
            fun hlt => hspace ⟨hsome, hlt⟩
          omega
        obtain ⟨r, hr⟩ := addNewEntry_ok index name value hfit
        rw [hdropped, ok_bind]
        dsimp only
        rw [hr, ok_bind]
        nofun

/-- A list is read from its first entry on. -/
theorem Lists.congr {b' : Bytes} {n : Nat} (h : Lists b e es last) (hlen : b'.length = b.length)
    (hdrop : b'.drop n = b.drop n) (hn : n ≤ e) : Lists b' e es last := by
  have hread : ∀ off m, n ≤ off → Splice.read b' off m = Splice.read b off m := by
    intro off m hoff
    have htail : b'.drop off = b.drop off := by
      rw [← Nat.add_sub_cancel' hoff, ← List.drop_drop, ← List.drop_drop, hdrop]
    rw [Splice.read, Splice.read, hlen, htail]
  induction h with
  | @last e h =>
    refine .last ?_
    unfold isLastEntry at h ⊢
    rw [hread e 4 hn]
    exact h
  | @entry e last es x hgo hhead hname h ih =>
    refine .entry x ?_ ?_ ?_ (ih (by omega))
    · unfold isLastEntry at hgo ⊢
      rw [hread e 4 hn]
      exact hgo
    · unfold entryHead at hhead ⊢
      rw [hread e _ hn]
      exact hhead
    · rw [hread _ _ (by omega)]
      exact hname

/-- The buffer of `read_all_xattrs` holds the entries of the area. -/
theorem WellSized.readAllXattrs_lists {inode : XattrInode} (h : WellSized inode) {env : XattrEnv}
    (henv : env.Readable) (hlist : Lists (area inode) xattrHeaderSize es last) :
    ∃ b, readAllXattrs env inode = .ok b ∧ b.length = minOffset inode + xattrPaddingSize ∧
      Lists b xattrHeaderSize es last := by
  have hwords := h.size_le
  let c : XattrContent :=
    { words := inode.inlineXattrSize
      inline := inlineBytes inode
      block := inode.xattrBlock
      words_lt := by
        simp only [defAddrsPerInode] at hwords
        omega
      inline_length := h.length_inline
      block_length := h.block }
  have hc : Holds inode c := ⟨h, rfl, rfl⟩
  obtain ⟨b, hb, hlen, hdrop⟩ := c.allBuffer_eq
  refine ⟨b, (hc.readAllXattrs_eq henv).trans hb, ?_, hlist.congr hlen hdrop le_rfl⟩
  rw [hlen, c.length_allBytes, minOffset, ← h.length_inline, xattrAlign_of_mod]
  rw [h.length_inline]
  unfold inlineXattrBytes validXattrBlockSize
  omega

end Fits

/-! ## Atomicity -/

/-- From a sound image, through every run of the node manager: a call of `__f2fs_setxattr` that
    fails leaves the inode and the nids that can be allocated as they were; and if the area can
    be read, the calls refused with `E2BIG` are those whose entry is too big. -/
theorem setxattr_atomic (sbi : SbInfo) (d : NatImage)
    (totalValidNodeCount nquotaFiles nextScanNid : Nat) (mem : Bool)
    (hm : MountedNat sbi
      (initNodeManager sbi d (initAvailableNids sbi totalValidNodeCount nquotaFiles)))
    (ops : List NidOp) (s : XattrFs)
    (hrun : ops.foldlM (nidOp sbi) (buildNodeManager sbi
      (initNodeManager sbi d (initAvailableNids sbi totalValidNodeCount nquotaFiles))
      nextScanNid mem) = some s.node)
    (env : SetEnv) (index : UInt8) (name : Bytes) (value : Option Bytes) (flags : XattrFlags) :
    (∀ e s', setxattrOn sbi env s index name value flags = some (.error e, s') →
      e ≠ .xattr .fault → Unchanged sbi env.mem s s') ∧
    (WellSized s.inode → env.read.Readable → ∀ es last,
      Lists (area s.inode) xattrHeaderSize es last →
        ((∃ s', setxattrOn sbi env s index name value flags =
            some (.error (.xattr .e2big), s')) ↔
          TooBig (minOffset s.inode) es index name value flags)) := by
  obtain ⟨hinv, hlt⟩ := nidRun_avail_lt hm hrun
  refine ⟨fun e s' h he => setxattrOn_error hinv hlt h he, fun hsized henv es last hlist => ?_⟩
  obtain ⟨b, hread, hlen, hb⟩ := hsized.readAllXattrs_lists henv hlist
  rw [setxattrOn_e2big hinv hlt, hread]
  exact editXattrs_e2big hb hlen index name value flags

/-- An inode without attributes and without an inline part, on the small volume. -/
def nearlyFullFs : XattrFs where
  ino := 3
  inlineXattrSize := 0
  iAddr := List.replicate (4 * defAddrsPerInode) 0
  xattrNode := none
  node := buildNodeManager oneBlockSbi nearlyFull 4 true

/-- The page of the new node cannot be had, and memory is short. -/
def shortMemory : SetEnv where
  mem := false
  newNodePage := some .enomem

theorem shortMemory_fails : ∃ s', setxattrOn oneBlockSbi shortMemory nearlyFullFs 1 [0x61]
      (some [0x78]) {} = some (.error (.node .enomem), s') ∧
    4 ∈ nearlyFullFs.node.nat.free.freeNidList ∧ 4 ∉ s'.node.nat.free.freeNidList ∧
    ¬Prealloc s'.node 4 := by
  have hrun : (setxattrOn oneBlockSbi shortMemory nearlyFullFs 1 [0x61] (some [0x78]) {}).any
      (fun r => decide (r.1 = .error (.node .enomem)) &&
        decide (4 ∈ nearlyFullFs.node.nat.free.freeNidList) &&
        decide (4 ∉ r.2.node.nat.free.freeNidList) && decide (¬Prealloc r.2.node 4)) = true := by
    decide +kernel
  obtain ⟨⟨r, s'⟩, hs, hbad⟩ := (Option.any_eq_true _ _).mp hrun
  simp only [Bool.and_eq_true, decide_eq_true_eq] at hbad
  obtain ⟨⟨⟨rfl, hbefore⟩, hafter⟩, hpre⟩ := hbad
  exact ⟨s', hs, hbefore, hafter, hpre⟩

theorem nearlyFullFs_atomic :
    (∃ s', setxattrOn oneBlockSbi shortMemory nearlyFullFs 1 [0x61] (some [0x78]) {} =
        some (.error (.node .enomem), s') ∧ Unchanged oneBlockSbi false nearlyFullFs s') ∧
      ∃ s', setxattrOn oneBlockSbi {} nearlyFullFs 1 [0x61] (some (List.replicate 4045 0)) {} =
        some (.error (.xattr .e2big), s') := by
  have hatomic := setxattr_atomic oneBlockSbi nearlyFullImage 450 0 4 true nearlyFull_mounted []
    nearlyFullFs rfl
  obtain ⟨s', hs, -⟩ := shortMemory_fails
  refine ⟨⟨s', hs, (hatomic shortMemory 1 [0x61] (some [0x78]) {}).1 _ s' hs nofun⟩, ?_⟩
  refine ((hatomic {} 1 [0x61] (some (List.replicate 4045 0)) {}).2
    ⟨by decide, List.length_replicate, nofun⟩ ⟨rfl, rfl, rfl⟩ [] 24
    (.last (by decide +kernel))).mpr ⟨by decide, _, rfl, Or.inl ?_⟩
  rw [List.length_replicate]
  decide

/-- One attribute without a value, in an inline part of the default size. -/
def oneAttrFs : XattrFs where
  ino := 3
  inlineXattrSize := 50
  iAddr := List.replicate 3516 0 ++ [1, 1, 0, 0, 0x61, 0, 0, 0] ++ List.replicate 168 0
  xattrNode := none
  node := buildNodeManager oneBlockSbi nearlyFull 4 true

/-- A nid given back without memory leaves the list; and a new value that would not fit is
    refused for `XATTR_CREATE` first. -/
theorem setxattr_not_atomic :
    (∃ s', setxattrOn oneBlockSbi shortMemory nearlyFullFs 1 [0x61] (some [0x78]) {} =
        some (.error (.node .enomem), s') ∧
      4 ∈ nearlyFullFs.node.nat.free.freeNidList ∧ 4 ∉ s'.node.nat.free.freeNidList ∧
      ¬Prealloc s'.node 4) ∧
    (setxattrOn oneBlockSbi {} oneAttrFs 1 [0x61] (some (List.replicate 4244 0))
        { create := true }).map Prod.fst = some (.error (.xattr .eexist)) ∧
      Lists (area oneAttrFs.inode) xattrHeaderSize [⟨1, [0x61], 0⟩] 32 ∧
      minOffset oneAttrFs.inode < xattrHeaderSize +
        listSize (dropKey (1, [0x61]) [⟨1, [0x61], 0⟩]) +
          xattrAlign (xattrEntrySize + 1 + 4244) := by
  refine ⟨shortMemory_fails, by decide +kernel, ?_, by decide⟩
  exact .entry ⟨1, [0x61], 0⟩ (by decide +kernel) (by decide +kernel) (by decide +kernel)
    (.last (by decide +kernel))

end F2fs.Xattr

/-
  The list of entries an inode stores.

  `Stores inode es`: the area of the inode holds the entries `es`, with distinct keys,
  and fits the inline part when there is no xattr block.  `setxattr_stores` is the step
  lemma: a successful `f2fs_setxattr` keeps this, and changes the map of `es` at its key
  only.  The scan over the whole area is right whatever the inline size is.
-/
import F2fs.Xattr.Entries

namespace F2fs.Xattr

open F2fs.Node (defAddrsPerInode)

/-! ## The map of a list -/

/-- The value of a key. -/
def valueOf (es : List XattrEntry) (k : XattrKey) : Option Bytes :=
  (es.find? fun x => x.key = k).map XattrEntry.value

/-- The list without the first entry of a key. -/
def without (k : XattrKey) (es : List XattrEntry) : List XattrEntry :=
  before k es ++ (fromKey k es).tail

section Map

variable {es : List XattrEntry} {k : XattrKey}

theorem key_ne_of_mem_before {x : XattrEntry} (h : x ∈ before k es) : x.key ≠ k := by
  have := List.mem_takeWhile_imp h
  simpa using this

/-- Either no entry has the key, or the list is cut at the first one that does. -/
theorem fromKey_cases (k : XattrKey) (es : List XattrEntry) :
    (fromKey k es = [] ∧ before k es = es) ∨
      ∃ x r, fromKey k es = x :: r ∧ x.key = k ∧ es = before k es ++ x :: r := by
  have happend := before_append_fromKey k es
  cases hf : fromKey k es with
  | nil =>
      rw [hf, List.append_nil] at happend
      exact Or.inl ⟨rfl, happend⟩
  | cons x r =>
      refine Or.inr ⟨x, r, rfl, ?_, by rw [← hf, happend]⟩
      have hne : (es.dropWhile fun x => x.key ≠ k) ≠ [] := by
        rw [show (es.dropWhile fun x => x.key ≠ k) = x :: r from hf]
        exact List.cons_ne_nil x r
      have hhead := List.head_dropWhile_not (fun x : XattrEntry => decide (x.key ≠ k)) hne
      have hx : (es.dropWhile fun x => x.key ≠ k).head hne = x := by
        simp only [show (es.dropWhile fun x => x.key ≠ k) = x :: r from hf, List.head_cons]
      rw [hx] at hhead
      simpa using hhead

theorem valueOf_of_ne (h : ∀ x ∈ es, x.key ≠ k) : valueOf es k = none := by
  unfold valueOf
  rw [List.find?_eq_none.mpr (by simpa using h)]
  rfl

/-- An entry decides about its own key only. -/
theorem valueOf_middle_of_ne (l r : List XattrEntry) {x : XattrEntry} (h : x.key ≠ k) :
    valueOf (l ++ x :: r) k = valueOf (l ++ r) k := by
  unfold valueOf
  rw [List.find?_append, List.find?_append, List.find?_cons_of_neg (by simpa using h)]

theorem valueOf_middle (r : List XattrEntry) {l : List XattrEntry} {x : XattrEntry}
    (h : ∀ y ∈ l, y.key ≠ x.key) : valueOf (l ++ x :: r) x.key = some x.value := by
  unfold valueOf
  rw [List.find?_append, List.find?_eq_none.mpr (by simpa using h), Option.none_or,
    List.find?_cons_of_pos (by simp)]
  rfl

theorem without_sublist (k : XattrKey) (es : List XattrEntry) :
    ((without k es).map XattrEntry.key).Sublist (es.map XattrEntry.key) := by
  have hsub : (without k es).Sublist (before k es ++ fromKey k es) :=
    (List.tail_sublist _).append_left _
  rw [before_append_fromKey] at hsub
  exact hsub.map _

theorem key_ne_of_mem_without (hnd : (es.map XattrEntry.key).Nodup) :
    ∀ x ∈ without k es, x.key ≠ k := by
  intro y hy
  rcases fromKey_cases k es with ⟨hf, hb⟩ | ⟨x, r, hf, rfl, hes⟩
  · rw [without, hf, List.tail_nil, List.append_nil] at hy
    exact key_ne_of_mem_before hy
  · rw [without, hf, List.tail_cons] at hy
    rcases List.mem_append.mp hy with hy | hy
    · exact key_ne_of_mem_before hy
    · rw [hes, List.map_append, List.map_cons] at hnd
      have hx := (List.nodup_cons.mp (List.nodup_append.mp hnd).2.1).1
      exact fun heq => hx (heq ▸ List.mem_map_of_mem hy)

theorem valueOf_without (hnd : (es.map XattrEntry.key).Nodup) :
    valueOf (without k es) = Function.update (valueOf es) k none := by
  funext k'
  by_cases hk : k' = k
  · subst hk
    rw [Function.update_self, valueOf_of_ne (key_ne_of_mem_without hnd)]
  rw [Function.update_of_ne hk]
  rcases fromKey_cases k es with ⟨hf, hb⟩ | ⟨x, r, hf, hx, hes⟩
  · rw [without, hf, hb, List.tail_nil, List.append_nil]
  · rw [without, hf, List.tail_cons]
    conv => rhs; rw [hes]
    rw [valueOf_middle_of_ne _ _ (by rw [hx]; exact fun h => hk h.symm)]

theorem valueOf_snoc {x : XattrEntry} (h : ∀ y ∈ es, y.key ≠ x.key) :
    valueOf (es ++ [x]) = Function.update (valueOf es) x.key (some x.value) := by
  funext k'
  by_cases hk : k' = x.key
  · rw [hk, Function.update_self, valueOf_middle [] h]
  · rw [Function.update_of_ne hk, valueOf_middle_of_ne _ _ (fun h => hk h.symm), List.append_nil]

end Map

/-! ## The area -/

/-- The inline part. -/
def inlineBytes (inode : XattrInode) : Bytes :=
  inode.iAddr.drop (4 * (defAddrsPerInode - inode.inlineXattrSize))

/-- The inline part, the xattr block, and the padding a buffer has behind them. -/
def area (inode : XattrInode) : Bytes :=
  inlineBytes inode ++ inode.xattrBlock.getD (List.replicate validXattrBlockSize 0) ++
    List.replicate xattrPaddingSize 0

/-- The parts of the inode have their sizes. -/
structure WellSized (inode : XattrInode) : Prop where
  size_le : inode.inlineXattrSize ≤ defAddrsPerInode
  addrs : inode.iAddr.length = 4 * defAddrsPerInode
  block : ∀ blk, inode.xattrBlock = some blk → blk.length = validXattrBlockSize

structure Stores (inode : XattrInode) (es : List XattrEntry) : Prop where
  size_le : inode.inlineXattrSize ≤ defAddrsPerInode
  addrs : inode.iAddr.length = 4 * defAddrsPerInode
  block : ∀ blk, inode.xattrBlock = some blk → blk.length = validXattrBlockSize
  nodup : (es.map XattrEntry.key).Nodup
  packed : Packed (area inode) xattrHeaderSize es
  inlineOnly : inode.xattrBlock = none →
    es = [] ∨ xattrHeaderSize + (encodeAll es).length ≤ inlineXattrBytes inode

section Area

variable {inode : XattrInode} {es : List XattrEntry}

theorem Stores.wellSized (h : Stores inode es) : WellSized inode := ⟨h.size_le, h.addrs, h.block⟩

theorem WellSized.length_inline (h : WellSized inode) :
    (inlineBytes inode).length = inlineXattrBytes inode := by
  have := h.size_le
  unfold inlineBytes inlineXattrBytes
  rw [List.length_drop, h.addrs]
  omega

theorem WellSized.length_block (h : WellSized inode) :
    (inode.xattrBlock.getD (List.replicate validXattrBlockSize 0)).length =
      validXattrBlockSize := by
  cases hb : inode.xattrBlock with
  | none => exact List.length_replicate
  | some blk => exact h.block blk hb

theorem WellSized.length_area (h : WellSized inode) :
    (area inode).length = inlineXattrBytes inode + validXattrBlockSize + xattrPaddingSize := by
  unfold area
  rw [List.length_append, List.length_append, h.length_inline, h.length_block,
    List.length_replicate]

theorem WellSized.inlineXattrAddr_eq (h : WellSized inode) :
    inlineXattrAddr inode = some (4 * (defAddrsPerInode - inode.inlineXattrSize)) :=
  if_pos h.size_le

/-- `read_inline_xattr` into a buffer of zeros. -/
theorem WellSized.readInlineXattr_eq (h : WellSized inode) {env : XattrEnv}
    (henv : env.inodePage = true) (n : Nat) :
    readInlineXattr env inode (List.replicate (inlineXattrBytes inode + n) 0) =
      .ok (inlineBytes inode ++ List.replicate n 0) := by
  have hread : Splice.read inode.iAddr (4 * (defAddrsPerInode - inode.inlineXattrSize))
      (inlineXattrBytes inode) = some (inlineBytes inode) := by
    have hsplit : inode.iAddr =
        inode.iAddr.take (4 * (defAddrsPerInode - inode.inlineXattrSize)) ++
          inlineBytes inode ++ [] := by
      rw [List.append_nil, inlineBytes, List.take_append_drop]
    have hlen := h.addrs
    rw [hsplit]
    refine Splice.read_middle ?_ h.length_inline.symm
    rw [List.length_take]
    omega
  have hwrite : Splice.write (List.replicate (inlineXattrBytes inode + n) (0 : UInt8)) 0
      (inlineBytes inode) = some (inlineBytes inode ++ List.replicate n 0) := by
    rw [← List.replicate_append_replicate]
    have hlen : (inlineBytes inode).length =
        (List.replicate (inlineXattrBytes inode) (0 : UInt8)).length := by
      rw [h.length_inline, List.length_replicate]
    exact Splice.write_front hlen
  unfold readInlineXattr
  rw [henv, h.inlineXattrAddr_eq]
  simp only [Bool.not_true, Bool.false_eq_true, if_false, access_some, ok_bind, hread, hwrite]

/-- Both parts read into a buffer for both, when nothing fails. -/
theorem WellSized.readBlock_eq (h : WellSized inode) {env : XattrEnv} {blk : Bytes}
    (hblk : inode.xattrBlock = some blk) (henv : env.xattrPage = true) :
    readXattrBlock env inode blk
        (inlineBytes inode ++ List.replicate (validXattrBlockSize + xattrPaddingSize) 0) =
      .ok (area inode) := by
  unfold readXattrBlock
  rw [henv, ← List.replicate_append_replicate, ← List.append_assoc,
    Splice.write_middle h.length_inline.symm (by rw [h.block blk hblk, List.length_replicate])]
  unfold area
  rw [hblk]
  rfl

theorem WellSized.inlineBytes_nil (h : WellSized inode) (h0 : inlineXattrBytes inode = 0) :
    inlineBytes inode = [] := by
  rw [← List.length_eq_zero_iff, h.length_inline, h0]

/-- The header a write gives the area is not part of the list. -/
theorem Packed.writeHeader {b : Bytes} (h : Packed b xattrHeaderSize es) (src : Bytes)
    (hsrc : src.length ≤ xattrHeaderSize) :
    ∃ b', Splice.write b 0 src = some b' ∧ Packed b' xattrHeaderSize es := by
  obtain ⟨pre, z, rfl, hpre, hz⟩ := h
  have hle : src.length ≤ pre.length := by rw [hpre]; exact hsrc
  have hsplit : pre ++ encodeAll es ++ List.replicate z 0 =
      pre.take src.length ++ (pre.drop src.length ++ encodeAll es ++ List.replicate z 0) := by
    simp only [← List.append_assoc, List.take_append_drop]
  refine ⟨(src ++ pre.drop src.length) ++ encodeAll es ++ List.replicate z 0, ?_,
    src ++ pre.drop src.length, z, rfl, ?_, hz⟩
  · rw [hsplit, Splice.write_front (by rw [List.length_take]; omega)]
    simp only [List.append_assoc]
  · rw [List.length_append, List.length_drop, ← hpre]
    omega

/-- The inline part read into a buffer of zeros, or not read because there is none. -/
theorem WellSized.firstRead_eq (h : WellSized inode) (env : XattrEnv) (n : Nat) :
    readInlinePart env inode (List.replicate (inlineXattrBytes inode + n) 0) =
      if inlineXattrBytes inode ≠ 0 ∧ env.inodePage = false then .error .eio
      else .ok (inlineBytes inode ++ List.replicate n 0) := by
  unfold readInlinePart
  by_cases h0 : inlineXattrBytes inode = 0
  · rw [if_neg (by simp [h0]), if_neg (by simp [h0]), h.inlineBytes_nil h0, h0, Nat.zero_add]
    rfl
  · rw [if_pos h0]
    cases hp : env.inodePage with
    | true => rw [if_neg (by simp), h.readInlineXattr_eq hp]
    | false =>
        rw [if_pos ⟨h0, rfl⟩]
        unfold readInlineXattr
        rw [hp]
        rfl

/-- The xattr block read behind it. -/
theorem WellSized.secondRead_eq (h : WellSized inode) (env : XattrEnv) :
    readBlockPart env inode
        (inlineBytes inode ++ List.replicate (validXattrBlockSize + xattrPaddingSize) 0) =
      if inode.xattrBlock.isSome = true ∧ env.xattrPage = false then .error .eio
      else .ok (area inode) := by
  unfold readBlockPart
  cases hb : inode.xattrBlock with
  | none =>
      rw [if_neg (by simp)]
      unfold area
      rw [hb, Option.getD_none, List.append_assoc, List.replicate_append_replicate]
  | some blk =>
      cases hp : env.xattrPage with
      | true => rw [if_neg (by simp), ← h.readBlock_eq hb hp]
      | false =>
          rw [if_pos ⟨rfl, rfl⟩]
          simp only [readXattrBlock, hp]
          rfl

/-- What `read_all_xattrs` returns. -/
theorem Stores.readAllXattrs_eq (h : Stores inode es) (env : XattrEnv) :
    ∃ b, Packed b xattrHeaderSize es ∧
      b.length = inlineXattrBytes inode + validXattrBlockSize + xattrPaddingSize ∧
      readAllXattrs env inode =
        if env.nomem = true then .error .enomem
        else if inlineXattrBytes inode ≠ 0 ∧ env.inodePage = false then .error .eio
        else if inode.xattrBlock.isSome = true ∧ env.xattrPage = false then .error .eio
        else .ok b := by
  -- the buffer with its header, if the area has never been written
  obtain ⟨b, hb, hlen, hhead⟩ : ∃ b, Packed b xattrHeaderSize es ∧
      b.length = inlineXattrBytes inode + validXattrBlockSize + xattrPaddingSize ∧
      (access (Splice.read (area inode) 0 4) >>= fun magic =>
        if magic ≠ xattrMagic then
          access (Splice.write (area inode) 0 (xattrMagic ++ xattrRefcount))
        else .ok (area inode)) = .ok b := by
    have hread : ∃ w, Splice.read (area inode) 0 4 = some w := by
      unfold Splice.read
      rw [if_pos (by rw [h.wellSized.length_area]; unfold xattrPaddingSize; omega)]
      exact ⟨_, rfl⟩
    obtain ⟨w, hw⟩ := hread
    rw [hw, access_some, ok_bind]
    by_cases hmagic : w ≠ xattrMagic
    · rw [if_pos hmagic]
      obtain ⟨b, hwrite, hb⟩ := h.packed.writeHeader (xattrMagic ++ xattrRefcount) (by decide)
      exact ⟨b, hb, (Splice.length_write hwrite).trans h.wellSized.length_area, by rw [hwrite]; rfl⟩
    · rw [if_neg hmagic]
      exact ⟨area inode, h.packed, h.wellSized.length_area, rfl⟩
  refine ⟨b, hb, hlen, ?_⟩
  unfold readAllXattrs
  have hfirst := h.wellSized.firstRead_eq env (validXattrBlockSize + xattrPaddingSize)
  have hsecond := h.wellSized.secondRead_eq env
  rw [← Nat.add_assoc] at hfirst
  simp only
  by_cases hm : env.nomem = true
  · rw [if_pos hm, if_pos hm]
  rw [if_neg hm, if_neg hm, hfirst]
  by_cases hp : inlineXattrBytes inode ≠ 0 ∧ env.inodePage = false
  · rw [if_pos hp, if_pos hp, error_bind]
  rw [if_neg hp, if_neg hp, ok_bind, hsecond]
  by_cases hx : inode.xattrBlock.isSome = true ∧ env.xattrPage = false
  · rw [if_pos hx, if_pos hx, error_bind]
  rw [if_neg hx, if_neg hx, ok_bind]
  exact hhead

/-! ## Writing it back -/

/-- A buffer of the size of the area is an inline part, a block, and a padding of zeros. -/
theorem Packed.split {b : Bytes} {i : Nat} (h : Packed b xattrHeaderSize es)
    (hlen : b.length = i + validXattrBlockSize + xattrPaddingSize) :
    b = b.take i ++ (b.drop i).take validXattrBlockSize ++
      List.replicate xattrPaddingSize 0 := by
  have hend : b.drop (i + validXattrBlockSize) = List.replicate xattrPaddingSize 0 := by
    obtain ⟨pre, z, rfl, hpre, hz⟩ := h
    simp only [List.length_append, List.length_replicate] at hlen
    rw [List.drop_append, List.drop_eq_nil_of_le, List.nil_append, List.drop_replicate]
    · congr 1
      rw [List.length_append]
      unfold xattrPaddingSize at hlen ⊢
      omega
    · rw [List.length_append]
      unfold xattrPaddingSize at hlen
      omega
  rw [← hend, ← List.drop_drop, List.append_assoc, List.take_append_drop, List.take_append_drop]

/-- The block is zeros if the entries end in the inline part. -/
theorem Packed.block_zero {b : Bytes} {i : Nat} (h : Packed b xattrHeaderSize es)
    (hlen : b.length = i + validXattrBlockSize + xattrPaddingSize)
    (hfit : xattrHeaderSize + (encodeAll es).length ≤ i) :
    (b.drop i).take validXattrBlockSize = List.replicate validXattrBlockSize 0 := by
  obtain ⟨pre, z, rfl, hpre, hz⟩ := h
  simp only [List.length_append, List.length_replicate] at hlen
  rw [List.drop_append, List.drop_eq_nil_of_le, List.nil_append, List.drop_replicate,
    List.take_replicate]
  · congr 1
    rw [List.length_append]
    unfold xattrPaddingSize at hlen
    omega
  · rw [List.length_append]
    omega

/-- What `write_all_xattrs` leaves in `i_addr[]`. -/
theorem Stores.storeInlinePart_of (h : Stores inode es) {env : XattrEnv} {b iAddr : Bytes}
    (hlen : inlineXattrBytes inode ≤ b.length)
    (hs : storeInlinePart env inode b = .ok iAddr) :
    iAddr.length = 4 * defAddrsPerInode ∧
      iAddr.drop (4 * (defAddrsPerInode - inode.inlineXattrSize)) =
        b.take (inlineXattrBytes inode) := by
  have hsize := h.size_le
  have haddrs := h.addrs
  have hlow : (inode.iAddr.take (4 * (defAddrsPerInode - inode.inlineXattrSize))).length =
      4 * (defAddrsPerInode - inode.inlineXattrSize) := by
    rw [List.length_take]
    omega
  unfold storeInlinePart at hs
  by_cases h0 : inlineXattrBytes inode = 0
  · rw [if_pos h0] at hs
    cases hs
    refine ⟨haddrs, ?_⟩
    rw [h0, List.take_zero]
    exact h.wellSized.inlineBytes_nil h0
  rw [if_neg h0] at hs
  cases hp : env.inodePage with
  | false =>
      rw [hp] at hs
      exact absurd hs (by simp)
  | true =>
      have hsrc : Splice.read b 0 (inlineXattrBytes inode) =
          some (b.take (inlineXattrBytes inode)) := by
        unfold Splice.read
        rw [if_pos (by omega), List.drop_zero]
      have hwrite : Splice.write inode.iAddr
          (4 * (defAddrsPerInode - inode.inlineXattrSize)) (b.take (inlineXattrBytes inode)) =
          some (inode.iAddr.take (4 * (defAddrsPerInode - inode.inlineXattrSize)) ++
            b.take (inlineXattrBytes inode)) := by
        conv => lhs; rw [← List.take_append_drop
          (4 * (defAddrsPerInode - inode.inlineXattrSize)) inode.iAddr]
        refine Splice.write_back hlow.symm ?_
        rw [List.length_take, Nat.min_eq_left hlen]
        exact h.wellSized.length_inline.symm
      rw [hp] at hs
      simp only [Bool.not_true, Bool.false_eq_true, if_false, h.wellSized.inlineXattrAddr_eq,
        access_some,
        ok_bind, hsrc, hwrite] at hs
      cases hs
      refine ⟨(Splice.length_write hwrite).trans haddrs, ?_⟩
      rw [List.drop_append, List.drop_eq_nil_of_le (by rw [hlow]), hlow, Nat.sub_self,
        List.drop_zero, List.nil_append]

/-- `write_all_xattrs` stores the list its buffer holds. -/
theorem Stores.writeAllXattrs_of (h : Stores inode es) {es' : List XattrEntry} {env : XattrEnv}
    {b : Bytes} {hsize : Nat} {inode' : XattrInode} (hb : Packed b xattrHeaderSize es')
    (hlen : b.length = inlineXattrBytes inode + validXattrBlockSize + xattrPaddingSize)
    (hhsize : hsize = xattrHeaderSize + (encodeAll es').length)
    (hnd : (es'.map XattrEntry.key).Nodup)
    (hw : writeAllXattrs env inode hsize b = .ok inode') :
    Stores inode' es' ∧ inode'.inlineXattrSize = inode.inlineXattrSize := by
  unfold writeAllXattrs at hw
  simp only at hw
  split at hw
  · cases hw
  cases hs : storeInlinePart env inode b with
  | error e =>
      rw [hs, error_bind] at hw
      cases hw
  | ok iAddr =>
      obtain ⟨haddrs, hinline⟩ := h.storeInlinePart_of (by omega) hs
      rw [hs, ok_bind] at hw
      split at hw
      · -- the block goes away
        rename_i _ hfit
        obtain ⟨-, hfit⟩ := hfit
        split at hw
        · cases hw
        cases hw
        refine ⟨⟨h.size_le, haddrs, by simp, hnd, ?_,
          fun _ => Or.inr (by rw [← hhsize]; exact hfit)⟩,
          rfl⟩
        have hsplit := hb.split hlen
        rw [hb.block_zero hlen (by omega)] at hsplit
        unfold area inlineBytes
        simp only [hinline, Option.getD_none]
        rwa [← hsplit]
      · split at hw
        · cases hw
        split at hw
        · cases hw
        have hblock : Splice.read b (inlineXattrBytes inode) validXattrBlockSize =
            some ((b.drop (inlineXattrBytes inode)).take validXattrBlockSize) := by
          unfold Splice.read
          rw [if_pos (by omega)]
        rw [hblock, access_some, ok_bind] at hw
        cases hw
        refine ⟨⟨h.size_le, haddrs, ?_, hnd, ?_, by simp⟩, rfl⟩
        · rintro blk hblk
          cases hblk
          rw [List.length_take, List.length_drop, hlen]
          omega
        · unfold area inlineBytes
          simp only [hinline, Option.getD_some]
          rw [← hb.split hlen]
          exact hb

/-- When nothing fails the write succeeds. -/
theorem Stores.writeAllXattrs_ok (h : Stores inode es) {b : Bytes}
    (hlen : b.length = inlineXattrBytes inode + validXattrBlockSize + xattrPaddingSize)
    (hsize : Nat) : ∃ inode', writeAllXattrs {} inode hsize b = .ok inode' := by
  obtain ⟨iAddr, hstore⟩ : ∃ iAddr, storeInlinePart {} inode b = .ok iAddr := by
    unfold storeInlinePart
    by_cases h0 : inlineXattrBytes inode = 0
    · exact ⟨_, if_pos h0⟩
    · have hread : Splice.read b 0 (inlineXattrBytes inode) =
          some (b.take (inlineXattrBytes inode)) := by
        unfold Splice.read
        rw [if_pos (by omega), List.drop_zero]
      have hroom : 4 * (defAddrsPerInode - inode.inlineXattrSize) +
          (b.take (inlineXattrBytes inode)).length ≤ inode.iAddr.length := by
        have := h.size_le
        rw [List.length_take, h.addrs]
        unfold inlineXattrBytes
        omega
      simp only [h0, if_false, Bool.not_true, Bool.false_eq_true, h.wellSized.inlineXattrAddr_eq,
        access_some, ok_bind, hread, Splice.write, if_pos hroom]
      exact ⟨_, rfl⟩
  have hblock : Splice.read b (inlineXattrBytes inode) validXattrBlockSize =
      some ((b.drop (inlineXattrBytes inode)).take validXattrBlockSize) := by
    unfold Splice.read
    rw [if_pos (by omega)]
  unfold writeAllXattrs
  simp only [Bool.not_true, Bool.false_eq_true, and_false, if_false, hstore, ok_bind, hblock,
    access_some]
  split <;> exact ⟨_, rfl⟩

/-! ## Setting an attribute -/

theorem xattrValueSame_eq {b : Bytes} {e : Nat} {x : XattrEntry} {r : List XattrEntry}
    (h : Packed b e (x :: r)) (v : Bytes) :
    xattrValueSame b e v = .ok (decide (x.value = v)) := by
  obtain ⟨pre, post, hb, he⟩ := h.cut
  unfold xattrValueSame
  rw [entryHead_of_read (read_head hb he), ok_bind]
  by_cases hl : x.value.length = v.length
  · simp only [hl, ne_eq, not_true_eq_false, if_false]
    rw [← hl, read_value hb he]
    rfl
  · simp only [ne_eq, hl, not_false_eq_true, if_true]
    rw [decide_eq_false fun heq => hl (by rw [heq])]
    rfl

/-- The space check, in `int` as the source has it and without the old entry. -/
theorem room_iff (room last oldsize newsize : Nat) (h : oldsize ≤ last) :
    ((room : Int) - (last : Nat) + (oldsize : Nat) < (newsize : Nat)) ↔
      room < last - oldsize + newsize := by
  omega

/-- What `__f2fs_setxattr` does once the area is read. -/
theorem setxattr_scan {b : Bytes} (hb : Packed b xattrHeaderSize es) {env : XattrEnv}
    (hread : readAllXattrs env inode = .ok b) (index : UInt8) (name : Bytes)
    (value : Option Bytes) (flags : XattrFlags) :
    ∃ b₁, Packed b₁ xattrHeaderSize (without (index, name) es) ∧ b₁.length = b.length ∧
      setxattr env inode index name value flags =
        if name.length > f2fsNameLen then .error .erange
        else if (value.getD []).length > maxValueLen inode then .error .e2big
        else if (fromKey (index, name) es ≠ [] && flags.create) = true then .error .eexist
        else if (!decide (fromKey (index, name) es ≠ []) && flags.replace) = true then
          .error .enodata
        else if value.isSome = true ∧ valueOf es (index, name) = value then .ok inode
        else if value.isSome = true ∧ minOffset inode <
            xattrHeaderSize + (encodeAll (without (index, name) es)).length +
              xattrAlign (xattrEntrySize + name.length + (value.getD []).length) then
          .error .e2big
        else storeNewEntry env inode b₁
          (xattrHeaderSize + (encodeAll (without (index, name) es)).length) index name value := by
  have hfind := hb.findXattr_eq (index, name)
  unfold entryOf at hfind
  have hsplit : Packed b xattrHeaderSize
      (before (index, name) es ++ fromKey (index, name) es) := by
    rwa [before_append_fromKey]
  have hhere := hsplit.skip
  have hlast := lastEntryFrom_eq hhere hhere.fuel
  rw [Nat.add_assoc, ← List.length_append, ← encodeAll_append, before_append_fromKey] at hlast
  rcases fromKey_cases (index, name) es with ⟨hf, hbefore⟩ | ⟨x, r, hf, hx, hes⟩
  · -- not found: nothing is dropped
    have hwithout : without (index, name) es = es := by
      rw [without, hf, hbefore, List.tail_nil, List.append_nil]
    have hne : valueOf es (index, name) = none := by
      refine valueOf_of_ne fun y hy => ?_
      rw [← hbefore] at hy
      exact key_ne_of_mem_before hy
    rw [hf] at hhere
    refine ⟨b, by rwa [hwithout], rfl, ?_⟩
    unfold setxattr
    rw [hread, hwithout, hf, hne]
    simp only [ok_bind, hfind, hhere.isLast_nil, hlast, alreadySet, oldEntrySize, dropOldEntry,
      Bool.not_true, Bool.false_and, Bool.false_eq_true, if_false]
    have hsame : ¬(value.isSome = true ∧ none = value) := by
      rintro ⟨hsome, rfl⟩
      exact absurd hsome (by simp)
    have hempty : decide (([] : List XattrEntry) ≠ []) = false := by simp
    rw [hempty, Bool.false_and, if_neg Bool.false_ne_true, if_neg hsame]
    have hroom := room_iff (minOffset inode) (xattrHeaderSize + (encodeAll es).length) 0
      (xattrAlign (xattrEntrySize + name.length + (value.getD []).length)) (Nat.zero_le _)
    rw [Nat.sub_zero] at hroom
    simp only [hroom, Bool.not_false, Bool.true_and]
  · -- found: the entry is dropped
    have hwithout : without (index, name) es = before (index, name) es ++ r := by
      rw [without, hf, List.tail_cons]
    have hne : ∀ y ∈ before (index, name) es, y.key ≠ (index, name) := fun y hy =>
      key_ne_of_mem_before hy
    rw [hf] at hhere
    rw [hwithout, hf]
    generalize before (index, name) es = l at *
    have hvalue : valueOf es (index, name) = some x.value := by
      rw [hes, ← hx]
      exact valueOf_middle r (by rwa [hx])
    have hnonempty : decide (x :: r ≠ []) = true := by simp
    have hlen : (encodeAll es).length = (encodeAll (l ++ r)).length + x.encode.length := by
      rw [hes]
      simp only [encodeAll_append, encodeAll_cons, List.length_append]
      omega
    obtain ⟨pre, z, hbuf, hpre, hz⟩ := hb
    obtain ⟨pre', post, hcut, hpre'⟩ := hhere.cut
    have hsize := entrySize_of_read (read_head hcut hpre')
    have hremove : removeEntry b (xattrHeaderSize + (encodeAll l).length)
        (xattrHeaderSize + (encodeAll es).length) =
        .ok (pre ++ encodeAll (l ++ r) ++ List.replicate (x.encode.length + z) 0,
          xattrHeaderSize + (encodeAll (l ++ r)).length) := by
      rw [hbuf, hes, removeEntry_eq (by rw [hpre])
        (by simp only [encodeAll_append, encodeAll_cons, List.length_append]; omega), ← hes, hlen]
      congr 2
      omega
    refine ⟨_, ⟨pre, x.encode.length + z, rfl, hpre, by omega⟩, ?_, ?_⟩
    · rw [hbuf]
      simp only [List.length_append, List.length_replicate, hlen]
      omega
    have hsame : alreadySet b (xattrHeaderSize + (encodeAll l).length) true value =
        .ok (decide (value.isSome = true ∧ valueOf es (index, name) = value)) := by
      rw [hvalue]
      cases value with
      | none => rfl
      | some v =>
          rw [alreadySet, xattrValueSame_eq hhere]
          simp
    have hroom := room_iff (minOffset inode) (xattrHeaderSize + (encodeAll es).length)
      x.encode.length (xattrAlign (xattrEntrySize + name.length + (value.getD []).length))
      (by omega)
    rw [show xattrHeaderSize + (encodeAll es).length - x.encode.length =
      xattrHeaderSize + (encodeAll (l ++ r)).length by omega] at hroom
    unfold setxattr
    rw [hread]
    simp only [ok_bind, hfind, hhere.isLast_cons, hlast, oldEntrySize, dropOldEntry, hsize, hremove,
      Bool.not_false, Bool.true_and, if_true, hnonempty, hsame, decide_eq_true_eq, hroom,
      Bool.not_true, Bool.false_and]

theorem Stores.readAllXattrs_of (h : Stores inode es) {env : XattrEnv} {b : Bytes}
    (hr : readAllXattrs env inode = .ok b) :
    Packed b xattrHeaderSize es ∧
      b.length = inlineXattrBytes inode + validXattrBlockSize + xattrPaddingSize := by
  obtain ⟨b', hb', hlen, heq⟩ := h.readAllXattrs_eq env
  rw [heq] at hr
  split at hr
  · cases hr
  split at hr
  · cases hr
  split at hr
  · cases hr
  cases hr
  exact ⟨hb', hlen⟩

theorem Stores.length_value_lt (h : Stores inode es) {n : Nat} (hn : n ≤ maxValueLen inode) :
    n < 2 ^ 16 := by
  have := h.size_le
  unfold maxValueLen minOffset xattrAlign inlineXattrBytes at hn
  unfold xattrHeaderSize xattrEntrySize validXattrBlockSize at hn
  unfold defAddrsPerInode at this
  omega

/-- The new entry fits, and a word of zeros is left behind it. -/
theorem writeEntry_room {es₁ : List XattrEntry} {b : Bytes}
    {x : XattrEntry} (hb : Packed b xattrHeaderSize es₁)
    (hlen : b.length = inlineXattrBytes inode + validXattrBlockSize + xattrPaddingSize)
    (hroom : xattrHeaderSize + (encodeAll es₁).length + x.encode.length ≤ minOffset inode) :
    ∃ b', writeEntry b (xattrHeaderSize + (encodeAll es₁).length) x.index x.name x.value =
        .ok b' ∧ Packed b' xattrHeaderSize (es₁ ++ [x]) ∧ b'.length = b.length := by
  have hoffset : minOffset inode = inlineXattrBytes inode + validXattrBlockSize := by
    unfold minOffset
    refine xattrAlign_of_mod ?_
    unfold inlineXattrBytes validXattrBlockSize
    omega
  obtain ⟨pre, z, rfl, hpre, hz⟩ := hb
  simp only [List.length_append, List.length_replicate] at hlen
  have hfit : x.encode.length + 4 ≤ z := by
    unfold xattrPaddingSize at hlen
    omega
  refine ⟨_, writeEntry_eq (by rw [hpre]) (by omega),
    ⟨pre, z - x.encode.length, rfl, hpre, by omega⟩, ?_⟩
  simp only [encodeAll_append, encodeAll_cons, encodeAll_nil, List.append_nil,
    List.length_append, List.length_replicate]
  omega

/-- The list with the new entry behind it. -/
theorem Stores.storeNewEntry_of (h : Stores inode es) {es₁ : List XattrEntry} {env : XattrEnv}
    {b : Bytes} {x : XattrEntry} {inode' : XattrInode} (hb : Packed b xattrHeaderSize es₁)
    (hlen : b.length = inlineXattrBytes inode + validXattrBlockSize + xattrPaddingSize)
    (hroom : xattrHeaderSize + (encodeAll es₁).length + x.encode.length ≤ minOffset inode)
    (hnd : (es₁.map XattrEntry.key).Nodup) (hkey : ∀ y ∈ es₁, y.key ≠ x.key)
    (hs : storeNewEntry env inode b (xattrHeaderSize + (encodeAll es₁).length) x.index x.name
      (some x.value) = .ok inode') :
    Stores inode' (es₁ ++ [x]) ∧ inode'.inlineXattrSize = inode.inlineXattrSize := by
  obtain ⟨b₂, hw, hb₂, hlen₂⟩ := writeEntry_room hb hlen hroom
  rw [storeNewEntry, hw, ok_bind] at hs
  refine h.writeAllXattrs_of hb₂ (hlen₂.trans hlen) ?_ ?_ hs
  · rw [encodeAll_append, List.length_append, ← Nat.add_assoc, encodeAll_cons, encodeAll_nil,
      List.append_nil, x.length_encode]
    rfl
  · rw [List.map_append, List.nodup_append]
    refine ⟨hnd, by simp, ?_⟩
    intro a ha c hc
    obtain ⟨y, hy, rfl⟩ := List.mem_map.mp ha
    rw [List.mem_singleton.mp hc]
    exact hkey y hy

/-- A successful set changes the map at its key, and keeps what is stored a list. -/
theorem Stores.setxattr_of (h : Stores inode es) {env : XattrEnv} {index : UInt8} {name : Bytes}
    {value : Option Bytes} {flags : XattrFlags} {inode' : XattrInode} (hindex : index ≠ 0)
    (hs : setxattr env inode index name value flags = .ok inode') :
    ∃ es', Stores inode' es' ∧ inode'.inlineXattrSize = inode.inlineXattrSize ∧
      valueOf es' = Function.update (valueOf es) (index, name) value := by
  obtain ⟨b, hr⟩ : ∃ b, readAllXattrs env inode = .ok b := by
    cases hr : readAllXattrs env inode with
    | ok b => exact ⟨b, rfl⟩
    | error e =>
        unfold setxattr at hs
        simp only [hr, error_bind] at hs
        split at hs
        · cases hs
        · split at hs <;> cases hs
  obtain ⟨hb, hlen⟩ := h.readAllXattrs_of hr
  obtain ⟨b₁, hb₁, hlen₁, heq⟩ := setxattr_scan hb hr index name value flags
  rw [heq] at hs
  have hnd : ((without (index, name) es).map XattrEntry.key).Nodup :=
    h.nodup.sublist (without_sublist _ _)
  split at hs
  · cases hs
  rename_i hname
  split at hs
  · cases hs
  rename_i hsize
  split at hs
  · cases hs
  split at hs
  · cases hs
  split at hs
  · -- already set
    rename_i hsame
    cases hs
    exact ⟨es, h, rfl, by rw [← hsame.2, Function.update_eq_self]⟩
  split at hs
  · cases hs
  rename_i hroom
  cases value with
  | none =>
      obtain ⟨hst, hsz⟩ := h.writeAllXattrs_of hb₁ (by omega) rfl hnd hs
      exact ⟨_, hst, hsz, valueOf_without h.nodup⟩
  | some v =>
      have hv : v.length ≤ maxValueLen inode := by simpa using hsize
      let x : XattrEntry := ⟨index, name, v, hindex, by omega, h.length_value_lt hv⟩
      have hkey : ∀ y ∈ without (index, name) es, y.key ≠ x.key :=
        key_ne_of_mem_without h.nodup
      have hfit : xattrHeaderSize + (encodeAll (without (index, name) es)).length +
          x.encode.length ≤ minOffset inode := by
        simp only [Option.isSome_some, true_and, not_lt, Option.getD_some] at hroom
        rw [x.length_encode]
        exact hroom
      obtain ⟨hst, hsz⟩ := h.storeNewEntry_of hb₁ (by omega) hfit hnd hkey hs
      refine ⟨_, hst, hsz, (valueOf_snoc hkey).trans ?_⟩
      rw [valueOf_without h.nodup]
      exact Function.update_idem _ _ _

end Area

end F2fs.Xattr

/-
  The block maps of all files, with what the functions that change them touch: the SIT,
  the pages that are dirty, the counts.

  A data page of a file has its address in a slot of a direct node, or of the inode.  A
  direct node may be missing; an address in it reads as `NULL_ADDR` and a new one is
  zeroed.  A block is what is written at its address, or what its dirty page holds; cached
  pages that are clean are not kept.  The extent cache answers as the block map does.

  `Volume.ledger` is the abstract side: which page owns which block.
-/
import F2fs.Lib.Ledger
import F2fs.Node.NodePath
import F2fs.Space.ValidCounts

namespace F2fs.Blocks

open F2fs.Node

inductive Errno where
  | eperm | enoent | eio | e2big | eagain | enomem | ebusy | exdev | einval | enospc | erofs
  | eopnotsupp | edquot | enotsupp
  deriving DecidableEq, Repr

/-! ## Where a page has its address -/

/-- The direct node with the address of page `p`, counted from the first; `none` is the inode. -/
def dnodeOf (api p : Nat) : Option Nat := if p < api then none else some ((p - api) / addrsPerBlock)

/-- `dn.ofs_in_node` after a lookup of page `p`. -/
def ofsInNode (api p : Nat) : Nat := if p < api then p else (p - api) % addrsPerBlock

/-- `ADDRS_PER_PAGE` of the node with the address of page `p`. -/
def addrsPerPage (api p : Nat) : Nat := if p < api then api else addrsPerBlock

theorem ofsInNode_lt (api p : Nat) : ofsInNode api p < addrsPerPage api p := by
  unfold ofsInNode addrsPerPage addrsPerBlock
  split <;> omega

/-- The slots of a node are those of pages in a row. -/
theorem dnodeOf_add {api p k : Nat} (h : ofsInNode api p + k < addrsPerPage api p) :
    dnodeOf api (p + k) = dnodeOf api p := by
  unfold ofsInNode addrsPerPage addrsPerBlock at h
  unfold dnodeOf addrsPerBlock
  by_cases hp : p < api
  · rw [if_pos hp, if_pos hp] at h
    rw [if_pos hp, if_pos h]
  · rw [if_neg hp, if_neg hp] at h
    rw [if_neg hp, if_neg (by omega), show (p + k - api) / 1018 = (p - api) / 1018 by omega]

theorem ofsInNode_add {api p k : Nat} (h : ofsInNode api p + k < addrsPerPage api p) :
    ofsInNode api (p + k) = ofsInNode api p + k ∧ addrsPerPage api (p + k) =
      addrsPerPage api p := by
  unfold ofsInNode addrsPerPage addrsPerBlock at *
  by_cases hp : p < api
  · rw [if_pos hp, if_pos hp] at h
    rw [if_pos hp, if_pos hp, if_pos h, if_pos h]
    exact ⟨rfl, rfl⟩
  · rw [if_neg hp, if_neg hp] at h
    rw [if_neg hp, if_neg hp, if_neg (by omega), if_neg (by omega)]
    exact ⟨by omega, rfl⟩

/-! ## The volume -/

variable {β : Type}

/-- The block maps, the SIT and the cached pages. -/
structure Volume (β : Type) where
  /-- `ADDRS_PER_INODE` -/
  addrsPerInode : Nat → Nat
  /-- which direct nodes of an inode exist -/
  dnodes : Nat → Nat → Bool
  /-- the address slots, by inode and page -/
  addr : Nat → Nat → Nat
  /-- `cur_valid_map` -/
  curValid : Nat → Bool
  /-- `ckpt_valid_map` -/
  ckptValid : Nat → Bool
  /-- the calls `update_sit_entry(sbi, addr, -1)`, the last one first -/
  invalidated : List Nat
  disk : Nat → β
  /-- a zeroed page -/
  zero : β
  /-- the dirty pages of an inode -/
  dirty : Nat → Nat → Option β
  counts : Space.SpaceState
  /-- `i_size` -/
  isize : Nat → Nat
  /-- the mount option `LFS` -/
  lfs : Bool

/-- An address of a block, neither `NULL_ADDR` nor `NEW_ADDR`. -/
def IsBlock (a : Nat) : Prop := a ≠ nullAddr ∧ a ≠ newAddr

instance (a : Nat) : Decidable (IsBlock a) := inferInstanceAs (Decidable (_ ∧ _))

/-- The block at an address, where there is one. -/
def blockOf (a : Nat) : Option Nat := if IsBlock a then some a else none

theorem blockOf_null : blockOf nullAddr = none := rfl

theorem blockOf_new : blockOf newAddr = none := rfl

theorem blockOf_eq_some {a b : Nat} : blockOf a = some b ↔ a = b ∧ IsBlock b := by
  unfold blockOf
  constructor
  · intro h
    split at h
    · rename_i ha
      obtain rfl := Option.some.inj h
      exact ⟨rfl, ha⟩
    · cases h
  · rintro ⟨rfl, hb⟩
    exact if_pos hb

theorem blockOf_of {a : Nat} (h : IsBlock a) : blockOf a = some a := if_pos h

theorem blockOf_eq_none {a : Nat} : blockOf a = none ↔ ¬IsBlock a := by
  unfold blockOf
  split <;> simp_all

namespace Volume

variable (v : Volume β) (ino p : Nat)

/-- The node with the address of page `p` exists. -/
def hasDnode : Bool :=
  match dnodeOf (v.addrsPerInode ino) p with
  | none => true
  | some d => v.dnodes ino d

/-- The address of page `p`. -/
def blockAddr : Nat := if v.hasDnode ino p then v.addr ino p else nullAddr

/-- `is_checkpointed_data`. -/
def isCheckpointedData (a : Nat) : Bool :=
  if a = newAddr ∨ a = nullAddr then true else v.ckptValid a

/-- `f2fs_update_data_blkaddr`. -/
def updateDataBlkaddr (a : Nat) : Volume β :=
  { v with addr := Function.update v.addr ino (Function.update (v.addr ino) p a) }

/-- `update_sit_entry(sbi, addr, -1)`. -/
def sitInvalidate (a : Nat) : Volume β :=
  { v with curValid := Function.update v.curValid a false, invalidated := a :: v.invalidated }

/-- `invalidate_blocks`. -/
def invalidateBlocks (a : Nat) : Volume β := if a = newAddr then v else v.sitInvalidate a

/-- `dec_valid_block_count` of one block. -/
def decValidBlockCount : Volume β := { v with counts := Space.decValidBlockCount v.counts ino 1 }

/-- `truncate_data_blocks_range` of one slot, with the node in hand. -/
def truncateDataBlock : Volume β :=
  if v.blockAddr ino p = nullAddr then v
  else ((v.updateDataBlkaddr ino p nullAddr).invalidateBlocks
    (v.blockAddr ino p)).decValidBlockCount ino

/-- The new node page of an allocating lookup. -/
def allocDnode : Volume β :=
  match dnodeOf (v.addrsPerInode ino) p with
  | none => v
  | some d =>
    if v.dnodes ino d then v
    else
      { v with
        dnodes := Function.update v.dnodes ino (Function.update (v.dnodes ino) d true)
        addr := Function.update v.addr ino fun q =>
          if dnodeOf (v.addrsPerInode ino) q = some d then nullAddr else v.addr ino q }

/-- `f2fs_i_size_write`. -/
def iSizeWrite (size : Nat) : Volume β := { v with isize := Function.update v.isize ino size }

/-- A page made dirty with this content. -/
def setPageDirty (c : β) : Volume β :=
  { v with dirty := Function.update v.dirty ino (Function.update (v.dirty ino) p (some c)) }

/-- What page `p` reads as; a page in front of `NEW_ADDR` or in a hole is zero. -/
def content : β :=
  match v.dirty ino p with
  | some c => c
  | none => if IsBlock (v.blockAddr ino p) then v.disk (v.blockAddr ino p) else v.zero

/-- `f2fs_replace_block`; the log is where it was after the call. -/
def replaceBlock (oldAddr newAddr : Nat) (recoverCurseg recoverNewaddr : Bool) : Volume β :=
  let v :=
    if !recoverCurseg || recoverNewaddr then
      { v with curValid := Function.update v.curValid newAddr true }
    else v
  (if IsBlock oldAddr then v.sitInvalidate oldAddr else v).updateDataBlkaddr ino p newAddr

end Volume

/-! ## Lookups -/

/-- What a lookup of a page ends with. -/
inductive Lookup where
  | found
  /-- `-ENOENT` with `dn.max_level` not 0 -/
  | absent
  | failed (e : Errno)
  deriving DecidableEq

/-- `get_dnode_of_data` as a reader calls it, where `fault` is the error of a node page on
    the path, if any.  `-ENOENT` as such an error is that of the inode page. -/
def Volume.getDnodeOfData (v : Volume β) (fault : Option Errno) (ino p : Nat) : Lookup :=
  match fault with
  | some e => .failed e
  | none => if v.hasDnode ino p then .found else .absent

/-- `get_dnode_of_data` with `ALLOC_NODE`. -/
def Volume.getDnodeAlloc (v : Volume β) (fault : Option Errno) (ino p : Nat) :
    Except Errno (Volume β) :=
  match fault with
  | some e => .error e
  | none => .ok (v.allocDnode ino p)

/-! ## What the changes do to the addresses -/

namespace Volume

variable {v : Volume β} {ino p i q a : Nat}

theorem blockAddr_of_hasDnode (h : v.hasDnode ino p = true) : v.blockAddr ino p = v.addr ino p :=
  if_pos h

theorem hasDnode_of_blockAddr (h : v.blockAddr ino p ≠ nullAddr) : v.hasDnode ino p = true := by
  by_contra hn
  exact h (if_neg hn)

/-- Pages with their address in one node. -/
theorem hasDnode_add {k : Nat}
    (h : ofsInNode (v.addrsPerInode ino) p + k < addrsPerPage (v.addrsPerInode ino) p) :
    v.hasDnode ino (p + k) = v.hasDnode ino p := by
  unfold hasDnode
  rw [dnodeOf_add h]

theorem addr_update_self : (v.updateDataBlkaddr ino p a).addr ino p = a := by
  change Function.update v.addr ino (Function.update (v.addr ino) p a) ino p = a
  rw [Function.update_self, Function.update_self]

theorem addr_update_ne (h : (i, q) ≠ (ino, p)) :
    (v.updateDataBlkaddr ino p a).addr i q = v.addr i q := by
  change Function.update v.addr ino (Function.update (v.addr ino) p a) i q = v.addr i q
  by_cases hi : i = ino
  · subst hi
    have hq : q ≠ p := fun e => h (by rw [e])
    rw [Function.update_self, Function.update_of_ne hq]
  · rw [Function.update_of_ne hi]

theorem blockAddr_update_self (h : v.hasDnode ino p = true) :
    (v.updateDataBlkaddr ino p a).blockAddr ino p = a :=
  (if_pos h).trans addr_update_self

theorem blockAddr_update_ne (h : (i, q) ≠ (ino, p)) :
    (v.updateDataBlkaddr ino p a).blockAddr i q = v.blockAddr i q := by
  unfold blockAddr
  rw [addr_update_ne h]
  rfl

@[simp] theorem addrsPerInode_invalidateBlocks :
    (v.invalidateBlocks a).addrsPerInode = v.addrsPerInode := by
  unfold invalidateBlocks
  split <;> rfl

@[simp] theorem addrsPerInode_truncate :
    (v.truncateDataBlock ino p).addrsPerInode = v.addrsPerInode := by
  unfold truncateDataBlock
  split
  · rfl
  · exact addrsPerInode_invalidateBlocks

@[simp] theorem blockAddr_invalidateBlocks : (v.invalidateBlocks a).blockAddr = v.blockAddr := by
  unfold invalidateBlocks
  split <;> rfl

@[simp] theorem hasDnode_invalidateBlocks : (v.invalidateBlocks a).hasDnode = v.hasDnode := by
  unfold invalidateBlocks
  split <;> rfl

theorem blockAddr_truncate_self : (v.truncateDataBlock ino p).blockAddr ino p = nullAddr := by
  unfold truncateDataBlock
  split
  · assumption
  · rename_i h
    change ((v.updateDataBlkaddr ino p nullAddr).invalidateBlocks _).blockAddr ino p = nullAddr
    rw [blockAddr_invalidateBlocks]
    exact blockAddr_update_self (hasDnode_of_blockAddr h)

theorem blockAddr_truncate_ne (h : (i, q) ≠ (ino, p)) :
    (v.truncateDataBlock ino p).blockAddr i q = v.blockAddr i q := by
  unfold truncateDataBlock
  split
  · rfl
  · change ((v.updateDataBlkaddr ino p nullAddr).invalidateBlocks _).blockAddr i q = v.blockAddr i q
    rw [blockAddr_invalidateBlocks]
    exact blockAddr_update_ne h

@[simp] theorem hasDnode_truncate : (v.truncateDataBlock ino p).hasDnode = v.hasDnode := by
  unfold truncateDataBlock
  split
  · rfl
  · exact hasDnode_invalidateBlocks

/-- A new node page is zeroed, as the missing one read. -/
@[simp] theorem blockAddr_allocDnode : (v.allocDnode ino p).blockAddr = v.blockAddr := by
  funext i q
  unfold allocDnode
  split
  · rfl
  · rename_i d hd
    split
    · rfl
    · rename_i hdn
      unfold blockAddr hasDnode
      by_cases hi : i = ino
      · subst hi
        cases hq : dnodeOf (v.addrsPerInode i) q with
        | none => simp [hq]
        | some d' =>
            by_cases hd' : d' = d
            · subst hd'
              simp [hq, hdn]
            · simp [hq, hd']
      · simp [Function.update_of_ne hi]

theorem hasDnode_allocDnode : (v.allocDnode ino p).hasDnode ino p = true := by
  unfold allocDnode
  split
  · rename_i hd
    unfold hasDnode
    rw [hd]
  · rename_i d hd
    split
    · rename_i hdn
      unfold hasDnode
      rw [hd]
      exact hdn
    · unfold hasDnode
      simp [hd]

/-! ## The ledger of the blocks -/

/-- The pages and the blocks held outside of the block maps. -/
abbrev Place (ι : Type) := (Nat × Nat) ⊕ ι

variable {ι : Type} {held : ι → Option Nat} {k : ι}

/-- Who owns which block, some of them being held in `held`. -/
def ledger (v : Volume β) (held : ι → Option Nat) : Ledger (Place ι) Nat where
  own := Sum.elim (fun page => blockOf (v.blockAddr page.1 page.2)) held
  live a := v.curValid a = true

@[simp] theorem ledger_page : (v.ledger held).own (.inl (i, q)) = blockOf (v.blockAddr i q) := rfl

@[simp] theorem ledger_held : (v.ledger held).own (.inr k) = held k := rfl

/-- Changes between `NULL_ADDR` and `NEW_ADDR` are none to the ledger. -/
theorem ledger_congr {v' : Volume β}
    (h : ∀ i q, blockOf (v'.blockAddr i q) = blockOf (v.blockAddr i q))
    (hvalid : v'.curValid = v.curValid) : v'.ledger held = v.ledger held := by
  apply Ledger.ext
  · rintro (⟨i, q⟩ | k)
    · exact h i q
    · rfl
  · intro a
    unfold ledger
    rw [hvalid]

theorem ledger_allocDnode : (v.allocDnode ino p).ledger held = v.ledger held := by
  apply ledger_congr
  · intro i q
    rw [blockAddr_allocDnode]
  · unfold allocDnode
    split
    · rfl
    · split <;> rfl

/-- A block is reserved for a page in a hole. -/
theorem ledger_reserve (h : v.blockAddr ino p = nullAddr) (hd : v.hasDnode ino p = true) :
    (v.updateDataBlkaddr ino p newAddr).ledger held = v.ledger held := by
  apply ledger_congr
  · intro i q
    by_cases hpage : (i, q) = (ino, p)
    · obtain ⟨rfl, rfl⟩ := Prod.mk.inj hpage
      rw [blockAddr_update_self hd, h, blockOf_new, blockOf_null]
    · rw [blockAddr_update_ne hpage]
  · rfl

variable [DecidableEq ι]

theorem ledger_truncate : (v.truncateDataBlock ino p).ledger held =
    (v.ledger held).release (.inl (ino, p)) := by
  by_cases hblock : IsBlock (v.blockAddr ino p)
  · have hown : ∀ i q, blockOf ((v.truncateDataBlock ino p).blockAddr i q) =
        ((v.ledger held).release (.inl (ino, p))).own (.inl (i, q)) := by
      intro i q
      by_cases hpage : (i, q) = (ino, p)
      · obtain ⟨rfl, rfl⟩ := Prod.mk.inj hpage
        rw [blockAddr_truncate_self, Ledger.release_own_self, blockOf_null]
      · rw [blockAddr_truncate_ne hpage, Ledger.release_own_ne (by simpa using hpage), ledger_page]
    apply Ledger.ext
    · rintro (⟨i, q⟩ | k)
      · exact hown i q
      · rw [Ledger.release_own_ne (by simp)]
        rfl
    · intro a
      have hvalid : (v.truncateDataBlock ino p).curValid =
          Function.update v.curValid (v.blockAddr ino p) false := by
        rw [truncateDataBlock, if_neg hblock.1, invalidateBlocks, if_neg hblock.2]
        rfl
      change (v.truncateDataBlock ino p).curValid a = true ↔
        v.curValid a = true ∧ blockOf (v.blockAddr ino p) ≠ some a
      rw [hvalid, blockOf_of hblock]
      by_cases ha : a = v.blockAddr ino p
      · simp [ha]
      · simp [ha, Ne.symm ha]
  · have hnone : (v.ledger held).own (.inl (ino, p)) = none := blockOf_eq_none.mpr hblock
    rw [Ledger.release_empty hnone]
    apply ledger_congr
    · intro i q
      by_cases hpage : (i, q) = (ino, p)
      · obtain ⟨rfl, rfl⟩ := Prod.mk.inj hpage
        rw [blockAddr_truncate_self, blockOf_null, blockOf_eq_none.mpr hblock]
      · rw [blockAddr_truncate_ne hpage]
    · unfold truncateDataBlock
      split
      · rfl
      · rename_i h
        have hnew : v.blockAddr ino p = newAddr := by
          by_contra hn
          exact hblock ⟨h, hn⟩
        rw [invalidateBlocks, if_pos hnew]
        rfl

/-- A block goes from its page into `held`. -/
theorem ledger_hold (ha : IsBlock (v.blockAddr ino p)) :
    (v.updateDataBlkaddr ino p nullAddr).ledger
    (Function.update held k (some (v.blockAddr ino p))) =
      (v.ledger held).transfer (.inl (ino, p)) (.inr k) := by
  apply Ledger.ext
  · rintro (⟨i, q⟩ | j)
    · by_cases hpage : (i, q) = (ino, p)
      · obtain ⟨rfl, rfl⟩ := Prod.mk.inj hpage
        rw [ledger_page, blockAddr_update_self (hasDnode_of_blockAddr ha.1), blockOf_null,
          Ledger.transfer_own_source (by simp)]
      · rw [ledger_page, blockAddr_update_ne hpage,
          Ledger.transfer_own_ne (by simpa using hpage) (by simp), ledger_page]
    · by_cases hj : j = k
      · subst hj
        rw [ledger_held, Function.update_self, Ledger.transfer_own_target, ledger_page,
          blockOf_of ha]
      · rw [ledger_held, Function.update_of_ne hj,
          Ledger.transfer_own_ne (by simp) (by simpa using hj), ledger_held]
  · exact fun _ => Iff.rfl

/-- A held block goes to a page. -/
theorem ledger_map (hd : v.hasDnode ino p = true) (hk : held k = blockOf a) :
    (v.updateDataBlkaddr ino p a).ledger (Function.update held k none) =
      (v.ledger held).transfer (.inr k) (.inl (ino, p)) := by
  apply Ledger.ext
  · rintro (⟨i, q⟩ | j)
    · by_cases hpage : (i, q) = (ino, p)
      · obtain ⟨rfl, rfl⟩ := Prod.mk.inj hpage
        rw [ledger_page, blockAddr_update_self hd, Ledger.transfer_own_target, ledger_held, hk]
      · rw [ledger_page, blockAddr_update_ne hpage,
          Ledger.transfer_own_ne (by simp) (by simpa using hpage), ledger_page]
    · by_cases hj : j = k
      · subst hj
        rw [ledger_held, Function.update_self, Ledger.transfer_own_source (by simp)]
      · rw [ledger_held, Function.update_of_ne hj,
          Ledger.transfer_own_ne (by simpa using hj) (by simp), ledger_held]
  · exact fun _ => Iff.rfl

/-- A held block is given back. -/
theorem ledger_drop (hk : held k = some a) (ha : IsBlock a) :
    (v.invalidateBlocks a).ledger (Function.update held k none) =
      (v.ledger held).release (.inr k) := by
  apply Ledger.ext
  · rintro (⟨i, q⟩ | j)
    · rw [ledger_page, blockAddr_invalidateBlocks, Ledger.release_own_ne (by simp), ledger_page]
    · by_cases hj : j = k
      · subst hj
        rw [ledger_held, Function.update_self, Ledger.release_own_self]
      · rw [ledger_held, Function.update_of_ne hj, Ledger.release_own_ne (by simpa using hj),
          ledger_held]
  · intro b
    have hvalid : (v.invalidateBlocks a).curValid = Function.update v.curValid a false := by
      rw [invalidateBlocks, if_neg ha.2]
      rfl
    change (v.invalidateBlocks a).curValid b = true ↔ v.curValid b = true ∧ held k ≠ some b
    rw [hvalid, hk]
    by_cases hb : b = a
    · simp [hb]
    · simp [hb, Ne.symm hb]

end Volume

end F2fs.Blocks

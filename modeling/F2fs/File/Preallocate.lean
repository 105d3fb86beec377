/-
  Preallocation: `f2fs_map_blocks` with `F2FS_GET_BLOCK_PRE_AIO`, `reserve_new_blocks` and
  `expand_inode_data`.

  The blocks of a request are taken in batches, one for each direct node.  In a batch the
  slots are scanned for `NULL_ADDR`; then that many blocks are reserved at once, and as many
  of these slots as were granted become `NEW_ADDR`, in their order.  `Reach` says how far the
  first holes of a batch reach, `preDnodes_cases` how a batch ends.

  `f2fs_balance_fs` between two batches moves blocks at most and is left out.
-/
import F2fs.File.DnodeAlloc
import F2fs.File.DnodeLookup

namespace F2fs.File

open F2fs.Node F2fs.Truncate

/-! ## `reserve_new_blocks` -/

section

variable (layout : InodeLayout)

/-- The loop of `reserve_new_blocks` with `count` blocks to go, `slots` before the end of the
    page; it returns `ofs_in_node`. -/
def fillSlots (page : DataPage) : Nat → Nat → Index → Nat → Index × Nat
  | _, 0, s, ofs => (s, ofs)
  | 0, _ + 1, s, ofs => (s, ofs)
  | slots + 1, count + 1, s, ofs =>
    if dataAddr layout s page ofs = nullAddr then
      fillSlots page slots count (setDataBlkaddr layout s page ofs newAddr) (ofs + 1)
    else fillSlots page slots (count + 1) s (ofs + 1)

variable (env : DnodeEnv)

/-- `reserve_new_blocks`, with the `ofs_in_node` it leaves and the count it was granted. -/
def reserveNewBlocks (s : FileState) (page : DataPage) (ofs count : Nat) :
    Except AllocError (Nat × Nat) × FileState :=
  if count = 0 then (.ok (ofs, 0), s)
  else if env.noAlloc then (.error .eperm, s)
  else
    match Space.incValidBlockCount (env.others s.space) s.ino env.caller env.quotaGrants
        (UInt64.ofNat count) with
    | (.error e, space) => (.error (.ofSpace e), { s with space := space })
    | (.ok granted, space) =>
      let (index, last) :=
        fillSlots layout page (addrsPerPage layout page - ofs) granted.toNat s.index ofs
      (.ok (last, granted.toNat), { s with index := index, space := space })

/-! ## `f2fs_map_blocks` -/

/-- The local variables of a batch, and `F2FS_MAP_NEW` in `m_flags`. -/
structure Batch where
  ofsInNode : Nat
  prealloc : Nat
  lastOfsInNode : Nat
  isNew : Bool

/-- A block of the batch is passed. -/
def Batch.pass (w : Batch) (blkaddr : Nat) : Batch where
  ofsInNode := w.ofsInNode + 1
  prealloc := if blkaddr = nullAddr then w.prealloc + 1 else w.prealloc
  lastOfsInNode := if blkaddr = nullAddr then w.ofsInNode else w.lastOfsInNode
  isNew := w.isNew || decide (blkaddr = newAddr ∨ blkaddr = nullAddr)

theorem Batch.pass_prealloc (w : Batch) (blkaddr : Nat) : (w.pass blkaddr).prealloc =
    w.prealloc + if blkaddr = nullAddr then 1 else 0 := by
  unfold Batch.pass
  split <;> rfl

theorem Batch.pass_lastOfsInNode (w : Batch) (blkaddr : Nat) :
    (w.pass blkaddr).lastOfsInNode =
      if blkaddr = nullAddr then w.ofsInNode else w.lastOfsInNode := rfl

/-- `next_block`, with `n` blocks of the request to go. -/
def nextBlocks (s : Index) (page : DataPage) : Nat → Batch → Option AllocError × Batch
  | 0, w => (none, w)
  | n + 1, w =>
    if w.ofsInNode = addrsPerPage layout page then (none, w)
    else
      let blkaddr := dataAddr layout s page w.ofsInNode
      if (blkaddr = newAddr ∨ blkaddr = nullAddr) ∧ env.cpError w.ofsInNode = true then
        (some .eio, w)
      else nextBlocks s page n (w.pass blkaddr)

/-- The walk between two batches: `pgofs`, `m_len`, `F2FS_MAP_NEW` and what was granted so
    far. -/
structure PreWalk where
  state : FileState
  pgofs : Nat
  mLen : Nat
  isNew : Bool
  granted : Nat

/-- What `f2fs_map_blocks` returns and leaves. -/
structure PreResult where
  err : Option AllocError
  state : FileState
  mLen : Nat
  isNew : Bool
  /-- all that `inc_valid_block_count` granted -/
  granted : Nat

def PreWalk.stop (w : PreWalk) (err : Option AllocError) : PreResult :=
  ⟨err, w.state, w.mLen, w.isNew, w.granted⟩

/-- The error of a lookup; a missing node is none. -/
def lookupErr (e : AllocError) : Option AllocError :=
  if e = .lookup .enoent then none else some e

/-- What the walk has after a batch of `passed` blocks. -/
def PreWalk.reserved (w : PreWalk) (s : FileState) (b : Batch) (ofs last granted : Nat) :
    PreWalk where
  state := s
  pgofs := w.pgofs + (b.ofsInNode - ofs)
  mLen := w.mLen + (last - ofs)
  isNew := b.isNew
  granted := w.granted + granted

/-- A batch from `next_block` on, with `n` blocks of the request to go; `next` is
    `next_dnode`. -/
def preBatch (n : Nat) (next : Nat → PreWalk → PreResult) (w : PreWalk) (page : DataPage)
    (ofs : Nat) : PreResult :=
  match nextBlocks layout env w.state.index page n ⟨ofs, 0, ofs, w.isNew⟩ with
  | (some e, b) => { w with isNew := b.isNew }.stop (some e)
  | (none, b) =>
    match reserveNewBlocks layout env w.state page ofs b.prealloc with
    | (.error e, s) => { w with isNew := b.isNew, state := s }.stop (some e)
    | (.ok (last, granted), s) =>
      let w := w.reserved s b ofs last granted
      if b.prealloc ≠ 0 ∧ last ≠ b.lastOfsInNode + 1 then w.stop (some .enospc)
      else if n ≤ b.ofsInNode - ofs then w.stop none
      else next (n - (b.ofsInNode - ofs)) w

/-- The walk from the result of `get_dnode_of_data` on. -/
def preFound (n : Nat) (next : Nat → PreWalk → PreResult) (w : PreWalk) :
    Except AllocError (DataPage × Nat) × FileState → PreResult
  | (.error e, s) => { w with state := s }.stop (lookupErr e)
  | (.ok (page, ofs), s) => preBatch layout env n next { w with state := s } page ofs

/-- `next_dnode` with `n` blocks of the request to go; each lookup meets an environment of its
    own.  The first argument bounds the number of batches. -/
def preDnodes : Nat → (Nat → DnodeEnv) → Nat → PreWalk → PreResult
  | 0, _, _, w => w.stop none
  | fuel + 1, env, n, w =>
    preFound layout (env 0) n (preDnodes fuel fun i => env (i + 1)) w
      (getDnodeOfDataAlloc (env 0) layout w.state w.pgofs)

/-- `f2fs_map_blocks` with `F2FS_GET_BLOCK_PRE_AIO`; no batch is empty. -/
def preallocBlocks (env : Nat → DnodeEnv) (s : FileState) (lblk len : UInt32) : PreResult :=
  if len = 0 then ⟨none, s, 0, false, 0⟩
  else preDnodes layout len.toNat env len.toNat ⟨s, lblk.toNat, 0, false, 0⟩

/-! ## `expand_inode_data` -/

/-- The arguments of a call; `vfs_fallocate` refuses a range that ends beyond `s_maxbytes`. -/
structure FallocCall where
  offset : Nat
  len : Nat
  fits : offset + len ≤ maxFileBlocks * 4096
  /-- `FALLOC_FL_KEEP_SIZE` -/
  keepSize : Bool

namespace FallocCall

variable (call : FallocCall)

def pgEnd : Nat := (call.offset + call.len) / 4096

def offEnd : Nat := (call.offset + call.len) % 4096

/-- `m_lblk` of the request. -/
def mLblk : UInt32 := UInt32.ofNat (call.offset / 4096)

/-- `m_len` of the request. -/
def mLen : UInt32 :=
  let len := UInt32.ofNat (call.pgEnd - call.mLblk.toNat)
  if call.offEnd ≠ 0 then len + 1 else len

end FallocCall

/-- What fails before blocks are mapped: `inode_newsize_ok`, `f2fs_convert_inline_inode`. -/
structure ExpandEnv where
  newsize : Option AllocError := none
  convert : Option AllocError := none
  dnodes : Nat → DnodeEnv

/-- What `expand_inode_data` returns and leaves. -/
structure ExpandResult where
  err : Option AllocError
  state : FileState
  iSize : Nat
  keepIsize : Bool

/-- `new_size`, from what `f2fs_map_blocks` has returned; `none` is the return without any
    block. -/
def newSize (call : FallocCall) (r : PreResult) : Option Nat :=
  if r.err = none then some (call.pgEnd * 4096 + call.offEnd)
  else if r.mLen = 0 then none
  else
    let lastOff := (call.mLblk + UInt32.ofNat r.mLen - 1).toNat
    some (if lastOff = call.pgEnd then call.offset + call.len else (lastOff + 1) * 4096)

/-- `expand_inode_data` behind `f2fs_map_blocks`, on a file of size `iSize`. -/
def expandMapped (iSize : Nat) (call : FallocCall) (r : PreResult) : ExpandResult :=
  match newSize call r with
  | none => ⟨r.err, r.state, iSize, false⟩
  | some size =>
    if size > iSize then
      if call.keepSize then ⟨r.err, r.state, iSize, true⟩ else ⟨r.err, r.state, size, false⟩
    else ⟨r.err, r.state, iSize, false⟩

/-- `expand_inode_data`; the blocks are those behind the conversion of inline data. -/
def expandInodeData (env : ExpandEnv) (s : FileState) (iSize : Nat) (call : FallocCall) :
    ExpandResult :=
  match env.newsize, env.convert with
  | some e, _ => ⟨some e, s, iSize, false⟩
  | none, some e => ⟨some e, s, iSize, false⟩
  | none, none =>
    expandMapped iSize call (preallocBlocks layout env.dnodes s call.mLblk call.mLen)

end

/-! ## Holes -/

/-- The blocks of a range that have no address. -/
def holes (layout : InodeLayout) (s : Index) (b n : Nat) : List Nat :=
  (List.range' b n).filter fun c => blockAddr layout s c = nullAddr

/-- The first `g` holes from block `b` on reach to block `b + j`. -/
structure Reach (layout : InodeLayout) (s : Index) (b j g : Nat) : Prop where
  count : (holes layout s b j).length = g
  last : ∀ i, j = i + 1 → blockAddr layout s (b + i) = nullAddr

/-- The holes among the blocks `b` to `b + j` have become `NEW_ADDR`. -/
structure Filled (layout : InodeLayout) (s s' : Index) (b j : Nat) : Prop where
  tree : IndexTree s'
  addr : ∀ c, c < 2 ^ 63 → blockAddr layout s' c =
    if c ∈ holes layout s b j then newAddr else blockAddr layout s c

section

variable {layout : InodeLayout} {s s' s₁ : Index} {b c g g' i j j' m n : Nat}

theorem mem_holes : c ∈ holes layout s b n ↔
    (b ≤ c ∧ c < b + n) ∧ blockAddr layout s c = nullAddr := by
  unfold holes
  rw [List.mem_filter, List.mem_range'_1, decide_eq_true_eq]

theorem holes_add (b m n : Nat) :
    holes layout s b (m + n) = holes layout s b m ++ holes layout s (b + m) n := by
  unfold holes
  rw [← List.range'_append_1, List.filter_append]

theorem holes_length_le (layout : InodeLayout) (s : Index) (b n : Nat) :
    (holes layout s b n).length ≤ n := by
  unfold holes
  exact (List.length_filter_le _ _).trans (Nat.le_of_eq List.length_range')

theorem holes_congr (h : ∀ c, b ≤ c → c < b + n → blockAddr layout s' c = blockAddr layout s c) :
    holes layout s' b n = holes layout s b n := by
  unfold holes
  refine List.filter_congr fun c hc => ?_
  rw [List.mem_range'_1] at hc
  rw [h c hc.1 hc.2]

theorem holes_one (b : Nat) : holes layout s b 1 =
    if blockAddr layout s b = nullAddr then [b] else [] := by
  simp [holes, List.filter_cons]

/-- A hole in front. -/
theorem Reach.hole (h : Reach layout s (b + 1) j g) (hb : blockAddr layout s b = nullAddr) :
    Reach layout s b (j + 1) (g + 1) := by
  refine ⟨?_, fun i hi => ?_⟩
  · rw [Nat.add_comm j, holes_add, holes_one, if_pos hb, List.length_append, h.count,
      List.length_singleton, Nat.add_comm]
  · obtain rfl : j = i := Nat.succ.inj hi
    cases j with
    | zero => exact hb
    | succ i =>
      rw [← Nat.add_assoc, Nat.add_right_comm]
      exact h.last i rfl

/-- A block with an address in front. -/
theorem Reach.block (h : Reach layout s (b + 1) j g) (hb : blockAddr layout s b ≠ nullAddr)
    (hj : 0 < j) : Reach layout s b (j + 1) g := by
  refine ⟨?_, fun i hi => ?_⟩
  · rw [Nat.add_comm j, holes_add, holes_one, if_neg hb, List.nil_append, h.count]
  · obtain rfl : j = i := Nat.succ.inj hi
    obtain ⟨i, rfl⟩ : ∃ i, j = i + 1 := ⟨j - 1, by omega⟩
    rw [← Nat.add_assoc, Nat.add_right_comm]
    exact h.last i rfl

theorem Reach.none (b : Nat) : Reach layout s b 0 0 := ⟨rfl, nofun⟩

/-- The last hole is behind every shorter range. -/
theorem Reach.lt (h : Reach layout s b j g) (hlt : m < j) :
    (holes layout s b m).length < g := by
  obtain ⟨i, rfl⟩ : ∃ i, j = i + 1 := ⟨j - 1, by omega⟩
  have hcount := h.count
  rw [holes_add, holes_one, if_pos (h.last i rfl), List.length_append,
    List.length_singleton] at hcount
  rw [show i = m + (i - m) by omega, holes_add, List.length_append] at hcount
  omega

theorem Reach.inj (h : Reach layout s b j g) (h' : Reach layout s b j' g) : j = j' := by
  rcases Nat.lt_trichotomy j j' with hlt | heq | hlt
  · exact absurd (h'.lt hlt) (by rw [h.count]; exact Nat.lt_irrefl g)
  · exact heq
  · exact absurd (h.lt hlt) (by rw [h'.count]; exact Nat.lt_irrefl g)

theorem Reach.lt_of_lt (h : Reach layout s b j g) (h' : Reach layout s b j' g') (hlt : g < g') :
    j < j' := by
  by_contra hge
  rcases Nat.lt_or_eq_of_le (Nat.not_lt.mp hge) with hgt | rfl
  · have := h.lt hgt
    rw [h'.count] at this
    omega
  · have hcount := h.count
    rw [h'.count] at hcount
    omega

theorem Reach.zero_iff (h : Reach layout s b j g) : j = 0 ↔ g = 0 := by
  constructor
  · rintro rfl
    exact h.count.symm
  · rintro rfl
    exact h.inj (.none b)

theorem Reach.congr (h : Reach layout s b j g)
    (hs : ∀ c, b ≤ c → c < b + j → blockAddr layout s' c = blockAddr layout s c) :
    Reach layout s' b j g :=
  ⟨by rw [holes_congr hs, h.count], fun i hi => by rw [hs _ (by omega) (by omega), h.last i hi]⟩

/-- No hole is behind the last one. -/
theorem Reach.holes_eq (h : Reach layout s b j (holes layout s b m).length) (hj : j ≤ m) :
    holes layout s b m = holes layout s b j := by
  have hcount := h.count
  rw [show m = j + (m - j) by omega, holes_add] at hcount ⊢
  rw [List.length_append] at hcount
  rw [List.eq_nil_of_length_eq_zero (by omega : (holes layout s (b + j) (m - j)).length = 0),
    List.append_nil]

theorem Filled.refl (ht : IndexTree s) (b : Nat) : Filled layout s s b 0 :=
  ⟨ht, fun c _ => by rw [if_neg (by rw [mem_holes]; omega)]⟩

theorem Filled.of_same (h' : Filled layout s₁ s' b j) (h : SameBlocks layout s s₁)
    (hlt : b + j ≤ 2 ^ 63) : Filled layout s s' b j := by
  have hholes : holes layout s₁ b j = holes layout s b j :=
    holes_congr fun c _ hc => h.addr c (by omega)
  refine ⟨h'.tree, fun c hc => ?_⟩
  rw [h'.addr c hc, hholes, h.addr c hc]

/-- A hole in front, which is filled first. -/
theorem AddrSet.filled (h : AddrSet layout s s₁ b newAddr) (h' : Filled layout s₁ s' (b + 1) j)
    (hb : blockAddr layout s b = nullAddr) (hlt : b + 1 + j ≤ 2 ^ 63) :
    Filled layout s s' b (j + 1) := by
  have hholes : holes layout s₁ (b + 1) j = holes layout s (b + 1) j :=
    holes_congr fun c hc _ => by rw [h.addr c (by omega), if_neg (by omega)]
  refine ⟨h'.tree, fun c hc => ?_⟩
  rw [h'.addr c hc, hholes, h.addr c hc, Nat.add_comm j, holes_add, holes_one, if_pos hb]
  simp only [List.mem_append, List.mem_singleton]
  by_cases hcb : c = b
  · rw [if_pos (Or.inl hcb), if_pos hcb, ite_self]
  · rw [if_neg hcb]
    simp only [hcb, false_or]

theorem Filled.block (h : Filled layout s s' (b + 1) j) (hb : blockAddr layout s b ≠ nullAddr) :
    Filled layout s s' b (j + 1) := by
  refine ⟨h.tree, fun c hc => ?_⟩
  rw [h.addr c hc, Nat.add_comm j, holes_add, holes_one, if_neg hb, List.nil_append]

end

/-! ## One batch -/

section

variable {layout : InodeLayout} {env : DnodeEnv} {s s' : FileState} {page : DataPage}
  {ofs b n : Nat}

/-- The slots that the loop of `reserve_new_blocks` fills. -/
theorem fillSlots_spec {slots : Nat} : ∀ {count ofs b : Nat} {s : Index}, IndexTree s →
    (∀ i, i < slots → HoldsBlock layout s page (ofs + i) (b + i)) → b + slots ≤ 2 ^ 63 →
    count ≤ (holes layout s b slots).length →
    ∃ j, j ≤ slots ∧ (fillSlots layout page slots count s ofs).2 = ofs + j ∧
      Reach layout s b j count ∧
      Filled layout s (fillSlots layout page slots count s ofs).1 b j := by
  induction slots with
  | zero =>
    intro count ofs b s ht _ _ hcount
    obtain rfl : count = 0 := Nat.le_zero.mp hcount
    exact ⟨0, Nat.le_refl 0, rfl, .none b, .refl ht b⟩
  | succ slots ih =>
    intro count ofs b s ht hpage hlt hcount
    cases count with
    | zero => exact ⟨0, Nat.zero_le _, rfl, .none b, .refl ht b⟩
    | succ count =>
      have hfirst := hpage 0 (Nat.succ_pos _)
      rw [Nat.add_zero, Nat.add_zero] at hfirst
      have hrest : ∀ i, i < slots → HoldsBlock layout s page (ofs + 1 + i) (b + 1 + i) := by
        intro i hi
        rw [Nat.add_assoc, Nat.add_assoc, Nat.add_comm 1]
        exact hpage (i + 1) (Nat.succ_lt_succ hi)
      rw [Nat.add_comm slots, holes_add, holes_one, List.length_append] at hcount
      rw [fillSlots, ← hfirst.addr ht]
      by_cases hnull : blockAddr layout s b = nullAddr
      · rw [if_pos hnull, List.length_singleton] at hcount
        rw [if_pos hnull]
        have hset := hfirst.set ht newAddr
        have hsame : ∀ m, m ≤ slots → ∀ c, b + 1 ≤ c → c < b + 1 + m →
            blockAddr layout (setDataBlkaddr layout s page ofs newAddr) c =
              blockAddr layout s c := fun m hm c hc hcm => by
          rw [hset.addr c (by omega), if_neg (by omega)]
        have hcount' : count ≤ (holes layout (setDataBlkaddr layout s page ofs newAddr) (b + 1)
            slots).length := by
          rw [holes_congr (hsame slots (Nat.le_refl _))]
          omega
        obtain ⟨j, hj, hofs, hreach, hfilled⟩ := ih hset.tree
          (fun i hi => hset.holds _ _ _ (hrest i hi)) (by omega) hcount'
        refine ⟨j + 1, Nat.succ_le_succ hj, by rw [hofs]; omega, ?_, ?_⟩
        · exact (hreach.congr fun c hc hcj => (hsame j hj c hc hcj).symm).hole hnull
        · exact hset.filled hfilled hnull (by omega)
      · rw [if_neg hnull, List.length_nil, Nat.zero_add] at hcount
        rw [if_neg hnull]
        obtain ⟨j, hj, hofs, hreach, hfilled⟩ := ih ht hrest (by omega) hcount
        have hpos : 0 < j := by
          by_contra h0
          have := hreach.zero_iff.mp (by omega)
          omega
        exact ⟨j + 1, Nat.succ_le_succ hj, by rw [hofs]; omega, hreach.block hnull hpos,
          hfilled.block hnull⟩

/-- The loop of `reserve_new_blocks` changes no link. -/
theorem fillSlots_sameNodes (layout : InodeLayout) {slots : Nat} : ∀ {count ofs : Nat} {s : Index},
    IndexTree s → IsDataPage s page →
    SameNodes s (fillSlots layout page slots count s ofs).1 := by
  induction slots with
  | zero =>
    intro count ofs s _ _
    cases count <;> exact .refl s
  | succ slots ih =>
    intro count ofs s ht hpage
    cases count with
    | zero => exact .refl s
    | succ count =>
      rw [fillSlots]
      split
      · have hset := setDataBlkaddr_sameNodes layout ht hpage ofs newAddr
        exact hset.trans (ih (hset.tree ht) (hset.isDataPage hpage))
      · exact ih ht hpage

/-- The scan of a batch that ends without an error. -/
theorem nextBlocks_spec {s : Index} (ht : IndexTree s) : ∀ {n b : Nat} {w w' : Batch},
    (∀ i, w.ofsInNode + i < addrsPerPage layout page →
      HoldsBlock layout s page (w.ofsInNode + i) (b + i)) →
    w.ofsInNode ≤ addrsPerPage layout page →
    nextBlocks layout env s page n w = (none, w') →
    ∃ m, m = min n (addrsPerPage layout page - w.ofsInNode) ∧
      w'.ofsInNode = w.ofsInNode + m ∧
      w'.prealloc = w.prealloc + (holes layout s b m).length ∧
      ∃ j, j ≤ m ∧ Reach layout s b j (holes layout s b m).length ∧
        w'.lastOfsInNode = if j = 0 then w.lastOfsInNode else w.ofsInNode + j - 1 := by
  intro n
  induction n with
  | zero =>
    intro b w w' _ _ h
    cases h
    exact ⟨0, (Nat.zero_min _).symm, rfl, rfl, 0, Nat.le_refl 0, .none b, rfl⟩
  | succ n ih =>
    intro b w w' hpage hle h
    rw [nextBlocks] at h
    by_cases hend : w.ofsInNode = addrsPerPage layout page
    · rw [if_pos hend] at h
      cases h
      refine ⟨0, ?_, rfl, rfl, 0, Nat.le_refl 0, .none b, rfl⟩
      rw [hend, Nat.sub_self, Nat.min_zero]
    rw [if_neg hend] at h
    have haddr := (hpage 0 (by omega)).addr ht
    rw [Nat.add_zero, Nat.add_zero] at haddr
    simp only [← haddr] at h
    split at h
    · cases h
    obtain ⟨m, hm, hofs, hprealloc, j, hj, hreach, hlast⟩ := ih (b := b + 1)
      (w := w.pass (blockAddr layout s b)) (fun i hi => by
        have hnext := hpage (i + 1) (by
          show w.ofsInNode + (i + 1) < _
          rw [Nat.add_comm i, ← Nat.add_assoc]
          exact hi)
        rw [Nat.add_comm i, ← Nat.add_assoc, ← Nat.add_assoc] at hnext
        exact hnext) (by
        show w.ofsInNode + 1 ≤ _
        omega) h
    have hofs' : (w.pass (blockAddr layout s b)).ofsInNode = w.ofsInNode + 1 := rfl
    rw [hofs'] at hm hofs hlast
    have hcount : (holes layout s b (m + 1)).length =
        (if blockAddr layout s b = nullAddr then 1 else 0) + (holes layout s (b + 1) m).length := by
      rw [Nat.add_comm m, holes_add, holes_one, List.length_append]
      split <;> rfl
    refine ⟨m + 1, by omega, by omega, ?_, ?_⟩
    · rw [hprealloc, hcount, Batch.pass_prealloc, Nat.add_assoc]
    · rw [hcount]
      rw [Batch.pass_lastOfsInNode] at hlast
      by_cases hnull : blockAddr layout s b = nullAddr
      · rw [if_pos hnull] at hlast ⊢
        refine ⟨j + 1, Nat.succ_le_succ hj, by rw [Nat.add_comm 1]; exact hreach.hole hnull, ?_⟩
        rw [hlast, if_neg (Nat.succ_ne_zero j)]
        split <;> omega
      · rw [if_neg hnull] at hlast ⊢
        rw [Nat.zero_add]
        by_cases hj0 : j = 0
        · subst hj0
          rw [hreach.zero_iff.mp rfl]
          exact ⟨0, Nat.zero_le _, .none b, by rw [hlast, if_pos rfl, if_pos rfl]⟩
        · refine ⟨j + 1, Nat.succ_le_succ hj, hreach.block hnull (Nat.pos_of_ne_zero hj0), ?_⟩
          rw [hlast, if_neg hj0, if_neg (Nat.succ_ne_zero j)]
          omega

/-- What `inc_valid_block_count` grants of a count that is not zero. -/
theorem incValidBlockCount_granted {t t' : Space.SpaceState} {ino : Nat} {caller : Space.Caller}
    {quotaGrants : Bool} {count g : UInt64} (h0 : count ≠ 0)
    (h : Space.incValidBlockCount t ino caller quotaGrants count = (.ok g, t')) :
    g ≠ 0 ∧ g ≤ count := by
  cases quotaGrants with
  | false => cases h
  | true =>
    by_cases hfit : Space.raisedTotal t count > Space.availUserBlockCount t.sbi (some ino) caller
    · by_cases hdiff : count ≤ Space.excess t ino caller count
      · obtain ⟨t₁, hrun, -⟩ := Space.incValidBlockCount_none hfit hdiff
        rw [hrun] at h
        cases h
      · rw [UInt64.not_le] at hdiff
        obtain ⟨t₁, hrun, -⟩ := Space.incValidBlockCount_part hfit hdiff
        rw [hrun] at h
        cases h
        have hlt := UInt64.lt_iff_toNat_lt.mp hdiff
        have hsub := UInt64.toNat_sub_of_le _ _ (UInt64.le_of_lt hdiff)
        refine ⟨fun hz => ?_, UInt64.le_iff_toNat_le.mpr (by omega)⟩
        rw [hz, UInt64.toNat_zero] at hsub
        omega
    · obtain ⟨t₁, hrun, -⟩ := Space.incValidBlockCount_full hfit
      rw [hrun] at h
      cases h
      exact ⟨h0, UInt64.le_refl _⟩

/-- `reserve_new_blocks` that fails changes counts at most. -/
theorem reserveNewBlocks_error {count : Nat} {e : AllocError}
    (h : reserveNewBlocks layout env s page ofs count = (.error e, s')) : s'.index = s.index := by
  unfold reserveNewBlocks at h
  split at h
  · cases h
  split at h
  · cases h
    rfl
  split at h
  · cases h
    rfl
  · cases h

/-- `reserve_new_blocks` changes no link. -/
theorem reserveNewBlocks_sameNodes (ht : IndexTree s.index) (hpage : IsDataPage s.index page)
    {count : Nat} {res : Except AllocError (Nat × Nat)}
    (h : reserveNewBlocks layout env s page ofs count = (res, s')) :
    SameNodes s.index s'.index := by
  cases res with
  | error e =>
    rw [reserveNewBlocks_error h]
    exact .refl s.index
  | ok r =>
    unfold reserveNewBlocks at h
    split at h
    · cases h
      exact .refl s.index
    split at h
    · cases h
    split at h
    · cases h
    · cases h
      exact fillSlots_sameNodes layout ht hpage

/-- `reserve_new_blocks` in a batch of `m` blocks with `count` holes. -/
theorem reserveNewBlocks_ok (ht : IndexTree s.index)
    (hpage : HoldsBlock layout s.index page ofs b) {m count last g : Nat}
    (hm : m ≤ addrsPerPage layout page - ofs) (hcount : count = (holes layout s.index b m).length)
    (h : reserveNewBlocks layout env s page ofs count = (.ok (last, g), s')) :
    g ≤ count ∧ ∃ j, last = ofs + j ∧ j ≤ m ∧ Reach layout s.index b j g ∧
      Filled layout s.index s'.index b j := by
  have hofs := hpage.ofs_lt
  have hlen := holes_length_le layout s.index b m
  have hmax := hpage.lt
  have hapi := layout.api_le
  have hblocks : maxFileBlocks = 1057052516 := rfl
  unfold defAddrsPerInode at hapi
  have hsize : addrsPerPage layout page ≤ 1018 := by
    cases page with
    | inode => exact hapi.trans (by decide)
    | node nid => exact Nat.le_refl _
  unfold reserveNewBlocks at h
  by_cases h0 : count = 0
  · rw [if_pos h0] at h
    cases h
    exact ⟨Nat.zero_le _, 0, rfl, Nat.zero_le _, .none b, .refl ht b⟩
  rw [if_neg h0] at h
  split at h
  · cases h
  split at h
  · cases h
  rename_i granted space hrun
  have hword : (UInt64.ofNat count).toNat = count :=
    UInt64.toNat_ofNat_of_lt' (by
      have hmax : UInt64.size = 2 ^ 64 := rfl
      omega)
  obtain ⟨-, hle⟩ := incValidBlockCount_granted (fun hz => h0 (by
    rw [← hword, hz, UInt64.toNat_zero])) hrun
  rw [UInt64.le_iff_toNat_le, hword] at hle
  -- the holes that are granted lie in the batch
  have hmore : granted.toNat ≤
      (holes layout s.index b (addrsPerPage layout page - ofs)).length := by
    rw [show addrsPerPage layout page - ofs = m + (addrsPerPage layout page - ofs - m) by omega,
      holes_add, List.length_append]
    omega
  obtain ⟨j, -, hlast, hreach, hfilled⟩ := fillSlots_spec (b := b) ht
    (fun i hi => hpage.add (j := i) (by omega)) (by omega) hmore
  cases h
  refine ⟨hle, j, hlast, ?_, hreach, hfilled⟩
  by_contra hgt
  have hlt := hreach.lt (Nat.not_le.mp hgt)
  omega

end

/-! ## How a batch ends -/

/-- The blocks from `b` to the end of its direct node. -/
def dnodeRest (layout : InodeLayout) (b : Nat) : Nat :=
  if b < layout.addrsPerInode then layout.addrsPerInode - b
  else addrsPerBlock - (b - layout.addrsPerInode) % addrsPerBlock

section

variable {layout : InodeLayout} {env : Nat → DnodeEnv} {s : Index} {page : DataPage}
  {ofs b fuel i m n : Nat} {w : PreWalk}

theorem HoldsBlock.dnodeRest_eq (h : HoldsBlock layout s page ofs b) :
    dnodeRest layout b = addrsPerPage layout page - ofs := by
  cases page with
  | inode =>
    obtain ⟨hlt, rfl⟩ := h
    exact if_pos hlt
  | node nid =>
    obtain ⟨k, r, -, -, ho, rfl, -⟩ := h
    have hmod : (blockOf layout k r ofs - layout.addrsPerInode) % addrsPerBlock = ofs := by
      unfold blockOf addrsPerBlock
      unfold addrsPerBlock at ho
      omega
    have hge : ¬blockOf layout k r ofs < layout.addrsPerInode := by
      unfold blockOf
      omega
    rw [dnodeRest, if_neg hge, hmod]
    rfl

theorem dnodeRest_pos (layout : InodeLayout) (b : Nat) : 0 < dnodeRest layout b := by
  unfold dnodeRest addrsPerBlock
  split <;> omega

/-- The direct node behind begins with the next batch. -/
theorem firstInDnode_add_rest (layout : InodeLayout) (b : Nat) :
    FirstInDnode layout (b + dnodeRest layout b) := by
  unfold FirstInDnode dnodeRest addrsPerBlock
  split <;> omega

theorem not_firstInDnode (h0 : 0 < i) (hi : i < dnodeRest layout b) :
    ¬FirstInDnode layout (b + i) := by
  unfold FirstInDnode addrsPerBlock
  unfold dnodeRest addrsPerBlock at hi
  split at hi <;> omega

/-- A walk that stops with what it had before the batch. -/
structure BatchFailed (layout : InodeLayout) (w : PreWalk) (r : PreResult) : Prop where
  err : r.err ≠ none
  blocks : SameBlocks layout w.state.index r.state.index
  mLen : r.mLen = w.mLen
  granted : r.granted = w.granted

/-- The walk `w'` behind a batch in which `g` holes were filled, the last of them in front of
    block `pgofs + j`. -/
structure BatchFilled (layout : InodeLayout) (w w' : PreWalk) (m j g : Nat) : Prop where
  reach : Reach layout w.state.index w.pgofs j g
  filled : Filled layout w.state.index w'.state.index w.pgofs j
  le : j ≤ m
  pgofs : w'.pgofs = w.pgofs + m
  mLen : w'.mLen = w.mLen + j
  granted : w'.granted = w.granted + g

/-- What follows a batch of `m` blocks with `p` holes of which `g` were filled. -/
def batchRest (layout : InodeLayout) (fuel : Nat) (env : Nat → DnodeEnv) (n m p g : Nat)
    (w : PreWalk) : PreResult :=
  if g < p then w.stop (some .enospc)
  else if n ≤ m then w.stop none
  else preDnodes layout fuel (fun i => env (i + 1)) (n - m) w

/-- A batch that gets `g` blocks, behind a lookup that found the page of its first block. -/
theorem preBatch_reserved {env : DnodeEnv} {b : Batch} {last g : Nat} {s' : FileState}
    (ht : IndexTree w.state.index)
    (hpage : HoldsBlock layout w.state.index page ofs w.pgofs)
    (hm : m = min n (dnodeRest layout w.pgofs))
    (hscan : nextBlocks layout env w.state.index page n ⟨ofs, 0, ofs, w.isNew⟩ = (none, b))
    (hrun : reserveNewBlocks layout env w.state page ofs b.prealloc = (.ok (last, g), s')) :
    b.prealloc = (holes layout w.state.index w.pgofs m).length ∧ g ≤ b.prealloc ∧
      ∃ j w', BatchFilled layout w w' m j g ∧ ∀ next, preBatch layout env n next w page ofs =
        if g < b.prealloc then w'.stop (some .enospc)
        else if n ≤ m then w'.stop none
        else next (n - m) w' := by
  have hofs := hpage.ofs_lt
  have hrest := hpage.dnodeRest_eq
  obtain ⟨m', hm', hpassed, hprealloc, j₀, hj₀, hreach₀, hlast₀⟩ := nextBlocks_spec ht
    (b := w.pgofs) (fun i hi => hpage.add hi) (Nat.le_of_lt hofs) hscan
  simp only [Nat.zero_add] at hpassed hprealloc hlast₀ hm'
  rw [← hrest, ← hm] at hm'
  subst hm'
  obtain ⟨hle, j, rfl, hjm, hreach, hfilled⟩ := reserveNewBlocks_ok ht hpage (by omega)
    hprealloc hrun
  refine ⟨hprealloc, hle, j, w.reserved s' b ofs (ofs + j) g,
    ⟨hreach, hfilled, hjm, ?_, ?_, rfl⟩, ?_⟩
  · show w.pgofs + (b.ofsInNode - ofs) = _
    omega
  · show w.mLen + (ofs + j - ofs) = _
    omega
  intro next
  have hpass : b.ofsInNode - ofs = m' := by omega
  rw [preBatch, hscan]
  simp only [hrun, hpass]
  rw [← hprealloc] at hreach₀
  -- the last slot touched is the last hole exactly if all holes were granted
  have hiff : (b.prealloc ≠ 0 ∧ ofs + j ≠ b.lastOfsInNode + 1) ↔ g < b.prealloc := by
    constructor
    · rintro ⟨h0, hne⟩
      by_contra hge
      obtain rfl : g = b.prealloc := by omega
      obtain rfl := hreach.inj hreach₀
      have hj0 : j ≠ 0 := fun hz => h0 (hreach.zero_iff.mp hz)
      rw [if_neg hj0] at hlast₀
      omega
    · intro hlt
      have hjj := hreach.lt_of_lt hreach₀ hlt
      rw [if_neg (by omega)] at hlast₀
      omega
  simp only [hiff]

/-- A batch behind a lookup that found the page of its first block. -/
theorem preBatch_cases (env : DnodeEnv) (next : Nat → PreWalk → PreResult)
    (ht : IndexTree w.state.index) (hpage : HoldsBlock layout w.state.index page ofs w.pgofs)
    (hm : m = min n (dnodeRest layout w.pgofs)) :
    BatchFailed layout w (preBatch layout env n next w page ofs) ∨
    ∃ j g w', BatchFilled layout w w' m j g ∧
      g ≤ (holes layout w.state.index w.pgofs m).length ∧
      preBatch layout env n next w page ofs =
        if g < (holes layout w.state.index w.pgofs m).length then w'.stop (some .enospc)
        else if n ≤ m then w'.stop none
        else next (n - m) w' := by
  cases hscan : nextBlocks layout env w.state.index page n ⟨ofs, 0, ofs, w.isNew⟩ with
  | mk e b =>
    cases e with
    | some e =>
      rw [preBatch, hscan]
      exact Or.inl ⟨nofun, .refl ht, rfl, rfl⟩
    | none =>
      cases hrun : reserveNewBlocks layout env w.state page ofs b.prealloc with
      | mk res s' =>
        cases res with
        | error e =>
          rw [preBatch, hscan]
          simp only [hrun]
          have hsame : s'.index = w.state.index := reserveNewBlocks_error hrun
          refine Or.inl ⟨nofun, ?_, rfl, rfl⟩
          show SameBlocks layout w.state.index s'.index
          rw [hsame]
          exact .refl ht
        | ok r =>
          obtain ⟨hprealloc, hle, j, w', hfilled, heq⟩ :=
            preBatch_reserved ht hpage hm hscan hrun
          have heq := heq next
          rw [hprealloc] at hle heq
          exact Or.inr ⟨j, r.2, w', hfilled, hle, heq⟩

/-- What a lookup leaves of the blocks that a walk looks at. -/
theorem AllocKept.blocks_eq {env : DnodeEnv} {k : Nat} {s s' : FileState}
    (h : AllocKept layout env k s s') (hlt : b + n ≤ 2 ^ 63) :
    ∀ c, b ≤ c → c < b + n → blockAddr layout s'.index c = blockAddr layout s.index c :=
  fun c _ hc => h.blocks.addr c (by omega)

/-- A batch after a lookup, seen from before the lookup. -/
theorem BatchFilled.of_found {w' : PreWalk} {s : FileState} {j g : Nat}
    (h : BatchFilled layout { w with state := s } w' m j g)
    (hs : SameBlocks layout w.state.index s.index) (hlt : w.pgofs + m ≤ 2 ^ 63) :
    BatchFilled layout w w' m j g := by
  have hj : j ≤ m := h.le
  refine ⟨?_, ?_, hj, h.pgofs, h.mLen, h.granted⟩
  · refine h.reach.congr fun c _ hc => ?_
    have hc : c < w.pgofs + j := hc
    exact (hs.addr c (by omega)).symm
  · refine h.filled.of_same hs ?_
    show w.pgofs + j ≤ 2 ^ 63
    omega

/-- How the walk goes on from a lookup. -/
theorem preDnodes_cases (layout : InodeLayout) (fuel : Nat) (env : Nat → DnodeEnv)
    (ht : IndexTree w.state.index) (hlt : w.pgofs + n ≤ 2 ^ 62)
    (hm : m = min n (dnodeRest layout w.pgofs)) :
    BatchFailed layout w (preDnodes layout (fuel + 1) env n w) ∨
    ∃ j g w', BatchFilled layout w w' m j g ∧
      g ≤ (holes layout w.state.index w.pgofs m).length ∧
      preDnodes layout (fuel + 1) env n w =
        batchRest layout fuel env n m (holes layout w.state.index w.pgofs m).length g w' := by
  rw [preDnodes]
  cases hfind : getDnodeOfDataAlloc (env 0) layout w.state w.pgofs with
  | mk res s =>
    obtain ⟨hkept, hfound, hno⟩ := getDnodeOfDataAlloc_spec ht (by omega) hfind
    cases res with
    | error e =>
      have herr : lookupErr e = some e := if_neg fun hc => hno (congrArg _ hc)
      refine Or.inl ⟨?_, hkept.blocks, rfl, rfl⟩
      show lookupErr e ≠ none
      rw [herr]
      nofun
    | ok found =>
      obtain ⟨page, ofs⟩ := found
      have hholes : holes layout s.index w.pgofs m = holes layout w.state.index w.pgofs m :=
        holes_congr (hkept.blocks_eq (by omega))
      obtain hfail | ⟨j, g, w', hfilled, hle, hrun⟩ := preBatch_cases (env 0)
        (preDnodes layout fuel fun i => env (i + 1)) (w := { w with state := s }) (n := n)
        hkept.blocks.tree (hfound page ofs rfl) hm
      · exact Or.inl ⟨hfail.err, hkept.blocks.trans hfail.blocks, hfail.mLen, hfail.granted⟩
      · rw [hholes] at hle hrun
        exact Or.inr ⟨j, g, w', hfilled.of_found hkept.blocks (by omega), hle, hrun⟩

end

end F2fs.File

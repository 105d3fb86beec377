/-
  `__exchange_data_block` with `__read_out_blkaddrs`, `__clone_blkaddrs` and
  `__roll_back_blkaddrs`.

  A range is exchanged in chunks.  The addresses of a chunk are read out into an array; an
  address the last checkpoint does not know is taken off its page and flagged.  A flagged
  address is then written at the destination and its flag cleared; the other blocks are
  copied and cut off.  When a chunk fails the flagged addresses go back.

  The arrays are functions: behind a chunk's last entry they hold what memory holds there.
  `Faults` says which allocations, lookups and reads fail, by page.
-/
import F2fs.Blocks.BlockMap

namespace F2fs.Blocks

open F2fs.Node

variable {β : Type}

/-! ## What may fail -/

structure Faults where
  /-- `f2fs_kvzalloc` has no memory for the arrays of the chunk from this page on -/
  kvzalloc : Nat → Bool
  /-- the memory behind the arrays of a chunk -/
  behind : Nat → Nat × Bool
  /-- the lookup of `__read_out_blkaddrs` -/
  readOut : Nat → Option Errno
  /-- the lookup of `__clone_blkaddrs` -/
  clone : Nat → Option Errno
  /-- `get_lock_data_page` -/
  lockPage : Nat → Option Errno
  /-- `get_new_data_page`, before the block is reserved -/
  newPage : Nat → Option Errno
  /-- `FI_NO_ALLOC`, by inode -/
  noAlloc : Nat → Bool
  caller : Space.Caller
  quota : Nat → Bool
  /-- `get_new_data_page`, reading a page that has a block -/
  newRead : Nat → Option Errno
  /-- the lookup of `truncate_hole` -/
  hole : Nat → Option Errno
  /-- the lookup of `__roll_back_blkaddrs` -/
  rollBack : Nat → Option Errno

/-- A volume with the arrays `src_blkaddr` and `do_replace` of a chunk. -/
structure Work (β : Type) where
  vol : Volume β
  blkaddr : Nat → Nat
  doReplace : Nat → Bool

/-- The arrays as `f2fs_kvzalloc` returns them. -/
def Volume.kvzalloc (v : Volume β) (f : Faults) (olen : Nat) : Work β where
  vol := v
  blkaddr i := if i < olen then 0 else (f.behind i).1
  doReplace i := if i < olen then false else (f.behind i).2

/-! ## `__read_out_blkaddrs` -/

section

variable (f : Faults) (ino : Nat)

/-- The entries of one node, `n` of them from entry `i` on. -/
def readEntries (off : Nat) : Nat → Nat → Work β → Option Errno × Work β
  | 0, _, w => (none, w)
  | n + 1, i, w =>
    let a := w.vol.blockAddr ino (off + i)
    let w := { w with blkaddr := Function.update w.blkaddr i a }
    if w.vol.isCheckpointedData a then readEntries off n (i + 1) w
    else if w.vol.lfs then (some .enotsupp, w)
    else
      -- do not invalidate this block address
      readEntries off n (i + 1)
        { w with
          vol := w.vol.updateDataBlkaddr ino (off + i) nullAddr
          doReplace := Function.update w.doReplace i true }

/-- The loop over the nodes from entry `i` on; a round reads at least one entry. -/
def readOutRounds (off len : Nat) : Nat → Nat → Work β → Option Errno × Work β
  | 0, _, w => (none, w)
  | rounds + 1, i, w =>
    if i < len then
      let api := w.vol.addrsPerInode ino
      match w.vol.getDnodeOfData (f.readOut (off + i)) ino (off + i) with
      | .failed e => (some e, w)
      | .absent =>
        let done := min (addrsPerBlock - ofsInNode api (off + i)) (len - i)
        readOutRounds off len rounds (i + done) w
      | .found =>
        let done := min (addrsPerPage api (off + i) - ofsInNode api (off + i)) (len - i)
        match readEntries ino off done i w with
        | (some e, w) => (some e, w)
        | (none, w) => readOutRounds off len rounds (i + done) w
    else (none, w)

/-- `__read_out_blkaddrs`. -/
def readOutBlkaddrs (off len : Nat) (w : Work β) : Option Errno × Work β :=
  readOutRounds f ino off len len 0 w

end

/-! ## `__roll_back_blkaddrs` -/

section

variable (f : Faults) (ino : Nat)

/-- The body of the loop. -/
def rollBackEntry (off : Nat) (w : Work β) (i : Nat) : Work β :=
  if !w.doReplace i then w
  else
    match w.vol.getDnodeOfData (f.rollBack (off + i)) ino (off + i) with
    | .found => { w with vol := w.vol.updateDataBlkaddr ino (off + i) (w.blkaddr i) }
    | _ => { w with vol := (w.vol.decValidBlockCount ino).invalidateBlocks (w.blkaddr i) }

/-- A length as an `int`, in a loop that counts up to it. -/
def intLen (len : Nat) : Nat := (int32 len).toNat

/-- The entries of the arrays that `__roll_back_blkaddrs` looks at; its length is an `int`. -/
def rollBackIndices (len : Nat) : List Nat := List.range (intLen len)

/-- `__roll_back_blkaddrs`. -/
def rollBackBlkaddrs (off len : Nat) (w : Work β) : Work β :=
  (rollBackIndices len).foldl (rollBackEntry f ino off) w

end

/-! ## `__clone_blkaddrs` -/

/-- `reserve_new_block`, for a page in a hole. -/
def Volume.reserveNewBlock (f : Faults) (v : Volume β) (ino p : Nat) : Option Errno × Volume β :=
  if f.noAlloc ino then (some .eperm, v)
  else
    match Space.incValidBlockCount v.counts ino f.caller (f.quota p) 1 with
    | (.error e, counts) =>
      (some (match e with | .quota => .edquot | .enospc => .enospc), { v with counts := counts })
    | (.ok _, counts) => (none, { v with counts := counts }.updateDataBlkaddr ino p newAddr)

/-- `get_new_data_page` with `new_i_size`; the caller fills the page. -/
def Volume.getNewDataPage (f : Faults) (v : Volume β) (ino p : Nat) : Option Errno × Volume β :=
  match v.getDnodeAlloc (f.newPage p) ino p with
  | .error e => (some e, v)
  | .ok v =>
    match if v.blockAddr ino p = nullAddr then v.reserveNewBlock f ino p else (none, v) with
    | (some e, v) => (some e, v)
    | (none, v) =>
      match if v.blockAddr ino p = newAddr then none else f.newRead p with
      | some e => (some e, v)
      | none =>
        (none,
          if v.isize ino < (p + 1) * pageSize then v.iSizeWrite ino ((p + 1) * pageSize) else v)

/-- `get_lock_data_page`: the content of a page that has a block. -/
def Volume.getLockDataPage (f : Faults) (v : Volume β) (ino p : Nat) : Except Errno β :=
  match f.lockPage p with
  | some e => .error e
  | none => if v.blockAddr ino p = nullAddr then .error .enoent else .ok (v.content ino p)

/-- `truncate_hole` of one page; a missing node is a hole already. -/
def Volume.truncateHole (f : Faults) (v : Volume β) (ino p : Nat) : Option Errno × Volume β :=
  match v.getDnodeOfData (f.hole p) ino p with
  | .found => (none, v.truncateDataBlock ino p)
  | .absent | .failed .enoent => (none, v)
  | .failed e => (some e, v)

/-- `f2fs_i_blocks_write` of one block, off the source and on to the destination. -/
def Volume.moveIBlocks (v : Volume β) (srcIno dstIno : Nat) : Volume β :=
  { v with counts := (v.counts.onInode srcIno (·.free 1)).onInode dstIno fun b =>
      { b with iBlocks := b.iBlocks + 1, quotaUsed := b.quotaUsed + 1 } }

/-- The inodes of an exchange, and whether holes are moved too. -/
structure Exchange where
  srcIno : Nat
  dstIno : Nat
  full : Bool

section

variable (f : Faults) (x : Exchange) (src dst : Nat)

/-- The body of the inner loop, with the node of page `dst + i` in hand. -/
def replaceEntry (i : Nat) (w : Work β) : Work β :=
  let w := { w with vol := w.vol.truncateDataBlock x.dstIno (dst + i) }
  let w :=
    if w.doReplace i then
      -- the truncation left `dn.data_blkaddr` at `NULL_ADDR`
      { w with
        vol := (w.vol.moveIBlocks x.srcIno x.dstIno).replaceBlock x.dstIno (dst + i) nullAddr
          (w.blkaddr i) true false
        doReplace := Function.update w.doReplace i false }
    else w
  if w.vol.isize x.dstIno < (dst + i + 1) * pageSize then
    { w with vol := w.vol.iSizeWrite x.dstIno ((dst + i + 1) * pageSize) }
  else w

/-- The other branch: copy the page, cut the source off. -/
def copyEntry (i : Nat) (v : Volume β) : Option Errno × Volume β :=
  match v.getLockDataPage f x.srcIno (src + i) with
  | .error e => (some e, v)
  | .ok content =>
    match v.getNewDataPage f x.dstIno (dst + i) with
    | (some e, v) => (some e, v)
    | (none, v) =>
      (v.setPageDirty x.dstIno (dst + i) content).truncateHole f x.srcIno (src + i)

/-- The two loops from entry `i` on: the outer one, or the inner one with `ilen` entries left
    in the node.  The result has the entry at which they stop. -/
def cloneRounds (len : Nat) : Nat → Nat → Option Nat → Work β → Option Errno × Nat × Work β
  | 0, i, _, w => (none, i, w)
  | rounds + 1, i, none, w =>
    if i < len then
      if w.blkaddr i = nullAddr ∧ !x.full then cloneRounds len rounds (i + 1) none w
      else if w.doReplace i || w.blkaddr i = nullAddr then
        match w.vol.getDnodeAlloc (f.clone (dst + i)) x.dstIno (dst + i) with
        | .error e => (some e, i, w)
        | .ok vol =>
          let api := vol.addrsPerInode x.dstIno
          cloneRounds len rounds i
            (some (min (addrsPerPage api (dst + i) - ofsInNode api (dst + i)) (len - i)))
            { w with vol := vol }
      else
        match copyEntry f x src dst i w.vol with
        | (some e, vol) => (some e, i, { w with vol := vol })
        | (none, vol) => cloneRounds len rounds (i + 1) none { w with vol := vol }
    else (none, i, w)
  | rounds + 1, i, some ilen, w =>
    let w := replaceEntry x dst i w
    if ilen - 1 ≠ 0 ∧ (w.doReplace (i + 1) ∨ w.blkaddr (i + 1) = nullAddr) then
      cloneRounds len rounds (i + 1) (some (ilen - 1)) w
    else cloneRounds len rounds (i + 1) none w

/-- `__clone_blkaddrs`; an entry takes at most two rounds. -/
def cloneBlkaddrs (len : Nat) (w : Work β) : Option Errno × Nat × Work β :=
  cloneRounds f x src dst len (2 * len + 1) 0 none w

end

/-! ## `__exchange_data_block` -/

/-- A chunk that fails, as the label `roll_back` finds it. -/
structure FailedChunk (β : Type) where
  err : Errno
  src : Nat
  dst : Nat
  /-- what is left of the range -/
  len : Nat
  /-- the length of the chunk -/
  olen : Nat
  /-- the volume in front of the chunk -/
  start : Volume β
  /-- the entries that were cloned -/
  cloned : Nat
  work : Work β

/-- How the loop over the chunks ends. -/
inductive ChunksEnd (β : Type) where
  | done (v : Volume β)
  | noMemory (v : Volume β)
  | rollBack (c : FailedChunk β)

section

variable (f : Faults) (x : Exchange)

/-- A chunk is as long as the addresses of four nodes. -/
def chunkLen (len : Nat) : Nat := min (4 * addrsPerBlock) len

/-- One chunk. -/
def exchangeChunk (src dst len : Nat) (v : Volume β) : Except (FailedChunk β) (Volume β) :=
  let olen := chunkLen len
  match readOutBlkaddrs f x.srcIno src olen (v.kvzalloc f olen) with
  | (some e, w) => .error ⟨e, src, dst, len, olen, v, 0, w⟩
  | (none, w) =>
    match cloneBlkaddrs f x src dst olen w with
    | (some e, i, w) => .error ⟨e, src, dst, len, olen, v, i, w⟩
    | (none, _, w) => .ok w.vol

/-- The loop; a chunk takes at least one page. -/
def exchangeChunks : Nat → Nat → Nat → Nat → Volume β → ChunksEnd β
  | 0, _, _, _, v => .done v
  | rounds + 1, src, dst, len, v =>
    if len = 0 then .done v
    else if f.kvzalloc src then .noMemory v
    else
      match exchangeChunk f x src dst len v with
      | .error c => .rollBack c
      | .ok v =>
        exchangeChunks rounds (src + chunkLen len) (dst + chunkLen len) (len - chunkLen len) v

/-- `__exchange_data_block` up to the label `roll_back`. -/
def exchangeLoop (src dst len : Nat) (v : Volume β) : ChunksEnd β :=
  exchangeChunks f x len src dst len v

/-- What is done at the label `roll_back`. -/
def FailedChunk.rolledBack (c : FailedChunk β) : Work β :=
  rollBackBlkaddrs f x.srcIno c.src c.len c.work

/-- `__exchange_data_block`. -/
def exchangeDataBlock (src dst len : Nat) (v : Volume β) : Option Errno × Volume β :=
  match exchangeLoop f x src dst len v with
  | .done v => (none, v)
  | .noMemory v => (some .enomem, v)
  | .rollBack c => (some c.err, (c.rolledBack f x).vol)

end

end F2fs.Blocks

/-
  `truncate_blocks` (`file.c`) and `truncate_inode_blocks` (`node.c`), on an inode
  without inline data.

  Node pages are words that are found by nid: block addresses in a direct node, nids in
  an indirect one.  The calls of `invalidate_blocks` are recorded in order; `nat` is the
  block address the NAT has for a nid.  The three counters are integers: nothing here
  reads them.

  An `int` that is negative on failure is an `Errno`, and no result follows it.
-/
import F2fs.Node.NodePath

namespace F2fs.Truncate

open F2fs.Node

/-! ## State -/

/-- What reading a page fails with, other than `-ENOENT`. -/
inductive ReadError where
  | eio | enomem | einval | ebadmsg
  deriving DecidableEq, Repr

inductive Errno where
  | enoent | e2big
  | read (e : ReadError)
  /-- `BUG()` -/
  | bug
  deriving DecidableEq, Repr

/-- Which reads fail: of a node by its nid, of the inode page in `truncate_blocks` and in
    `truncate_inode_blocks`, and of the data page that is zeroed in part. -/
structure TruncEnv where
  node : Nat → Option ReadError := fun _ => none
  inodePage : Option ReadError := none
  inodePageAgain : Option ReadError := none
  dataPage : Option ReadError := none

/-- The layout of `i_addr[]`, in words. -/
structure InodeLayout where
  extraIsize : Nat
  addrsPerInode : Nat
  fits : extraIsize + addrsPerInode ≤ defAddrsPerInode

/-- An inode without extra attributes. -/
theorem InodeLayout.plain_fits : 0 + 923 ≤ defAddrsPerInode := by decide

/-- The index tree of a file and what truncation changes around it. -/
structure Index where
  iAddr : Nat → Nat
  iNid : Nat → Nat
  /-- the words of a node page, by nid -/
  word : Nat → Nat → Nat
  nat : Nat → Nat
  /-- the arguments of `invalidate_blocks` -/
  invalidated : List Nat
  totalValidNodeCount : Int
  totalValidBlockCount : Int
  iBlocks : Int

/-- `invalidate_blocks`. -/
def invalidateBlocks (s : Index) (addr : Nat) : Index :=
  { s with invalidated := s.invalidated ++ [addr] }

/-- `dec_valid_block_count`. -/
def decValidBlockCount (s : Index) (count : Nat) : Index :=
  { s with
    totalValidBlockCount := s.totalValidBlockCount - count
    iBlocks := s.iBlocks - count }

/-- `dec_valid_node_count` of a node that is not the inode. -/
def decValidNodeCount (s : Index) : Index :=
  { s with
    totalValidNodeCount := s.totalValidNodeCount - 1
    totalValidBlockCount := s.totalValidBlockCount - 1
    iBlocks := s.iBlocks - 1 }

/-- `set_node_addr` to `NULL_ADDR`. -/
def clearNodeAddr (s : Index) (nid : Nat) : Index :=
  { s with nat := fun n => if n = nid then nullAddr else s.nat n }

/-- `set_nid` in an indirect node. -/
def setNid (s : Index) (p i nid : Nat) : Index :=
  { s with word := fun n j => if n = p ∧ j = i then nid else s.word n j }

/-- `i_nid[i] = 0`. -/
def clearINid (s : Index) (i : Nat) : Index :=
  { s with iNid := fun j => if j = i then 0 else s.iNid j }

/-- `get_node_page`; a page that is read has a block address. -/
def getNodePage (env : TruncEnv) (s : Index) (nid : Nat) : Except Errno Unit :=
  if nid = 0 then .error .enoent
  else
    match env.node nid with
    | some e => .error (.read e)
    | none => if s.nat nid = nullAddr then .error .enoent else .ok ()

/-! ## Data blocks -/

/-- The page that holds a block address: `dn->node_page`. -/
inductive DataPage where
  | inode
  | node (nid : Nat)
  deriving DecidableEq, Repr

section

variable (layout : InodeLayout)

/-- The block address at `ofs_in_node`. -/
def dataAddr (s : Index) (page : DataPage) (ofs : Nat) : Nat :=
  match page with
  | .inode => s.iAddr (layout.extraIsize + ofs)
  | .node nid => s.word nid ofs

/-- `set_data_blkaddr`. -/
def setDataBlkaddr (s : Index) (page : DataPage) (ofs blkaddr : Nat) : Index :=
  match page with
  | .inode =>
    { s with iAddr := fun j => if j = layout.extraIsize + ofs then blkaddr else s.iAddr j }
  | .node nid => setNid s nid ofs blkaddr

/-- `ADDRS_PER_PAGE`. -/
def addrsPerPage : DataPage → Nat
  | .inode => layout.addrsPerInode
  | .node _ => addrsPerBlock

/-- One round of `truncate_data_blocks_range`, with `nr_free`. -/
def truncateDataBlock (page : DataPage) (acc : Index × Nat) (ofs : Nat) : Index × Nat :=
  let blkaddr := dataAddr layout acc.1 page ofs
  if blkaddr = nullAddr then acc
  else
    (invalidateBlocks (setDataBlkaddr layout acc.1 page ofs nullAddr) blkaddr, acc.2 + 1)

/-- `truncate_data_blocks_range`. -/
def truncateDataBlocksRange (s : Index) (page : DataPage) (ofs count : Nat) : Index :=
  let (s₁, nrFree) := (List.range' ofs count).foldl (truncateDataBlock layout page) (s, 0)
  if nrFree ≠ 0 then decValidBlockCount s₁ nrFree else s₁

/-- `truncate_data_blocks`. -/
def truncateDataBlocks (s : Index) (nid : Nat) : Index :=
  truncateDataBlocksRange layout s (.node nid) 0 addrsPerBlock

/-! ## Nodes -/

/-- `truncate_node`. -/
def truncateNode (s : Index) (nid : Nat) : Index :=
  clearNodeAddr (decValidNodeCount (invalidateBlocks s (s.nat nid))) nid

variable (env : TruncEnv)

/-- `truncate_dnode`, with the 1 it returns. -/
def truncateDnode (s : Index) (nid : Nat) : Except Errno (Index × Int) :=
  if nid = 0 then .ok (s, 1)
  else
    match getNodePage env s nid with
    | .error .enoent => .ok (s, 1)
    | .error e => .error e
    | .ok _ => .ok (truncateNode (truncateDataBlocks layout s nid) nid, 1)

/-- One round of the loops over the direct nodes below an indirect node `p`, in
    `truncate_nodes` and in `truncate_partial_nodes`. -/
def truncateChild (p : Nat) (s : Index) (i : Nat) : Except Errno Index :=
  let childNid := s.word p i
  if childNid = 0 then .ok s
  else
    match truncateDnode layout env s childNid with
    | .error e => .error e
    | .ok (s₁, _) => .ok (setNid s₁ p i 0)

/-- One round of the loop over the indirect nodes below the double indirect node `p`, with
    `child_nofs`; `free` is `truncate_nodes` on a child. -/
def truncateIndirectChild (free : Index → Nat → Int → Except Errno (Index × Int)) (p : Nat)
    (acc : Index × Int) (i : Nat) : Except Errno (Index × Int) :=
  let childNid := acc.1.word p i
  if childNid = 0 then .ok (acc.1, acc.2 + (nidsPerBlock + 1))
  else
    match free acc.1 childNid acc.2 with
    | .ok (s₁, ret) =>
      if ret = nidsPerBlock + 1 then .ok (setNid s₁ p i 0, acc.2 + ret) else .ok (s₁, acc.2)
    | .error .enoent => .ok acc
    | .error e => .error e

/-- The slots from `ofs` on. -/
@[irreducible] def slotsFrom (ofs : Nat) : List Nat := List.range' ofs (nidsPerBlock - ofs)

/-- The end of `truncate_nodes`: the node itself goes if nothing before `ofs` is kept. -/
def finishNodes (nid ofs : Nat) (r : Index × Int) : Index × Int :=
  if ofs = 0 then (truncateNode r.1 nid, r.2 + 1) else r

/-- `truncate_nodes`; `depth` is `levels + 2`. -/
def truncateNodes : Nat → Index → Nat → Int → Nat → Except Errno (Index × Int)
  | levels, s, nid, nofs, ofs =>
    if nid = 0 then .ok (s, nidsPerBlock + 1)
    else
      match getNodePage env s nid with
      | .error e => .error e
      | .ok _ =>
        match levels with
        | 0 =>
          match (slotsFrom ofs).foldlM (truncateChild layout env nid) s with
          | .error e => .error e
          | .ok s₁ => .ok (finishNodes nid ofs (s₁, (nidsPerBlock - ofs : Nat)))
        | levels + 1 =>
          match (slotsFrom ofs).foldlM
              (truncateIndirectChild (fun s c n => truncateNodes levels s c n 0) nid)
              (s, nofs + ofs * (nidsPerBlock + 1) + 1) with
          | .error e => .error e
          | .ok r => .ok (finishNodes nid ofs r)

/-! ## The path -/

/-- The node at depth `i + 1` of a path. -/
def pathNid (s : Index) (offset : Nat → Nat) : Nat → Nat
  | 0 => s.iNid (offset 0 - nodeDir1Block)
  | i + 1 => s.word (pathNid s offset i) (offset (i + 1))

/-- `get_node_page` on the nodes at depths 1 to `i + 1`. -/
def getPathPages (s : Index) (offset : Nat → Nat) : Nat → Except Errno Unit
  | 0 => getNodePage env s (pathNid s offset 0)
  | i + 1 =>
    match getPathPages s offset i with
    | .error e => .error e
    | .ok _ => getNodePage env s (pathNid s offset (i + 1))

/-- `offset[]` as `get_node_path` fills it in. -/
def offsetOf (p : NodePath) (i : Nat) : Nat := (p.offset.getD i 0).toNat

/-- `get_dnode_of_data` from the path of the block on. -/
def dnodeOfPath (s : Index) : Option NodePath → Except Errno (DataPage × Nat)
  | none => .error .e2big
  | some p =>
    if p.level = 0 then .ok (.inode, offsetOf p 0)
    else
      match getPathPages env s (offsetOf p) (p.level - 1) with
      | .error e => .error e
      | .ok _ => .ok (.node (pathNid s (offsetOf p) (p.level - 1)), offsetOf p p.level)

/-- `get_dnode_of_data` with `LOOKUP_NODE_RA`, on an inode page that has been read. -/
def getDnodeOfData (s : Index) (index : Nat) : Except Errno (DataPage × Nat) :=
  dnodeOfPath env s (getNodePath layout.addrsPerInode (toLong index))

/-- `truncate_partial_nodes`, with the `offset[]` it leaves; `depth` is `idx + 2`. -/
def truncatePartialNodes (s : Index) (offset : Nat → Nat) (idx : Nat) :
    Except Errno (Index × (Nat → Nat)) :=
  if pathNid s offset 0 = 0 then .ok (s, offset)
  else
    match getPathPages env s offset idx with
    | .error e => .error e
    | .ok _ =>
      let nid := pathNid s offset idx
      match (slotsFrom (offset (idx + 1))).foldlM (truncateChild layout env nid) s with
      | .error e => .error e
      | .ok s₁ =>
        .ok (if offset (idx + 1) = 0 then truncateNode s₁ nid else s₁,
          fun j =>
            if j = idx then offset idx + 1 else if j = idx + 1 then 0 else offset j)

/-! ## The whole tree -/

/-- A negative result other than `-ENOENT` fails; `-ENOENT` changes nothing but `nofs`. -/
def tolerateEnoent (s : Index) : Except Errno (Index × Int) → Except Errno (Index × Int)
  | .error .enoent => .ok (s, -2)
  | r => r

/-- The loop of `truncate_inode_blocks` from `skip_partial` on.  It goes round for each of
    the five nids of the inode at most. -/
def truncateRest : Nat → Index → Nat → Nat → Int → Except Errno Index
  | 0, _, _, _, _ => .error .bug
  | fuel + 1, s, offset₀, offset₁, nofs =>
    let nid := s.iNid (offset₀ - nodeDir1Block)
    let freed :=
      if offset₀ = nodeDir1Block ∨ offset₀ = nodeDir2Block then truncateDnode layout env s nid
      else if offset₀ = nodeInd1Block ∨ offset₀ = nodeInd2Block then
        truncateNodes layout env 0 s nid nofs offset₁
      else if offset₀ = nodeDindBlock then truncateNodes layout env 1 s nid nofs offset₁
      else .error .bug
    match tolerateEnoent s freed with
    | .error e => .error e
    | .ok (s₁, err) =>
      let s₂ := if offset₁ = 0 ∧ s₁.iNid (offset₀ - nodeDir1Block) ≠ 0 then
          clearINid s₁ (offset₀ - nodeDir1Block)
        else s₁
      if offset₀ = nodeDindBlock then .ok s₂
      else truncateRest fuel s₂ (offset₀ + 1) 0 (nofs + err)

/-- The partial part of `truncate_inode_blocks`. -/
def truncatePartial (s : Index) (offset : Nat → Nat) (idx : Nat) :
    Except Errno (Index × (Nat → Nat)) :=
  match truncatePartialNodes layout env s offset idx with
  | .error .enoent => .ok (s, offset)
  | r => r

/-- `truncate_inode_blocks` from the path of the block on. -/
def truncatePath (s : Index) : Option NodePath → Except Errno Index
  | none => .error .e2big
  | some p =>
    match env.inodePageAgain with
    | some e => .error (.read e)
    | none =>
      let offset := offsetOf p
      let nofs : Int := p.noffset.getD 1 0
      if p.level ≤ 1 then truncateRest layout env 5 s (offset 0) (offset 1) nofs
      else if p.level = 2 then
        if offset 1 = 0 then truncateRest layout env 5 s (offset 0) (offset 1) nofs
        else
          match truncatePartial layout env s offset 0 with
          | .error e => .error e
          | .ok (s₁, offset) =>
            truncateRest layout env 5 s₁ (offset 0) (offset 1) (nofs + (1 + nidsPerBlock))
      else if p.level = 3 then
        let nofs : Int := 5 + 2 * nidsPerBlock
        if offset 2 = 0 then truncateRest layout env 5 s (offset 0) (offset 1) nofs
        else
          match truncatePartial layout env s offset 1 with
          | .error e => .error e
          | .ok (s₁, offset) => truncateRest layout env 5 s₁ (offset 0) (offset 1) nofs
      else .error .bug

/-- `truncate_inode_blocks`. -/
def truncateInodeBlocks (s : Index) (start : Nat) : Except Errno Index :=
  truncatePath layout env s (getNodePath layout.addrsPerInode (toLong start))

/-- `F2FS_BYTES_TO_BLK(from + blocksize - 1)`, in 64 bits. -/
def freeFrom (start : Nat) : Nat := (start + 4095) % 2 ^ 64 / 4096

/-- `truncate_partial_data_page`, which changes no block address. -/
def truncatePartialDataPage (s : Index) (start : Nat) : Except Errno Index :=
  if start % 4096 = 0 then .ok s
  else
    match env.dataPage with
    | some e => .error (.read e)
    | none => .ok s

/-- `truncate_blocks` from the result of `get_dnode_of_data` on. -/
def truncateFound (s : Index) (free : Nat) : Except Errno (DataPage × Nat) → Except Errno Index
  | .error .enoent => truncateInodeBlocks layout env s free
  | .error e => .error e
  | .ok (page, ofs) =>
    let count := addrsPerPage layout page - ofs
    if ofs ≠ 0 ∨ page = .inode then
      truncateInodeBlocks layout env (truncateDataBlocksRange layout s page ofs count)
        (free + count)
    else truncateInodeBlocks layout env s free

/-- `truncate_blocks` up to `free_partial`. -/
def truncateTree (s : Index) (start : Nat) : Except Errno Index :=
  if freeFrom start ≥ maxFileBlocks then .ok s
  else
    match env.inodePage with
    | some e => .error (.read e)
    | none => truncateFound layout env s (freeFrom start)
      (getDnodeOfData layout env s (freeFrom start))

/-- `truncate_blocks`. -/
def truncateBlocks (s : Index) (start : Nat) : Except Errno Index :=
  match truncateTree layout env s start with
  | .error e => .error e
  | .ok s₁ => truncatePartialDataPage env s₁ start

end

end F2fs.Truncate

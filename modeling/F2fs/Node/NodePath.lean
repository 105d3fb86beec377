/-
  The index tree of an inode: `get_node_path`, which says where a block index is
  stored, and `start_bidx_of_node`, which says where a direct node starts.

  Block indexes are signed 64-bit (`long`), offsets signed 32-bit (`int`), node offsets
  unsigned 32-bit.  `ADDRS_PER_INODE` is a parameter `api`; it never exceeds
  `DEF_ADDRS_PER_INODE`, since extra attributes and inline xattrs only take from it.
-/
import F2fs.Basic

namespace F2fs.Node

/-! ## Constants (`f2fs_fs.h`) -/

def defAddrsPerInode : Nat := 923
def defNidsPerInode : Nat := 5
abbrev addrsPerBlock : Nat := 1018
abbrev nidsPerBlock : Nat := 1018

def nodeDir1Block : Nat := defAddrsPerInode + 1
def nodeDir2Block : Nat := defAddrsPerInode + 2
def nodeInd1Block : Nat := defAddrsPerInode + 3
def nodeInd2Block : Nat := defAddrsPerInode + 4
def nodeDindBlock : Nat := defAddrsPerInode + 5

/-- Conversion of an `unsigned long` (`pgoff_t`) to `long`. -/
def toLong (index : Nat) : Int := (index : Int).bmod (2 ^ 64)

/-- Conversion of a `long` to `int`. -/
def int32 (n : Int) : Int := n.bmod (2 ^ 32)

/-- Conversion to `unsigned int`. -/
def uint32 (n : Int) : Nat := (n % 2 ^ 32).toNat

theorem toLong_of_lt {n : Nat} (h : n < 2 ^ 63) : toLong n = n := by
  unfold toLong
  rw [Int.bmod_def]
  omega

theorem int32_eq {n : Int} {m : Nat} (h : n = m) (hm : m < 2 ^ 31) : int32 n = m := by
  unfold int32
  rw [Int.bmod_def]
  omega

theorem uint32_eq {n : Int} {m : Nat} (h : n = m) (hm : m < 2 ^ 32) : uint32 n = m := by
  unfold uint32
  omega

/-! ## `get_node_path` -/

/-- What `get_node_path` fills in: `offset[0..level]` and `noffset[0..level]`. -/
structure NodePath where
  level : Nat
  offset : List Int
  noffset : List Nat
  deriving DecidableEq

namespace NodePath

variable (p : NodePath)

/-- `offset[level]`. -/
def lastOffset : Int := p.offset.getD p.level 0

/-- `noffset[level]`: the node that holds the block address. -/
def lastNoffset : Nat := p.noffset.getD p.level 0

/-- The way from the inode to the node that holds the block address. -/
def dnode : List Int := p.offset.take p.level

end NodePath

/-- `get_node_path`; `none` is `-E2BIG`. -/
def getNodePath (api : Nat) (block : Int) : Option NodePath :=
  let directIndex : Int := api
  let directBlks : Int := addrsPerBlock
  let dptrsPerBlk : Int := nidsPerBlock
  let indirectBlks : Int := addrsPerBlock * nidsPerBlock
  let dindirectBlks : Int := indirectBlks * nidsPerBlock
  if block < directIndex then
    some { level := 0, offset := [int32 block], noffset := [0] }
  else
    let block := block - directIndex
    if block < directBlks then
      some { level := 1, offset := [nodeDir1Block, int32 block], noffset := [0, 1] }
    else
      let block := block - directBlks
      if block < directBlks then
        some { level := 1, offset := [nodeDir2Block, int32 block], noffset := [0, 2] }
      else
        let block := block - directBlks
        if block < indirectBlks then
          let o₁ := int32 (block / directBlks)
          some
            { level := 2
              offset := [nodeInd1Block, o₁, int32 (block % directBlks)]
              noffset := [0, 3, uint32 (4 + o₁)] }
        else
          let block := block - indirectBlks
          if block < indirectBlks then
            let o₁ := int32 (block / directBlks)
            some
              { level := 2
                offset := [nodeInd2Block, o₁, int32 (block % directBlks)]
                noffset := [0, uint32 (4 + dptrsPerBlk), uint32 (5 + dptrsPerBlk + o₁)] }
          else
            let block := block - indirectBlks
            if block < dindirectBlks then
              let o₁ := int32 (block / indirectBlks)
              let o₂ := int32 (block / directBlks % dptrsPerBlk)
              some
                { level := 3
                  offset := [nodeDindBlock, o₁, o₂, int32 (block % directBlks)]
                  noffset :=
                    [0, uint32 (5 + dptrsPerBlk * 2),
                      uint32 (6 + dptrsPerBlk * 2 + o₁ * (dptrsPerBlk + 1)),
                      uint32 (7 + dptrsPerBlk * 2 + o₁ * (dptrsPerBlk + 1) + o₂)] }
            else none

/-- `start_bidx_of_node`. -/
def startBidxOfNode (api nodeOfs : Nat) : Nat :=
  let indirectBlks := 2 * nidsPerBlock + 4
  if nodeOfs = 0 then 0
  else
    let bidx :=
      if nodeOfs ≤ 2 then u32Sub nodeOfs 1
      else if nodeOfs ≤ indirectBlks then
        let dec := u32Sub nodeOfs 4 / (nidsPerBlock + 1)
        u32Sub (u32Sub nodeOfs 2) dec
      else
        let dec := u32Sub (u32Sub nodeOfs indirectBlks) 3 / (nidsPerBlock + 1)
        u32Sub (u32Sub nodeOfs 5) dec
    (bidx * addrsPerBlock + api) % 2 ^ 32

/-- `max_file_blocks`. -/
def maxFileBlocks : Nat :=
  addrsPerBlock * 2 + addrsPerBlock * nidsPerBlock * 2 +
    addrsPerBlock * nidsPerBlock * nidsPerBlock

/-! ## The shape of a path -/

/-- Every offset is a slot its node has: an address of the inode or one of its five nids,
    then nids of index nodes, last an address of a direct node. -/
def NodePath.InRange (api : Nat) (p : NodePath) : Prop :=
  p.offset.length = p.level + 1 ∧ p.noffset.length = p.level + 1 ∧
    (p.level = 0 → 0 ≤ p.lastOffset ∧ p.lastOffset < api) ∧
    (0 < p.level → (nodeDir1Block : Int) ≤ p.offset.headD 0 ∧
      p.offset.headD 0 < nodeDir1Block + defNidsPerInode) ∧
    ∀ o ∈ p.offset.tail, 0 ≤ o ∧ o < nidsPerBlock

/-- `get_node_path` by cases: in the inode, in a direct node, under an indirect node, under
    the double indirect node, or too big. -/
theorem getNodePath_cases {api : Nat} (block : Nat) (hapi : api ≤ defAddrsPerInode) :
    (block < api ∧ getNodePath api block =
      some { level := 0, offset := [(block : Int)], noffset := [0] }) ∨
    (∃ d o : Nat, d < 2 ∧ o < 1018 ∧ block = api + d * 1018 + o ∧
      getNodePath api block =
        some { level := 1, offset := [924 + (d : Int), (o : Int)], noffset := [0, 1 + d] }) ∨
    (∃ d i o : Nat, d < 2 ∧ i < 1018 ∧ o < 1018 ∧
      block = api + 2036 + d * 1036324 + i * 1018 + o ∧
      getNodePath api block =
        some { level := 2, offset := [926 + (d : Int), (i : Int), (o : Int)],
               noffset := [0, 3 + d * 1019, 4 + d * 1019 + i] }) ∨
    (∃ i j o : Nat, i < 1018 ∧ j < 1018 ∧ o < 1018 ∧
      block = api + 2074684 + i * 1036324 + j * 1018 + o ∧
      getNodePath api block =
        some { level := 3, offset := [928, (i : Int), (j : Int), (o : Int)],
               noffset := [0, 2041, 2042 + i * 1019, 2043 + i * 1019 + j] }) ∨
    (api + maxFileBlocks ≤ block ∧ getNodePath api block = none) := by
  unfold defAddrsPerInode at hapi
  unfold getNodePath
  simp only [nodeDir1Block, nodeDir2Block, nodeInd1Block, nodeInd2Block, nodeDindBlock,
    defAddrsPerInode, Nat.reduceAdd, Int.cast_ofNat_Int]
  by_cases h1 : (block : Int) < api
  · left
    rw [if_pos h1, int32_eq rfl (by omega)]
    exact ⟨by omega, rfl⟩
  right
  rw [if_neg h1]
  by_cases h2 : (block : Int) - api < 1018
  · left
    refine ⟨0, block - api, by omega, by omega, by omega, ?_⟩
    rw [if_pos h2, int32_eq (m := block - api) (by omega) (by omega)]
    rfl
  rw [if_neg h2]
  by_cases h3 : (block : Int) - api - 1018 < 1018
  · left
    refine ⟨1, block - api - 1018, by omega, by omega, by omega, ?_⟩
    rw [if_pos h3, int32_eq (m := block - api - 1018) (by omega) (by omega)]
    rfl
  right
  rw [if_neg h3]
  by_cases h4 : (block : Int) - api - 1018 - 1018 < 1018 * 1018
  · left
    obtain ⟨b, hb⟩ : ∃ b, b = block - api - 2036 := ⟨_, rfl⟩
    have hb' : (block : Int) - api - 1018 - 1018 = b := by omega
    refine ⟨0, b / 1018, b % 1018, by omega, by omega, by omega, by omega, ?_⟩
    rw [if_pos h4, hb', int32_eq (m := b / 1018) (by omega) (by omega),
      int32_eq (m := b % 1018) (by omega) (by omega),
      uint32_eq (m := 4 + 0 * 1019 + b / 1018) (by omega) (by omega)]
    rfl
  rw [if_neg h4]
  by_cases h5 : (block : Int) - api - 1018 - 1018 - 1018 * 1018 < 1018 * 1018
  · left
    obtain ⟨b, hb⟩ : ∃ b, b = block - api - 1038360 := ⟨_, rfl⟩
    have hb' : (block : Int) - api - 1018 - 1018 - 1018 * 1018 = b := by omega
    refine ⟨1, b / 1018, b % 1018, by omega, by omega, by omega, by omega, ?_⟩
    rw [if_pos h5, hb', int32_eq (m := b / 1018) (by omega) (by omega),
      int32_eq (m := b % 1018) (by omega) (by omega),
      uint32_eq (n := 4 + 1018) (m := 3 + 1 * 1019) (by omega) (by omega),
      uint32_eq (m := 4 + 1 * 1019 + b / 1018) (by omega) (by omega)]
    rfl
  right
  rw [if_neg h5]
  by_cases h6 : (block : Int) - api - 1018 - 1018 - 1018 * 1018 - 1018 * 1018 < 1018 * 1018 * 1018
  · left
    obtain ⟨b, hb⟩ : ∃ b, b = block - api - 2074684 := ⟨_, rfl⟩
    have hb' : (block : Int) - api - 1018 - 1018 - 1018 * 1018 - 1018 * 1018 = b := by omega
    refine ⟨b / 1036324, b / 1018 % 1018, b % 1018, by omega, by omega, by omega, by omega, ?_⟩
    rw [if_pos h6, hb', int32_eq (m := b / 1036324) (by omega) (by omega),
      int32_eq (m := b / 1018 % 1018) (by omega) (by omega),
      int32_eq (m := b % 1018) (by omega) (by omega),
      uint32_eq (n := 5 + 1018 * 2) (m := 2041) (by omega) (by omega),
      uint32_eq (m := 2042 + b / 1036324 * 1019) (by omega) (by omega),
      uint32_eq (m := 2043 + b / 1036324 * 1019 + b / 1018 % 1018) (by omega) (by omega)]
  · right
    rw [if_neg h6]
    have hmax : maxFileBlocks = 1057052516 := rfl
    exact ⟨by omega, rfl⟩

/-! ## `start_bidx_of_node` on the nodes a path ends in -/

variable {api : Nat}

theorem startBidxOfNode_direct {d : Nat} (hapi : api ≤ defAddrsPerInode) (hd : d < 2) :
    startBidxOfNode api (1 + d) = api + d * 1018 := by
  unfold defAddrsPerInode at hapi
  unfold startBidxOfNode
  rw [if_neg (by omega)]
  simp only [addrsPerBlock]
  rw [if_pos (by omega), u32Sub_of_le (by omega) (by omega), Nat.mod_eq_of_lt (by omega)]
  omega

theorem startBidxOfNode_indirect {d i : Nat} (hapi : api ≤ defAddrsPerInode) (hd : d < 2)
    (hi : i < 1018) :
    startBidxOfNode api (4 + d * 1019 + i) = api + 2036 + d * 1036324 + i * 1018 := by
  unfold defAddrsPerInode at hapi
  have hdec : (4 + d * 1019 + i - 4) / (1018 + 1) = d := by omega
  unfold startBidxOfNode
  rw [if_neg (by omega)]
  simp only [addrsPerBlock, nidsPerBlock]
  rw [if_neg (by omega), if_pos (by omega), u32Sub_of_le (b := 4) (by omega) (by omega), hdec,
    u32Sub_of_le (b := 2) (by omega) (by omega), u32Sub_of_le (by omega) (by omega),
    Nat.mod_eq_of_lt (by omega)]
  omega

theorem startBidxOfNode_double {i j : Nat} (hapi : api ≤ defAddrsPerInode) (hi : i < 1018)
    (hj : j < 1018) :
    startBidxOfNode api (2043 + i * 1019 + j) = api + 2074684 + i * 1036324 + j * 1018 := by
  unfold defAddrsPerInode at hapi
  have hdec : (2043 + i * 1019 + j - 2040 - 3) / (1018 + 1) = i := by omega
  unfold startBidxOfNode
  rw [if_neg (by omega)]
  simp only [addrsPerBlock, nidsPerBlock, Nat.reduceMul, Nat.reduceAdd]
  rw [if_neg (by omega), if_neg (by omega), u32Sub_of_le (b := 2040) (by omega) (by omega),
    u32Sub_of_le (b := 3) (by omega) (by omega), hdec,
    u32Sub_of_le (b := 5) (by omega) (by omega), u32Sub_of_le (by omega) (by omega),
    Nat.mod_eq_of_lt (by omega)]
  omega

/-! ## Block index and path are inverse -/

/-- What `getNodePath` found for a block index: the node the block is in starts where
    `start_bidx_of_node` says, and the path stays inside every node on it. -/
theorem getNodePath_some {block : Nat} {p : NodePath} (hapi : api ≤ defAddrsPerInode)
    (h : getNodePath api block = some p) :
    (startBidxOfNode api p.lastNoffset : Int) + p.lastOffset = block ∧ p.InRange api ∧
      block < api + maxFileBlocks := by
  have hmax : maxFileBlocks = 1057052516 := rfl
  obtain ⟨hb, e⟩ | ⟨d, o, hd, ho, hb, e⟩ | ⟨d, i, o, hd, hi, ho, hb, e⟩ |
    ⟨i, j, o, hi, hj, ho, hb, e⟩ | ⟨-, e⟩ := getNodePath_cases block hapi
  · obtain rfl : _ = p := Option.some.inj (e.symm.trans h)
    refine ⟨?_, ?_, by omega⟩
    · simp [NodePath.lastOffset, NodePath.lastNoffset, startBidxOfNode]
    · simp [NodePath.InRange, NodePath.lastOffset, hb]
  · obtain rfl : _ = p := Option.some.inj (e.symm.trans h)
    refine ⟨?_, ?_, by omega⟩
    · simp only [NodePath.lastOffset, NodePath.lastNoffset, List.getD_cons_succ,
        List.getD_cons_zero]
      rw [startBidxOfNode_direct hapi hd]
      omega
    · simp [NodePath.InRange, NodePath.lastOffset, nodeDir1Block, defAddrsPerInode,
        defNidsPerInode]
      omega
  · obtain rfl : _ = p := Option.some.inj (e.symm.trans h)
    refine ⟨?_, ?_, by omega⟩
    · simp only [NodePath.lastOffset, NodePath.lastNoffset, List.getD_cons_succ,
        List.getD_cons_zero]
      rw [startBidxOfNode_indirect hapi hd hi]
      omega
    · simp [NodePath.InRange, NodePath.lastOffset, nodeDir1Block, defAddrsPerInode,
        defNidsPerInode]
      omega
  · obtain rfl : _ = p := Option.some.inj (e.symm.trans h)
    refine ⟨?_, ?_, by omega⟩
    · simp only [NodePath.lastOffset, NodePath.lastNoffset, List.getD_cons_succ,
        List.getD_cons_zero]
      rw [startBidxOfNode_double hapi hi hj]
      omega
    · simp [NodePath.InRange, NodePath.lastOffset, nodeDir1Block, defAddrsPerInode,
        defNidsPerInode]
      omega
  · rw [e] at h
    cases h

/-- Nodes are told apart by their offset. -/
theorem lastNoffset_eq_iff {b b' : Nat} {p p' : NodePath} (hapi : api ≤ defAddrsPerInode)
    (h : getNodePath api b = some p) (h' : getNodePath api b' = some p') :
    p.lastNoffset = p'.lastNoffset ↔ p.dnode = p'.dnode := by
  obtain ⟨hb, e⟩ | ⟨d, o, hd, ho, hb, e⟩ | ⟨d, i, o, hd, hi, ho, hb, e⟩ |
    ⟨i, j, o, hi, hj, ho, hb, e⟩ | ⟨-, e⟩ := getNodePath_cases b hapi <;>
  obtain ⟨hb', e'⟩ | ⟨d', o', hd', ho', hb', e'⟩ | ⟨d', i', o', hd', hi', ho', hb', e'⟩ |
    ⟨i', j', o', hi', hj', ho', hb', e'⟩ | ⟨-, e'⟩ := getNodePath_cases b' hapi <;>
  rw [e] at h <;> rw [e'] at h' <;> cases h <;> cases h' <;>
  simp [NodePath.lastNoffset, NodePath.dnode] <;> omega

/-- The largest file the size limit admits never runs out of index nodes. -/
theorem getNodePath_eq_none_iff {block : Nat} (hapi : api ≤ defAddrsPerInode) :
    getNodePath api block = none ↔ api + maxFileBlocks ≤ block := by
  constructor
  · intro h
    obtain ⟨-, e⟩ | ⟨d, o, -, -, -, e⟩ | ⟨d, i, o, -, -, -, -, e⟩ | ⟨i, j, o, -, -, -, -, e⟩ |
      ⟨hle, -⟩ := getNodePath_cases block hapi
    · rw [e] at h; cases h
    · rw [e] at h; cases h
    · rw [e] at h; cases h
    · rw [e] at h; cases h
    · exact hle
  · intro hle
    cases h : getNodePath api block with
    | none => rfl
    | some p =>
      have := (getNodePath_some hapi h).2.2
      omega

/-- Block index and node path are inverse, for every index a `long` holds. -/
theorem getNodePath_inverse (api : Nat) (hapi : api ≤ defAddrsPerInode) :
    (∀ block : Nat, block < 2 ^ 63 →
      (getNodePath api (toLong block) = none ↔ api + maxFileBlocks ≤ block)) ∧
    (∀ (block : Nat) (p : NodePath), block < 2 ^ 63 → getNodePath api (toLong block) = some p →
      (startBidxOfNode api p.lastNoffset : Int) + p.lastOffset = block ∧ p.InRange api) ∧
    ∀ (b b' : Nat) (p p' : NodePath), b < 2 ^ 63 → b' < 2 ^ 63 →
      getNodePath api (toLong b) = some p → getNodePath api (toLong b') = some p' →
      (p.lastNoffset = p'.lastNoffset ↔ p.dnode = p'.dnode) := by
  refine ⟨?_, ?_, ?_⟩
  · intro block hb
    rw [toLong_of_lt hb]
    exact getNodePath_eq_none_iff hapi
  · intro block p hb h
    rw [toLong_of_lt hb] at h
    obtain ⟨hs, hr, -⟩ := getNodePath_some hapi h
    exact ⟨hs, hr⟩
  · intro b b' p p' hb hb' h h'
    rw [toLong_of_lt hb] at h
    rw [toLong_of_lt hb'] at h'
    exact lastNoffset_eq_iff hapi h h'

/-- The theorem on the default layout, at the last block of the largest file. -/
theorem getNodePath_inverse_default :
    ∃ p, getNodePath 923 (toLong 1057053438) = some p ∧
      (startBidxOfNode 923 p.lastNoffset : Int) + p.lastOffset = 1057053438 := by
  obtain ⟨-, h, -⟩ := getNodePath_inverse 923 (by decide)
  have hsome : getNodePath 923 (toLong 1057053438) =
      some { level := 3, offset := [928, 1017, 1017, 1017],
             noffset := [0, 2041, 1038365, 1039383] } := by decide +kernel
  exact ⟨_, hsome, (h _ _ (by decide) hsome).1⟩

/-- From `2 ^ 63` on a block index is negative as a `long`: `get_node_path` takes it for a
    slot of the inode, and truncates it to an `int`. -/
theorem getNodePath_not_inverse :
    ∃ p, getNodePath 923 (toLong (2 ^ 64 - 2 ^ 40)) = some p ∧
      (startBidxOfNode 923 p.lastNoffset : Int) + p.lastOffset ≠ (2 ^ 64 - 2 ^ 40 : Nat) ∧
      923 + maxFileBlocks ≤ 2 ^ 64 - 2 ^ 40 := by
  refine ⟨{ level := 0, offset := [0], noffset := [0] }, ?_, ?_, ?_⟩
  · decide +kernel
  · decide +kernel
  · decide

end F2fs.Node

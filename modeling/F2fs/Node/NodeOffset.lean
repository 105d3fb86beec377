/-
  Node offsets: the number `get_node_path` gives a node of an inode's index tree, as the
  footer keeps it above the three mark bits, and `IS_DNODE`, which tells from the number
  alone whether the node holds block addresses.

  A position in the tree is the list of slots on the way from the inode; `numbering` is
  the whole statement.
-/
import F2fs.Node.NodePath
import F2fs.Recovery.NodeLog

namespace F2fs.Recovery.NodeFooter

/-- `OFFSET_BIT_MASK`. -/
def offsetBitMask : Nat := 7

/-- `fill_node_footer`. -/
def fillNodeFooter (page : NodeFooter) (nid ino ofs : Nat) (reset : Bool) : NodeFooter :=
  let oldFlag := if reset then 0 else page.flag
  let rn := if reset then ⟨0, 0, 0, 0, 0⟩ else page
  { rn with
    nid := nid
    ino := ino
    flag := (ofs <<< offsetBitShift) % 2 ^ 32 ||| (oldFlag &&& offsetBitMask) }

/-- `copy_node_footer`. -/
def copyNodeFooter (_dst src : NodeFooter) : NodeFooter := src

/-- `flag & ~(0x1 << type)`. -/
def clearBit (flag type : Nat) : Nat := flag &&& (2 ^ 32 - 1 - 1 <<< type)

/-- `set_mark`. -/
def setMark (page : NodeFooter) (mark : Bool) (type : Nat) : NodeFooter :=
  { page with flag := if mark then page.flag ||| 1 <<< type else clearBit page.flag type }

/-- `set_fsync_mark`. -/
def setFsyncMark (page : NodeFooter) (mark : Bool) : NodeFooter := page.setMark mark fsyncBitShift

/-- `set_dentry_mark`. -/
def setDentryMark (page : NodeFooter) (mark : Bool) : NodeFooter := page.setMark mark dentBitShift

/-- `set_cold_node`. -/
def setColdNode (isDir : Bool) (page : NodeFooter) : NodeFooter :=
  { page with
    flag := if isDir then clearBit page.flag coldBitShift else page.flag ||| 1 <<< coldBitShift }

/-- `XATTR_NODE_OFFSET`. -/
def xattrNodeOffset : Nat := ((2 ^ 32 - 1) <<< offsetBitShift % 2 ^ 32) >>> offsetBitShift

/-- `IS_DNODE`. -/
def isDnode (page : NodeFooter) : Bool :=
  let nidsPerBlock := Node.nidsPerBlock
  let ofs := page.ofsOfNode
  if ofs = xattrNodeOffset then true
  else if ofs = 3 ∨ ofs = 4 + nidsPerBlock ∨ ofs = 5 + 2 * nidsPerBlock then false
  else if 6 + 2 * nidsPerBlock ≤ ofs ∧ (ofs - (6 + 2 * nidsPerBlock)) % (nidsPerBlock + 1) = 0 then
    false
  else true

/-! ## The offset in the footer -/

/-- A change of the marks. -/
inductive MarkOp where
  | coldNode (isDir : Bool)
  | fsyncMark (mark : Bool)
  | dentryMark (mark : Bool)

/-- `set_cold_node`, `set_fsync_mark` or `set_dentry_mark`. -/
def applyMark (page : NodeFooter) : MarkOp → NodeFooter
  | .coldNode isDir => page.setColdNode isDir
  | .fsyncMark mark => page.setFsyncMark mark
  | .dentryMark mark => page.setDentryMark mark

section

variable {page : NodeFooter} {ofs : Nat}

/-- The flag word is one of `ofs`. -/
def HoldsOfs (flag ofs : Nat) : Prop := flag < 2 ^ 32 ∧ flag >>> offsetBitShift = ofs

theorem HoldsOfs.orBit {flag type : Nat} (h : HoldsOfs flag ofs) (ht : type < offsetBitShift) :
    HoldsOfs (flag ||| 1 <<< type) ofs := by
  obtain ⟨hlt, hofs⟩ := h
  have hbit : 1 <<< type < 2 ^ offsetBitShift := by
    rw [Nat.one_shiftLeft]
    exact Nat.pow_lt_pow_right (by decide) ht
  refine ⟨Nat.or_lt_two_pow hlt (hbit.trans (by decide)), ?_⟩
  rw [Nat.shiftRight_or_distrib, hofs, Nat.shiftRight_eq_div_pow (1 <<< type),
    Nat.div_eq_of_lt hbit, Nat.or_zero]

theorem HoldsOfs.clearBit {flag type : Nat} (h : HoldsOfs flag ofs) (ht : type < offsetBitShift) :
    HoldsOfs (clearBit flag type) ofs := by
  obtain ⟨hlt, hofs⟩ := h
  have hmask : (2 ^ 32 - 1 - 1 <<< type) >>> offsetBitShift = 2 ^ 29 - 1 := by
    unfold offsetBitShift at ht ⊢
    interval_cases type <;> decide
  refine ⟨Nat.lt_of_le_of_lt Nat.and_le_left hlt, ?_⟩
  unfold NodeFooter.clearBit
  rw [Nat.shiftRight_and_distrib, hmask, hofs, Nat.and_two_pow_sub_one_eq_mod]
  refine Nat.mod_eq_of_lt ?_
  rw [← hofs, Nat.shiftRight_eq_div_pow, Nat.div_lt_iff_lt_mul (by decide)]
  exact hlt

/-- The marks live below the offset. -/
theorem HoldsOfs.applyMark (h : HoldsOfs page.flag ofs) (op : MarkOp) :
    HoldsOfs (page.applyMark op).flag ofs := by
  cases op with
  | coldNode isDir =>
      cases isDir with
      | true => exact h.clearBit (by decide)
      | false => exact h.orBit (by decide)
  | fsyncMark mark =>
      cases mark with
      | true => exact h.orBit (by decide)
      | false => exact h.clearBit (by decide)
  | dentryMark mark =>
      cases mark with
      | true => exact h.orBit (by decide)
      | false => exact h.clearBit (by decide)

theorem HoldsOfs.applyMarks (ops : List MarkOp) (h : HoldsOfs page.flag ofs) :
    HoldsOfs (ops.foldl NodeFooter.applyMark page).flag ofs := by
  induction ops generalizing page with
  | nil => exact h
  | cons op ops ih => exact ih (h.applyMark op)

theorem fillNodeFooter_holds (page : NodeFooter) (nid ino : Nat) (reset : Bool)
    (hofs : ofs < 2 ^ 29) : HoldsOfs (page.fillNodeFooter nid ino ofs reset).flag ofs := by
  have hshift : (ofs <<< offsetBitShift) % 2 ^ 32 = ofs <<< offsetBitShift := by
    rw [Nat.shiftLeft_eq]
    unfold offsetBitShift
    omega
  have hlow : ∀ f : Nat, f &&& offsetBitMask < 2 ^ offsetBitShift := fun f =>
    Nat.lt_of_le_of_lt Nat.and_le_right (by decide)
  unfold fillNodeFooter
  dsimp only
  rw [hshift]
  constructor
  · refine Nat.or_lt_two_pow ?_ ((hlow _).trans (by decide))
    rw [Nat.shiftLeft_eq]
    unfold offsetBitShift
    omega
  · rw [Nat.shiftRight_or_distrib, Nat.shiftLeft_shiftRight,
      Nat.shiftRight_eq_div_pow (_ &&& _), Nat.div_eq_of_lt (hlow _), Nat.or_zero]

theorem HoldsOfs.ofsOfNode (h : HoldsOfs page.flag ofs) : page.ofsOfNode = ofs := h.2

end

end F2fs.Recovery.NodeFooter

/-! ## Offsets and positions -/

namespace F2fs.Node

open Recovery (NodeFooter)
open Recovery.NodeFooter (fillNodeFooter_holds MarkOp xattrNodeOffset)

namespace NodePath

variable (p : NodePath)

/-- `noffset[n]`. -/
def nodeOfs (n : Nat) : Nat := p.noffset.getD n 0

/-- The position of the node at level `n`: the slots on the way to it. -/
def position (n : Nat) : List Int := p.offset.take n

end NodePath

section

variable {api : Nat} {block : Nat} {p : NodePath} {n : Nat}

/-- The nodes on a path with their offsets: the inode; a direct node; an indirect node and a
    direct node under it; the double indirect node, an indirect node and a direct node. -/
theorem nodeOfs_cases (hapi : api ≤ defAddrsPerInode) (h : getNodePath api block = some p)
    (hn : n ≤ p.level) :
    (n = 0 ∧ p.nodeOfs n = 0 ∧ p.position n = []) ∨
    (∃ d, d < 2 ∧ n = 1 ∧ p.level = 1 ∧ p.nodeOfs n = 1 + d ∧
      p.position n = [924 + (d : Int)]) ∨
    (∃ d, d < 2 ∧ n = 1 ∧ p.level = 2 ∧ p.nodeOfs n = 3 + d * 1019 ∧
      p.position n = [926 + (d : Int)]) ∨
    (∃ d i, d < 2 ∧ i < 1018 ∧ n = 2 ∧ p.level = 2 ∧ p.nodeOfs n = 4 + d * 1019 + i ∧
      p.position n = [926 + (d : Int), (i : Int)]) ∨
    (n = 1 ∧ p.level = 3 ∧ p.nodeOfs n = 2041 ∧ p.position n = [928]) ∨
    (∃ i, i < 1018 ∧ n = 2 ∧ p.level = 3 ∧ p.nodeOfs n = 2042 + i * 1019 ∧
      p.position n = [928, (i : Int)]) ∨
    ∃ i j, i < 1018 ∧ j < 1018 ∧ n = 3 ∧ p.level = 3 ∧ p.nodeOfs n = 2043 + i * 1019 + j ∧
      p.position n = [928, (i : Int), (j : Int)] := by
  obtain ⟨-, e⟩ | ⟨d, o, hd, -, -, e⟩ | ⟨d, i, o, hd, hi, -, -, e⟩ |
    ⟨i, j, o, hi, hj, -, -, e⟩ | ⟨-, e⟩ := getNodePath_cases block hapi <;>
  rw [e] at h <;> cases h
  · obtain rfl : n = 0 := Nat.le_zero.mp hn
    exact Or.inl ⟨rfl, rfl, rfl⟩
  · change n ≤ 1 at hn
    interval_cases n
    · exact Or.inl ⟨rfl, rfl, rfl⟩
    · exact Or.inr (Or.inl ⟨d, hd, rfl, rfl, rfl, rfl⟩)
  · change n ≤ 2 at hn
    interval_cases n
    · exact Or.inl ⟨rfl, rfl, rfl⟩
    · exact Or.inr (Or.inr (Or.inl ⟨d, hd, rfl, rfl, rfl, rfl⟩))
    · exact Or.inr (Or.inr (Or.inr (Or.inl ⟨d, i, hd, hi, rfl, rfl, rfl, rfl⟩)))
  · change n ≤ 3 at hn
    interval_cases n
    · exact Or.inl ⟨rfl, rfl, rfl⟩
    · exact Or.inr (Or.inr (Or.inr (Or.inr (Or.inl ⟨rfl, rfl, rfl, rfl⟩))))
    · exact Or.inr (Or.inr (Or.inr (Or.inr (Or.inr (Or.inl ⟨i, hi, rfl, rfl, rfl, rfl⟩)))))
    · exact Or.inr (Or.inr (Or.inr (Or.inr (Or.inr (Or.inr
        ⟨i, j, hi, hj, rfl, rfl, rfl, rfl⟩)))))

/-- Different positions have different offsets. -/
theorem nodeOfs_eq_iff (hapi : api ≤ defAddrsPerInode) (h : getNodePath api block = some p)
    (hn : n ≤ p.level) {block' n' : Nat} {p' : NodePath} (h' : getNodePath api block' = some p')
    (hn' : n' ≤ p'.level) :
    p.nodeOfs n = p'.nodeOfs n' ↔ p.position n = p'.position n' := by
  obtain ⟨-, e, f⟩ | ⟨d, hd, -, -, e, f⟩ | ⟨d, hd, -, -, e, f⟩ | ⟨d, i, hd, hi, -, -, e, f⟩ |
    ⟨-, -, e, f⟩ | ⟨i, hi, -, -, e, f⟩ | ⟨i, j, hi, hj, -, -, e, f⟩ := nodeOfs_cases hapi h hn <;>
  obtain ⟨-, e', f'⟩ | ⟨d', hd', -, -, e', f'⟩ | ⟨d', hd', -, -, e', f'⟩ |
    ⟨d', i', hd', hi', -, -, e', f'⟩ | ⟨-, -, e', f'⟩ | ⟨i', hi', -, -, e', f'⟩ |
    ⟨i', j', hi', hj', -, -, e', f'⟩ := nodeOfs_cases hapi h' hn' <;>
  rw [e, f, e', f'] <;> simp <;> omega

theorem nodeOfs_lt (hapi : api ≤ defAddrsPerInode) (h : getNodePath api block = some p)
    (hn : n ≤ p.level) : p.nodeOfs n < 2 ^ 21 := by
  obtain ⟨-, e, -⟩ | ⟨d, hd, -, -, e, -⟩ | ⟨d, hd, -, -, e, -⟩ | ⟨d, i, hd, hi, -, -, e, -⟩ |
    ⟨-, -, e, -⟩ | ⟨i, hi, -, -, e, -⟩ | ⟨i, j, hi, hj, -, -, e, -⟩ := nodeOfs_cases hapi h hn <;>
  rw [e] <;> omega

/-- `IS_DNODE` below the offset of the xattr node. -/
theorem isDnode_iff {page : NodeFooter} (hlt : page.ofsOfNode < 2 ^ 29 - 1) :
    page.isDnode = true ↔ page.ofsOfNode ≠ 3 ∧ page.ofsOfNode ≠ 1022 ∧ page.ofsOfNode ≠ 2041 ∧
      ¬ (2042 ≤ page.ofsOfNode ∧ (page.ofsOfNode - 2042) % 1019 = 0) := by
  have hxattr : xattrNodeOffset = 2 ^ 29 - 1 := by decide
  unfold NodeFooter.isDnode
  dsimp only [nidsPerBlock]
  rw [hxattr, if_neg (by omega)]
  split_ifs with hind hdind
  · exact iff_of_false (by decide) (by omega)
  · exact iff_of_false (by decide) (by omega)
  · exact iff_of_true rfl (by omega)

/-- Of the nodes on a path `IS_DNODE` holds for the inode and for the last one. -/
theorem isDnode_nodeOfs (hapi : api ≤ defAddrsPerInode) (h : getNodePath api block = some p)
    (hn : n ≤ p.level) {page : NodeFooter} (hpage : page.ofsOfNode = p.nodeOfs n) :
    page.isDnode = true ↔ n = 0 ∨ n = p.level := by
  have hlt := nodeOfs_lt hapi h hn
  rw [isDnode_iff (by omega), hpage]
  obtain ⟨rfl, e, -⟩ | ⟨d, hd, rfl, hl, e, -⟩ | ⟨d, hd, rfl, hl, e, -⟩ |
    ⟨d, i, hd, hi, rfl, hl, e, -⟩ | ⟨rfl, hl, e, -⟩ | ⟨i, hi, rfl, hl, e, -⟩ |
    ⟨i, j, hi, hj, rfl, hl, e, -⟩ := nodeOfs_cases hapi h hn <;>
  rw [e] <;> omega

end

/-- The offsets `get_node_path` gives are different for different nodes and not the one of
    the xattr node; the footer gives them back whatever marks are set or cleared after
    `fill_node_footer`, and a copied footer keeps its own; `IS_DNODE` holds for the inode,
    for the nodes that hold addresses and for the xattr node. -/
theorem nodeOfs_numbering (api : Nat) (hapi : api ≤ defAddrsPerInode) :
    (∀ (block block' : Nat) (p p' : NodePath), getNodePath api block = some p →
      getNodePath api block' = some p' → ∀ n ≤ p.level, ∀ n' ≤ p'.level,
        (p.nodeOfs n = p'.nodeOfs n' ↔ p.position n = p'.position n')) ∧
    (∀ (block : Nat) (p : NodePath), getNodePath api block = some p → ∀ n ≤ p.level,
      p.nodeOfs n ≠ xattrNodeOffset ∧
      ∀ (page : NodeFooter) (nid ino : Nat) (reset : Bool) (marks : List MarkOp),
        let page' := marks.foldl NodeFooter.applyMark
          (page.fillNodeFooter nid ino (p.nodeOfs n) reset)
        page'.ofsOfNode = p.nodeOfs n ∧ (page'.isDnode = true ↔ n = 0 ∨ n = p.level) ∧
        ∀ (dst : NodeFooter) (marks' : List MarkOp),
          (marks'.foldl NodeFooter.applyMark ((dst.copyNodeFooter page').fillNodeFooter nid ino
            page'.ofsOfNode false)).ofsOfNode = p.nodeOfs n) ∧
    ∀ (page : NodeFooter) (nid ino : Nat) (reset : Bool) (marks : List MarkOp),
      let page' := marks.foldl NodeFooter.applyMark
        (page.fillNodeFooter nid ino xattrNodeOffset reset)
      page'.ofsOfNode = xattrNodeOffset ∧ page'.isDnode = true := by
  have hxattr : xattrNodeOffset = 2 ^ 29 - 1 := by decide
  refine ⟨fun block block' p p' h h' n hn n' hn' => nodeOfs_eq_iff hapi h hn h' hn',
    fun block p h n hn => ?_, fun page nid ino reset marks => ?_⟩
  · have hlt := nodeOfs_lt hapi h hn
    refine ⟨by omega, fun page nid ino reset marks => ?_⟩
    have hofs := ((fillNodeFooter_holds page nid ino reset
      (show p.nodeOfs n < 2 ^ 29 by omega)).applyMarks marks).ofsOfNode
    refine ⟨hofs, isDnode_nodeOfs hapi h hn hofs, fun dst marks' => ?_⟩
    rw [hofs]
    exact ((fillNodeFooter_holds _ nid ino false (by omega)).applyMarks marks').ofsOfNode
  · have hofs := ((fillNodeFooter_holds page nid ino reset
      (show xattrNodeOffset < 2 ^ 29 by omega)).applyMarks marks).ofsOfNode
    refine ⟨hofs, ?_⟩
    unfold NodeFooter.isDnode
    dsimp only
    rw [if_pos hofs]

/-- The last direct node of the largest file, synced with a dentry mark. -/
theorem lastDnode_numbering : ∃ p, getNodePath 923 (1057053438 : Nat) = some p ∧
    p.nodeOfs 3 ≠ xattrNodeOffset ∧
      (([MarkOp.fsyncMark true, .dentryMark false].foldl NodeFooter.applyMark
        (NodeFooter.fillNodeFooter ⟨0, 0, 0, 0, 0⟩ 9 4 (p.nodeOfs 3) true)).isDnode = true ↔
          3 = 0 ∨ 3 = p.level) := by
  have hsome : getNodePath 923 (1057053438 : Nat) =
      some { level := 3, offset := [928, 1017, 1017, 1017],
             noffset := [0, 2041, 1038365, 1039383] } := by decide +kernel
  obtain ⟨-, h, -⟩ := nodeOfs_numbering 923 (by decide)
  obtain ⟨hne, hpage⟩ := h _ _ hsome 3 (by decide)
  exact ⟨_, hsome, hne, (hpage ⟨0, 0, 0, 0, 0⟩ 9 4 true [.fsyncMark true, .dentryMark false]).2.1⟩

end F2fs.Node

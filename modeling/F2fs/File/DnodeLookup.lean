/-
  `get_dnode_of_data` as a reader calls it (`LOOKUP_NODE`), and `get_next_page_offset`.

  A lookup that ends with `-ENOENT` leaves in `dn` the depth of the node that is missing
  and the depth of the path.  `get_next_page_offset` makes of these the first block that
  does not lead through the missing node; the blocks before it are holes
  (`blockAddr_before_next`).

  The reads of node pages may fail; `read` says which ones do.
-/
import F2fs.Truncate.FileBlocks

namespace F2fs.File

open F2fs.Node F2fs.Truncate

/-! ## A file -/

/-- A file, its index tree and the inode page. -/
structure MappedFile where
  ino : Nat
  layout : InodeLayout
  index : Index
  /-- `FI_INLINE_DATA` -/
  inlineData : Bool
  /-- the words of a page are 32 bits wide -/
  addr_lt : ∀ page ofs, dataAddr layout index page ofs < 2 ^ 32
  /-- the first address slot is reserved in front of inline data -/
  reserved : inlineData = true →
    0 < layout.addrsPerInode ∧ dataAddr layout index .inode 0 = nullAddr

/-- Which reads of node pages fail, by nid. -/
abbrev NodeReads := Nat → Option ReadError

/-- Every read succeeds. -/
def noFailure : NodeReads := fun _ => none

/-- What a failed lookup returns, with `dn->cur_level` and `dn->max_level`. -/
structure LookupError where
  err : Errno
  curLevel : Nat
  maxLevel : Nat
  deriving DecidableEq

/-- A failure other than `-ENOENT` on the path leaves the levels at zero. -/
def lookupError (err : Errno) (curLevel maxLevel : Nat) : LookupError :=
  if err = .enoent then ⟨err, curLevel, maxLevel⟩ else ⟨err, 0, 0⟩

/-! ## `get_dnode_of_data` -/

section

variable (file : MappedFile) (read : NodeReads)

/-- `get_node_page`. -/
def readNodePage (nid : Nat) : Except Errno Unit := getNodePage { node := read } file.index nid

/-- The nodes at depths 1 to `i` of a path with `level` nodes. -/
def readPath (offset : Nat → Nat) (level : Nat) : Nat → Except LookupError Unit
  | 0 => .ok ()
  | i + 1 =>
    match readPath offset level i with
    | .error e => .error e
    | .ok _ =>
      match readNodePage file read (pathNid file.index offset i) with
      | .error e => .error (lookupError e (i + 1) level)
      | .ok _ => .ok ()

/-- `get_dnode_of_data` along the path of the block. -/
def lookupPage (index : Nat) (p : NodePath) : Except LookupError (DataPage × Nat) :=
  match readNodePage file read file.ino with
  | .error e => .error ⟨e, 0, 0⟩
  | .ok _ =>
    -- no block of a file with inline data has an index but the first
    if file.inlineData = true ∧ index ≠ 0 then .error ⟨.enoent, 0, p.level⟩
    else
      match readPath file read (offsetOf p) p.level p.level with
      | .error e => .error e
      | .ok _ =>
        if p.level = 0 then .ok (.inode, offsetOf p 0)
        else .ok (.node (pathNid file.index (offsetOf p) (p.level - 1)), offsetOf p p.level)

/-- `get_dnode_of_data` from the path of the block on. -/
def lookupPath (index : Nat) : Option NodePath → Except LookupError (DataPage × Nat)
  | none => .error ⟨.e2big, 0, 0⟩
  | some p => lookupPage file read index p

/-- `get_dnode_of_data` with `LOOKUP_NODE`. -/
def getDnodeOfData (index : Nat) : Except LookupError (DataPage × Nat) :=
  lookupPath file read index (getNodePath file.layout.addrsPerInode (toLong index))

end

/-- `get_next_page_offset`. -/
def getNextPageOffset (addrsPerInode : Nat) (dn : LookupError) (pgofs : Nat) : Nat :=
  let indirectBlks := addrsPerBlock * nidsPerBlock
  let skippedUnit :=
    (fun unit => u32 (unit * nidsPerBlock))^[dn.maxLevel - dn.curLevel] addrsPerBlock
  let base :=
    match dn.maxLevel with
    | 3 => 2 * indirectBlks + 2 * addrsPerBlock + addrsPerInode
    | 2 => 2 * addrsPerBlock + addrsPerInode
    | 1 => addrsPerInode
    | _ => 0
  if dn.maxLevel = 0 then pgofs + 1
  else ((pgofs - base) / skippedUnit + 1) * skippedUnit + base

namespace MappedFile

/-- The address in a slot that was found. -/
def addrAt (file : MappedFile) : Except LookupError (DataPage × Nat) → Nat
  | .ok (page, ofs) => dataAddr file.layout file.index page ofs
  | .error _ => nullAddr

/-- The address that a lookup of one block finds, `NULL_ADDR` in a hole. -/
def blockAddr (file : MappedFile) (b : Nat) : Nat := file.addrAt (getDnodeOfData file noFailure b)

/-- Block `b` is stored at `a`. -/
def StoredAt (file : MappedFile) (b a : Nat) : Prop :=
  file.blockAddr b = a ∧ a ≠ nullAddr ∧ a ≠ newAddr

/-- A hole has no block address. -/
def Hole (file : MappedFile) (b : Nat) : Prop := file.blockAddr b = nullAddr

/-- The direct node of the block is missing. -/
def Missing (file : MappedFile) (b : Nat) : Prop := ∃ e, getDnodeOfData file noFailure b = .error e

end MappedFile

/-! ## Reading a path -/

section

variable {file : MappedFile} {read : NodeReads} {offset offset' : Nat → Nat}

theorem readNodePage_ok {nid : Nat} (h : readNodePage file read nid = .ok ()) :
    readNodePage file noFailure nid = .ok () := by
  obtain ⟨h0, haddr⟩ := getNodePage_present h
  unfold readNodePage getNodePage noFailure
  rw [if_neg h0]
  exact if_neg haddr

theorem readNodePage_enoent {nid : Nat} (h : readNodePage file read nid = .error .enoent) :
    readNodePage file noFailure nid = .error .enoent := by
  unfold readNodePage getNodePage noFailure
  rcases getNodePage_error h with ⟨-, h0 | haddr⟩ | ⟨e, he, -⟩
  · rw [if_pos h0]
  · by_cases h0 : nid = 0
    · rw [if_pos h0]
    · rw [if_neg h0]
      exact if_pos haddr
  · cases he

variable (file) in
/-- Without failing reads a node is there or missing. -/
theorem readNodePage_noFailure (nid : Nat) :
    readNodePage file noFailure nid = .ok () ∨
      readNodePage file noFailure nid = .error .enoent := by
  unfold readNodePage getNodePage noFailure
  by_cases h0 : nid = 0
  · exact Or.inr (if_pos h0)
  · rw [if_neg h0]
    by_cases haddr : file.index.nat nid = nullAddr
    · exact Or.inr (if_pos haddr)
    · exact Or.inl (if_neg haddr)

theorem readPath_ok_iff {level n : Nat} :
    readPath file read offset level n = .ok () ↔
      ∀ i, i < n → readNodePage file read (pathNid file.index offset i) = .ok () := by
  induction n with
  | zero => exact ⟨fun _ i hi => absurd hi (Nat.not_lt_zero i), fun _ => rfl⟩
  | succ n ih =>
    constructor
    · intro h i hi
      rw [readPath] at h
      cases hn : readPath file read offset level n with
      | error e =>
        rw [hn] at h
        cases h
      | ok u =>
        rw [hn] at h
        rcases Nat.lt_succ_iff_lt_or_eq.mp hi with hlt | rfl
        · exact ih.mp hn i hlt
        · cases hp : readNodePage file read (pathNid file.index offset i) with
          | error e =>
            simp only [hp] at h
            cases h
          | ok u => rfl
    · intro h
      rw [readPath, ih.mpr fun i hi => h i (Nat.lt_succ_of_lt hi), h n (Nat.lt_succ_self n)]

/-- The node that a path breaks off at. -/
theorem readPath_error {level n : Nat} {e : LookupError}
    (h : readPath file read offset level n = .error e) :
    ∃ i err, i < n ∧ e = lookupError err (i + 1) level ∧
      readNodePage file read (pathNid file.index offset i) = .error err := by
  induction n with
  | zero => cases h
  | succ n ih =>
    rw [readPath] at h
    cases hn : readPath file read offset level n with
    | error e' =>
      rw [hn] at h
      obtain rfl : e' = e := Except.error.inj h
      obtain ⟨i, err, hi, he, hp⟩ := ih hn
      exact ⟨i, err, Nat.lt_succ_of_lt hi, he, hp⟩
    | ok u =>
      rw [hn] at h
      cases hp : readNodePage file read (pathNid file.index offset n) with
      | error err =>
        simp only [hp] at h
        exact ⟨n, err, Nat.lt_succ_self n, (Except.error.inj h).symm, hp⟩
      | ok u =>
        simp only [hp] at h
        cases h

theorem pathNid_congr {s : Index} {i : Nat} (h : ∀ j, j ≤ i → offset' j = offset j) :
    pathNid s offset' i = pathNid s offset i := by
  induction i with
  | zero => rw [pathNid, pathNid, h 0 (Nat.le_refl 0)]
  | succ i ih =>
    rw [pathNid, pathNid, h (i + 1) (Nat.le_refl _), ih fun j hj => h j (Nat.le_succ_of_le hj)]

/-- Paths that begin alike break off at the same node. -/
theorem readPath_missing {level i n : Nat} (hi : i < n)
    (h : readNodePage file read (pathNid file.index offset i) = .error .enoent)
    (ho : ∀ j, j ≤ i → offset' j = offset j) :
    ∃ e, readPath file noFailure offset' level n = .error e := by
  cases hn : readPath file noFailure offset' level n with
  | error e => exact ⟨e, rfl⟩
  | ok u =>
    have hok := readPath_ok_iff.mp hn i hi
    rw [pathNid_congr ho, readNodePage_enoent h] at hok
    cases hok

/-- Two blocks of one direct node are found in the same page. -/
theorem lookupPage_sibling {b : Nat} (b' : Nat) {p p' : NodePath} {page : DataPage} {ofs : Nat}
    (h : lookupPage file read b p = .ok (page, ofs)) (hinline : file.inlineData = false)
    (hlevel : p'.level = p.level) (ho : ∀ i, i < p.level → offsetOf p' i = offsetOf p i) :
    lookupPage file noFailure b' p' = .ok (page, offsetOf p' p.level) ∧
      ofs = offsetOf p p.level ∧ (page = .inode ↔ p.level = 0) := by
  rw [lookupPage] at h
  cases hino : readNodePage file read file.ino with
  | error e =>
    rw [hino] at h
    cases h
  | ok u =>
    have hno : ¬(file.inlineData = true ∧ b ≠ 0) := by simp [hinline]
    have hno' : ¬(file.inlineData = true ∧ b' ≠ 0) := by simp [hinline]
    simp only [hino, if_neg hno] at h
    cases hpath : readPath file read (offsetOf p) p.level p.level with
    | error e =>
      simp only [hpath] at h
      cases h
    | ok u =>
      have hpath' : readPath file noFailure (offsetOf p') p.level p.level = .ok () := by
        refine readPath_ok_iff.mpr fun i hi => ?_
        rw [pathNid_congr fun j hj => ho j (Nat.lt_of_le_of_lt hj hi)]
        exact readNodePage_ok (readPath_ok_iff.mp hpath i hi)
      simp only [hpath] at h
      rw [lookupPage, readNodePage_ok hino]
      simp only [if_neg hno', hlevel, hpath']
      by_cases h0 : p.level = 0
      · rw [if_pos h0] at h ⊢
        cases h
        exact ⟨by rw [h0], by rw [h0], iff_of_true rfl h0⟩
      · rw [if_neg h0] at h ⊢
        cases h
        have hnid : pathNid file.index (offsetOf p') (p.level - 1) =
            pathNid file.index (offsetOf p) (p.level - 1) :=
          pathNid_congr fun j hj => ho j (by omega)
        exact ⟨by rw [hnid], rfl, iff_of_false (fun hc => by cases hc) h0⟩

end

/-! ## Paths that begin alike -/

section

variable {layout : InodeLayout} {p p' : NodePath} {k r r' o o' : Nat}

theorem span_add (a b : Nat) : span (a + b) = span a * span b := Nat.pow_add _ _ _

/-- How far the paths to two direct nodes of one tree agree. -/
theorem pathTo_offsetOf_eq (hp : PathTo p k r o) (hp' : PathTo p' k r' o') {cur : Nat}
    (hcur : cur ≤ p.level) (hr : r' / span (p.level - cur) = r / span (p.level - cur)) :
    ∀ i, i < cur → offsetOf p' i = offsetOf p i := by
  intro i hi
  have hlevel := hp.level
  -- the direct nodes agree in the higher digits too
  have hdigit : r' / span (topLevel k - i) = r / span (topLevel k - i) := by
    have hsplit : topLevel k - i = p.level - cur + (cur - 1 - i) := by omega
    rw [hsplit, span_add, ← Nat.div_div_eq_div_mul, ← Nat.div_div_eq_div_mul, hr]
  have hzero : span 0 = 1 := rfl
  have hone : span 1 = nidsPerBlock := Nat.pow_one _
  rcases Nat.eq_zero_or_pos i with rfl | hpos
  · rw [hp.top, hp'.top]
  rcases topLevel_cases k with hl | hl | hl
  · omega
  · obtain rfl : i = 1 := by omega
    rw [hl, Nat.sub_self, hzero, Nat.div_one, Nat.div_one] at hdigit
    rw [hp.one hl, hp'.one hl, hdigit]
  · rw [hl] at hdigit
    obtain ⟨h₁, h₂⟩ := hp.two hl
    obtain ⟨h₁', h₂'⟩ := hp'.two hl
    rcases (by omega : i = 1 ∨ i = 2) with rfl | rfl
    · rw [h₁, h₁', ← hone]
      exact hdigit
    · rw [Nat.sub_self, hzero, Nat.div_one, Nat.div_one] at hdigit
      rw [h₂, h₂', hdigit]

/-- The last offset of a path is a slot of the page it leads to. -/
theorem offsetOf_last_lt {b : Nat} (h : getNodePath layout.addrsPerInode b = some p) :
    offsetOf p p.level < if p.level = 0 then layout.addrsPerInode else addrsPerBlock := by
  by_cases hb : b < layout.addrsPerInode
  · obtain ⟨q, hq, hlevel, hofs⟩ := getNodePath_inode hb
    obtain rfl : q = p := Option.some.inj (hq.symm.trans h)
    rw [if_pos hlevel, hlevel, hofs]
    exact hb
  · have hmax := (getNodePath_some layout.api_le h).2.2
    obtain ⟨q, k, r, o, hq, hp, -⟩ := getNodePath_node (Nat.not_lt.mp hb) hmax
    obtain rfl : q = p := Option.some.inj (hq.symm.trans h)
    rw [if_neg (by rw [hp.level]; exact Nat.succ_ne_zero _), hp.level, hp.last]
    exact hp.o_lt

theorem level_le {b : Nat} (h : getNodePath layout.addrsPerInode b = some p) : p.level ≤ 3 := by
  by_cases hb : b < layout.addrsPerInode
  · obtain ⟨q, hq, hlevel, -⟩ := getNodePath_inode hb
    obtain rfl : q = p := Option.some.inj (hq.symm.trans h)
    omega
  · have hmax := (getNodePath_some layout.api_le h).2.2
    obtain ⟨q, k, r, o, hq, hp, -⟩ := getNodePath_node (Nat.not_lt.mp hb) hmax
    obtain rfl : q = p := Option.some.inj (hq.symm.trans h)
    rw [hp.level]
    rcases topLevel_cases k with hl | hl | hl <;> rw [hl] <;> decide

/-- The path to a block behind `b` in the same page. -/
theorem getNodePath_sibling {b j : Nat} (h : getNodePath layout.addrsPerInode b = some p)
    (hj : offsetOf p p.level + j <
      if p.level = 0 then layout.addrsPerInode else addrsPerBlock) :
    ∃ p', getNodePath layout.addrsPerInode ((b + j : Nat) : Int) = some p' ∧
      p'.level = p.level ∧ (∀ i, i < p.level → offsetOf p' i = offsetOf p i) ∧
      offsetOf p' p.level = offsetOf p p.level + j ∧
        b + j < layout.addrsPerInode + maxFileBlocks := by
  by_cases hb : b < layout.addrsPerInode
  · obtain ⟨q, hq, hlevel, hofs⟩ := getNodePath_inode hb
    obtain rfl : q = p := Option.some.inj (hq.symm.trans h)
    rw [hlevel, if_pos rfl, hofs] at hj
    obtain ⟨p', hp', hlevel', hofs'⟩ := getNodePath_inode hj
    refine ⟨p', hp', hlevel'.trans hlevel.symm, fun i hi => ?_, ?_, Nat.lt_add_right _ hj⟩
    · omega
    · rw [hlevel, hofs', hofs]
  · have hmax := (getNodePath_some layout.api_le h).2.2
    obtain ⟨q, k, r, o, hq, hp, rfl⟩ := getNodePath_node (Nat.not_lt.mp hb) hmax
    obtain rfl : q = p := Option.some.inj (hq.symm.trans h)
    have hlast : offsetOf q q.level = o := by rw [hp.level, hp.last]
    rw [if_neg (by rw [hp.level]; exact Nat.succ_ne_zero _), hlast] at hj
    obtain ⟨p', hp', hpath'⟩ := getNodePath_blockOf layout hp.k_lt hp.r_lt hj
    have hsame : blockOf layout k r (o + j) = blockOf layout k r o + j := (Nat.add_assoc _ _ _).symm
    rw [hsame] at hp'
    refine ⟨p', hp', hpath'.level.trans hp.level.symm,
      pathTo_offsetOf_eq hp hpath' (Nat.le_refl _) rfl, ?_, ?_⟩
    · rw [hlast, hp.level, hpath'.last]
    · rw [← hsame]
      exact blockOf_lt layout hp.k_lt hp.r_lt hj

/-! ## `get_next_page_offset` -/

/-- The first block behind a missing node: all of its direct nodes are skipped. -/
theorem getNextPageOffset_blockOf (hk : k < defNidsPerInode) (ho : o < addrsPerBlock) {cur : Nat}
    (hpos : 0 < cur) (hcur : cur ≤ topLevel k + 1) (err : Errno) :
    getNextPageOffset layout.addrsPerInode ⟨err, cur, topLevel k + 1⟩ (blockOf layout k r o) =
      blockOf layout k ((r / span (topLevel k + 1 - cur) + 1) * span (topLevel k + 1 - cur)) 0 := by
  have hspan : span 0 = 1 ∧ span 1 = 1018 ∧ span 2 = 1036324 := by decide
  have hunit : u32 (1018 * 1018) = 1036324 ∧ u32 (1036324 * 1018) = 1054977832 := by
    unfold u32
    decide
  obtain ⟨h0, h1, h2⟩ := hspan
  obtain ⟨u1, u2⟩ := hunit
  unfold defNidsPerInode at hk
  unfold addrsPerBlock at ho
  interval_cases k <;> simp only [topLevel] at hcur <;> interval_cases cur <;>
    simp only [getNextPageOffset, blockOf, topLevel, topBase, addrsPerBlock, nidsPerBlock,
      Nat.reduceAdd, Nat.reduceSub, Nat.reduceMul, Function.iterate_succ, Function.iterate_zero,
      Function.comp_apply, id_eq, h0, h1, h2, u1, u2, Nat.succ_ne_zero, if_false] <;>
    omega

/-- A path that leads through the same node as that of `b`, up to depth `cur`. -/
theorem getNodePath_skipped {b c cur : Nat} {err : Errno}
    (h : getNodePath layout.addrsPerInode b = some p) (hpos : 0 < cur) (hcur : cur ≤ p.level)
    (hb : b ≤ c) (hc : c < getNextPageOffset layout.addrsPerInode ⟨err, cur, p.level⟩ b) :
    ∃ p', getNodePath layout.addrsPerInode c = some p' ∧ p'.level = p.level ∧
      (∀ i, i < cur → offsetOf p' i = offsetOf p i) ∧
      c < layout.addrsPerInode + maxFileBlocks := by
  have hge : layout.addrsPerInode ≤ b := by
    by_contra hlt
    obtain ⟨q, hq, hlevel, -⟩ := getNodePath_inode (Nat.not_le.mp hlt)
    obtain rfl : q = p := Option.some.inj (hq.symm.trans h)
    omega
  have hmax := (getNodePath_some layout.api_le h).2.2
  obtain ⟨q, k, r, o, hq, hp, rfl⟩ := getNodePath_node hge hmax
  obtain rfl : q = p := Option.some.inj (hq.symm.trans h)
  rw [hp.level] at hcur
  rw [hp.level, getNextPageOffset_blockOf hp.k_lt hp.o_lt hpos hcur] at hc
  obtain ⟨d, hd⟩ : ∃ d, d = topLevel k + 1 - cur := ⟨_, rfl⟩
  rw [← hd] at hc
  -- block `c` is in a direct node `r'` of the same tree, of the same unit
  obtain ⟨r', o', ho', rfl⟩ : ∃ r' o', o' < addrsPerBlock ∧ c = blockOf layout k r' o' := by
    refine ⟨(c - layout.addrsPerInode) / addrsPerBlock - topBase k,
      (c - layout.addrsPerInode) % addrsPerBlock, Nat.mod_lt _ (by decide), ?_⟩
    unfold blockOf addrsPerBlock at hb ⊢
    omega
  have ho := hp.o_lt
  have hrr : r ≤ r' ∧ r' < (r / span d + 1) * span d := by
    generalize (r / span d + 1) * span d = n at hc
    unfold blockOf addrsPerBlock at hb hc
    unfold addrsPerBlock at ho ho'
    omega
  have hunit : r' / span d = r / span d :=
    Nat.div_eq_of_lt_le (Nat.le_trans (Nat.div_mul_le_self r _) hrr.1) hrr.2
  have hr' : r' < span (topLevel k) := by
    have hsplit : span (topLevel k) = span (topLevel k - d) * span d := by
      rw [← span_add, Nat.sub_add_cancel (by omega)]
    have hdiv : r / span d < span (topLevel k - d) := by
      refine Nat.div_lt_of_lt_mul ?_
      rw [Nat.mul_comm, ← hsplit]
      exact hp.r_lt
    rw [hsplit]
    exact Nat.lt_of_lt_of_le hrr.2 (Nat.mul_le_mul_right _ hdiv)
  obtain ⟨p', hp', hpath'⟩ := getNodePath_blockOf layout hp.k_lt hr' ho'
  refine ⟨p', hp', hpath'.level.trans hp.level.symm, ?_, blockOf_lt layout hp.k_lt hr' ho'⟩
  refine pathTo_offsetOf_eq hp hpath' (by rw [hp.level]; exact hcur) ?_
  rw [hp.level, ← hd]
  exact hunit

end

/-! ## What a lookup says about the blocks behind it -/

section

variable {file : MappedFile} {read : NodeReads} {b : Nat}

theorem api_add_maxFileBlocks_lt (layout : InodeLayout) :
    layout.addrsPerInode + maxFileBlocks < 2 ^ 32 := by
  have hapi := layout.api_le
  have hmax : maxFileBlocks = 1057052516 := rfl
  unfold defAddrsPerInode at hapi
  omega

/-- Why a lookup ends with `-ENOENT`. -/
theorem getDnodeOfData_enoent {e : LookupError} (h : getDnodeOfData file read b = .error e)
    (he : e.err = .enoent) :
    ∃ p, getNodePath file.layout.addrsPerInode (toLong b) = some p ∧
      ((e = ⟨.enoent, 0, 0⟩ ∧ readNodePage file read file.ino = .error .enoent) ∨
      (e = ⟨.enoent, 0, p.level⟩ ∧ file.inlineData = true ∧ b ≠ 0) ∨
      ∃ i, i < p.level ∧ e = ⟨.enoent, i + 1, p.level⟩ ∧
        readNodePage file read (pathNid file.index (offsetOf p) i) = .error .enoent) := by
  rw [getDnodeOfData] at h
  cases hpath : getNodePath file.layout.addrsPerInode (toLong b) with
  | none =>
    rw [hpath] at h
    cases h
    cases he
  | some p =>
    rw [hpath] at h
    refine ⟨p, rfl, ?_⟩
    simp only [lookupPath, lookupPage] at h
    cases hino : readNodePage file read file.ino with
    | error err =>
      rw [hino] at h
      cases h
      obtain rfl : err = .enoent := he
      exact Or.inl ⟨rfl, rfl⟩
    | ok u =>
      simp only [hino] at h
      by_cases hinline : file.inlineData = true ∧ b ≠ 0
      · rw [if_pos hinline] at h
        cases h
        exact Or.inr (Or.inl ⟨rfl, hinline⟩)
      · rw [if_neg hinline] at h
        cases hread : readPath file read (offsetOf p) p.level p.level with
        | ok u =>
          simp only [hread] at h
          split at h <;> cases h
        | error e' =>
          simp only [hread] at h
          obtain rfl : e' = e := Except.error.inj h
          obtain ⟨i, err, hi, rfl, hnode⟩ := readPath_error hread
          have herr : err = .enoent := by
            unfold lookupError at he
            split at he <;> exact he
          subst herr
          exact Or.inr (Or.inr ⟨i, hi, if_pos rfl, hnode⟩)

theorem hole_of_error {e : LookupError} (h : getDnodeOfData file noFailure b = .error e) :
    file.Hole b := by
  unfold MappedFile.Hole MappedFile.blockAddr
  rw [h]
  rfl

theorem MappedFile.Missing.hole (h : file.Missing b) : file.Hole b := by
  obtain ⟨e, he⟩ := h
  exact hole_of_error he

theorem missing_of_lookupPage
    (h : ∀ p, getNodePath file.layout.addrsPerInode (toLong b) = some p →
      ∃ e, lookupPage file noFailure b p = .error e) : file.Missing b := by
  cases hpath : getNodePath file.layout.addrsPerInode (toLong b) with
  | none => exact ⟨⟨.e2big, 0, 0⟩, by rw [getDnodeOfData, hpath, lookupPath]⟩
  | some p =>
    obtain ⟨e, he⟩ := h p hpath
    exact ⟨e, by rw [getDnodeOfData, hpath, lookupPath, he]⟩

theorem missing_of_noInode (h : readNodePage file read file.ino = .error .enoent) :
    file.Missing b :=
  missing_of_lookupPage fun p _ => ⟨_, by rw [lookupPage, readNodePage_enoent h]⟩

/-- A file with inline data has no block but the first. -/
theorem missing_of_inlineData (hinline : file.inlineData = true) (h0 : b ≠ 0) :
    file.Missing b := by
  refine missing_of_lookupPage fun p _ => ?_
  rw [lookupPage]
  rcases readNodePage_noFailure file file.ino with hino | hino
  · exact ⟨_, by rw [hino]; exact if_pos ⟨hinline, h0⟩⟩
  · exact ⟨_, by rw [hino]⟩

/-- A block whose path leads through a missing node. -/
theorem missing_of_node {p : NodePath} {offset : Nat → Nat} {i : Nat}
    (hpath : getNodePath file.layout.addrsPerInode (toLong b) = some p) (hi : i < p.level)
    (h : readNodePage file read (pathNid file.index offset i) = .error .enoent)
    (ho : ∀ j, j ≤ i → offsetOf p j = offset j) : file.Missing b := by
  refine missing_of_lookupPage fun q hq => ?_
  obtain rfl : p = q := Option.some.inj (hpath.symm.trans hq)
  obtain ⟨e, he⟩ : ∃ e, readPath file noFailure (offsetOf p) p.level p.level = .error e :=
    readPath_missing hi h ho
  rw [lookupPage]
  rcases readNodePage_noFailure file file.ino with hino | hino
  · rw [hino, he]
    by_cases hinline : file.inlineData = true ∧ b ≠ 0
    · exact ⟨_, if_pos hinline⟩
    · exact ⟨_, if_neg hinline⟩
  · exact ⟨_, by rw [hino]⟩

/-- The blocks that `get_next_page_offset` skips have no direct node. -/
theorem missing_before_next {e : LookupError} (h : getDnodeOfData file read b = .error e)
    (he : e.err = .enoent) (hlt : b < 2 ^ 63) {c : Nat} (hb : b ≤ c)
    (hc : c < getNextPageOffset file.layout.addrsPerInode e b) : file.Missing c := by
  obtain ⟨p, hpath, ⟨-, hino⟩ | ⟨-, hinline, h0⟩ | ⟨i, hi, rfl, hnode⟩⟩ :=
    getDnodeOfData_enoent h he
  · exact missing_of_noInode hino
  · exact missing_of_inlineData hinline (by omega)
  · rw [toLong_of_lt hlt] at hpath
    obtain ⟨p', hp', hlevel, ho, hcmax⟩ :=
      getNodePath_skipped hpath (Nat.succ_pos i) hi hb hc
    have hlong := api_add_maxFileBlocks_lt file.layout
    rw [← toLong_of_lt (n := c) (by omega)] at hp'
    exact missing_of_node hp' (hlevel.symm ▸ hi) hnode fun j hj => ho j (Nat.lt_succ_of_le hj)

theorem hole_before_next {e : LookupError} (h : getDnodeOfData file read b = .error e)
    (he : e.err = .enoent) (hlt : b < 2 ^ 63) {c : Nat} (hb : b ≤ c)
    (hc : c < getNextPageOffset file.layout.addrsPerInode e b) : file.Hole c :=
  (missing_before_next h he hlt hb hc).hole

/-- A skip gets ahead. -/
theorem lt_getNextPageOffset {e : LookupError} (h : getDnodeOfData file read b = .error e)
    (he : e.err = .enoent) (hlt : b < 2 ^ 63) :
    b < getNextPageOffset file.layout.addrsPerInode e b := by
  have hmax : e.maxLevel ≤ 3 := by
    obtain ⟨p, hpath, hcases⟩ := getDnodeOfData_enoent h he
    rw [toLong_of_lt hlt] at hpath
    have hlevel := level_le hpath
    rcases hcases with ⟨rfl, -⟩ | ⟨rfl, -⟩ | ⟨i, -, rfl, -⟩
    · exact Nat.zero_le 3
    · exact hlevel
    · exact hlevel
  have hunit : ∀ d, d ≤ 3 →
      0 < (fun unit => u32 (unit * nidsPerBlock))^[d] addrsPerBlock := by
    intro d hd
    unfold u32
    interval_cases d <;> decide
  rw [getNextPageOffset]
  split
  · exact Nat.lt_succ_self b
  · have hpos := hunit (e.maxLevel - e.curLevel) (by omega)
    generalize (fun unit => u32 (unit * nidsPerBlock))^[e.maxLevel - e.curLevel] addrsPerBlock =
      unit at hpos ⊢
    split
    all_goals
      refine lt_add_of_tsub_lt_right ?_
      rw [Nat.add_mul, Nat.one_mul]
      exact Nat.lt_div_mul_add hpos

/-- In a page that was found, the next slots are those of the next blocks. -/
theorem getDnodeOfData_in_page {page : DataPage} {ofs j : Nat}
    (h : getDnodeOfData file read b = .ok (page, ofs)) (hinline : file.inlineData = false)
    (hlt : b < 2 ^ 63) (hj : ofs + j < addrsPerPage file.layout page) :
    getDnodeOfData file noFailure (b + j) = .ok (page, ofs + j) := by
  rw [getDnodeOfData] at h
  rw [toLong_of_lt hlt] at h
  cases hpath : getNodePath file.layout.addrsPerInode b with
  | none =>
    rw [hpath] at h
    cases h
  | some p =>
    rw [hpath] at h
    obtain ⟨-, rfl, hpage⟩ := lookupPage_sibling b h hinline rfl fun _ _ => rfl
    have hslots : addrsPerPage file.layout page =
        if p.level = 0 then file.layout.addrsPerInode else addrsPerBlock := by
      by_cases h0 : p.level = 0
      · rw [if_pos h0, hpage.mpr h0]
        rfl
      · rw [if_neg h0]
        cases page with
        | inode => exact absurd (hpage.mp rfl) h0
        | node nid => rfl
    rw [hslots] at hj
    obtain ⟨p', hp', hlevel, ho, hlast, hmax⟩ := getNodePath_sibling hpath hj
    have hlong := api_add_maxFileBlocks_lt file.layout
    obtain ⟨hfound, -, -⟩ := lookupPage_sibling (b + j) h hinline hlevel ho
    unfold getDnodeOfData
    rw [toLong_of_lt (by omega), hp']
    simp only [lookupPath, hfound, hlast]

/-- In a page that was found, the next addresses are those of the next blocks. -/
theorem blockAddr_in_page {page : DataPage} {ofs j : Nat}
    (h : getDnodeOfData file read b = .ok (page, ofs)) (hinline : file.inlineData = false)
    (hlt : b < 2 ^ 63) (hj : ofs + j < addrsPerPage file.layout page) :
    file.blockAddr (b + j) = dataAddr file.layout file.index page (ofs + j) := by
  unfold MappedFile.blockAddr
  rw [getDnodeOfData_in_page h hinline hlt hj]
  rfl

/-- The first block that is looked for is in the page. -/
theorem ofs_lt_addrsPerPage {page : DataPage} {ofs : Nat}
    (h : getDnodeOfData file read b = .ok (page, ofs)) (hlt : b < 2 ^ 63) :
    ofs < addrsPerPage file.layout page := by
  rw [getDnodeOfData] at h
  rw [toLong_of_lt hlt] at h
  cases hpath : getNodePath file.layout.addrsPerInode b with
  | none =>
    rw [hpath] at h
    cases h
  | some p =>
    rw [hpath] at h
    have hlast := offsetOf_last_lt hpath
    simp only [lookupPath, lookupPage] at h
    split at h
    · cases h
    split at h
    · cases h
    split at h
    · cases h
    by_cases h0 : p.level = 0
    · rw [if_pos h0] at h hlast
      cases h
      rw [h0] at hlast
      exact hlast
    · rw [if_neg h0] at h hlast
      cases h
      exact hlast

/-- Slot `ofs` of the page is that of block `b`; the slot behind the last one counts. -/
def AtSlot (layout : InodeLayout) (page : DataPage) (b ofs : Nat) : Prop :=
  match page with
  | .inode => b = ofs
  | .node _ => ∃ q, b = layout.addrsPerInode + addrsPerBlock * q + ofs

/-- Block `b` is the first one of a direct node. -/
def FirstInDnode (layout : InodeLayout) (b : Nat) : Prop :=
  layout.addrsPerInode ≤ b ∧ (b - layout.addrsPerInode) % addrsPerBlock = 0

theorem AtSlot.add {layout : InodeLayout} {page : DataPage} {ofs : Nat}
    (h : AtSlot layout page b ofs) (j : Nat) : AtSlot layout page (b + j) (ofs + j) := by
  cases page with
  | inode => exact congrArg (· + j) h
  | node nid =>
    obtain ⟨q, rfl⟩ := h
    exact ⟨q, Nat.add_assoc _ _ _⟩

/-- Behind the last slot of a page a direct node begins. -/
theorem AtSlot.firstInDnode {layout : InodeLayout} {page : DataPage}
    (h : AtSlot layout page b (addrsPerPage layout page)) : FirstInDnode layout b := by
  cases page with
  | inode =>
    obtain rfl : b = layout.addrsPerInode := h
    exact ⟨Nat.le_refl _, by rw [Nat.sub_self, Nat.zero_mod]⟩
  | node nid =>
    obtain ⟨q, rfl⟩ := h
    show layout.addrsPerInode ≤ layout.addrsPerInode + addrsPerBlock * q + addrsPerBlock ∧
      (layout.addrsPerInode + addrsPerBlock * q + addrsPerBlock - layout.addrsPerInode) %
        addrsPerBlock = 0
    unfold addrsPerBlock
    omega

theorem AtSlot.not_firstInDnode {layout : InodeLayout} {page : DataPage} {ofs : Nat}
    (h : AtSlot layout page b ofs) (hpos : 0 < ofs) (hlt : ofs < addrsPerPage layout page) :
    ¬FirstInDnode layout b := by
  unfold FirstInDnode
  cases page with
  | inode =>
    obtain rfl : b = ofs := h
    have hlt' : b < layout.addrsPerInode := hlt
    omega
  | node nid =>
    obtain ⟨q, rfl⟩ := h
    have hlt' : ofs < addrsPerBlock := hlt
    unfold addrsPerBlock at hlt' ⊢
    omega

/-- The slot that a lookup finds. -/
theorem getDnodeOfData_slot {page : DataPage} {ofs : Nat}
    (h : getDnodeOfData file read b = .ok (page, ofs)) (hlt : b < 2 ^ 63) :
    AtSlot file.layout page b ofs := by
  rw [getDnodeOfData, toLong_of_lt hlt] at h
  cases hpath : getNodePath file.layout.addrsPerInode b with
  | none =>
    rw [hpath] at h
    cases h
  | some p =>
    rw [hpath] at h
    simp only [lookupPath, lookupPage] at h
    split at h
    · cases h
    split at h
    · cases h
    split at h
    · cases h
    by_cases hb : b < file.layout.addrsPerInode
    · obtain ⟨q, hq, hlevel, hofs⟩ := getNodePath_inode hb
      obtain rfl : q = p := Option.some.inj (hq.symm.trans hpath)
      rw [if_pos hlevel, hofs] at h
      cases h
      exact rfl
    · have hmax := (getNodePath_some file.layout.api_le hpath).2.2
      obtain ⟨q, k, r, o, hq, hp, rfl⟩ := getNodePath_node (Nat.not_lt.mp hb) hmax
      obtain rfl : q = p := Option.some.inj (hq.symm.trans hpath)
      rw [if_neg (by rw [hp.level]; exact Nat.succ_ne_zero _), hp.level, hp.last] at h
      cases h
      exact ⟨topBase k + r, rfl⟩

theorem readPath_ok {offset : Nat → Nat} {level n : Nat}
    (h : readPath file read offset level n = .ok ()) :
    readPath file noFailure offset level n = .ok () :=
  readPath_ok_iff.mpr fun i hi => readNodePage_ok (readPath_ok_iff.mp h i hi)

/-- A page that is found would be found without failures, too. -/
theorem blockAddr_of_ok {page : DataPage} {ofs : Nat}
    (h : getDnodeOfData file read b = .ok (page, ofs)) :
    file.blockAddr b = dataAddr file.layout file.index page ofs := by
  have hfound : getDnodeOfData file noFailure b = .ok (page, ofs) := by
    rw [getDnodeOfData] at h ⊢
    cases hpath : getNodePath file.layout.addrsPerInode (toLong b) with
    | none =>
      rw [hpath] at h
      cases h
    | some p =>
      rw [hpath] at h
      simp only [lookupPath, lookupPage] at h ⊢
      cases hino : readNodePage file read file.ino with
      | error e =>
        rw [hino] at h
        cases h
      | ok u =>
        rw [hino] at h
        rw [readNodePage_ok hino]
        by_cases hinline : file.inlineData = true ∧ b ≠ 0
        · simp only [if_pos hinline] at h
          cases h
        · simp only [if_neg hinline] at h ⊢
          cases hread : readPath file read (offsetOf p) p.level p.level with
          | error e =>
            simp only [hread] at h
            cases h
          | ok u =>
            simp only [hread] at h
            simp only [readPath_ok hread]
            exact h
  rw [MappedFile.blockAddr, hfound, MappedFile.addrAt]

/-- No path leads to a block behind the double indirect tree. -/
theorem lt_of_address (hlt : b < 2 ^ 63) (hnull : file.blockAddr b ≠ nullAddr) :
    b < file.layout.addrsPerInode + maxFileBlocks := by
  cases hpath : getNodePath file.layout.addrsPerInode b with
  | none =>
    refine absurd (missing_of_lookupPage fun p hp => ?_).hole hnull
    rw [toLong_of_lt hlt, hpath] at hp
    cases hp
  | some p => exact (getNodePath_some file.layout.api_le hpath).2.2

/-- Without failing reads the lookup of a block of a file fails with `-ENOENT` only. -/
theorem enoent_of_noFailure {e : LookupError} (h : getDnodeOfData file noFailure b = .error e)
    (hb : b < maxFileBlocks) : e.err = .enoent := by
  have hnode : ∀ {nid : Nat} {err : Errno},
      readNodePage file noFailure nid = .error err → err = .enoent := by
    intro nid err hread
    rcases readNodePage_noFailure file nid with hok | henoent
    · rw [hok] at hread
      cases hread
    · exact Except.error.inj (hread.symm.trans henoent)
  have hlong := api_add_maxFileBlocks_lt file.layout
  rw [getDnodeOfData, toLong_of_lt (by omega)] at h
  cases hpath : getNodePath file.layout.addrsPerInode b with
  | none =>
    rcases Nat.lt_or_ge b file.layout.addrsPerInode with hlt | hge
    · obtain ⟨p, hp, -⟩ := getNodePath_inode hlt
      rw [hp] at hpath
      cases hpath
    · obtain ⟨p, -, -, -, hp, -⟩ := getNodePath_node hge (by omega)
      rw [hp] at hpath
      cases hpath
  | some p =>
    rw [hpath] at h
    simp only [lookupPath, lookupPage] at h
    split at h
    · rename_i hino
      cases h
      exact hnode hino
    split at h
    · cases h
      rfl
    split at h
    · rename_i hread
      cases h
      obtain ⟨i, err, -, rfl, hnid⟩ := readPath_error hread
      rw [hnode hnid]
      rfl
    · split at h <;> cases h

theorem lt_of_found {r : DataPage × Nat} (h : getDnodeOfData file read b = .ok r)
    (hlt : b < 2 ^ 63) : b < file.layout.addrsPerInode + maxFileBlocks := by
  rw [getDnodeOfData, toLong_of_lt hlt] at h
  cases hpath : getNodePath file.layout.addrsPerInode b with
  | none =>
    rw [hpath] at h
    cases h
  | some p => exact (getNodePath_some file.layout.api_le hpath).2.2

/-- There are no block addresses beside inline data. -/
theorem blockAddr_inlineData (hinline : file.inlineData = true) (b : Nat) : file.Hole b := by
  rcases Nat.eq_zero_or_pos b with rfl | hpos
  · obtain ⟨hapi, hnull⟩ := file.reserved hinline
    obtain ⟨p, hp, hlevel, hofs⟩ := getNodePath_inode hapi
    rw [← toLong_of_lt (n := 0) (by decide)] at hp
    rw [MappedFile.Hole, MappedFile.blockAddr, getDnodeOfData, hp, lookupPath, lookupPage]
    rcases readNodePage_noFailure file file.ino with hino | hino
    · rw [hino]
      simp [hlevel, readPath, hofs, MappedFile.addrAt, hnull]
    · rw [hino]
      rfl
  · exact (missing_of_inlineData hinline (Nat.pos_iff_ne_zero.mp hpos)).hole

theorem blockAddr_lt (file : MappedFile) (b : Nat) : file.blockAddr b < 2 ^ 32 := by
  unfold MappedFile.blockAddr
  cases getDnodeOfData file noFailure b with
  | ok r => exact file.addr_lt r.1 r.2
  | error e => exact Nat.two_pow_pos 32

end

/-- A file without index nodes. -/
def smallFile (addr : Nat → Nat) (h : ∀ i, addr i < 2 ^ 32) : MappedFile where
  ino := 4
  layout := ⟨0, 923, Truncate.InodeLayout.plain_fits⟩
  index := ⟨addr, fun _ => 0, fun _ _ => 0, fun _ => 1, [], 0, 0, 0⟩
  inlineData := false
  addr_lt := fun page ofs => by
    cases page with
    | inode => exact h _
    | node nid => exact Nat.two_pow_pos 32
  reserved := fun hinline => by cases hinline

theorem smallFile_blockAddr (addr : Nat → Nat) (h : ∀ i, addr i < 2 ^ 32) (b : Nat) :
    (smallFile addr h).blockAddr b = nullAddr ∨ ∃ i, (smallFile addr h).blockAddr b = addr i := by
  unfold MappedFile.blockAddr
  cases getDnodeOfData (smallFile addr h) noFailure b with
  | error e => exact Or.inl rfl
  | ok r =>
    obtain ⟨page, ofs⟩ := r
    cases page with
    | inode => exact Or.inr ⟨0 + ofs, rfl⟩
    | node nid => exact Or.inl rfl

end F2fs.File

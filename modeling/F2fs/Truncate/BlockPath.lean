/-
  Where a block index leads.

  Block `o` of direct node `topBase k + r` is in the tree of `i_nid[k]`; `PathTo p k r o`
  says that `offset[]` leads there.  `get_dnode_of_data` then finds the direct node
  `dnodeOf s k r`, or `-ENOENT` if that is missing.
-/
import F2fs.Truncate.TruncateInode

namespace F2fs.Truncate

open F2fs.Node

/-- The path ends in block `o` of the direct node `r` of tree `k`. -/
structure PathTo (p : NodePath) (k r o : Nat) : Prop where
  k_lt : k < defNidsPerInode
  r_lt : r < span (topLevel k)
  o_lt : o < addrsPerBlock
  level : p.level = topLevel k + 1
  top : offsetOf p 0 = nodeDir1Block + k
  last : offsetOf p (topLevel k + 1) = o
  one : topLevel k = 1 → offsetOf p 1 = r
  two : topLevel k = 2 → offsetOf p 1 = r / nidsPerBlock ∧ offsetOf p 2 = r % nidsPerBlock

/-- The block index of block `o` of direct node `topBase k + r`. -/
def blockOf (layout : InodeLayout) (k r o : Nat) : Nat :=
  layout.addrsPerInode + addrsPerBlock * (topBase k + r) + o

/-- The direct node `r` of tree `k`. -/
def dnodeOf (s : Index) (k r : Nat) : Nat := dnodeAt s.word (topLevel k) (s.iNid k) r

variable {layout : InodeLayout} {s : Index}

theorem InodeLayout.api_le (layout : InodeLayout) : layout.addrsPerInode ≤ defAddrsPerInode := by
  have := layout.fits
  omega

theorem getNodePath_inode {b : Nat} (hb : b < layout.addrsPerInode) :
    ∃ p, getNodePath layout.addrsPerInode b = some p ∧ p.level = 0 ∧ offsetOf p 0 = b := by
  obtain ⟨-, e⟩ | ⟨d, o, -, -, hb', -⟩ | ⟨d, i, o, -, -, -, hb', -⟩ | ⟨i, j, o, -, -, -, hb', -⟩ |
    ⟨hb', -⟩ := getNodePath_cases b layout.api_le
  · exact ⟨_, e, rfl, Int.toNat_natCast b⟩
  all_goals omega

theorem getNodePath_node {b : Nat} (hb : layout.addrsPerInode ≤ b)
    (hmax : b < layout.addrsPerInode + maxFileBlocks) :
    ∃ p k r o, getNodePath layout.addrsPerInode b = some p ∧ PathTo p k r o ∧
      b = blockOf layout k r o := by
  obtain ⟨hb', -⟩ | ⟨d, o, hd, ho, hb', e⟩ | ⟨d, i, o, hd, hi, ho, hb', e⟩ |
    ⟨i, j, o, hi, hj, ho, hb', e⟩ | ⟨hb', -⟩ := getNodePath_cases b layout.api_le
  · omega
  · have hlevel : topLevel d = 0 := by interval_cases d <;> rfl
    have hbase : topBase d = d := by rw [topBase_eq, if_pos (by omega)]
    refine ⟨_, d, 0, o, e, ⟨?_, ?_, ho, by rw [hlevel], ?_, ?_, ?_, ?_⟩, ?_⟩
    · unfold defNidsPerInode
      omega
    · exact span_pos _
    · show (924 + (d : Int)).toNat = nodeDir1Block + d
      unfold nodeDir1Block defAddrsPerInode
      omega
    · rw [hlevel]
      exact Int.toNat_natCast o
    · intro h
      rw [hlevel] at h
      cases h
    · intro h
      rw [hlevel] at h
      cases h
    · unfold blockOf addrsPerBlock
      rw [hbase]
      omega
  · have hlevel : topLevel (2 + d) = 1 := by interval_cases d <;> rfl
    have hbase : topBase (2 + d) = 2 + d * 1018 := by interval_cases d <;> rfl
    refine ⟨_, 2 + d, i, o, e, ⟨?_, ?_, ho, by rw [hlevel], ?_, ?_, ?_, ?_⟩, ?_⟩
    · unfold defNidsPerInode
      omega
    · rw [hlevel]
      exact hi
    · show (926 + (d : Int)).toNat = nodeDir1Block + (2 + d)
      unfold nodeDir1Block defAddrsPerInode
      omega
    · rw [hlevel]
      exact Int.toNat_natCast o
    · exact fun _ => Int.toNat_natCast i
    · intro h
      rw [hlevel] at h
      cases h
    · unfold blockOf addrsPerBlock
      rw [hbase]
      omega
  · refine ⟨_, 4, i * 1018 + j, o, e, ⟨by decide, ?_, ho, rfl, rfl, ?_, ?_, ?_⟩, ?_⟩
    · show i * 1018 + j < 1018 * 1018
      omega
    · exact Int.toNat_natCast o
    · exact fun h => absurd h (by decide)
    · intro _
      refine ⟨?_, ?_⟩
      · rw [show (i * 1018 + j) / nidsPerBlock = i by unfold nidsPerBlock; omega]
        exact Int.toNat_natCast i
      · rw [show (i * 1018 + j) % nidsPerBlock = j by unfold nidsPerBlock; omega]
        exact Int.toNat_natCast j
    · show b = layout.addrsPerInode + 1018 * (2038 + (i * 1018 + j)) + o
      omega
  · omega

theorem toLong_block {b : Nat} (hb : b < layout.addrsPerInode + maxFileBlocks) : toLong b = b := by
  have hapi := layout.api_le
  have hmax : maxFileBlocks = 1057052516 := rfl
  unfold defAddrsPerInode at hapi
  exact toLong_of_lt (by omega)

/-! ## Reading the path -/

section

variable {env : TruncEnv} {p : NodePath} {k r o : Nat}

theorem pathNid_zero (hp : PathTo p k r o) : pathNid s (offsetOf p) 0 = s.iNid k := by
  unfold pathNid
  rw [hp.top, Nat.add_sub_cancel_left]

theorem pathNid_one (hp : PathTo p k r o) (hl : topLevel k = 1) :
    pathNid s (offsetOf p) 1 = s.word (s.iNid k) r := by
  rw [pathNid, pathNid_zero hp, hp.one hl]

theorem pathNid_two (hp : PathTo p k r o) (hl : topLevel k = 2) :
    pathNid s (offsetOf p) 1 = s.word (s.iNid k) (r / nidsPerBlock) ∧
      pathNid s (offsetOf p) 2 =
        s.word (s.word (s.iNid k) (r / nidsPerBlock)) (r % nidsPerBlock) := by
  have h₁ : pathNid s (offsetOf p) 1 = s.word (s.iNid k) (r / nidsPerBlock) := by
    rw [pathNid, pathNid_zero hp, (hp.two hl).1]
  exact ⟨h₁, by rw [pathNid, h₁, (hp.two hl).2]⟩

theorem dnodeAt_one {w : Words} {nid : Nat} (h0 : nid ≠ 0) (r : Nat) :
    dnodeAt w 1 nid r = w nid r := by
  have hspan : span 0 = 1 := rfl
  rw [dnodeAt, if_neg h0, dnodeAt, hspan, Nat.div_one]

theorem dnodeAt_two {w : Words} {nid : Nat} (h0 : nid ≠ 0) (r : Nat) :
    dnodeAt w 2 nid r = dnodeAt w 1 (w nid (r / nidsPerBlock)) (r % nidsPerBlock) := by
  have hspan : span 1 = nidsPerBlock := Nat.pow_one _
  rw [dnodeAt, if_neg h0, hspan]

/-- Reading a node of a tree. -/
theorem getNodePage_tree (env : TruncEnv) {m : Nat} (hm : m ≠ 0 → s.nat m ≠ nullAddr) :
    (getNodePage env s m = .ok () → m ≠ 0) ∧
    (getNodePage env s m = .error .enoent → m = 0) ∧
    (env.node = (fun _ => none) → m ≠ 0 → getNodePage env s m = .ok ()) := by
  refine ⟨fun h => (getNodePage_present h).1, fun h => ?_, fun henv h0 => ?_⟩
  · rcases getNodePage_error h with ⟨-, hz | hz⟩ | ⟨r, hr, -⟩
    · exact hz
    · by_contra h0
      exact hm h0 hz
    · cases hr
  · unfold getNodePage
    rw [if_neg h0, henv]
    exact if_neg (hm h0)

/-- What `getPathPages` is to say about a direct node `d` at the end of a path. -/
structure ReadsTo (env : TruncEnv) (pages : Except Errno Unit) (d found : Nat) : Prop where
  ok : pages = .ok () → d ≠ 0 ∧ found = d
  enoent : pages = .error .enoent → d = 0
  present : env.node = (fun _ => none) → d ≠ 0 → pages = .ok ()

/-- A page above, which has to be there. -/
theorem ReadsTo.below {m d found : Nat} {rest : Except Errno Unit}
    (hm : m ≠ 0 → s.nat m ≠ nullAddr) (hd : m = 0 → d = 0)
    (hc : m ≠ 0 → ReadsTo env rest d found) :
    ReadsTo env (match getNodePage env s m with
      | .error e => .error e
      | .ok _ => rest) d found := by
  obtain ⟨hok, herr, hread⟩ := getNodePage_tree env hm
  cases hp : getNodePage env s m with
  | ok u => exact hc (hok hp)
  | error e =>
      refine ⟨fun h => (by cases h), fun h => ?_, fun henv h0 => ?_⟩
      · cases h
        exact hd (herr hp)
      · rw [hread henv fun hz => h0 (hd hz)] at hp
        cases hp

theorem readsTo_page {m : Nat} (hm : m ≠ 0 → s.nat m ≠ nullAddr) :
    ReadsTo env (getNodePage env s m) m m := by
  obtain ⟨hok, herr, hread⟩ := getNodePage_tree env hm
  exact ⟨fun h => ⟨hok h, rfl⟩, herr, hread⟩

theorem TreeAt.addr_self {l nid : Nat} (h : TreeAt s l nid) (h0 : nid ≠ 0) :
    s.nat nid ≠ nullAddr := h.addr _ (mem_nodesOf_self h0 l)

/-- The nodes on the path are read down to the direct node, or the first missing one ends
    it. -/
theorem getPathPages_spec (env : TruncEnv) (ht : TreeAt s (topLevel k) (s.iNid k))
    (hp : PathTo p k r o) :
    ReadsTo env (getPathPages env s (offsetOf p) (topLevel k)) (dnodeOf s k r)
      (pathNid s (offsetOf p) (topLevel k)) := by
  have hr := hp.r_lt
  unfold dnodeOf
  rcases topLevel_cases k with hl | hl | hl
  · rw [hl] at ht ⊢
    rw [getPathPages, pathNid_zero hp, dnodeAt]
    exact readsTo_page ht.addr_self
  · rw [hl] at ht hr ⊢
    rw [getPathPages, getPathPages, pathNid_zero hp, pathNid_one hp hl]
    refine ReadsTo.below ht.addr_self (fun h0 => by rw [h0, dnodeAt_missing]) fun h0 => ?_
    rw [dnodeAt_one h0]
    exact readsTo_page (ht.child h0 (mem_slots.mpr hr)).addr_self
  · rw [hl] at ht hr ⊢
    obtain ⟨h₁, h₂⟩ := pathNid_two (s := s) hp hl
    have hi : r / nidsPerBlock ∈ slots := mem_slots.mpr (Nat.div_lt_of_lt_mul hr)
    have hj : r % nidsPerBlock ∈ slots := mem_slots.mpr (Nat.mod_lt _ (by decide))
    have hpages : getPathPages env s (offsetOf p) 2 =
        match getNodePage env s (s.iNid k) with
        | .error e => .error e
        | .ok _ =>
          match getNodePage env s (s.word (s.iNid k) (r / nidsPerBlock)) with
          | .error e => .error e
          | .ok _ => getNodePage env s
              (s.word (s.word (s.iNid k) (r / nidsPerBlock)) (r % nidsPerBlock)) := by
      rw [getPathPages, getPathPages, getPathPages, pathNid_zero hp, h₁, h₂]
      cases getNodePage env s (s.iNid k) <;> rfl
    rw [hpages, h₂]
    refine ReadsTo.below ht.addr_self (fun h0 => by rw [h0, dnodeAt_missing]) fun h0 => ?_
    have htc := ht.child h0 hi
    rw [dnodeAt_two h0]
    refine ReadsTo.below htc.addr_self (fun hc => by rw [hc, dnodeAt_missing]) fun hc => ?_
    rw [dnodeAt_one hc]
    exact readsTo_page (htc.child hc hj).addr_self

end

/-! ## `get_dnode_of_data` -/

section

variable {env : TruncEnv} {p : NodePath} {k r o b : Nat}

theorem getDnodeOfData_inode (hb : b < layout.addrsPerInode) :
    getDnodeOfData layout env s b = .ok (.inode, b) := by
  obtain ⟨p, hp, hlevel, hofs⟩ := getNodePath_inode hb
  rw [getDnodeOfData, toLong_block (Nat.lt_add_right maxFileBlocks hb), hp, dnodeOfPath,
    if_pos hlevel, hofs]

theorem getDnodeOfData_error {e : Errno} (hpath : getNodePath layout.addrsPerInode b = some p)
    (hp : PathTo p k r o) (hb : b < layout.addrsPerInode + maxFileBlocks)
    (hpages : getPathPages env s (offsetOf p) (topLevel k) = .error e) :
    getDnodeOfData layout env s b = .error e := by
  rw [getDnodeOfData, toLong_block hb, hpath, dnodeOfPath, hp.level, if_neg (Nat.succ_ne_zero _),
    Nat.add_sub_cancel, hpages]

theorem getDnodeOfData_ok (hpath : getNodePath layout.addrsPerInode b = some p)
    (hp : PathTo p k r o) (hb : b < layout.addrsPerInode + maxFileBlocks)
    (hpages : getPathPages env s (offsetOf p) (topLevel k) = .ok ()) :
    getDnodeOfData layout env s b = .ok (.node (pathNid s (offsetOf p) (topLevel k)), o) := by
  rw [getDnodeOfData, toLong_block hb, hpath, dnodeOfPath, hp.level, if_neg (Nat.succ_ne_zero _),
    Nat.add_sub_cancel, hpages, hp.last]

/-- The address in a slot that was found. -/
def foundAddr (layout : InodeLayout) (s : Index) : Except Errno (DataPage × Nat) → Nat
  | .ok (page, ofs) => dataAddr layout s page ofs
  | .error _ => nullAddr

/-- The address of a block of the file, `NULL_ADDR` where there is none. -/
def blockAddr (layout : InodeLayout) (s : Index) (b : Nat) : Nat :=
  foundAddr layout s (getDnodeOfData layout {} s b)

theorem blockAddr_inode (hb : b < layout.addrsPerInode) :
    blockAddr layout s b = dataAddr layout s .inode b := by
  rw [blockAddr, getDnodeOfData_inode hb, foundAddr]

theorem blockAddr_node (ht : TreeAt s (topLevel k) (s.iNid k))
    (hpath : getNodePath layout.addrsPerInode b = some p) (hp : PathTo p k r o)
    (hb : b < layout.addrsPerInode + maxFileBlocks) :
    blockAddr layout s b =
      if dnodeOf s k r = 0 then nullAddr else s.word (dnodeOf s k r) o := by
  have hspec := getPathPages_spec ({} : TruncEnv) ht hp
  cases hpages : getPathPages {} s (offsetOf p) (topLevel k) with
  | error e =>
      have h0 : dnodeOf s k r = 0 := by
        by_contra h0
        rw [hspec.present rfl h0] at hpages
        cases hpages
      rw [blockAddr, getDnodeOfData_error hpath hp hb hpages, foundAddr, if_pos h0]
  | ok u =>
      obtain ⟨h0, hnid⟩ := hspec.ok hpages
      rw [blockAddr, getDnodeOfData_ok hpath hp hb hpages, foundAddr, if_neg h0, hnid, dataAddr]

theorem blockAddr_large (hb : layout.addrsPerInode + maxFileBlocks ≤ b) (hlt : b < 2 ^ 63) :
    blockAddr layout s b = nullAddr := by
  rw [blockAddr, getDnodeOfData, toLong_of_lt hlt,
    (getNodePath_eq_none_iff layout.api_le).mpr hb, dnodeOfPath, foundAddr]

end

end F2fs.Truncate

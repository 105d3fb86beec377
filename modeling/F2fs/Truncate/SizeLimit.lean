/-
  What `truncate_blocks` fails with.

  A node page that cannot be read ends it, and so does `-E2BIG` of `get_node_path`.  The
  second is out of reach of every block below `max_file_blocks` but not of the block
  `truncate_blocks` asks for: behind a direct node it has emptied it goes on with the first
  block of the next one, and the last direct node has none.
-/
import F2fs.Truncate.FileBlocks

namespace F2fs.Truncate

open F2fs.Node

/-! ## Errors of the parts -/

section

variable {layout : InodeLayout} {env : TruncEnv} {s s₁ s' : Index} {k fuel ofs : Nat} {nofs : Int}

theorem freeTop_error {e : Errno} (h : freeTop layout env s k ofs nofs = .error e) :
    e = .enoent ∨ ReadFailed env e := by
  rcases topLevel_cases k with hl | hl | hl
  · rw [freeTop_zero hl] at h
    exact Or.inr (truncateDnode_error h)
  · rw [freeTop_one hl] at h
    exact (truncateNodes_indirect_error h).imp_left And.left
  · rw [freeTop_two hl] at h
    exact (truncateNodes_double_error h).imp_left And.left

theorem tolerateEnoent_error {r : Except Errno (Index × Int)} {e : Errno}
    (h : tolerateEnoent s r = .error e) : r = .error e ∧ e ≠ .enoent := by
  cases r with
  | ok a => cases h
  | error e' =>
      cases e' with
      | enoent => cases h
      | e2big => cases h; exact ⟨rfl, Errno.noConfusion⟩
      | read r => cases h; exact ⟨rfl, Errno.noConfusion⟩
      | bug => cases h; exact ⟨rfl, Errno.noConfusion⟩

/-- The loop over the trees ends before it runs out of trees. -/
theorem truncateRest_error {fuel : Nat} : ∀ {s : Index} {k ofs : Nat} {nofs : Int} {e : Errno},
    k < defNidsPerInode → defNidsPerInode ≤ k + fuel →
    truncateRest layout env fuel s (nodeDir1Block + k) ofs nofs = .error e →
    ReadFailed env e := by
  induction fuel with
  | zero =>
      intro s k ofs nofs e hk hfuel _
      omega
  | succ fuel ih =>
      intro s k ofs nofs e hk hfuel h
      rw [truncateRest_eq hk] at h
      split at h
      · rename_i htol
        cases h
        obtain ⟨hfree, hne⟩ := tolerateEnoent_error htol
        exact (freeTop_error hfree).resolve_left hne
      rename_i s₁ err htol
      split at h
      · cases h
      · rename_i hk4
        refine ih (k := k + 1) ?_ (by omega) h
        unfold defNidsPerInode at hk ⊢
        omega

theorem getPathPages_error {offset : Nat → Nat} {i : Nat} : ∀ {e : Errno},
    getPathPages env s offset i = .error e → e = .enoent ∨ ReadFailed env e := by
  induction i with
  | zero => exact fun h => (getNodePage_error h).imp_left And.left
  | succ i ih =>
      intro e h
      rw [getPathPages] at h
      split at h
      · rename_i hp
        cases h
        exact ih hp
      · exact (getNodePage_error h).imp_left And.left

theorem truncatePartial_error {offset : Nat → Nat} {idx : Nat} {e : Errno}
    (h : truncatePartial layout env s offset idx = .error e) : ReadFailed env e := by
  unfold truncatePartial at h
  split at h
  · cases h
  rename_i hne
  unfold truncatePartialNodes at h hne
  split at h
  · cases h
  rename_i h0
  rw [if_neg h0] at hne
  split at h
  · rename_i hpages
    cases h
    rw [hpages] at hne
    exact (getPathPages_error hpages).resolve_left fun he => hne (by rw [he])
  · simp only at h
    split at h
    · rename_i hloop
      cases h
      obtain ⟨a, i, hs⟩ := foldlM_error hloop
      exact truncateChild_error hs
    · cases h

/-- The partial part leaves a place among the trees. -/
theorem truncatePartial_top {offset offset₁ : Nat → Nat} {idx : Nat}
    (h : truncatePartial layout env s offset idx = .ok (s₁, offset₁))
    (hofs : offset (idx + 1) ≠ 0) :
    offset₁ 0 = offset 0 ∨ (idx = 0 ∧ offset₁ 0 = offset 0 + 1) := by
  rcases truncatePartial_cases h hofs with ⟨-, -, rfl⟩ | ⟨-, -, -, rfl⟩ | ⟨-, -, -, rfl⟩
  · exact Or.inl rfl
  · exact Or.inl rfl
  · by_cases hidx : idx = 0
    · subst hidx
      exact Or.inr ⟨rfl, rfl⟩
    · refine Or.inl ?_
      simp only
      rw [if_neg (fun h => hidx h.symm), if_neg (fun h => by omega)]

/-- On the path of a block outside the inode only a read fails: the default case is not
    reached. -/
theorem truncatePath_error {p : NodePath} {r o : Nat} {e : Errno} (hp : PathTo p k r o)
    (h : truncatePath layout env s (some p) = .error e) : ReadFailed env e := by
  have hk := hp.k_lt
  rw [truncatePath] at h
  split at h
  · rename_i r hread
    cases h
    exact ⟨r, rfl, Or.inr (Or.inr hread)⟩
  rcases topLevel_cases k with hl | hl | hl
  · simp only [hp.level, hl, hp.top] at h
    exact truncateRest_error hk (Nat.le_add_left _ _) h
  · simp only [hp.level, hl, hp.top] at h
    rw [if_neg (by decide), if_pos trivial] at h
    split at h
    · exact truncateRest_error hk (Nat.le_add_left _ _) h
    rename_i hofs
    split at h
    · rename_i hpart
      cases h
      exact truncatePartial_error hpart
    · rename_i s₁ offset₁ hpart
      have hk4 : k < 4 := by
        unfold defNidsPerInode at hk
        have : k ≠ 4 := by
          rintro rfl
          cases hl
        omega
      rcases truncatePartial_top hpart hofs with htop | ⟨-, htop⟩
      · rw [htop, hp.top] at h
        exact truncateRest_error hk (Nat.le_add_left _ _) h
      · rw [htop, hp.top, Nat.add_assoc] at h
        exact truncateRest_error (by unfold defNidsPerInode; omega) (Nat.le_add_left _ _) h
  · simp only [hp.level, hl, hp.top] at h
    rw [if_neg (by decide), if_neg (by decide), if_pos trivial] at h
    split at h
    · exact truncateRest_error hk (Nat.le_add_left _ _) h
    rename_i hofs
    split at h
    · rename_i hpart
      cases h
      exact truncatePartial_error hpart
    · rename_i s₁ offset₁ hpart
      rcases truncatePartial_top hpart hofs with htop | ⟨hidx, -⟩
      · rw [htop, hp.top] at h
        exact truncateRest_error hk (Nat.le_add_left _ _) h
      · cases hidx

theorem lastBlock_lt (layout : InodeLayout) :
    layout.addrsPerInode + maxFileBlocks + addrsPerBlock < 2 ^ 63 := by
  have hapi := layout.api_le
  have hmax : maxFileBlocks = 1057052516 := rfl
  unfold defAddrsPerInode at hapi
  unfold addrsPerBlock
  omega

/-- `truncate_inode_blocks` fails as a read does, or at a block that has no path. -/
theorem truncateInodeBlocks_error {b : Nat} {e : Errno} (hb : layout.addrsPerInode ≤ b)
    (hlt : b < 2 ^ 63) (h : truncateInodeBlocks layout env s b = .error e) :
    ReadFailed env e ∨ (e = .e2big ∧ layout.addrsPerInode + maxFileBlocks ≤ b) := by
  rw [truncateInodeBlocks, toLong_of_lt hlt] at h
  by_cases hmax : b < layout.addrsPerInode + maxFileBlocks
  · obtain ⟨p, k, r, o, hpath, hp, -⟩ := getNodePath_node hb hmax
    rw [hpath] at h
    exact Or.inl (truncatePath_error hp h)
  · rw [(getNodePath_eq_none_iff layout.api_le).mpr (Nat.not_lt.mp hmax), truncatePath] at h
    cases h
    exact Or.inr ⟨rfl, Nat.not_lt.mp hmax⟩

/-! ## `truncate_blocks` -/

theorem truncatePartialDataPage_ok {start : Nat}
    (h : truncatePartialDataPage env s start = .ok s') : s = s' := by
  unfold truncatePartialDataPage at h
  split at h
  · exact Except.ok.inj h
  · split at h <;> cases h
    rfl

/-- The block that `truncate_blocks` hands to `truncate_inode_blocks`: behind the slots it
    has cleared itself, if the node of `free` is there. -/
def nextFree (layout : InodeLayout) (free : Nat) : Except Errno (DataPage × Nat) → Option Nat
  | .error .enoent => some free
  | .error _ => none
  | .ok (page, ofs) =>
    some (if ofs ≠ 0 ∨ page = .inode then free + (addrsPerPage layout page - ofs) else free)

/-- `truncate_blocks` is the call of `truncate_inode_blocks`, or the lookup failed. -/
theorem truncateFound_eq (layout : InodeLayout) (env : TruncEnv) (s : Index) (free : Nat)
    (r : Except Errno (DataPage × Nat)) :
    (∃ b s₁, nextFree layout free r = some b ∧
      truncateFound layout env s free r = truncateInodeBlocks layout env s₁ b) ∨
    ∃ e, nextFree layout free r = none ∧ r = .error e ∧ e ≠ .enoent ∧
      truncateFound layout env s free r = .error e := by
  cases r with
  | error e =>
      cases e with
      | enoent => exact Or.inl ⟨free, s, rfl, rfl⟩
      | e2big => exact Or.inr ⟨_, rfl, rfl, Errno.noConfusion, rfl⟩
      | read r => exact Or.inr ⟨_, rfl, rfl, Errno.noConfusion, rfl⟩
      | bug => exact Or.inr ⟨_, rfl, rfl, Errno.noConfusion, rfl⟩
  | ok a =>
      obtain ⟨page, ofs⟩ := a
      refine Or.inl ?_
      unfold truncateFound nextFree
      simp only
      split
      · exact ⟨_, _, rfl, rfl⟩
      · exact ⟨_, _, rfl, rfl⟩

/-- The first block of the last direct node. -/
def lastDnode (layout : InodeLayout) : Nat := blockOf layout 4 (span 2 - 1) 0

theorem lastDnode_eq (layout : InodeLayout) :
    lastDnode layout + addrsPerBlock = layout.addrsPerInode + maxFileBlocks := by
  have hmax : maxFileBlocks = 1057052516 := rfl
  have hspan : span 2 = 1036324 := rfl
  have hbase : topBase 4 = 2038 := rfl
  unfold lastDnode blockOf addrsPerBlock
  rw [hmax, hspan, hbase]

/-- The lookup of a block: in the inode, or at its direct node if that is there. -/
theorem getDnodeOfData_cases (layout : InodeLayout) (env : TruncEnv) (s : Index) {free : Nat}
    (hfree : free < maxFileBlocks) :
    (free < layout.addrsPerInode ∧ getDnodeOfData layout env s free = .ok (.inode, free)) ∨
    ∃ p k r o, PathTo p k r o ∧ free = blockOf layout k r o ∧
      ((∃ e, getPathPages env s (offsetOf p) (topLevel k) = .error e ∧
          getDnodeOfData layout env s free = .error e) ∨
        (getPathPages env s (offsetOf p) (topLevel k) = .ok () ∧
          ∃ nid, getDnodeOfData layout env s free = .ok (.node nid, o))) := by
  by_cases hin : free < layout.addrsPerInode
  · exact Or.inl ⟨hin, getDnodeOfData_inode hin⟩
  have hlt : free < layout.addrsPerInode + maxFileBlocks := Nat.lt_add_left _ hfree
  obtain ⟨p, k, r, o, hpath, hp, hb⟩ := getNodePath_node (Nat.not_lt.mp hin) hlt
  refine Or.inr ⟨p, k, r, o, hp, hb, ?_⟩
  cases hpages : getPathPages env s (offsetOf p) (topLevel k) with
  | error e => exact Or.inl ⟨e, rfl, getDnodeOfData_error hpath hp hlt hpages⟩
  | ok u => exact Or.inr ⟨rfl, _, getDnodeOfData_ok hpath hp hlt hpages⟩

/-- The next block is outside the inode. -/
theorem nextFree_ge {free b : Nat} (hfree : free < maxFileBlocks)
    (h : nextFree layout free (getDnodeOfData layout env s free) = some b) :
    layout.addrsPerInode ≤ b ∧ b < 2 ^ 63 := by
  have hlast := lastBlock_lt layout
  rcases getDnodeOfData_cases layout env s hfree with
    ⟨hin, hget⟩ | ⟨p, k, r, o, hp, hb, ⟨e, hpages, hget⟩ | ⟨hpages, nid, hget⟩⟩
  · rw [hget] at h
    simp only [nextFree, addrsPerPage, or_true, if_true, Option.some.injEq] at h
    omega
  · rw [hget] at h
    have hge : layout.addrsPerInode ≤ free := by
      unfold blockOf at hb
      omega
    cases e with
    | enoent =>
        obtain rfl := Option.some.inj h
        exact ⟨hge, by omega⟩
    | e2big => cases h
    | read r => cases h
    | bug => cases h
  · rw [hget] at h
    have hge : layout.addrsPerInode ≤ free := by
      unfold blockOf at hb
      omega
    simp only [nextFree, addrsPerPage, Option.some.injEq] at h
    split at h
    · omega
    · omega

/-- `truncate_blocks` never gets to the default case of `truncate_inode_blocks`. -/
theorem truncateFound_error {free : Nat} {e : Errno} (hfree : free < maxFileBlocks)
    (h : truncateFound layout env s free (getDnodeOfData layout env s free) = .error e) :
    ReadFailed env e ∨ (e = .e2big ∧ ∃ b,
      nextFree layout free (getDnodeOfData layout env s free) = some b ∧
        layout.addrsPerInode + maxFileBlocks ≤ b) := by
  rcases truncateFound_eq layout env s free (getDnodeOfData layout env s free) with
    ⟨b, s₁, hnext, heq⟩ | ⟨e', -, hget, hne, heq⟩
  · rw [heq] at h
    obtain ⟨hge, hlt⟩ := nextFree_ge hfree hnext
    exact (truncateInodeBlocks_error hge hlt h).imp_right fun ⟨he, hb⟩ => ⟨he, b, hnext, hb⟩
  · rw [heq] at h
    cases h
    refine Or.inl ?_
    rcases getDnodeOfData_cases layout env s hfree with
      ⟨-, hget'⟩ | ⟨p, k, r, o, -, -, ⟨e, hpages, hget'⟩ | ⟨-, nid, hget'⟩⟩
    · rw [hget'] at hget
      cases hget
    · rw [hget'] at hget
      cases hget
      exact (getPathPages_error hpages).resolve_left hne
    · rw [hget'] at hget
      cases hget

theorem truncateBlocks_error (start : Nat) : truncateBlocks layout env s start ≠ .error .bug := by
  have hnot : ¬ReadFailed env .bug := fun ⟨_, hr, _⟩ => Errno.noConfusion hr
  intro h
  unfold truncateBlocks at h
  split at h
  · rename_i e htree
    cases h
    unfold truncateTree at htree
    split at htree
    · cases htree
    rename_i hfree
    split at htree
    · cases htree
    rcases truncateFound_error (Nat.not_le.mp hfree) htree with hread | ⟨he, -⟩
    · exact hnot hread
    · cases he
  · unfold truncatePartialDataPage at h
    split at h
    · cases h
    · split at h <;> cases h

/-! ## The size limit -/

/-- No read of a node page fails; a node that is missing is not a failure. -/
structure NodesRead (env : TruncEnv) : Prop where
  node : env.node = fun _ => none
  inodePage : env.inodePage = none
  inodePageAgain : env.inodePageAgain = none

theorem NodesRead.not_failed {e : Errno} (h : NodesRead env) : ¬ReadFailed env e := by
  rintro ⟨r, -, ⟨nid, hr⟩ | hr | hr⟩
  · rw [h.node] at hr
    cases hr
  · rw [h.inodePage] at hr
    cases hr
  · rw [h.inodePageAgain] at hr
    cases hr

/-- The direct node of a block behind the first slot of the last direct node. -/
theorem eq_last_of_lt {k r o : Nat} (hk : k < defNidsPerInode) (hr : r < span (topLevel k))
    (ho : o < addrsPerBlock) (hlt : lastDnode layout < blockOf layout k r o) :
    k = 4 ∧ r = span 2 - 1 ∧ o ≠ 0 := by
  have hq : topBase 4 + (span 2 - 1) ≤ topBase k + r ∧
      blockOf layout k r 0 ≤ blockOf layout k r o := by
    unfold lastDnode blockOf addrsPerBlock at *
    omega
  have hend := topBase_lt hk hr
  unfold nidsPerBlock at hend
  have hspan : span 2 = 1036324 := rfl
  have hbase : topBase 4 = 2038 := rfl
  have heq : topBase k + r = topBase 4 + (span 2 - 1) := by
    omega
  obtain ⟨rfl, rfl⟩ := topBase_inj hk (by decide) hr (by rw [hspan]; exact (by decide)) heq
  refine ⟨rfl, rfl, ?_⟩
  rintro rfl
  exact Nat.lt_irrefl _ hlt

/-- The next block has no path exactly behind a last direct node that is there. -/
theorem nextFree_beyond_iff (layout : InodeLayout) {free : Nat} (ht : IndexTree s)
    (hread : NodesRead env)
    (hfree : free < maxFileBlocks) :
    (∃ b, nextFree layout free (getDnodeOfData layout env s free) = some b ∧
      layout.addrsPerInode + maxFileBlocks ≤ b) ↔
    lastDnode layout < free ∧ dnodeOf s 4 (span 2 - 1) ≠ 0 := by
  have hlast := lastDnode_eq layout
  rcases getDnodeOfData_cases layout env s hfree with
    ⟨hin, hget⟩ | ⟨p, k, r, o, hp, rfl, hpages⟩
  · rw [hget]
    constructor
    · rintro ⟨b, hnext, hb⟩
      simp only [nextFree, addrsPerPage, or_true, if_true, Option.some.injEq] at hnext
      omega
    · rintro ⟨hlt, -⟩
      unfold lastDnode blockOf at hlt
      omega
  have hspec := getPathPages_spec env (ht.treeAt hp.k_lt) hp
  have hlt := blockOf_lt layout hp.k_lt hp.r_lt hp.o_lt
  have ho := hp.o_lt
  rcases hpages with ⟨e, hpages, hget⟩ | ⟨hpages, nid, hget⟩
  · -- the node is missing
    have he : e = .enoent := (getPathPages_error hpages).resolve_right hread.not_failed
    subst he
    rw [hget]
    constructor
    · rintro ⟨b, hnext, hb⟩
      obtain rfl := Option.some.inj hnext
      omega
    · rintro ⟨hbehind, h0⟩
      obtain ⟨rfl, rfl, -⟩ := eq_last_of_lt hp.k_lt hp.r_lt ho hbehind
      exact absurd (hspec.enoent hpages) h0
  · obtain ⟨h0, -⟩ := hspec.ok hpages
    rw [hget]
    simp only [nextFree, addrsPerPage, Option.some.injEq, exists_eq_left', reduceCtorEq, or_false]
    constructor
    · intro hb
      have hbehind : lastDnode layout < blockOf layout k r o := by
        split at hb
        · rename_i ho0
          have hstart : blockOf layout k r o = blockOf layout k r 0 + o := rfl
          omega
        · omega
      obtain ⟨rfl, rfl, -⟩ := eq_last_of_lt hp.k_lt hp.r_lt ho hbehind
      exact ⟨hbehind, h0⟩
    · rintro ⟨hbehind, -⟩
      obtain ⟨rfl, rfl, ho0⟩ := eq_last_of_lt hp.k_lt hp.r_lt ho hbehind
      have hstart : blockOf layout 4 (span 2 - 1) o = lastDnode layout + o := rfl
      rw [if_pos ho0]
      omega

/-- `truncate_blocks` fails inside the size limit only if the data page does, or with
    `-E2BIG` behind the last direct node. -/
theorem truncateBlocks_ok_iff (layout : InodeLayout) (env : TruncEnv) (s : Index) (start : Nat)
    (ht : IndexTree s) (hread : NodesRead env) (hmax : (start + 4095) / 4096 < maxFileBlocks) :
    ((∃ s', truncateBlocks layout env s start = .ok s') ∧
      ∀ b, nextFree layout (freeFrom start) (getDnodeOfData layout env s (freeFrom start)) =
        some b →
        getNodePath layout.addrsPerInode (toLong b) ≠ none) ↔
    (start % 4096 = 0 ∨ env.dataPage = none) ∧
      ¬(lastDnode layout < (start + 4095) / 4096 ∧ dnodeOf s 4 (span 2 - 1) ≠ 0) := by
  have hlimit : maxFileBlocks = 1057052516 := rfl
  have hfree : freeFrom start = (start + 4095) / 4096 := by
    unfold freeFrom
    rw [Nat.mod_eq_of_lt (by omega)]
  rw [hfree]
  generalize (start + 4095) / 4096 = free at hmax hfree
  have htree : truncateTree layout env s start =
      truncateFound layout env s free (getDnodeOfData layout env s free) := by
    rw [truncateTree, hfree, if_neg (Nat.not_le.mpr hmax), hread.inodePage]
  have hpath : (∀ b, nextFree layout free (getDnodeOfData layout env s free) = some b →
      getNodePath layout.addrsPerInode (toLong b) ≠ none) ↔
      ¬(lastDnode layout < free ∧ dnodeOf s 4 (span 2 - 1) ≠ 0) := by
    rw [← nextFree_beyond_iff layout ht hread hmax, not_exists]
    refine forall_congr' fun b => ?_
    rw [not_and]
    refine forall_congr' fun hb => not_congr ?_
    rw [toLong_of_lt (nextFree_ge hmax hb).2]
    exact getNodePath_eq_none_iff layout.api_le
  rw [hpath]
  refine and_congr_left fun hlast => ?_
  -- the index tree is truncated; what is left is the data page
  obtain ⟨s₁, hs₁⟩ : ∃ s₁, truncateTree layout env s start = .ok s₁ := by
    cases hfound : truncateTree layout env s start with
    | ok s₁ => exact ⟨s₁, rfl⟩
    | error e =>
        rw [htree] at hfound
        rcases truncateFound_error hmax hfound with hfail | ⟨-, hbeyond⟩
        · exact absurd hfail hread.not_failed
        · exact absurd ((nextFree_beyond_iff layout ht hread hmax).mp hbeyond) hlast
  rw [truncateBlocks, hs₁]
  simp only [truncatePartialDataPage]
  by_cases hpart : start % 4096 = 0
  · rw [if_pos hpart]
    exact iff_of_true ⟨s₁, rfl⟩ (Or.inl hpart)
  · rw [if_neg hpart]
    cases hpage : env.dataPage with
    | none => exact iff_of_true ⟨s₁, rfl⟩ (Or.inr rfl)
    | some e =>
        refine iff_of_false ?_ ?_
        · rintro ⟨s', h⟩
          cases h
        · rintro (h | h)
          · exact hpart h
          · cases h

end

/-! ## A file of the largest size -/

/-- A file with its last block only, in slot 94 of the last direct node, 12, in the last
    slot of indirect node 11 in the last slot of double indirect node 10. -/
def largestFile : Index where
  iAddr _ := nullAddr
  iNid k := if k = 4 then 10 else 0
  word n i :=
    if n = 10 ∧ i = 1017 then 11
    else if n = 11 ∧ i = 1017 then 12
    else if n = 12 ∧ i = 94 then 500
    else 0
  nat n := if n = 10 then 100 else if n = 11 then 101 else if n = 12 then 102 else nullAddr
  invalidated := []
  totalValidNodeCount := 4
  totalValidBlockCount := 5
  iBlocks := 5

theorem largestFile_nodes : topNodes largestFile tops = [12, 11, 10] := by decide +kernel

theorem largestFile_tree : IndexTree largestFile := by
  unfold IndexTree
  refine ⟨?_, ?_⟩
  · rw [largestFile_nodes]
    decide
  · rw [largestFile_nodes]
    decide

def wholeInode : InodeLayout := ⟨0, 923, InodeLayout.plain_fits⟩

/-- Cutting off the last block. -/
theorem largestFile_ok_iff :
    ((∃ s', truncateBlocks wholeInode {} largestFile (4096 * 1057052515) = .ok s') ∧
      ∀ b, nextFree wholeInode (freeFrom (4096 * 1057052515))
          (getDnodeOfData wholeInode {} largestFile (freeFrom (4096 * 1057052515))) = some b →
        getNodePath wholeInode.addrsPerInode (toLong b) ≠ none) ↔
    ((4096 * 1057052515) % 4096 = 0 ∨ ({} : TruncEnv).dataPage = none) ∧
      ¬(lastDnode wholeInode < (4096 * 1057052515 + 4095) / 4096 ∧
        dnodeOf largestFile 4 (span 2 - 1) ≠ 0) :=
  truncateBlocks_ok_iff wholeInode {} largestFile (4096 * 1057052515) largestFile_tree
    ⟨rfl, rfl, rfl⟩ (by decide)

/-- What a call fails with. -/
def failure (r : Except Errno Index) : Option Errno :=
  match r with
  | .ok _ => none
  | .error e => some e

set_option maxRecDepth 100000 in
theorem largestFile_e2big : IndexTree largestFile ∧ NodesRead {} ∧
    (4096 * 1057052515 + 4095) / 4096 < maxFileBlocks ∧
    failure (truncateBlocks wholeInode {} largestFile (4096 * 1057052515)) = some .e2big :=
  ⟨largestFile_tree, ⟨rfl, rfl, rfl⟩, by decide, by decide +kernel⟩

end F2fs.Truncate

/-
  What a failed rehash of an inline directory leaves.

  `Building` is the invariant of the attempt: the index tree is one, and each nid that was
  free before and has an address is that of a node of the tree.  Every page that is asked
  for keeps it (`getNewDataPage_building`), and so does every entry (`addEntries_building`).

  `f2fs_add_inline_entries` ignores what `truncate_blocks` returns.  So the attempt is undone
  exactly if each node of the tree that it has built can be read (`rehash_undone_iff`).
-/
import F2fs.Dir.InlineConvert

namespace F2fs.Dir

open F2fs.File F2fs.Node F2fs.Truncate

/-! ## The levels -/

section

variable {level depth : UInt32}

theorem roundsLeft_eq (level depth : UInt32) : roundsLeft level depth =
    (2 ^ 32 - level.toNat + depth.toNat) % 2 ^ 32 + (2 ^ 32 - depth.toNat + 63) % 2 ^ 32 := by
  have h63 : (63 : UInt32).toNat = 63 := rfl
  rw [roundsLeft, UInt32.toNat_sub, UInt32.toNat_sub, h63]

/-- The depth of a round. -/
def roundDepth (level depth : UInt32) : UInt32 := if level = depth then depth + 1 else depth

theorem roundsLeft_next (h : depth ≠ 63) :
    roundsLeft level depth = roundsLeft (level + 1) (roundDepth level depth) + 1 := by
  have hdepth := depth.toNat_lt
  have hlevel := level.toNat_lt
  have hone : (1 : UInt32).toNat = 1 := rfl
  have h63 : depth.toNat ≠ 63 := fun hc => h (UInt32.toNat_inj.mp hc)
  rw [roundsLeft_eq, roundsLeft_eq, roundDepth]
  by_cases heq : level = depth
  · rw [if_pos heq, heq, UInt32.toNat_add, hone]
    omega
  · have hne : level.toNat ≠ depth.toNat := fun hc => heq (UInt32.toNat_inj.mp hc)
    rw [if_neg heq, UInt32.toNat_add, hone]
    omega

end

section

variable {layout : InodeLayout} (env : ConvertEnv layout) (dirLevel : UInt8) (entry : NewEntry)

/-- The counted loop over the levels is the loop from `start`, which counts nothing. -/
theorem addAtLevel_eq (level depth : UInt32) (s : DirState) :
    addAtLevel env dirLevel entry (roundsLeft level depth) level depth s =
      if env.fault s.asked then (.error .enospc, s)
      else if depth = 63 then (.error .enospc, s)
      else
        match findRoom env entry (bucketOf dirLevel level entry.hash) s with
        | (.error e, s) => (.error e, s)
        | (.ok (some (block, bitPos)), s) =>
          (.ok (), addDentry entry (roundDepth level depth) s block bitPos)
        | (.ok none, s) =>
          addAtLevel env dirLevel entry (roundsLeft (level + 1) (roundDepth level depth))
            (level + 1) (roundDepth level depth) s := by
  by_cases h63 : depth = 63
  · rw [if_pos h63, ite_self]
    cases hn : roundsLeft level depth with
    | zero => rfl
    | succ n => rw [addAtLevel, if_pos h63, ite_self]
  · rw [roundsLeft_next h63, addAtLevel]
    rfl

end

/-! ## The blocks of a bucket -/

section

variable {dirLevel level i : Nat}

/-- From level 31 on a level has no length, until its number wraps. -/
theorem levelBlocks_zero (hi : 31 ≤ i) (hlt : i + dirLevel < 2 ^ 32) :
    u32 (dirBuckets i dirLevel * bucketBlocks i) = 0 := by
  rw [dirBuckets_deep (by omega) hlt, bucketBlocks_deep hi]
  unfold u32
  rfl

theorem levelStart_le (hdir : dirLevel < 256) (hi : i ≤ 2 ^ 32) :
    levelStart dirLevel i ≤ (min i 31 + (i - (2 ^ 32 - 256))) * 2 ^ 32 := by
  induction i with
  | zero => exact Nat.zero_le _
  | succ i ih =>
    have hle := ih (by omega)
    have hlt := u32_lt (dirBuckets i dirLevel * bucketBlocks i)
    have hmod := Nat.mod_le (levelStart dirLevel i + u32 (dirBuckets i dirLevel * bucketBlocks i))
      (2 ^ 64)
    rw [levelStart, ulong]
    by_cases hzero : 31 ≤ i ∧ i < 2 ^ 32 - 256
    · have hz : u32 (dirBuckets i dirLevel * bucketBlocks i) = 0 :=
        levelBlocks_zero hzero.1 (by omega)
      omega
    · omega

theorem addIndex_lt (hdir : dirLevel < 256) (hlevel : level < 2 ^ 32) (idx : Nat) :
    addIndex dirLevel level idx < 2 ^ 42 := by
  have hle := levelStart_le hdir (Nat.le_of_lt hlevel)
  have hlt := u32_lt (idx * bucketBlocks level)
  have hmod := Nat.mod_le (levelStart dirLevel level + u32 (idx * bucketBlocks level)) (2 ^ 64)
  rw [addIndex, dirBlockIndex, ulong]
  omega

theorem bucketOf_lt {dirLevel : UInt8} {level hash : UInt32} {b : Nat}
    (h : b ∈ bucketOf dirLevel level hash) : b < 2 ^ 63 := by
  obtain ⟨j, hj, rfl⟩ := List.mem_map.mp h
  have hlt := addIndex_lt dirLevel.toNat_lt level.toNat_lt
    (hash.toNat % dirBuckets level.toNat dirLevel.toNat)
  have hj := List.mem_range.mp hj
  unfold bucketBlocks at hj
  split at hj <;> omega

end

/-! ## The attempt -/

/-- The index tree of the directory is one, and each nid that was free at the start and has
    an address is that of a node of the tree. -/
structure Building (start s : Index) : Prop where
  tree : IndexTree s
  nids : ∀ n, start.nat n = nullAddr → s.nat n ≠ nullAddr → n ∈ topNodes s tops

section

variable {layout : InodeLayout} {start s s' : Index}

theorem Building.first (ht : IndexTree s) : Building s s := ⟨ht, fun _ h h' => absurd h h'⟩

theorem Building.grown (h : Building start s) (hg : NodesGrown s s') (ht : IndexTree s') :
    Building start s' := by
  refine ⟨ht, fun n hfree hn => ?_⟩
  rcases hg.nat n hn with hn' | hmem
  · exact hg.nodes (h.nids n hfree hn')
  · exact hmem

theorem Building.rewritten (h : Building start s) (hr : Rewritten layout s s') :
    Building start s' := by
  have hnodes := topNodes_of_links hr.links hr.iNid
  refine ⟨⟨by rw [hnodes]; exact h.tree.nodup, fun m hm => ?_⟩, fun n hfree hn => ?_⟩
  · rw [hnodes] at hm
    exact fun hc => h.tree.addr m hm ((hr.nat m).mp hc)
  · rw [hnodes]
    exact h.nids n hfree fun hc => hn ((hr.nat n).mpr hc)

end

section

variable {layout : InodeLayout} {start : Index} {s s' : FileState} {b : Nat}

/-- `f2fs_reserve_block` keeps the invariant, whether it fails or not. -/
theorem reserveBlock_building (env : DnodeEnv) (hb : b < 2 ^ 63) (h : Building start s.index) :
    Building start (reserveBlock layout env s b).2.index := by
  unfold reserveBlock
  cases hrun : getDnodeOfDataAlloc env layout s b with
  | mk res s₁ =>
    obtain ⟨hkept, hholds, -⟩ := getDnodeOfDataAlloc_spec h.tree hb hrun
    have h₁ := h.grown (getDnodeOfDataAlloc_grown h.tree hb hrun) hkept.blocks.tree
    cases res with
    | error e => exact h₁
    | ok found =>
      obtain ⟨page, ofs⟩ := found
      rw [reserveFound]
      split
      · cases hres : reserveNewBlocks layout env s₁ page ofs 1 with
        | mk res s₂ =>
          have hsame := reserveNewBlocks_sameNodes h₁.tree (hholds page ofs rfl).isDataPage hres
          have h₂ := h₁.grown hsame.grown (hsame.tree h₁.tree)
          cases res <;> exact h₂
      · exact h₁

end

/-- What holds of the directory while its entries are added. -/
structure Adding (start : Index) (s : DirState) : Prop where
  building : Building start s.file.index
  inlineDentry : s.inlineDentry = true

section

variable {layout : InodeLayout} {start : Index} {s : DirState}

theorem fillPage_same (env : PageEnv layout) (s : DirState) (block blkaddr : Nat) :
    (fillPage env s block blkaddr).2.file = s.file ∧
      (fillPage env s block blkaddr).2.inlineDentry = s.inlineDentry := by
  unfold fillPage
  split
  · exact ⟨rfl, rfl⟩
  split
  · exact ⟨rfl, rfl⟩
  split <;> exact ⟨rfl, rfl⟩

theorem reservedPage_adding (env : PageEnv layout) (block : Nat)
    (res : Except AllocError Nat × FileState) (hfile : Building start res.2.index)
    (hinline : s.inlineDentry = true) : Adding start (reservedPage env s block res).2 := by
  obtain ⟨_ | blkaddr, file⟩ := res
  · exact ⟨hfile, hinline⟩
  · obtain ⟨hsame, hkept⟩ := fillPage_same env { s with file := file } block blkaddr
    have hfill : Adding start (fillPage env { s with file := file } block blkaddr).2 :=
      ⟨by rw [hsame]; exact hfile, hkept.trans hinline⟩
    rw [reservedPage]
    generalize fillPage env { s with file := file } block blkaddr = res at hfill
    obtain ⟨_ | u, s₁⟩ := res
    · exact hfill
    · exact ⟨hfill.building, hfill.inlineDentry⟩

/-- `get_new_data_page` keeps the invariant, whether it fails or not. -/
theorem getNewDataPage_adding (env : PageEnv layout) {block : Nat} (hb : block < 2 ^ 63)
    (h : Adding start s) : Adding start (getNewDataPage env s block).2 := by
  have hothers : Building start (s.ask env).file.index :=
    h.building.rewritten (env.others.rewritten _ h.building.tree)
  unfold getNewDataPage
  split
  · exact ⟨hothers, h.inlineDentry⟩
  · exact reservedPage_adding env block _ (reserveBlock_building env.dnode hb hothers)
      h.inlineDentry

variable (env : ConvertEnv layout)

/-- The loop over the blocks of a bucket. -/
theorem findRoom_adding (entry : NewEntry) : ∀ {blocks : List Nat} {s : DirState},
    (∀ b ∈ blocks, b < 2 ^ 63) → Adding start s →
    Adding start (findRoom env entry blocks s).2 := by
  intro blocks
  induction blocks with
  | nil => exact fun _ h => h
  | cons block rest ih =>
    intro s hb h
    have hpage := getNewDataPage_adding (env.page s.asked) (hb block List.mem_cons_self) h
    rw [findRoom]
    generalize getNewDataPage (env.page s.asked) s block = res at hpage
    obtain ⟨_ | u, s₁⟩ := res
    · exact hpage
    · rw [tryBlock]
      split
      · exact hpage
      · exact ih (fun b hmem => hb b (List.mem_cons_of_mem block hmem)) hpage

/-- The loop over the levels. -/
theorem addAtLevel_adding (dirLevel : UInt8) (entry : NewEntry) {n : Nat} :
    ∀ {level depth : UInt32} {s : DirState}, Adding start s →
      Adding start (addAtLevel env dirLevel entry n level depth s).2 := by
  induction n with
  | zero => exact fun h => h
  | succ n ih =>
    intro level depth s h
    have hroom : Adding start (findRoom env entry (bucketOf dirLevel level entry.hash) s).2 :=
      findRoom_adding env entry (fun _ => bucketOf_lt) h
    rw [addAtLevel]
    split
    · exact h
    split
    · exact h
    simp only
    generalize findRoom env entry (bucketOf dirLevel level entry.hash) s = res at hroom
    obtain ⟨_ | found, s₁⟩ := res
    · exact hroom
    · cases found with
      | none => exact ih hroom
      | some place => exact ⟨hroom.building, hroom.inlineDentry⟩

theorem f2fsAddRegularEntry_adding (dirLevel : UInt8) (name : Name) (ino : UInt32)
    (mode : UInt16) (h : Adding start s) :
    Adding start (f2fsAddRegularEntry env dirLevel s name ino mode).2 := by
  unfold f2fsAddRegularEntry
  exact addAtLevel_adding env dirLevel _ ⟨h.building, h.inlineDentry⟩

/-- The loop over the entries. -/
theorem addEntries_adding (dirLevel : UInt8) (d : DentryArea) {n : Nat} :
    ∀ {bitPos : Nat} {s : DirState}, Adding start s →
      Adding start (addEntries env dirLevel d n bitPos s).2 := by
  induction n with
  | zero => exact fun h => h
  | succ n ih =>
    intro bitPos s h
    have hentry := f2fsAddRegularEntry_adding env dirLevel
      (d.nameAt bitPos (d.nameLenAt bitPos)) (d.dentry bitPos).ino
      (UInt16.ofNat (getDeType (d.dentry bitPos) * 2 ^ 12)) h
    rw [addEntries]
    split
    · split
      · exact ih h
      split
      · exact ih h
      generalize f2fsAddRegularEntry env dirLevel s _ _ _ = res at hentry
      obtain ⟨_ | u, s₁⟩ := res
      · exact hentry
      · exact ih hentry
    · exact h

end

/-! ## The undo -/

/-- An inline directory, which has no node and no block. -/
structure InlineDir (layout : InodeLayout) where
  state : DirState
  hasArea : 0 < layout.addrsPerInode
  inlineDentry : state.inlineDentry = true
  noNode : ∀ k, k < defNidsPerInode → state.file.index.iNid k = 0
  noBlock : state.file.index.iAddr layout.extraIsize = nullAddr

/-- From `before` the entries were added up to the state `failed`, and `after` is left. -/
structure Undone (layout : InodeLayout) (before failed after : DirState) : Prop where
  area : inlineArea layout after.file.index = inlineArea layout before.file.index
  inlineDentry : after.inlineDentry = true
  depth : after.iCurrentDepth = 0
  /-- each block and each node of the tree is invalidated once, and counted down -/
  freed : Freed failed.file.index after.file.index (topNodes failed.file.index tops)
    (addrsFromBlock layout failed.file.index 0)
  noNode : ∀ k, k < defNidsPerInode → after.file.index.iNid k = 0
  noBlock : after.file.index.iAddr layout.extraIsize = nullAddr
  /-- a nid that was free is free again -/
  nids : ∀ n, before.file.index.nat n = nullAddr → after.file.index.nat n = nullAddr
  clean : (∀ b, after.dirty b = false) ∧ after.dirtyDir = false
  found : ∀ namehash matchName,
    findInInlineDir layout after namehash matchName =
      findInInlineDir layout before namehash matchName

section

variable {layout : InodeLayout}

theorem inlineArea_setInlineArea (s t : Index) :
    inlineArea layout (setInlineArea layout t (inlineArea layout s)) = inlineArea layout s := by
  funext j
  unfold inlineArea setInlineArea
  simp only
  by_cases hj : j < inlineWords layout
  · rw [if_pos hj, if_pos hj, if_pos ⟨by omega, by omega⟩,
      Nat.add_sub_cancel_left, if_pos hj]
  · rw [if_neg hj, if_neg hj]

theorem setInlineArea_first (s : Index) (area : InlineArea) :
    (setInlineArea layout s area).iAddr layout.extraIsize = s.iAddr layout.extraIsize :=
  if_neg (by omega)

/-- The attempt starts without nodes and blocks. -/
theorem InlineDir.cleared (dir : InlineDir layout) :
    topNodes (dir.state.clearArea layout).file.index tops = [] ∧
      ∀ b, b < 2 ^ 63 → blockAddr layout (dir.state.clearArea layout).file.index b = nullAddr := by
  have hnodes : topNodes (dir.state.clearArea layout).file.index tops = [] := by
    refine List.flatMap_eq_nil_iff.mpr fun k hk => ?_
    rw [show (dir.state.clearArea layout).file.index.iNid k = 0 from
      dir.noNode k (List.mem_range.mp hk), nodesOf_missing]
  have ht : IndexTree (dir.state.clearArea layout).file.index :=
    ⟨by rw [hnodes]; exact List.nodup_nil, fun m hm => by rw [hnodes] at hm; cases hm⟩
  refine ⟨hnodes, fun b hb => ?_⟩
  rcases block_cases layout b with hin | ⟨k, r, o, hk, hr, ho, rfl⟩ | hlarge
  · rw [blockAddr_inode hin, dataAddr]
    by_cases hfirst : b = 0
    · rw [hfirst, Nat.add_zero]
      exact (setInlineArea_first dir.state.file.index fun _ => 0).trans dir.noBlock
    · refine if_pos ⟨by omega, ?_⟩
      unfold inlineWords
      omega
  · have hd : dnodeOf (dir.state.clearArea layout).file.index k r = 0 := by
      rw [dnodeOf, show (dir.state.clearArea layout).file.index.iNid k = 0 from dir.noNode k hk,
        dnodeAt_missing]
    rw [blockAddr_blockOf ht hk hr ho, if_pos hd]
  · exact blockAddr_large hlarge hb

variable (env : ConvertEnv layout) {dirLevel : UInt8} {e : AllocError} {failed : DirState}

/-- What is left if the nodes of the tree can be read. -/
theorem undone_of_readable (dir : InlineDir layout)
    (hadd : Adding (dir.state.clearArea layout).file.index failed)
    (hread : ∀ m ∈ topNodes failed.file.index tops, env.unreadable m = none) :
    Undone layout dir.state failed
      ((punchDentryPages env failed).recover layout (inlineArea layout dir.state.file.index)) := by
  have htrunc := truncateAll_truncates layout { node := env.unreadable } hadd.building.tree
    dir.hasArea rfl rfl hread
  have hpunched : (punchDentryPages env failed).file.index =
      (truncateAll layout { node := env.unreadable } failed.file.index).2 := rfl
  rw [← hpunched] at htrunc
  have hfreed := htrunc.freed
  rw [topNodesFrom_zero] at hfreed
  refine ⟨inlineArea_setInlineArea _ _, hadd.inlineDentry, rfl,
    hfreed.of_words rfl rfl rfl rfl rfl, fun k hk => ?_, ?_, fun n hfree => ?_,
    ⟨fun _ => rfl, rfl⟩, fun namehash matchName => ?_⟩
  · exact (htrunc.top k hk).trans (if_pos (Nat.zero_le _))
  · have hnull := htrunc.behind 0 (Nat.le_refl 0) (by decide)
    rw [blockAddr_inode dir.hasArea] at hnull
    exact (setInlineArea_first _ _).trans hnull
  · refine (hfreed.nat n).trans ?_
    by_cases hmem : n ∈ topNodes failed.file.index tops
    · rw [if_pos hmem]
    · rw [if_neg hmem]
      by_contra hn
      exact hmem (hadd.building.nids n hfree hn)
  · unfold findInInlineDir
    rw [DirState.recover, inlineArea_setInlineArea]

/-- The state after the entries were added up to a failure. -/
theorem failed_adding (dir : InlineDir layout)
    (hfail : addAllEntries env dirLevel (inlineArea layout dir.state.file.index)
      (dir.state.clearArea layout) = (.error e, failed)) :
    Adding (dir.state.clearArea layout).file.index failed := by
  have htree : IndexTree (dir.state.clearArea layout).file.index := by
    obtain ⟨hnodes, -⟩ := dir.cleared
    exact ⟨by rw [hnodes]; exact List.nodup_nil, fun m hm => by rw [hnodes] at hm; cases hm⟩
  have h : Adding (dir.state.clearArea layout).file.index
      (addAllEntries env dirLevel (inlineArea layout dir.state.file.index)
        (dir.state.clearArea layout)).2 :=
    addEntries_adding env dirLevel _ ⟨.first htree, dir.inlineDentry⟩
  rw [hfail] at h
  exact h

/-- A node that cannot be read again stays. -/
theorem readable_of_undone (dir : InlineDir layout)
    (hadd : Adding (dir.state.clearArea layout).file.index failed)
    (h : Undone layout dir.state failed
      ((punchDentryPages env failed).recover layout (inlineArea layout dir.state.file.index))) :
    ∀ m ∈ topNodes failed.file.index tops, env.unreadable m = none := by
  refine (truncateAll_freed_iff layout { node := env.unreadable } hadd.building.tree
    dir.hasArea rfl rfl).mp fun m hm => ?_
  exact (h.freed.nat m).trans (if_pos hm)

/-- The run of a conversion that fails while it adds the entries. -/
theorem f2fsConvertInlineDir_failed (dir : InlineDir layout) (hlevel : dirLevel ≠ 0)
    (hmemory : env.memory = true)
    (hfail : addAllEntries env dirLevel (inlineArea layout dir.state.file.index)
      (dir.state.clearArea layout) = (.error e, failed)) :
    f2fsConvertInlineDir env dirLevel dir.state = (.error e,
      (punchDentryPages env failed).recover layout
        (inlineArea layout dir.state.file.index)) := by
  have hpunch : f2fsAddInlineEntries env dirLevel (inlineArea layout dir.state.file.index)
      (dir.state.clearArea layout) = (.error e, punchDentryPages env failed) := by
    rw [f2fsAddInlineEntries, hfail]
  rw [f2fsConvertInlineDir, if_neg hlevel, f2fsMoveRehashedDirents, hmemory]
  simp only [Bool.not_true, Bool.false_eq_true, if_false]
  rw [hpunch]

/-- A conversion that fails while it adds the entries is undone exactly if each node of the
    tree that it has built can be read. -/
theorem rehash_undone_iff (dir : InlineDir layout) (hlevel : dirLevel ≠ 0)
    (hmemory : env.memory = true)
    (hfail : addAllEntries env dirLevel (inlineArea layout dir.state.file.index)
      (dir.state.clearArea layout) = (.error e, failed)) :
    ∃ after, f2fsConvertInlineDir env dirLevel dir.state = (.error e, after) ∧
      (Undone layout dir.state failed after ↔
        ∀ m ∈ topNodes failed.file.index tops, env.unreadable m = none) := by
  have hadd := failed_adding env dir hfail
  exact ⟨_, f2fsConvertInlineDir_failed env dir hlevel hmemory hfail,
    readable_of_undone env dir hadd, undone_of_readable env dir hadd⟩

theorem not_undone_of_unreadable (dir : InlineDir layout) (hlevel : dirLevel ≠ 0)
    (hmemory : env.memory = true)
    (hfail : addAllEntries env dirLevel (inlineArea layout dir.state.file.index)
      (dir.state.clearArea layout) = (.error e, failed))
    {nid : Nat} (hmem : nid ∈ topNodes failed.file.index tops)
    (hunread : env.unreadable nid ≠ none) :
    ¬Undone layout dir.state failed (f2fsConvertInlineDir env dirLevel dir.state).2 := by
  rw [f2fsConvertInlineDir_failed env dir hlevel hmemory hfail]
  exact fun h => hunread (readable_of_undone env dir (failed_adding env dir hfail) h nid hmem)

end

/-! ## A directory with one entry -/

/-- An inline directory with one entry, `a`. -/
def oneEntry : DirState where
  file :=
    { ino := 3
      index :=
        { iAddr := fun j =>
            if j = 1 then 1 else if j = 12 then 5 else if j = 13 then 65537
            else if j = 539 then 97 else 0
          iNid := fun _ => 0
          word := fun _ _ => 0
          nat := fun _ => nullAddr
          invalidated := []
          totalValidNodeCount := 1
          totalValidBlockCount := 1
          iBlocks := 1 }
      space :=
        { sbi := ⟨1000, 1, 1, 0, 0, 0, false, 1000, 1⟩
          inodes := fun _ => ⟨1, 0, 1⟩ } }
  iCurrentDepth := 0
  iSize := 3688
  chash := 0
  clevel := 0
  inlineDentry := true
  page _ := zeroBlock
  dirty _ := false
  dirtyDir := false
  asked := 0

def oneEntryDir : InlineDir wholeInode where
  state := oneEntry
  hasArea := by decide
  inlineDentry := rfl
  noNode _ _ := rfl
  noBlock := rfl

/-- The block of the entry needs a node, which is made; then the quota refuses the block. -/
def refusingEnv (unreadable : Nat → Option ReadError) : ConvertEnv wholeInode where
  page _ :=
    { dnode :=
        { node := fun _ => { nid := some 7 }
          caller := ⟨false, false, false, false, false⟩
          quotaGrants := false } }
  unreadable := unreadable

def oneEntryRun (unreadable : Nat → Option ReadError) : Except AllocError Unit × DirState :=
  addAllEntries (refusingEnv unreadable) 11 (inlineArea wholeInode oneEntryDir.state.file.index)
    (oneEntryDir.state.clearArea wholeInode)

theorem ends_with {α β : Type} {r : α × β} {a : α} (h : r.1 = a) : r = (a, r.2) := by
  cases h
  rfl

/-- The node that was made cannot be read again, and stays. -/
theorem oneEntry_not_undone : ∃ failed,
    oneEntryRun (fun _ => some .eio) = (.error .quota, failed) ∧
      ¬Undone wholeInode oneEntryDir.state failed
        (f2fsConvertInlineDir (refusingEnv fun _ => some .eio) 11 oneEntryDir.state).2 := by
  have hfail : (oneEntryRun fun _ => some .eio).1 = .error .quota := by decide +kernel
  have hnodes : topNodes (oneEntryRun fun _ => some .eio).2.file.index tops = [7] := by
    decide +kernel
  have hmem : 7 ∈ topNodes (oneEntryRun fun _ => some .eio).2.file.index tops := by
    rw [hnodes]
    exact List.mem_singleton_self 7
  exact ⟨_, ends_with hfail,
    not_undone_of_unreadable _ oneEntryDir (by decide) rfl (ends_with hfail) hmem nofun⟩

/-- All nodes can be read. -/
theorem oneEntry_undone : ∃ after,
    f2fsConvertInlineDir (refusingEnv fun _ => none) 11 oneEntryDir.state =
        (.error .quota, after) ∧
      Undone wholeInode oneEntryDir.state (oneEntryRun fun _ => none).2 after := by
  have hfail : (oneEntryRun fun _ => none).1 = .error .quota := by decide +kernel
  obtain ⟨after, hrun, hiff⟩ := rehash_undone_iff (refusingEnv fun _ => none) oneEntryDir
    (by decide) rfl (ends_with hfail)
  exact ⟨after, hrun, hiff.mpr fun _ _ => rfl⟩

end F2fs.Dir

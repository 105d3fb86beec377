/-
  The pass of `do_garbage_collect` over a section in which every valid block can be moved.

  A block that is `Ready` is moved out, or belongs to a pinned file; then
  `f2fs_pin_file_control` counts the failure, and a file whose count passes the threshold
  loses its pin.  So a pass of FG_GC empties the section or brings `pinBudget` down.  What a
  pass keeps in any case is `Pass` and `After`.
-/
import F2fs.Gc.Collect
import F2fs.Gc.Guarded

namespace F2fs.Gc

open F2fs.Segment
open SegManager (BooksOk MovedOut SectionEmpty openDirt)

section

variable (env : GcEnv)

/-! ## Blocks that can be moved -/

/-- The summary entry of a block. -/
def GcFs.entry (fs : GcFs) (segno off : Nat) : SumEntry := (fs.segs.ssa segno).entries off

/-- The data block at `a`, with the node page and the inode it belongs to: nothing on the way
    from `gc_data_segment` to the write refuses it. -/
structure ReadyData (fs : GcFs) (e : SumEntry) (a : Nat) (node : GcNode) (inode : GcInode) :
    Prop where
  page : fs.node e.nid = some node
  addr : node.addr e.ofsInNode = a
  owner : fs.iget env node.ino = some inode
  notAtomic : inode.atomic = false
  unlocked : inode.isReg → inode.dioRead ∧ inode.dioWrite
  found : env.dnode node.ino (bidxOf node inode e) = some (e.nid, e.ofsInNode)
  moves : if inode.encrypted then
      env.grabPage node.ino (bidxOf node inode e) ∧ env.moveFails a = false
    else inode.dioWrite ∧ env.readPage node.ino (bidxOf node inode e) ∧ env.trylockOp ∧
      env.reallocs a = 0

/-- The node block at `a`. -/
structure ReadyNode (fs : GcFs) (e : SumEntry) (a : Nat) (node : GcNode) : Prop where
  page : fs.node e.nid = some node
  addr : node.blkAddr = a
  writes : env.porDoing = false ∧ env.cpError = false ∧ env.reallocs a = 0

/-- A block of a data or a node segment that can be moved. -/
def Ready (isData : Bool) (fs : GcFs) (segno off : Nat) : Prop :=
  let a := startBlock env.sm segno + off
  if isData then ∃ node inode, ReadyData env fs (fs.entry segno off) a node inode
  else ∃ node, ReadyNode env fs (fs.entry segno off) a node

/-- The summaries of the section can be read, and every valid block of it can be moved. -/
def Movable (isData : Bool) (secno : Nat) (fs : GcFs) : Prop :=
  ∀ k < env.sm.mainSegments, getSec env.sm k = secno → ∀ off < blocksPerSeg,
    checkValidMap fs k off = true → env.sumUptodate k = true ∧ Ready env isData fs k off

/-! ## Pinned files -/

/-- How often a pinned file can still refuse a block. -/
def pinRetries (inode : GcInode) : Nat :=
  if inode.pinned then
    -- the count wraps to 0
    if inode.gcFailures.val = 2 ^ 16 - 1 then env.pinThreshold + 3
    else env.pinThreshold + 1 - inode.gcFailures.val + 1
  else 0

/-- The same for all files. -/
def pinBudget (fs : GcFs) : Nat :=
  ∑ ino ∈ Finset.range env.maxNid, ((fs.inode ino).map (pinRetries env)).getD 0

end

section

variable {env : GcEnv} {fs fs' fs₁ : GcFs} {secs : Finset Nat} {secno segno off : Nat}
  {e : SumEntry} {a : Nat} {node : GcNode} {inode : GcInode}

theorem pinBudget_congr (h : fs'.inode = fs.inode) : pinBudget env fs' = pinBudget env fs := by
  unfold pinBudget
  rw [h]

/-- A refusal is counted. -/
theorem pinRetries_lt (hthresh : env.pinThreshold < 2 ^ 16 - 1) (hpin : inode.pinned = true) :
    pinRetries env (countFailure env inode) < pinRetries env inode := by
  have hlt := inode.gcFailures.isLt
  have hval : (Fin.ofNat (2 ^ 16) (inode.gcFailures.val + 1)).val =
      (inode.gcFailures.val + 1) % 2 ^ 16 := rfl
  unfold pinRetries countFailure
  simp only [hpin, hval, Bool.true_and, if_true, Bool.not_eq_true', decide_eq_false_iff_not]
  by_cases hwrap : inode.gcFailures.val = 2 ^ 16 - 1
  · rw [hwrap, if_pos rfl]
    split <;> simp
  · rw [if_neg hwrap, Nat.mod_eq_of_lt (by omega)]
    split
    · split <;> omega
    · omega

theorem pinFileControl_budget {ino : Nat} (hthresh : env.pinThreshold < 2 ^ 16 - 1)
    (hget : fs.iget env ino = some inode) (hpin : inode.pinned = true) :
    pinBudget env (pinFileControl env ino inode fs) < pinBudget env fs := by
  unfold GcFs.iget at hget
  split at hget
  case isFalse => cases hget
  case isTrue hlt =>
    unfold pinBudget pinFileControl GcFs.setInode
    refine Finset.sum_lt_sum (fun i _ => ?_) ⟨ino, Finset.mem_range.mpr hlt, ?_⟩
    · simp only [Function.update_apply]
      split
      case isTrue heq =>
        rw [heq, hget]
        exact (pinRetries_lt hthresh hpin).le
      case isFalse => exact Nat.le_refl _
    · simp only [Function.update_self, hget]
      exact pinRetries_lt hthresh hpin

/-! ## What stays ready -/

theorem ReadyData.congr (h : ReadyData env fs e a node inode) (hnode : fs'.node = fs.node)
    (hinode : fs'.inode = fs.inode) : ReadyData env fs' e a node inode where
  page := hnode ▸ h.page
  addr := h.addr
  owner := by
    unfold GcFs.iget
    rw [hinode]
    exact h.owner
  notAtomic := h.notAtomic
  unlocked := h.unlocked
  found := h.found
  moves := h.moves

/-- Another block's address was changed in a node page. -/
theorem ReadyData.setNode {node₀ : GcNode} {nid ofs addr : Nat}
    (h : ReadyData env fs e a node inode) (hpage : fs.node nid = some node₀)
    (hne : node₀.addr ofs ≠ a)
    (hnode : fs'.node = Function.update fs.node nid
      (some { node₀ with addr := Function.update node₀.addr ofs addr }))
    (hinode : fs'.inode = fs.inode) : ∃ node', ReadyData env fs' e a node' inode := by
  have howner : fs'.iget env node.ino = some inode := by
    unfold GcFs.iget
    rw [hinode]
    exact h.owner
  by_cases hnid : e.nid = nid
  · obtain rfl : node₀ = node := Option.some.inj (hpage.symm.trans (hnid ▸ h.page))
    refine ⟨{ node₀ with addr := Function.update node₀.addr ofs addr }, ?_, ?_, howner,
      h.notAtomic, h.unlocked, h.found, h.moves⟩
    · rw [hnode, hnid, Function.update_self]
    · have hofs : e.ofsInNode ≠ ofs := fun hc => hne (hc ▸ h.addr)
      exact (Function.update_of_ne hofs _ _).trans h.addr
  · refine ⟨node, ?_, h.addr, howner, h.notAtomic, h.unlocked, h.found, h.moves⟩
    rw [hnode, Function.update_of_ne hnid]
    exact h.page

/-- Another node page was written elsewhere. -/
theorem ReadyNode.setNode {node₀ : GcNode} {nid addr : Nat} (h : ReadyNode env fs e a node)
    (hpage : fs.node nid = some node₀) (hne : node₀.blkAddr ≠ a)
    (hnode : fs'.node = Function.update fs.node nid (some { node₀ with blkAddr := addr })) :
    ReadyNode env fs' e a node := by
  have hnid : e.nid ≠ nid := by
    intro hc
    obtain rfl : node₀ = node := Option.some.inj (hpage.symm.trans (hc ▸ h.page))
    exact hne h.addr
  refine ⟨?_, h.addr, h.writes⟩
  rw [hnode, Function.update_of_ne hnid]
  exact h.page

/-- The failures of an inode were counted. -/
theorem ReadyData.pinFileControl {inode₀ : GcInode} {ino : Nat}
    (h : ReadyData env fs e a node inode) (hget : fs.iget env ino = some inode₀) :
    ∃ inode', ReadyData env (pinFileControl env ino inode₀ fs) e a node inode' := by
  have hlt : node.ino < env.maxNid := by
    have howner := h.owner
    unfold GcFs.iget at howner
    split at howner
    · assumption
    · cases howner
  by_cases hino : node.ino = ino
  · obtain rfl : inode₀ = inode := Option.some.inj (hget.symm.trans (hino ▸ h.owner))
    refine ⟨countFailure env inode₀, h.page, h.addr, ?_, h.notAtomic, h.unlocked, h.found,
      h.moves⟩
    unfold GcFs.iget Gc.pinFileControl GcFs.setInode
    rw [if_pos hlt, hino]
    exact Function.update_self ino _ fs.inode
  · refine ⟨inode, h.page, h.addr, ?_, h.notAtomic, h.unlocked, h.found, h.moves⟩
    have howner := h.owner
    unfold GcFs.iget Gc.pinFileControl GcFs.setInode at *
    rw [if_pos hlt] at howner ⊢
    exact (Function.update_of_ne hino _ _).trans howner

theorem Ready.congr {isData : Bool} (h : Ready env isData fs segno off)
    (hnode : fs'.node = fs.node) (hinode : fs'.inode = fs.inode)
    (hentry : fs'.entry segno off = fs.entry segno off) : Ready env isData fs' segno off := by
  unfold Ready at *
  rw [hentry]
  cases isData with
  | true =>
    obtain ⟨node, inode, hready⟩ := h
    exact ⟨node, inode, hready.congr hnode hinode⟩
  | false =>
    obtain ⟨node, hready⟩ := h
    exact ⟨node, hnode ▸ hready.page, hready.addr, hready.writes⟩

/-! ## An allocation -/

theorem getBlkoff_block (sm : SmInfo) (segno : Nat) (hoff : off < blocksPerSeg) :
    getBlkoff sm (startBlock sm segno + off) = Fin.ofNat blocksPerSeg off := by
  refine Fin.ext ((getBlkoff_startBlock hoff).trans ?_)
  rw [Fin.val_ofNat, Nat.mod_eq_of_lt hoff]

theorem block_inj {sm : SmInfo} {k k' off' : Nat} (hk : k < sm.mainSegments)
    (hk' : k' < sm.mainSegments) (hoff : off < blocksPerSeg) (hoff' : off' < blocksPerSeg)
    (heq : startBlock sm k + off = startBlock sm k' + off') : k = k' ∧ off = off' := by
  constructor
  · rw [← getSegno_startBlock hk hoff, heq, getSegno_startBlock hk' hoff']
  · have hblk := congrArg (fun a => (getBlkoff sm a).val) heq
    simp only [getBlkoff_startBlock hoff, getBlkoff_startBlock hoff'] at hblk
    exact hblk

theorem sectionEmpty_iff (sm : SmInfo) : SectionEmpty sm fs.segs secno ↔
    ∀ k < sm.mainSegments, getSec sm k = secno → ∀ off < blocksPerSeg,
      checkValidMap fs k off = false := by
  refine forall_congr' fun k => forall_congr' fun _ => forall_congr' fun _ => ?_
  unfold checkValidMap
  rw [Finset.eq_empty_iff_forall_notMem]
  constructor
  · exact fun h off _ => decide_eq_false (h _)
  · intro h i
    have hi := of_decide_eq_false (h i.val i.isLt)
    rwa [show Fin.ofNat blocksPerSeg i.val = i from Fin.ext (Nat.mod_eq_of_lt i.isLt)] at hi

/-- A section without valid blocks has no dirty segments. -/
theorem notDirty_of_empty {sm : SmInfo} {s : SegManager} {c : Nat} (h : BooksOk sm s)
    (hempty : SectionEmpty sm s c) : ∀ k ∈ s.dirty.dirtySegmap dirtyAll, getSec sm k ≠ c := by
  intro k hk hsec
  have hmain := Finset.mem_range.mp (h.dirtyMain _ hk)
  have hvalid := h.dirtyValid k hk fun hc => by cases hc
  rw [(h.counted k hmain).valid, hempty k hmain hsec, Finset.card_empty] at hvalid
  exact hvalid rfl

/-- A block of one of the sections is written elsewhere. -/
theorem allocate_movedOut (h : BooksOk env.sm fs.segs)
    (hapart : ∀ t, getSec env.sm (fs.segs.curseg t).segno ∉ secs)
    (hused : secs ⊆ fs.segs.free.freeSecmap)
    (hguard : ∀ c ∈ secs, Guarded fs.g c ∨ SectionEmpty env.sm fs.segs c)
    (hk : segno < env.sm.mainSegments) (hsec : getSec env.sm segno ∈ secs)
    (hoff : off < blocksPerSeg) {sum : SumEntry} {type : CursegType} {addr : Nat}
    (heq : fs.allocate env (startBlock env.sm segno + off) sum type = some (addr, fs')) :
    MovedOut env.sm fs.segs fs'.segs secs (startBlock env.sm segno + off) ∧
      fs'.g.curVictimSec = fs.g.curVictimSec ∧ fs' = { fs with g := fs'.g } := by
  have hold := inMain_startBlock hk hoff
  have hsegno := getSegno_startBlock hk hoff
  unfold GcFs.allocate at heq
  obtain ⟨⟨addr', s⟩, halloc, hpair⟩ := Option.map_eq_some_iff.mp heq
  obtain ⟨rfl, rfl⟩ := Prod.mk.inj hpair
  refine ⟨SegManager.allocateDataBlock_movedOut h hapart hused hold (hsegno.symm ▸ hsec) ?_ halloc,
    rfl, rfl⟩
  · have hwrite : SegManager.Books env.sm (fs.segs.writeNext env.sm type env.now
        (startBlock env.sm segno + off) sum) := h.toBooks.writeNext hold (h.rooms type).room
    have hdirty := SegManager.writeNext_dirty env.sm fs.segs type env.now
      (startBlock env.sm segno + off) sum
    generalize fs.segs.writeNext env.sm type env.now (startBlock env.sm segno + off) sum = s' at *
    refine ssr_outside (g := { fs.g with segs := s' }) hwrite (fun c hc => ?_) (fun mode => ?_) _ _
    · rw [show Guarded { fs.g with segs := s' } c ↔ Guarded fs.g c by
        unfold Guarded
        rw [hdirty]
        rfl, hdirty]
      exact (hguard c hc).imp id (notDirty_of_empty h)
    · unfold scanFuel
      simp only
      cases mode <;> omega

/-! ## The pass -/

/-- What holds between the blocks of a pass over section `secno`.  No log comes into the
    sections `secs`. -/
structure Pass (env : GcEnv) (isData : Bool) (secs : Finset Nat) (secno : Nat) (fs : GcFs) :
    Prop where
  books : BooksOk env.sm fs.segs
  inSecs : secno ∈ secs
  apart : ∀ t, getSec env.sm (fs.segs.curseg t).segno ∉ secs
  inUse : secs ⊆ fs.segs.free.freeSecmap
  guarded : ∀ c ∈ secs, Guarded fs.g c ∨ SectionEmpty env.sm fs.segs c
  movable : Movable env isData secno fs

/-- What a pass does not undo. -/
structure After (env : GcEnv) (secs : Finset Nat) (fs fs' : GcFs) : Prop where
  valid : ∀ k < env.sm.mainSegments, getSec env.sm k ∈ secs → ∀ off < blocksPerSeg,
    checkValidMap fs' k off = true → checkValidMap fs k off = true
  ssa : ∀ k, getSec env.sm k ∈ secs → fs'.segs.ssa k = fs.segs.ssa k
  owners : ∀ nid node, fs.node nid = some node →
    ∃ node', fs'.node nid = some node' ∧ node'.ino = node.ino
  gcList : fs.gcList ⊆ fs'.gcList
  budget : pinBudget env fs' ≤ pinBudget env fs
  victims : fs'.segs.dirty.victimSecmap ⊆ fs.segs.dirty.victimSecmap
  kept : ∀ c ∈ secs, c ∈ fs.segs.dirty.victimSecmap →
    c ∈ fs'.segs.dirty.victimSecmap ∨ SectionEmpty env.sm fs'.segs c
  free : fs.segs.free.freeSecmap ⊆ fs'.segs.free.freeSecmap
  dirt : openDirt env.sm fs'.segs secs ≤ openDirt env.sm fs.segs secs

theorem After.refl (env : GcEnv) (secs : Finset Nat) (fs : GcFs) : After env secs fs fs :=
  ⟨fun _ _ _ _ _ h => h, fun _ _ => rfl, fun _ node h => ⟨node, h, rfl⟩, Finset.Subset.refl _,
    Nat.le_refl _, Finset.Subset.refl _, fun _ _ h => Or.inl h,
    Finset.Subset.refl _, Nat.le_refl _⟩

theorem After.empty {c : Nat} (h : After env secs fs fs') (hc : c ∈ secs)
    (hempty : SectionEmpty env.sm fs.segs c) : SectionEmpty env.sm fs'.segs c := by
  rw [sectionEmpty_iff] at hempty ⊢
  intro k hk hsec off hoff
  refine Bool.eq_false_of_not_eq_true fun hv => ?_
  have hold := h.valid k hk (hsec ▸ hc) off hoff hv
  rw [hempty k hk hsec off hoff] at hold
  cases hold

theorem After.trans (h : After env secs fs fs₁) (h' : After env secs fs₁ fs') :
    After env secs fs fs' where
  valid k hk hsec off hoff hv := h.valid k hk hsec off hoff (h'.valid k hk hsec off hoff hv)
  ssa k hk := (h'.ssa k hk).trans (h.ssa k hk)
  owners nid node hnode := by
    obtain ⟨node₁, hnode₁, hino₁⟩ := h.owners nid node hnode
    obtain ⟨node', hnode', hino'⟩ := h'.owners nid node₁ hnode₁
    exact ⟨node', hnode', hino'.trans hino₁⟩
  gcList := h.gcList.trans h'.gcList
  budget := h'.budget.trans h.budget
  victims := h'.victims.trans h.victims
  kept c hc hv := (h.kept c hc hv).elim (h'.kept c hc) fun hempty => Or.inr (h'.empty hc hempty)
  free := h.free.trans h'.free
  dirt := h'.dirt.trans h.dirt

/-- Steps that only touch pages, lists or counts. -/
theorem After.ofSegs (hsegs : fs'.segs = fs.segs) (hnode : fs'.node = fs.node)
    (hlist : fs.gcList ⊆ fs'.gcList) (hbudget : pinBudget env fs' ≤ pinBudget env fs) :
    After env secs fs fs' where
  valid k _ _ off _ hv := by
    unfold checkValidMap at *
    rwa [hsegs] at hv
  ssa k _ := by rw [hsegs]
  owners nid node h := ⟨node, hnode ▸ h, rfl⟩
  gcList := hlist
  budget := hbudget
  victims := by rw [hsegs]
  kept c _ hv := Or.inl (hsegs ▸ hv)
  free := by rw [hsegs]
  dirt := by rw [hsegs]

theorem Pass.ofSegs {isData : Bool} (h : Pass env isData secs secno fs) (hg : fs'.g = fs.g)
    (hready : ∀ k off, Ready env isData fs k off → Ready env isData fs' k off) :
    Pass env isData secs secno fs' := by
  have hsegs : fs'.segs = fs.segs := congrArg GcInfo.segs hg
  refine ⟨hsegs ▸ h.books, h.inSecs, hsegs ▸ h.apart, hsegs ▸ h.inUse, ?_,
    fun k hk hsec off hoff hv => ?_⟩
  · rw [hg, hsegs]
    exact h.guarded
  · unfold checkValidMap at hv
    rw [hsegs] at hv
    exact (h.movable k hk hsec off hoff hv).imp id (hready k off)

/-- Neither the tables nor the owners of the blocks changed. -/
theorem Pass.congr {isData : Bool} (h : Pass env isData secs secno fs) (hg : fs'.g = fs.g)
    (hnode : fs'.node = fs.node) (hinode : fs'.inode = fs.inode) :
    Pass env isData secs secno fs' := by
  refine h.ofSegs hg fun k off hready => hready.congr hnode hinode ?_
  unfold GcFs.entry GcFs.segs
  rw [hg]

theorem checkValidMap_movedOut {k off' : Nat} (hk : segno < env.sm.mainSegments)
    (hoff : off < blocksPerSeg)
    (h : MovedOut env.sm fs.segs fs'.segs secs (startBlock env.sm segno + off))
    (hksec : getSec env.sm k ∈ secs) (hoff' : off' < blocksPerSeg) :
    checkValidMap fs' k off' = true ↔
      checkValidMap fs k off' = true ∧ ¬(k = segno ∧ off' = off) := by
  have hmap := h.map k hksec
  rw [getSegno_startBlock hk hoff] at hmap
  have hinj : Fin.ofNat blocksPerSeg off' = Fin.ofNat blocksPerSeg off ↔ off' = off := by
    rw [Fin.ext_iff, Fin.val_ofNat, Fin.val_ofNat, Nat.mod_eq_of_lt hoff, Nat.mod_eq_of_lt hoff']
  unfold checkValidMap
  rw [decide_eq_true_eq, decide_eq_true_eq, hmap]
  by_cases heq : k = segno
  · rw [if_pos heq, Finset.mem_erase, getBlkoff_block env.sm segno hoff, ne_eq, hinj, and_comm]
    exact and_congr_right fun _ => not_congr ⟨fun hc => ⟨heq, hc⟩, And.right⟩
  · rw [if_neg heq]
    exact ⟨fun hv => ⟨hv, fun hc => heq hc.1⟩, And.left⟩

/-- One block of the section was written elsewhere. -/
theorem Pass.moved {isData : Bool} (h : Pass env isData secs secno fs)
    (hk : segno < env.sm.mainSegments) (hsec : getSec env.sm segno = secno)
    (hoff : off < blocksPerSeg)
    (hmoved : MovedOut env.sm fs.segs fs'.segs secs (startBlock env.sm segno + off))
    (hcur : fs'.g.curVictimSec = fs.g.curVictimSec) (hinode : fs'.inode = fs.inode)
    (hlist : fs'.gcList = fs.gcList)
    (howners : ∀ nid node, fs.node nid = some node →
      ∃ node', fs'.node nid = some node' ∧ node'.ino = node.ino)
    (hkeep : ∀ k < env.sm.mainSegments, ∀ off' < blocksPerSeg, ¬(k = segno ∧ off' = off) →
      fs'.entry k off' = fs.entry k off' → Ready env isData fs k off' →
      Ready env isData fs' k off') :
    Pass env isData secs secno fs' ∧ After env secs fs fs' ∧
      checkValidMap fs' segno off = false := by
  have hmap : ∀ {k off'}, getSec env.sm k ∈ secs → off' < blocksPerSeg →
      (checkValidMap fs' k off' = true ↔
        checkValidMap fs k off' = true ∧ ¬(k = segno ∧ off' = off)) :=
    checkValidMap_movedOut hk hoff hmoved
  have hafter : After env secs fs fs' :=
    ⟨fun k _ hksec off' hoff' hv => ((hmap hksec hoff').mp hv).1, hmoved.ssa, howners,
      hlist ▸ Finset.Subset.refl _, (pinBudget_congr hinode).le, hmoved.victims, hmoved.kept,
      hmoved.free, hmoved.openDirt_le⟩
  refine ⟨⟨hmoved.books, h.inSecs, hmoved.apart, h.inUse.trans hmoved.free, fun c hc => ?_,
    fun k hk' hksec off' hoff' hv => ?_⟩, hafter, ?_⟩
  · rcases h.guarded c hc with (hguard | hguard) | hempty
    · exact Or.inl (Or.inl (hcur.trans hguard))
    · exact (hmoved.kept c hc hguard).imp Or.inr id
    · exact Or.inr (hafter.empty hc hempty)
  · obtain ⟨hv, hne⟩ := (hmap (hksec ▸ h.inSecs) hoff').mp hv
    obtain ⟨hsum, hready⟩ := h.movable k hk' hksec off' hoff' hv
    refine ⟨hsum, hkeep k hk' off' hoff' hne ?_ hready⟩
    unfold GcFs.entry
    rw [hmoved.ssa k (hksec ▸ h.inSecs)]
  · refine Bool.eq_false_of_not_eq_true fun hc => ?_
    exact ((hmap (hsec ▸ h.inSecs) hoff).mp hc).2 ⟨rfl, rfl⟩

theorem Pass.allocate {isData : Bool} (h : Pass env isData secs secno fs)
    (hk : segno < env.sm.mainSegments) (hsec : getSec env.sm segno = secno)
    (hoff : off < blocksPerSeg) {sum : SumEntry} {type : CursegType} {addr : Nat}
    (heq : fs.allocate env (startBlock env.sm segno + off) sum type = some (addr, fs')) :
    MovedOut env.sm fs.segs fs'.segs secs (startBlock env.sm segno + off) ∧
      fs'.g.curVictimSec = fs.g.curVictimSec ∧ fs' = { fs with g := fs'.g } :=
  allocate_movedOut h.books h.apart h.inUse h.guarded hk (hsec ▸ h.inSecs) hoff heq

/-- A data block. -/
theorem Pass.movedData (h : Pass env true secs secno fs) (hk : segno < env.sm.mainSegments)
    (hsec : getSec env.sm segno = secno) (hoff : off < blocksPerSeg)
    (hready : ReadyData env fs (fs.entry segno off) (startBlock env.sm segno + off) node inode)
    {sum : SumEntry} {type : CursegType} {addr : Nat}
    (halloc : fs.allocate env (startBlock env.sm segno + off) sum type = some (addr, fs₁))
    (heq : fs' = updateDataBlkaddr (fs.entry segno off).nid (fs.entry segno off).ofsInNode addr
      node fs₁) :
    Pass env true secs secno fs' ∧ After env secs fs fs' ∧ checkValidMap fs' segno off = false := by
  obtain ⟨hmoved, hcur, hsame⟩ := h.allocate hk hsec hoff halloc
  have hnode : fs'.node = Function.update fs.node (fs.entry segno off).nid (some
      { node with addr := Function.update node.addr (fs.entry segno off).ofsInNode addr }) := by
    rw [heq, hsame]
    rfl
  have hinode : fs'.inode = fs.inode := by
    rw [heq, hsame]
    rfl
  have hg : fs'.g = fs₁.g := by
    rw [heq]
    rfl
  have hsegs : fs'.segs = fs₁.segs := congrArg GcInfo.segs hg
  refine h.moved hk hsec hoff (hsegs ▸ hmoved) (hg ▸ hcur) hinode ?_
    (fun nid node' hnid => ?_) fun k hk' off' hoff' hne hentry hready' => ?_
  · rw [heq, hsame]
    rfl
  · rw [hnode]
    by_cases heq' : nid = (fs.entry segno off).nid
    · obtain rfl := Option.some.inj (hready.page.symm.trans (heq' ▸ hnid))
      refine ⟨{ node with addr := Function.update node.addr (fs.entry segno off).ofsInNode addr },
        ?_, rfl⟩
      rw [heq', Function.update_self]
    · exact ⟨node', (Function.update_of_ne heq' _ _).trans hnid, rfl⟩
  · obtain ⟨node', inode', hdata⟩ := hready'
    have hne' : node.addr (fs.entry segno off).ofsInNode ≠ startBlock env.sm k + off' := by
      rw [hready.addr]
      exact fun hc => hne (block_inj hk' hk hoff' hoff hc.symm)
    obtain ⟨node'', hdata'⟩ := hdata.setNode hready.page hne' hnode hinode
    unfold Ready
    rw [hentry]
    exact ⟨node'', inode', hdata'⟩

/-- A node block. -/
theorem Pass.movedNode (h : Pass env false secs secno fs) (hk : segno < env.sm.mainSegments)
    (hsec : getSec env.sm segno = secno) (hoff : off < blocksPerSeg)
    (hready : ReadyNode env fs (fs.entry segno off) (startBlock env.sm segno + off) node)
    {sum : SumEntry} {type : CursegType} {addr : Nat}
    (halloc : fs.allocate env (startBlock env.sm segno + off) sum type = some (addr, fs₁))
    (heq : fs' = fs₁.setNode (fs.entry segno off).nid { node with blkAddr := addr }) :
    Pass env false secs secno fs' ∧ After env secs fs fs' ∧
      checkValidMap fs' segno off = false := by
  obtain ⟨hmoved, hcur, hsame⟩ := h.allocate hk hsec hoff halloc
  have hnode : fs'.node = Function.update fs.node (fs.entry segno off).nid
      (some { node with blkAddr := addr }) := by
    rw [heq, hsame]
    rfl
  have hinode : fs'.inode = fs.inode := by
    rw [heq, hsame]
    rfl
  have hg : fs'.g = fs₁.g := by
    rw [heq]
    rfl
  have hsegs : fs'.segs = fs₁.segs := congrArg GcInfo.segs hg
  refine h.moved hk hsec hoff (hsegs ▸ hmoved) (hg ▸ hcur) hinode ?_
    (fun nid node' hnid => ?_) fun k hk' off' hoff' hne hentry hready' => ?_
  · rw [heq, hsame]
    rfl
  · rw [hnode]
    by_cases heq' : nid = (fs.entry segno off).nid
    · obtain rfl := Option.some.inj (hready.page.symm.trans (heq' ▸ hnid))
      refine ⟨{ node with blkAddr := addr }, ?_, rfl⟩
      rw [heq', Function.update_self]
    · exact ⟨node', (Function.update_of_ne heq' _ _).trans hnid, rfl⟩
  · obtain ⟨node', hnode'⟩ := hready'
    have hne' : node.blkAddr ≠ startBlock env.sm k + off' := by
      rw [hready.addr]
      exact fun hc => hne (block_inj hk' hk hoff' hoff hc.symm)
    unfold Ready
    rw [hentry]
    exact ⟨node', hnode'.setNode hready.page hne' hnode⟩

/-- A pinned file counts a failure. -/
theorem Pass.pinned {ino : Nat} (h : Pass env true secs secno fs)
    (hthresh : env.pinThreshold < 2 ^ 16 - 1) (hget : fs.iget env ino = some inode)
    (hpin : inode.pinned = true) :
    Pass env true secs secno (pinFileControl env ino inode fs) ∧
      After env secs fs (pinFileControl env ino inode fs) ∧
      pinBudget env (pinFileControl env ino inode fs) < pinBudget env fs := by
  have hbudget := pinFileControl_budget hthresh hget hpin
  refine ⟨h.ofSegs rfl fun k off hready => ?_,
    After.ofSegs rfl rfl (Finset.Subset.refl _) hbudget.le, hbudget⟩
  obtain ⟨node, inode', hdata⟩ := hready
  obtain ⟨inode'', hdata'⟩ := hdata.pinFileControl hget
  exact ⟨node, inode'', hdata'⟩

/-! ## One block -/

theorem moveDataBlock_pass (h : Pass env true secs secno fs) (hk : segno < env.sm.mainSegments)
    (hsec : getSec env.sm segno = secno) (hoff : off < blocksPerSeg)
    (hvalid : checkValidMap fs segno off = true) (hthresh : env.pinThreshold < 2 ^ 16 - 1)
    (hready : ReadyData env fs (fs.entry segno off) (startBlock env.sm segno + off) node inode)
    (henc : inode.encrypted = true)
    (heq : moveDataBlock env node.ino inode (bidxOf node inode (fs.entry segno off)) segno off fs =
      some fs') :
    Pass env true secs secno fs' ∧ After env secs fs fs' ∧
      (checkValidMap fs' segno off = false ∨ pinBudget env fs' < pinBudget env fs) := by
  have hmoves := hready.moves
  rw [if_pos henc] at hmoves
  have hblk : InMain env.sm (startBlock env.sm segno + off) := inMain_startBlock hk hoff
  have hmain := hblk.ne
  unfold moveDataBlock at heq
  simp only [hmoves.1, hvalid, hready.notAtomic, not_true_eq_false, Bool.false_eq_true, or_self,
    if_false] at heq
  by_cases hpin : inode.pinned = true
  · rw [if_pos hpin] at heq
    obtain rfl := Option.some.inj heq
    obtain ⟨hpass, hafter, hlt⟩ := h.pinned hthresh hready.owner hpin
    exact ⟨hpass, hafter, Or.inr hlt⟩
  · rw [if_neg hpin, hready.found] at heq
    simp only [hready.page, hready.addr] at heq
    rw [if_neg fun hc => hmain (Or.inl hc)] at heq
    obtain ⟨⟨addr, fs₁⟩, halloc, heq⟩ := Option.bind_eq_some_iff.mp heq
    simp only [hmoves.2, Bool.false_eq_true, if_false] at heq
    obtain ⟨hpass, hafter, hgone⟩ :=
      h.movedData hk hsec hoff hready halloc (Option.some.inj heq).symm
    exact ⟨hpass, hafter, Or.inl hgone⟩

theorem doWriteDataPage_pass (h : Pass env true secs secno fs) (hk : segno < env.sm.mainSegments)
    (hsec : getSec env.sm segno = secno) (hoff : off < blocksPerSeg)
    (hready : ReadyData env fs (fs.entry segno off) (startBlock env.sm segno + off) node inode)
    (henc : inode.encrypted = false)
    (heq : doWriteDataPage env node.ino inode (bidxOf node inode (fs.entry segno off)) fs =
      some fs') :
    Pass env true secs secno fs' ∧ After env secs fs fs' ∧ checkValidMap fs' segno off = false := by
  have hmoves := hready.moves
  rw [if_neg (by rw [henc]; exact Bool.false_ne_true)] at hmoves
  obtain ⟨-, -, hlock, hreallocs⟩ := hmoves
  have hblk : InMain env.sm (startBlock env.sm segno + off) := inMain_startBlock hk hoff
  have hmain := hblk.ne
  unfold doWriteDataPage at heq
  rw [if_neg (not_not_intro hlock), hready.found] at heq
  simp only [hready.page, hready.addr, hreallocs] at heq
  rw [if_neg fun hc => hmain (Or.inl hc)] at heq
  obtain ⟨⟨addr, fs₁⟩, halloc, heq⟩ := Option.map_eq_some_iff.mp heq
  exact h.movedData hk hsec hoff hready halloc heq.symm

theorem moveDataPage_pass {gcType : GcType} (h : Pass env true secs secno fs)
    (hk : segno < env.sm.mainSegments) (hsec : getSec env.sm segno = secno)
    (hoff : off < blocksPerSeg) (hvalid : checkValidMap fs segno off = true)
    (hthresh : env.pinThreshold < 2 ^ 16 - 1)
    (hready : ReadyData env fs (fs.entry segno off) (startBlock env.sm segno + off) node inode)
    (henc : inode.encrypted = false)
    (heq : moveDataPage env gcType node.ino inode (bidxOf node inode (fs.entry segno off)) segno off
      fs = some fs') :
    Pass env true secs secno fs' ∧ After env secs fs fs' ∧ (gcType = .fgGc →
      checkValidMap fs' segno off = false ∨ pinBudget env fs' < pinBudget env fs) := by
  have hmoves := hready.moves
  rw [if_neg (by rw [henc]; exact Bool.false_ne_true)] at hmoves
  have hpages : ∀ dents, Pass env true secs secno { fs with dirtyDents := dents } ∧
      After env secs fs { fs with dirtyDents := dents } := fun dents =>
    ⟨h.congr rfl rfl rfl, After.ofSegs rfl rfl (Finset.Subset.refl _) (Nat.le_refl _)⟩
  unfold moveDataPage at heq
  simp only [hmoves.2.1, hvalid, hready.notAtomic, not_true_eq_false, Bool.false_eq_true, or_self,
    if_false] at heq
  by_cases hpin : inode.pinned = true
  · rw [if_pos hpin] at heq
    obtain rfl := Option.some.inj heq
    by_cases hfg : gcType = .fgGc
    · rw [if_pos hfg]
      obtain ⟨hpass, hafter, hlt⟩ := h.pinned hthresh hready.owner hpin
      exact ⟨hpass, hafter, fun _ => Or.inr hlt⟩
    · rw [if_neg hfg]
      exact ⟨h, After.refl env secs fs, fun hc => absurd hc hfg⟩
  · rw [if_neg hpin] at heq
    by_cases hbg : gcType = .bgGc
    · rw [if_pos hbg] at heq
      obtain rfl := Option.some.inj heq
      have hnot : gcType ≠ .fgGc := fun hc => by
        rw [hc] at hbg
        cases hbg
      split
      · exact ⟨(hpages _).1, (hpages _).2, fun hc => absurd hc hnot⟩
      · exact ⟨h, After.refl env secs fs, fun hc => absurd hc hnot⟩
    · rw [if_neg hbg] at heq
      obtain ⟨hpages', hafter'⟩ :=
        hpages (fs.dirtyDents.erase (node.ino, bidxOf node inode (fs.entry segno off)))
      obtain ⟨hpass, hafter, hgone⟩ :=
        doWriteDataPage_pass hpages' hk hsec hoff (hready.congr rfl rfl) henc heq
      exact ⟨hpass, hafter'.trans hafter, fun _ => Or.inl hgone⟩

/-- The inode of the block is in `gc_list`. -/
def Listed (fs : GcFs) (segno off : Nat) : Prop :=
  ∃ node, fs.node (fs.entry segno off).nid = some node ∧ node.ino ∈ fs.gcList

theorem Listed.after (h : Listed fs segno off) (hsec : getSec env.sm segno ∈ secs)
    (hafter : After env secs fs fs') : Listed fs' segno off := by
  obtain ⟨node, hnode, hino⟩ := h
  obtain ⟨node', hnode', hino'⟩ := hafter.owners _ node hnode
  unfold Listed GcFs.entry
  rw [hafter.ssa segno hsec]
  exact ⟨node', hnode', hino' ▸ hafter.gcList hino⟩

theorem isAlive_ready
    (hready : ReadyData env fs (fs.entry segno off) (startBlock env.sm segno + off) node inode) :
    isAlive fs (fs.entry segno off) (startBlock env.sm segno + off) = some node := by
  unfold isAlive
  rw [hready.page, Option.filter_some, if_pos (decide_eq_true hready.addr)]

theorem gcDataBlock_pass {gcType : GcType} (h : Pass env true secs secno fs)
    (hk : segno < env.sm.mainSegments) (hsec : getSec env.sm segno = secno)
    (hoff : off < blocksPerSeg) (hthresh : env.pinThreshold < 2 ^ 16 - 1)
    (heq : gcDataBlock env gcType (fs.segs.ssa segno).entries segno off fs = some fs') :
    Pass env true secs secno fs' ∧ After env secs fs fs' ∧
      (gcType = .fgGc → (checkValidMap fs segno off = true → Listed fs segno off) →
        checkValidMap fs' segno off = false ∨ pinBudget env fs' < pinBudget env fs) := by
  have hentry : (fs.segs.ssa segno).entries off = fs.entry segno off := rfl
  unfold gcDataBlock at heq
  by_cases hvalid : checkValidMap fs segno off = true
  swap
  · rw [if_pos hvalid] at heq
    obtain rfl := Option.some.inj heq
    exact ⟨h, After.refl env secs fs, fun _ _ => Or.inl (Bool.eq_false_of_not_eq_true hvalid)⟩
  obtain ⟨-, node, inode, hready⟩ := h.movable segno hk hsec off hoff hvalid
  rw [if_neg (not_not_intro hvalid), hentry, isAlive_ready hready] at heq
  simp only [hready.owner] at heq
  by_cases hlist : node.ino ∈ fs.gcList
  swap
  · rw [if_pos hlist] at heq
    obtain rfl := Option.some.inj heq
    refine ⟨h, After.refl env secs fs, fun _ hlisted => ?_⟩
    obtain ⟨node', hnode', hino⟩ := hlisted hvalid
    obtain rfl := Option.some.inj (hready.page.symm.trans hnode')
    exact absurd hino hlist
  rw [if_neg (not_not_intro hlist), if_neg fun hc => hc.2 (hready.unlocked hc.1)] at heq
  by_cases henc : inode.encrypted = true
  · rw [if_pos henc] at heq
    obtain ⟨hpass, hafter, hdone⟩ :=
      moveDataBlock_pass h hk hsec hoff hvalid hthresh hready henc heq
    exact ⟨hpass, hafter, fun _ _ => hdone⟩
  · rw [if_neg henc] at heq
    obtain ⟨hpass, hafter, hdone⟩ := moveDataPage_pass h hk hsec hoff hvalid hthresh hready
      (Bool.eq_false_of_not_eq_true henc) heq
    exact ⟨hpass, hafter, fun hfg _ => hdone hfg⟩

end

end F2fs.Gc

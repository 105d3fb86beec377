/-
  The room of a log that allocates by SSR: where `change_curseg` takes it, what
  `__refresh_next_blkoff` leaves, and the switch when the segment is full.

  A block can be written by SSR if it is clear now and was clear at the last checkpoint.
  `ckpt_valid_blocks` counts the blocks that are not, so a count short of `blocks_per_seg`
  means that the bit scan ends inside the segment.
-/
import F2fs.Segment.Curseg

namespace F2fs.Segment

/-! ## Free blocks -/

/-- Block `i` of the segment is clear now and in the last checkpoint. -/
def SegEntry.FreeAt (se : SegEntry) (i : Nat) : Prop :=
  ∃ offset : Fin blocksPerSeg, offset.val = i ∧ offset ∉ se.ckptValidMap ∪ se.curValidMap

section Free

variable {sm : SmInfo} {se : SegEntry} {sit : SitInfo} {now addr i k : Nat} {set : Bool}

theorem SegEntry.FreeAt.lt (h : se.FreeAt i) : i < blocksPerSeg := by
  obtain ⟨offset, rfl, -⟩ := h
  exact offset.isLt

/-- A count short of a full segment leaves a block. -/
theorem SegEntry.Counted.exists_freeAt (h : se.Counted)
    (hlt : se.ckptValidBlocks < blocksPerSeg) : ∃ i, se.FreeAt i := by
  by_contra hfull
  have hall : se.curValidMap ∪ se.ckptValidMap = Finset.univ := by
    rw [Finset.eq_univ_iff_forall]
    intro offset
    by_contra hnot
    rw [Finset.union_comm] at hnot
    exact hfull ⟨offset.val, offset, rfl, hnot⟩
  have hcard := h.ckptValid
  rw [hall, Finset.card_univ, Fintype.card_fin] at hcard
  omega

/-- Clearing a block frees nothing less, and setting one takes only that one. -/
theorem SegEntry.FreeAt.update (h : se.FreeAt i) {offset : Fin blocksPerSeg}
    (hne : set = true → i ≠ offset.val) : (se.update sm now offset set).1.FreeAt i := by
  obtain ⟨j, rfl, hj⟩ := h
  rw [Finset.mem_union, not_or] at hj
  refine ⟨j, rfl, ?_⟩
  rw [update_ckptValidMap, update_curValidMap, Finset.mem_union, not_or]
  cases set with
  | true =>
      have hj' : j ≠ offset := fun heq => hne rfl (congrArg Fin.val heq)
      refine ⟨?_, ?_⟩
      · split
        · exact fun hmem => hj.1 (Finset.mem_of_mem_insert_of_ne hmem hj')
        · exact hj.1
      · exact fun hmem => hj.2 (Finset.mem_of_mem_insert_of_ne hmem hj')
  | false =>
      refine ⟨?_, fun hmem => hj.2 (Finset.mem_of_mem_erase hmem)⟩
      rw [if_neg fun hc => Bool.false_ne_true hc.1]
      exact hj.1

theorem freeAt_updateSitEntry (h : (sit.sentries k).FreeAt i)
    (hne : set = true → k = getSegno sm addr → i ≠ (getBlkoff sm addr).val) :
    ((sit.updateSitEntry sm now addr set).sentries k).FreeAt i := by
  rw [updateSitEntry_sentries, Function.update_apply]
  split
  case isTrue heq =>
      rw [heq] at h
      exact h.update fun hset => hne hset heq
  case isFalse => exact h

/-- The counts go on describing the maps if only free blocks are set. -/
theorem counted_updateSitEntry (h : (sit.sentries k).Counted)
    (hfree : set = true → k = getSegno sm addr →
      (sit.sentries k).FreeAt (getBlkoff sm addr).val) :
    ((sit.updateSitEntry sm now addr set).sentries k).Counted := by
  rw [updateSitEntry_sentries, Function.update_apply]
  split
  case isTrue heq =>
      refine counted_update sm now _ set (heq ▸ h) fun hset _ hcur => ?_
      obtain ⟨offset, hoff, hnot⟩ := hfree hset heq
      obtain rfl := Fin.ext hoff
      rw [← heq] at hcur
      exact absurd (Finset.mem_union_right _ hcur) hnot
  case isFalse => exact h

end Free

namespace SegManager

variable (sm : SmInfo) (s : SegManager)

/-- The scan stops at a free block. -/
theorem nextFreeBlkoff_free {segno start : Nat}
    (h : s.nextFreeBlkoff segno start < blocksPerSeg) :
    start ≤ s.nextFreeBlkoff segno start ∧
      (s.sit.sentries segno).FreeAt (s.nextFreeBlkoff segno start) := by
  obtain ⟨hle, hfree, -⟩ := BitScan.next_spec h
  refine ⟨hle, Fin.ofNat blocksPerSeg (s.nextFreeBlkoff segno start), Nat.mod_eq_of_lt h, ?_⟩
  exact of_decide_eq_true hfree

/-- It stops if there is one. -/
theorem nextFreeBlkoff_lt {segno i : Nat} (h : (s.sit.sentries segno).FreeAt i) :
    s.nextFreeBlkoff segno 0 < blocksPerSeg := by
  obtain ⟨offset, rfl, hnot⟩ := h
  refine BitScan.next_lt_of_match (Nat.zero_le _) offset.isLt (decide_eq_true ?_)
  have heq : Fin.ofNat blocksPerSeg offset.val = offset := Fin.ext (Nat.mod_eq_of_lt offset.isLt)
  rwa [heq]

/-! ## What the steps leave alone -/

/-- The lists of dirty segments are all that differs. -/
def SameButDirty (s t : SegManager) : Prop :=
  s.curseg = t.curseg ∧ s.sit = t.sit ∧ s.ssa = t.ssa

theorem sameButDirty_refl : SameButDirty s s := ⟨rfl, rfl, rfl⟩

theorem SameButDirty.trans {s t u : SegManager} (h : SameButDirty s t) (h' : SameButDirty t u) :
    SameButDirty s u :=
  ⟨h.1.trans h'.1, h.2.1.trans h'.2.1, h.2.2.trans h'.2.2⟩

theorem sameButDirty_locateDirty (segno t : Nat) : SameButDirty (s.locateDirty segno t) s := by
  unfold locateDirty
  split
  · exact sameButDirty_refl s
  · exact ⟨rfl, rfl, rfl⟩

theorem sameButDirty_removeDirty (segno t : Nat) : SameButDirty (s.removeDirty sm segno t) s := by
  unfold removeDirty
  split
  · exact ⟨rfl, rfl, rfl⟩
  · exact ⟨rfl, rfl, rfl⟩

theorem sameButDirty_locateDirtySegment (segno : Nat) :
    SameButDirty (s.locateDirtySegment sm segno) s := by
  unfold locateDirtySegment
  split
  · exact sameButDirty_refl s
  · dsimp only
    split
    · exact (sameButDirty_removeDirty sm _ _ _).trans (sameButDirty_locateDirty s _ _)
    · split
      · exact sameButDirty_locateDirty s _ _
      · exact sameButDirty_removeDirty sm s _ _

@[simp] theorem setCurseg_self (type : CursegType) (c : Curseg) :
    (s.setCurseg type c).curseg type = c := Function.update_self ..

theorem setCurseg_ne {type t : CursegType} (c : Curseg) (h : t ≠ type) :
    (s.setCurseg type c).curseg t = s.curseg t := Function.update_of_ne h ..

/-! ## `change_curseg` -/

section Move

variable (type : CursegType)

/-- The state in which `change_curseg` resets the log. -/
theorem changeCurseg_reset : ∃ t : SegManager, t.curseg = s.curseg ∧ t.sit = s.sit ∧
    t.ssa = Function.update s.ssa (s.curseg type).segno (s.curseg type).sumBlk ∧
    s.changeCurseg sm type =
      (t.resetCurseg sm type true).setCurseg type
        { (t.resetCurseg sm type true).curseg type with
          allocType := AllocMode.SSR
          nextBlkoff := (t.resetCurseg sm type true).nextFreeBlkoff
            ((t.resetCurseg sm type true).curseg type).segno 0
          sumBlk :=
            { ((t.resetCurseg sm type true).curseg type).sumBlk with
              entries := (t.ssa (s.curseg type).nextSegno).entries } } := by
  have hsame := (sameButDirty_removeDirty sm _ (s.curseg type).nextSegno dirtyAll).trans
    (sameButDirty_removeDirty sm
      { s.writeSumPage (s.curseg type).sumBlk (s.curseg type).segno with
        free := s.free.setTestAndInuse sm (s.curseg type).nextSegno }
      (s.curseg type).nextSegno dirtyPre)
  exact ⟨_, hsame.1, hsame.2.1, hsame.2.2, rfl⟩

theorem changeCurseg_sit : (s.changeCurseg sm type).sit =
    s.sit.setSitEntryType type (s.curseg type).nextSegno true := by
  obtain ⟨t, hlogs, hsit, -, heq⟩ := changeCurseg_reset sm s type
  rw [heq, ← hlogs, ← hsit]
  rfl

theorem changeCurseg_ssa : (s.changeCurseg sm type).ssa =
    Function.update s.ssa (s.curseg type).segno (s.curseg type).sumBlk := by
  obtain ⟨t, -, -, hssa, heq⟩ := changeCurseg_reset sm s type
  rw [heq, ← hssa]
  rfl

theorem changeCurseg_self :
    ((s.changeCurseg sm type).curseg type).segno = (s.curseg type).nextSegno ∧
      ((s.changeCurseg sm type).curseg type).allocType = AllocMode.SSR := by
  obtain ⟨t, hlogs, -, -, heq⟩ := changeCurseg_reset sm s type
  rw [heq, setCurseg_self, ← hlogs]
  constructor
  · exact congrArg Curseg.segno (setCurseg_self _ type _)
  · rfl

theorem changeCurseg_ne {t : CursegType} (h : t ≠ type) :
    (s.changeCurseg sm type).curseg t = s.curseg t := by
  obtain ⟨u, hlogs, -, -, heq⟩ := changeCurseg_reset sm s type
  rw [heq, setCurseg_ne _ _ h, ← hlogs]
  exact setCurseg_ne _ _ h

end Move

/-! ## Room -/

/-- The log can write the block it points to. -/
def HasRoom (type : CursegType) : Prop :=
  (s.sit.sentries (s.curseg type).segno).FreeAt (s.curseg type).nextBlkoff

variable {s} {type : CursegType}

theorem HasRoom.congr {t : SegManager} (h : s.HasRoom type) (hlog : t.curseg type = s.curseg type)
    (hsit : t.sit = s.sit) : t.HasRoom type := by
  unfold HasRoom
  rw [hlog, hsit]
  exact h

/-- `change_curseg` to a segment with a free block. -/
theorem changeCurseg_hasRoom {i : Nat}
    (h : (s.sit.sentries (s.curseg type).nextSegno).FreeAt i) :
    (s.changeCurseg sm type).HasRoom type := by
  obtain ⟨t, hlogs, hsit, -, heq⟩ := changeCurseg_reset sm s type
  generalize hreset : t.resetCurseg sm type true = r at heq
  have hsegno : (r.curseg type).segno = (s.curseg type).nextSegno := by
    rw [← hreset, ← hlogs]
    exact congrArg Curseg.segno (setCurseg_self _ type _)
  have hfree : (r.sit.sentries (r.curseg type).segno).FreeAt i := by
    have hentry : r.sit.sentries (r.curseg type).segno =
        { s.sit.sentries (s.curseg type).nextSegno with type := Fin.ofNat 64 type.idx } := by
      rw [hsegno, ← hreset, ← hlogs, ← hsit]
      exact (congrFun (setSitEntryType_sentries t.sit type _ true) _).trans
        (Function.update_self ..)
    rw [hentry]
    exact h
  unfold HasRoom
  rw [heq, setCurseg_self]
  exact (nextFreeBlkoff_free r (nextFreeBlkoff_lt r hfree)).2

/-! ## The next block -/

section Next

variable (s) (type) (now oldBlkaddr : Nat) (sum : SumEntry)

/-- `allocate_data_block` up to the test of the space left. -/
def writeNext : SegManager :=
  let newBlkaddr := s.nextFreeBlkaddr sm type
  let s := (s.addSumEntry type sum).refreshNextBlkoff type
  let s := s.updateSitEntry sm now newBlkaddr true
  if getSegno sm oldBlkaddr ≠ nullSegno then s.updateSitEntry sm now oldBlkaddr false else s

theorem allocateDataBlock_eq (p : AllocPolicy) :
    s.allocateDataBlock sm p now oldBlkaddr sum type =
      let t := s.writeNext sm type now oldBlkaddr sum
      (if blocksPerSeg ≤ (t.curseg type).nextBlkoff then t.allocateSegmentByDefault sm p type false
        else some t).map fun t =>
          (s.nextFreeBlkaddr sm type,
            (t.locateDirtySegment sm (getSegno sm oldBlkaddr)).locateDirtySegment sm
              (getSegno sm (s.nextFreeBlkaddr sm type))) := by
  unfold allocateDataBlock
  simp only [decide_eq_true_eq]
  rfl

theorem writeNext_curseg : (s.writeNext sm type now oldBlkaddr sum).curseg =
    ((s.addSumEntry type sum).refreshNextBlkoff type).curseg := by
  unfold writeNext
  simp only
  split <;> rfl

theorem writeNext_dirty : (s.writeNext sm type now oldBlkaddr sum).dirty = s.dirty := by
  unfold writeNext
  simp only
  split <;> rfl

variable {s} {type}

/-- `__refresh_next_blkoff` of an SSR log. -/
theorem refreshNextBlkoff_room (hssr : (s.curseg type).allocType = AllocMode.SSR) :
    (s.refreshNextBlkoff type).HasRoom type ∨
      blocksPerSeg ≤ ((s.refreshNextBlkoff type).curseg type).nextBlkoff := by
  have hlog : (s.refreshNextBlkoff type).curseg type =
      { s.curseg type with
        nextBlkoff := s.nextFreeBlkoff (s.curseg type).segno
          ((s.curseg type).nextBlkoff + 1) } := by
    unfold refreshNextBlkoff
    simp only [setCurseg_self, hssr]
  unfold HasRoom
  rw [hlog]
  rcases Nat.lt_or_ge (s.nextFreeBlkoff (s.curseg type).segno ((s.curseg type).nextBlkoff + 1))
    blocksPerSeg with hlt | hge
  · exact Or.inl (nextFreeBlkoff_free s hlt).2
  · exact Or.inr hge

/-- The same with the summary entry added before it. -/
theorem refreshNextBlkoff_ssr (hssr : (s.curseg type).allocType = AllocMode.SSR) :
    (((s.addSumEntry type sum).refreshNextBlkoff type).curseg type).segno =
        (s.curseg type).segno ∧
      (((s.addSumEntry type sum).refreshNextBlkoff type).curseg type).allocType = AllocMode.SSR ∧
      (((s.addSumEntry type sum).refreshNextBlkoff type).curseg type).nextBlkoff =
        s.nextFreeBlkoff (s.curseg type).segno ((s.curseg type).nextBlkoff + 1) := by
  have hadd : (s.addSumEntry type sum).curseg type =
      { s.curseg type with
        sumBlk :=
          { (s.curseg type).sumBlk with
            entries := Function.update (s.curseg type).sumBlk.entries
              (s.curseg type).nextBlkoff sum } } := setCurseg_self _ _ _
  have hlog : ((s.addSumEntry type sum).refreshNextBlkoff type).curseg type =
      { (s.addSumEntry type sum).curseg type with
        nextBlkoff := s.nextFreeBlkoff (s.curseg type).segno
          ((s.curseg type).nextBlkoff + 1) } := by
    unfold refreshNextBlkoff
    simp only [setCurseg_self, hadd, hssr]
    rfl
  rw [hlog, hadd]
  exact ⟨rfl, hssr, rfl⟩

/-- The blocks that stay free, and the counts. -/
theorem writeNext_sit (hroom : s.HasRoom type)
    (hseg : (s.curseg type).segno < sm.mainSegments) (k : Nat) :
    (∀ i, (s.sit.sentries k).FreeAt i →
        (k = (s.curseg type).segno → i ≠ (s.curseg type).nextBlkoff) →
        ((s.writeNext sm type now oldBlkaddr sum).sit.sentries k).FreeAt i) ∧
      ((s.sit.sentries k).Counted →
        ((s.writeNext sm type now oldBlkaddr sum).sit.sentries k).Counted) := by
  have hsegno : getSegno sm (s.nextFreeBlkaddr sm type) = (s.curseg type).segno :=
    getSegno_startBlock hseg hroom.lt
  have hoff : (getBlkoff sm (s.nextFreeBlkaddr sm type)).val = (s.curseg type).nextBlkoff :=
    getBlkoff_startBlock hroom.lt
  set sit := s.sit.updateSitEntry sm now (s.nextFreeBlkaddr sm type) true with hsit
  have hnew : (s.writeNext sm type now oldBlkaddr sum).sit =
      if getSegno sm oldBlkaddr ≠ nullSegno then sit.updateSitEntry sm now oldBlkaddr false
      else sit := by
    unfold writeNext
    simp only
    split <;> rfl
  rw [hnew]
  constructor
  · intro i hi hne
    have hset : (sit.sentries k).FreeAt i := by
      refine freeAt_updateSitEntry hi fun _ heq => ?_
      rw [hoff]
      exact hne (heq.trans hsegno)
    split
    · exact freeAt_updateSitEntry hset fun hc => absurd hc Bool.false_ne_true
    · exact hset
  · intro hk
    have hset : (sit.sentries k).Counted := by
      refine counted_updateSitEntry hk fun _ heq => ?_
      rw [hoff, heq, hsegno]
      exact hroom
    split
    · exact counted_updateSitEntry hset fun hc => absurd hc Bool.false_ne_true
    · exact hset

/-- The log has room again, or its segment is full. -/
theorem writeNext_ssr (hssr : (s.curseg type).allocType = AllocMode.SSR) (hroom : s.HasRoom type)
    (hseg : (s.curseg type).segno < sm.mainSegments) :
    ((s.writeNext sm type now oldBlkaddr sum).curseg type).segno = (s.curseg type).segno ∧
      ((s.writeNext sm type now oldBlkaddr sum).curseg type).allocType = AllocMode.SSR ∧
      (((s.writeNext sm type now oldBlkaddr sum).curseg type).nextBlkoff < blocksPerSeg →
        (s.writeNext sm type now oldBlkaddr sum).HasRoom type) := by
  obtain ⟨hsegno, halloc, hnext⟩ := refreshNextBlkoff_ssr sum hssr
  rw [writeNext_curseg]
  refine ⟨hsegno, halloc, fun hlt => ?_⟩
  rw [hnext] at hlt
  obtain ⟨hle, hfree⟩ := nextFreeBlkoff_free s hlt
  unfold HasRoom
  rw [writeNext_curseg, hsegno, hnext]
  exact (writeNext_sit sm now oldBlkaddr sum hroom hseg _).1 _ hfree fun _ => by omega

end Next

/-! ## The switch -/

section Switch

variable {p : AllocPolicy} {s' : SegManager}

/-- A new segment is written from its start. -/
theorem newCurseg_start {newSec : Bool} (h : s.newCurseg sm type newSec = some s') :
    (s'.curseg type).allocType = AllocMode.LFS ∧ (s'.curseg type).nextBlkoff = 0 := by
  unfold newCurseg at h
  obtain ⟨⟨segno, free⟩, -, rfl⟩ := Option.map_eq_some_iff.mp h
  simp only [setCurseg_self, true_and]
  unfold resetCurseg
  exact congrArg Curseg.nextBlkoff (setCurseg_self _ type _)

theorem allocateSegmentByDefault_cases {force : Bool}
    (h : s.allocateSegmentByDefault sm p type force = some s') :
    (∃ newSec, s.newCurseg sm type newSec = some s') ∨
      ∃ segno, getSsrSegment p type = some segno ∧
        s' = (s.setCurseg type { s.curseg type with nextSegno := segno }).changeCurseg sm type := by
  unfold allocateSegmentByDefault at h
  split at h
  · exact Or.inl ⟨_, h⟩
  split at h
  · exact Or.inl ⟨_, h⟩
  split at h
  · exact Or.inl ⟨_, h⟩
  split at h
  · split at h
    case h_1 segno hsegno => exact Or.inr ⟨segno, hsegno, (Option.some.inj h).symm⟩
    case h_2 => exact Or.inl ⟨_, h⟩
  · exact Or.inl ⟨_, h⟩

/-- `change_curseg` to the segment `get_ssr_segment` left in `next_segno`. -/
theorem changeCurseg_to (type : CursegType) {segno i : Nat} (h : (s.sit.sentries segno).FreeAt i) :
    (((s.setCurseg type { s.curseg type with nextSegno := segno }).changeCurseg sm type).curseg
        type).segno = segno ∧
      (((s.setCurseg type { s.curseg type with nextSegno := segno }).changeCurseg sm type).curseg
        type).allocType = AllocMode.SSR ∧
      ((s.setCurseg type { s.curseg type with nextSegno := segno }).changeCurseg sm type).HasRoom
        type := by
  have hnext : ((s.setCurseg type { s.curseg type with nextSegno := segno }).curseg
      type).nextSegno = segno := congrArg Curseg.nextSegno (setCurseg_self _ type _)
  obtain ⟨hsegno, halloc⟩ := changeCurseg_self sm
    (s.setCurseg type { s.curseg type with nextSegno := segno }) type
  exact ⟨hsegno.trans hnext, halloc, changeCurseg_hasRoom sm (hnext.symm ▸ h)⟩

/-- After a block was written the log has room in its segment, or the segment was full and the
    log was switched: to the start of a new segment, or by SSR to one with room. -/
theorem allocateDataBlock_room {now oldBlkaddr addr : Nat} {sum : SumEntry}
    (hssr : (s.curseg type).allocType = AllocMode.SSR) (hroom : s.HasRoom type)
    (hseg : (s.curseg type).segno < sm.mainSegments)
    (hp : ∀ segno, getSsrSegment p type = some segno →
      ∃ i, ((s.writeNext sm type now oldBlkaddr sum).sit.sentries segno).FreeAt i)
    (h : s.allocateDataBlock sm p now oldBlkaddr sum type = some (addr, s')) :
    (((s.writeNext sm type now oldBlkaddr sum).curseg type).nextBlkoff < blocksPerSeg ∧
        (s'.curseg type).segno = (s.curseg type).segno ∧ s'.HasRoom type) ∨
      (blocksPerSeg ≤ ((s.writeNext sm type now oldBlkaddr sum).curseg type).nextBlkoff ∧
        (((s'.curseg type).allocType = AllocMode.LFS ∧ (s'.curseg type).nextBlkoff = 0) ∨
          (getSsrSegment p type = some (s'.curseg type).segno ∧
            (s'.curseg type).allocType = AllocMode.SSR ∧ s'.HasRoom type))) := by
  obtain ⟨hsegno, -, hlt⟩ := writeNext_ssr sm now oldBlkaddr sum hssr hroom hseg
  rw [allocateDataBlock_eq] at h
  generalize s.writeNext sm type now oldBlkaddr sum = t at *
  simp only at h
  have hlocate : ∀ u : SegManager, (u.locateDirtySegment sm (getSegno sm oldBlkaddr)
      |>.locateDirtySegment sm (getSegno sm (s.nextFreeBlkaddr sm type))).SameButDirty u :=
    fun u => (sameButDirty_locateDirtySegment sm _ _).trans (sameButDirty_locateDirtySegment sm u _)
  by_cases hfull : blocksPerSeg ≤ (t.curseg type).nextBlkoff
  · rw [if_pos hfull] at h
    obtain ⟨u, hswitch, heq⟩ := Option.map_eq_some_iff.mp h
    obtain rfl := (Prod.mk.inj heq).2
    obtain ⟨hcurseg, hsit, -⟩ := hlocate u
    refine Or.inr ⟨hfull, ?_⟩
    rw [hcurseg]
    rcases allocateSegmentByDefault_cases sm hswitch with ⟨newSec, hnew⟩ | ⟨segno, hfound, rfl⟩
    · exact Or.inl (newCurseg_start sm hnew)
    · obtain ⟨i, hi⟩ := hp segno hfound
      obtain ⟨hto, halloc, hroom'⟩ := changeCurseg_to sm type hi
      rw [hto]
      exact Or.inr ⟨hfound, halloc, hroom'.congr (congrFun hcurseg type) hsit⟩
  · rw [if_neg hfull] at h
    obtain rfl := (Prod.mk.inj (Option.some.inj h)).2
    obtain ⟨hcurseg, hsit, -⟩ := hlocate t
    refine Or.inl ⟨Nat.not_le.mp hfull, ?_,
      (hlt (Nat.not_le.mp hfull)).congr (congrFun hcurseg type) hsit⟩
    rw [hcurseg]
    exact hsegno

end Switch

end SegManager

end F2fs.Segment

/-
  The summaries: for every block that is valid, now or in the last checkpoint, the summary of
  its segment has the entry the block was written with, and its footer and the type of the
  segment say whether that is a node's block.

  The summary of a log's segment is in memory; it goes to the SSA when the log leaves.  SSR
  takes it up again with all its entries, and a segment never changes from data to nodes
  while a block of it is valid.
-/
import F2fs.Volume.Writing

namespace F2fs.Volume

open F2fs.Segment F2fs.Gc
open SegManager (isCurseg_iff writeNext_log writeNext_free setCurseg_self setCurseg_ne)

variable {α : Type}

/-! ## The summary of a segment -/

/-- The summary of a segment: that of its log, or the one in the SSA. -/
def sumOf (s : SegManager) (k : Nat) : SumBlock :=
  match s.getCurseg k with
  | some type => (s.curseg type).sumBlk
  | none => s.ssa k

section

variable {sm : SmInfo} {s s' u : SegManager} {type : CursegType}

theorem getCurseg_log (h : SegManager.Books sm s) (t : CursegType) :
    s.getCurseg (s.curseg t).segno = some t := by
  unfold SegManager.getCurseg
  cases hfind : CursegType.all.find? fun t' =>
      decide ((s.curseg t').segno = (s.curseg t).segno) with
  | none =>
      have hnone := List.find?_eq_none.mp hfind t (CursegType.mem_all t)
      exact absurd (decide_eq_true rfl) hnone
  | some t' =>
      have hsome := List.find?_some hfind
      rw [h.apart (of_decide_eq_true hsome)]

theorem sumOf_log (h : SegManager.Books sm s) (t : CursegType) :
    sumOf s (s.curseg t).segno = (s.curseg t).sumBlk := by
  unfold sumOf
  rw [getCurseg_log h]

theorem sumOf_left {k : Nat} (h : s.isCurseg k = false) : sumOf s k = s.ssa k := by
  have hnone : s.getCurseg k = none := by
    unfold SegManager.getCurseg
    refine List.find?_eq_none.mpr fun t _ hc => ?_
    exact SegManager.isCurseg_false_iff.mp h t (of_decide_eq_true hc)
  unfold sumOf
  rw [hnone]

theorem sumOf_congr (hlogs : s'.curseg = s.curseg) (hssa : s'.ssa = s.ssa) (k : Nat) :
    sumOf s' k = sumOf s k := by
  unfold sumOf SegManager.getCurseg
  rw [hlogs, hssa]

/-- A segment is that of a log, or of none. -/
theorem log_or_left (s : SegManager) (k : Nat) :
    (∃ t, (s.curseg t).segno = k) ∨ s.isCurseg k = false := by
  cases hcur : s.isCurseg k with
  | true => exact Or.inl (isCurseg_iff.mp hcur)
  | false => exact Or.inr rfl

section Next

variable {now oldBlkaddr : Nat} {sum : SumEntry}

theorem writeNext_sumBlk : ((s.writeNext sm type now oldBlkaddr sum).curseg type).sumBlk =
    { (s.curseg type).sumBlk with
      entries :=
        Function.update (s.curseg type).sumBlk.entries (s.curseg type).nextBlkoff sum } := by
  rw [SegManager.writeNext_curseg]
  unfold SegManager.refreshNextBlkoff SegManager.addSumEntry
  simp only [setCurseg_self]

/-- The log's summary gets the new entry. -/
theorem sumOf_writeNext (h : SegManager.Books sm s)
    (hnext : SegManager.Books sm (s.writeNext sm type now oldBlkaddr sum)) (k : Nat) :
    sumOf (s.writeNext sm type now oldBlkaddr sum) k =
      if k = (s.curseg type).segno then
        { sumOf s k with
          entries := Function.update (sumOf s k).entries (s.curseg type).nextBlkoff sum }
      else sumOf s k := by
  have hlog := @writeNext_log sm s type now oldBlkaddr sum
  rcases log_or_left s k with ⟨t, rfl⟩ | hleft
  · have hsum := sumOf_log hnext t
    rw [(hlog t).1] at hsum
    rw [hsum, sumOf_log h]
    by_cases ht : t = type
    · rw [ht, if_pos rfl, writeNext_sumBlk]
    · rw [(hlog t).2.2 ht, if_neg fun hc => ht (h.apart hc)]
  · have hne : k ≠ (s.curseg type).segno := (SegManager.isCurseg_false_iff.mp hleft type).symm
    have hleft' : (s.writeNext sm type now oldBlkaddr sum).isCurseg k = false := by
      rw [← hleft]
      unfold SegManager.isCurseg
      simp only [(hlog _).1]
    rw [if_neg hne, sumOf_left hleft', sumOf_left hleft, writeNext_free.2]

end Next

/-- Where a log turns, the summaries of the other segments stay. -/
theorem Turned.sumOf_ne {m : Nat} (h : Turned sm s u type m) (hbooks : SegManager.Books sm s)
    {k : Nat} (hk : k ≠ m) : sumOf u k = sumOf s k := by
  rcases log_or_left s k with ⟨t, rfl⟩ | hleft
  · by_cases ht : t = type
    · subst ht
      have hleft : u.isCurseg (s.curseg t).segno = false := by
        rw [SegManager.isCurseg_false_iff]
        intro t' hc
        by_cases ht' : t' = t
        · rw [ht', h.moved.segno] at hc
          exact hk hc.symm
        · rw [h.moved.other t' ht'] at hc
          exact ht' (hbooks.apart hc)
      rw [sumOf_left hleft, sumOf_log hbooks, h.moved.ssa, Function.update_self]
    · have hlog := sumOf_log h.books t
      rw [h.moved.other t ht] at hlog
      rw [hlog, sumOf_log hbooks]
  · have hne : k ≠ (s.curseg type).segno := (SegManager.isCurseg_false_iff.mp hleft type).symm
    rw [sumOf_left ((h.isCurseg hk hne).trans hleft), sumOf_left hleft, h.moved.ssa,
      Function.update_of_ne hne]

/-- The summary of the segment it turns to. -/
theorem Turned.sumOf_self {m : Nat} (h : Turned sm s u type m) :
    sumOf u m = (u.curseg type).sumBlk := by
  have hlog := sumOf_log h.books type
  rwa [h.moved.segno] at hlog

end

/-! ## Names -/

/-- The summary and the segment's type say of block `i` what it was written as. -/
structure Names (sum : SumBlock) (type : Fin 64) (i : Nat) (b : Block α) : Prop where
  entry : sum.entries i = b.sum
  footer : sum.entryType = sumTypeOf b.node
  kind : isNodeType type = b.node
  plain : b.node = true → b.sum.version = 0 ∧ b.sum.ofsInNode = 0

/-- The blocks in `map` are named in the summaries of their segments. -/
def Named (sm : SmInfo) (s : SegManager) (blocks : Nat → Block α) (map : Nat → BlockMap) : Prop :=
  ∀ k < sm.mainSegments, ∀ i ∈ map k,
    Names (sumOf s k) (s.sit.sentries k).type i.val (blocks (startBlock sm k + i.val))

/-- The logs and the types of their segments fit, and the blocks in `map` are named. -/
structure Summed (sm : SmInfo) (s : SegManager) (blocks : Nat → Block α) (map : Nat → BlockMap) :
    Prop where
  types : ∀ t, (s.sit.sentries (s.curseg t).segno).type.val = t.idx
  footers : ∀ t, (s.curseg t).sumBlk.entryType = sumTypeOf t.isNodeSeg
  named : Named sm s blocks map

section

variable {sm : SmInfo} {s s' u : SegManager} {type : CursegType} {blocks : Nat → Block α}
  {map map' : Nat → BlockMap}

theorem isNodeType_idx {x : Fin 64} (h : x.val = type.idx) : isNodeType x = type.isNodeSeg :=
  sameKind List.mem_cons_self h

theorem Summed.congr (h : Summed sm s blocks map) (hlogs : s'.curseg = s.curseg)
    (hsit : s'.sit = s.sit) (hssa : s'.ssa = s.ssa) : Summed sm s' blocks map where
  types t := by
    rw [hlogs, hsit]
    exact h.types t
  footers t := by
    rw [hlogs]
    exact h.footers t
  named k hk i hi := by
    rw [sumOf_congr hlogs hssa, hsit]
    exact h.named k hk i hi

theorem Summed.mono (h : Summed sm s blocks map)
    (hsub : ∀ k < sm.mainSegments, map' k ⊆ map k) : Summed sm s blocks map' where
  types := h.types
  footers := h.footers
  named k hk i hi := h.named k hk i (hsub k hk hi)

/-- Two offsets in main segments with one address. -/
theorem startBlock_inj {k k' i i' : Nat} (hk : k < sm.mainSegments) (hk' : k' < sm.mainSegments)
    (hi : i < blocksPerSeg) (hi' : i' < blocksPerSeg)
    (heq : startBlock sm k + i = startBlock sm k' + i') : k = k' ∧ i = i' := by
  have hseg := getSegno_startBlock hk hi
  have hoff := @getBlkoff_startBlock sm k _ hi
  rw [heq] at hseg hoff
  exact ⟨hseg.symm.trans (getSegno_startBlock hk' hi'), hoff.symm.trans (getBlkoff_startBlock hi')⟩

/-- The new block is named; it was not in `map`. -/
theorem Summed.writeNext {now oldBlkaddr : Nat} {sum : SumEntry} (h : Summed sm s blocks map)
    (hbooks : SegManager.Books sm s) (hold : OldBlock sm s.sit oldBlkaddr)
    (hroom : s.HasRoom type) (hsum : SumFits type sum) (data : α)
    (hnew : ∀ i ∈ map (s.curseg type).segno, i.val ≠ (s.curseg type).nextBlkoff)
    (hmap : ∀ k < sm.mainSegments, ∀ i ∈ map' k, i ∈ map k ∨
      (k = (s.curseg type).segno ∧ i.val = (s.curseg type).nextBlkoff)) :
    Summed sm (s.writeNext sm type now oldBlkaddr sum)
      (Function.update blocks (s.nextFreeBlkaddr sm type) ⟨sum, type.isNodeSeg, data⟩) map' := by
  have hnext : SegManager.Books sm (s.writeNext sm type now oldBlkaddr sum) :=
    books_writeNext hbooks hold hroom
  have hlog := @writeNext_log sm s type now oldBlkaddr sum
  refine ⟨fun t => ?_, fun t => ?_, fun k hk i hi => ?_⟩
  · rw [writeNext_types, (hlog t).1]
    exact h.types t
  · by_cases ht : t = type
    · rw [ht, writeNext_sumBlk]
      exact h.footers type
    · rw [(hlog t).2.2 ht]
      exact h.footers t
  · rw [sumOf_writeNext hbooks hnext, writeNext_types]
    by_cases hself : k = (s.curseg type).segno ∧ i.val = (s.curseg type).nextBlkoff
    · obtain ⟨rfl, hoff⟩ := hself
      have haddr : startBlock sm (s.curseg type).segno + i.val = s.nextFreeBlkaddr sm type := by
        rw [hoff]
        rfl
      rw [if_pos rfl, haddr, Function.update_self, hoff]
      refine ⟨Function.update_self .., ?_, isNodeType_idx (h.types type), hsum⟩
      show (sumOf s (s.curseg type).segno).entryType = _
      rw [sumOf_log hbooks]
      exact h.footers type
    · have hold := (hmap k hk i hi).resolve_right hself
      have hname := h.named k hk i hold
      have haddr : startBlock sm k + i.val ≠ s.nextFreeBlkaddr sm type := fun hc => by
        obtain ⟨hk', hi'⟩ := startBlock_inj hk (hbooks.logMain type) i.isLt hroom.lt hc
        exact hself ⟨hk', hi'⟩
      rw [Function.update_of_ne haddr]
      split
      case isTrue heq =>
        have hne : i.val ≠ (s.curseg type).nextBlkoff := hnew i (heq ▸ hold)
        exact ⟨(Function.update_of_ne hne ..).trans hname.entry, hname.footer, hname.kind,
          hname.plain⟩
      case isFalse => exact hname

/-- A log turns; a segment that is not in use has no block in `map`. -/
theorem Summed.turn {m : Nat} (h : Summed sm s blocks map) (hbooks : SegManager.Books sm s)
    (hturn : Turned sm s u type m) (hfree : m ∉ s.free.freeSegmap → map m = ∅) :
    Summed sm u blocks map := by
  refine ⟨fun t => ?_, fun t => ?_, fun k hk i hi => ?_⟩
  · by_cases ht : t = type
    · rw [ht, hturn.moved.segno]
      exact hturn.type_eq
    · rw [hturn.moved.other t ht, hturn.sentry (hturn.notLog t)]
      exact h.types t
  · by_cases ht : t = type
    · rw [ht]
      exact hturn.footer
    · rw [hturn.moved.other t ht]
      exact h.footers t
  · by_cases hkm : k = m
    · subst hkm
      rcases hturn.how with ⟨hnot, -⟩ | ⟨hdirty, -, -, hentries, hkind⟩
      · rw [hfree hnot] at hi
        exact absurd hi (Finset.notMem_empty i)
      · have hname := h.named k hk i hi
        have hleft : s.isCurseg k = false := SegManager.isCurseg_false_iff.mpr hturn.notLog
        rw [sumOf_left hleft] at hname
        rw [hturn.sumOf_self]
        have hnode : (blocks (startBlock sm k + i.val)).node = type.isNodeSeg :=
          hname.kind.symm.trans hkind
        refine ⟨?_, ?_, ?_, hname.plain⟩
        · rw [hentries]
          exact hname.entry
        · rw [hnode]
          exact hturn.footer
        · rw [hnode]
          exact isNodeType_idx hturn.type_eq
    · rw [hturn.sumOf_ne hbooks hkm, hturn.sentry hkm]
      exact h.named k hk i hi

end

/-! ## The SSA of the last checkpoint -/

/-- The SSA names the blocks of the last checkpoint, but for the segments of its logs. -/
def SsaNames (sm : SmInfo) (ssa : Nat → SumBlock) (dev : Device α) : Prop :=
  ∀ k < sm.mainSegments, (∀ t, (dev.logs t).segno ≠ k) →
    ∀ i ∈ (dev.store.persisted sm k).validMap,
      Names (ssa k) (dev.store.persisted sm k).getType i.val (dev.blocks (startBlock sm k + i.val))

section

variable {sm : SmInfo} {s u : SegManager} {type : CursegType} {dev : Device α}
  {map : Nat → BlockMap} {ssa : Nat → SumBlock}

/-- The summary a log leaves behind names them as well. -/
theorem SsaNames.turn {m : Nat} (h : SsaNames sm s.ssa dev) (hsum : Summed sm s dev.blocks map)
    (hbooks : SegManager.Books sm s)
    (hmap : ∀ k < sm.mainSegments, (dev.store.persisted sm k).validMap ⊆ map k)
    (hturn : Turned sm s u type m) : SsaNames sm u.ssa dev := by
  intro k hk hlogs i hi
  have hold := h k hk hlogs i hi
  rw [hturn.moved.ssa, Function.update_apply]
  split
  case isTrue heq =>
    have hname := hsum.named k hk i (hmap k hk hi)
    rw [heq, sumOf_log hbooks] at hname
    rw [heq] at hold ⊢
    exact ⟨hname.entry, hname.footer, hold.kind, hold.plain⟩
  case isFalse => exact hold

/-- A block that is not part of the last checkpoint is written. -/
theorem SsaNames.write (h : SsaNames sm ssa dev) {addr : Nat} (b : Block α)
    (hfree : ¬SavedAt sm dev.store addr) :
    SsaNames sm ssa { dev with blocks := Function.update dev.blocks addr b } := by
  intro k hk hlogs i hi
  have hne : startBlock sm k + i.val ≠ addr := by
    rintro rfl
    refine hfree ⟨inMain_startBlock hk i.isLt, ?_⟩
    have hoff : getBlkoff sm (startBlock sm k + i.val) = i := Fin.ext (getBlkoff_startBlock i.isLt)
    rw [getSegno_startBlock hk i.isLt, hoff]
    exact hi
  show Names _ _ _ (Function.update dev.blocks addr b _)
  rw [Function.update_of_ne hne]
  exact h k hk hlogs i hi

end

end F2fs.Volume

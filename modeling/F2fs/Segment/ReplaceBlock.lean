/-
  `__f2fs_replace_block`: writing over a chosen block by taking a log to its segment.

  With `recover_curseg` the log is taken back afterwards.  Its segment and its next block are
  then what they were, but `change_curseg` goes both ways: the log allocates by SSR from then
  on, and both segments carry the type of the log.  So the call leaves no trace exactly if it
  does not have to move a log, or if the warm data log it moves was allocating by SSR and both
  segments were warm data segments.
-/
import F2fs.Segment.SsrRoom

namespace F2fs.Segment

namespace SegManager

variable (sm : SmInfo) (s : SegManager)

/-- The log `__f2fs_replace_block` uses.  Without `recover_curseg` it is the one the entry
    names; `none` if there is none. -/
def replaceType (oldBlkaddr newBlkaddr : Nat) (recoverCurseg : Bool) : Option CursegType :=
  let segno := getSegno sm newBlkaddr
  let se := s.sit.sentries segno
  if recoverCurseg then
    -- se->type is volatile as SSR allocation
    if s.isCurseg segno then s.getCurseg segno else some CursegType.warmData
  else if se.validBlocks = 0 ∧ ¬ s.isCurseg segno then
    some (if oldBlkaddr = nullAddr then CursegType.coldData else CursegType.warmData)
  else CursegType.all.find? fun type => decide (type.idx = se.type.val)

/-- `curseg->next_segno = segno; change_curseg`. -/
def moveCurseg (type : CursegType) (segno : Nat) : SegManager :=
  if segno ≠ (s.curseg type).segno then
    (s.setCurseg type { s.curseg type with nextSegno := segno }).changeCurseg sm type
  else s

/-- The assignments to `next_blkoff`. -/
def setBlkoff (type : CursegType) (off : Nat) : SegManager :=
  s.setCurseg type { s.curseg type with nextBlkoff := off }

/-- What the call does to the SIT: the validity of the two blocks. -/
def setValidity (sit : SitInfo) (now oldBlkaddr newBlkaddr : Nat) (setNew : Bool) : SitInfo :=
  let sit := if setNew then sit.updateSitEntry sm now newBlkaddr true else sit
  if getSegno sm oldBlkaddr ≠ nullSegno then sit.updateSitEntry sm now oldBlkaddr false else sit

/-- `__f2fs_replace_block` in the log `type`, until the log may be given back. -/
def writeAt (type : CursegType) (now : Nat) (sum : SumEntry) (oldBlkaddr newBlkaddr : Nat)
    (setNew : Bool) : SegManager :=
  let oldCursegno := (s.curseg type).segno
  let s := s.moveCurseg sm type (getSegno sm newBlkaddr)
  let s := (s.setBlkoff type (getBlkoff sm newBlkaddr).val).addSumEntry type sum
  let s := { s with sit := setValidity sm s.sit now oldBlkaddr newBlkaddr setNew }
  let s := s.locateDirtySegment sm (getSegno sm oldBlkaddr)
  let s := s.locateDirtySegment sm (getSegno sm newBlkaddr)
  s.locateDirtySegment sm oldCursegno

/-- `__f2fs_replace_block` in the log `type`. -/
def replaceIn (type : CursegType) (now : Nat) (sum : SumEntry) (oldBlkaddr newBlkaddr : Nat)
    (recoverCurseg recoverNewaddr : Bool) : SegManager :=
  let old := s.curseg type
  let s := s.writeAt sm type now sum oldBlkaddr newBlkaddr (!recoverCurseg || recoverNewaddr)
  if recoverCurseg then (s.moveCurseg sm type old.segno).setBlkoff type old.nextBlkoff else s

/-- `__f2fs_replace_block`. -/
def replaceBlock (now : Nat) (sum : SumEntry) (oldBlkaddr newBlkaddr : Nat)
    (recoverCurseg recoverNewaddr : Bool) : Option SegManager :=
  (s.replaceType sm oldBlkaddr newBlkaddr recoverCurseg).map fun type =>
    s.replaceIn sm type now sum oldBlkaddr newBlkaddr recoverCurseg recoverNewaddr

/-! ## Moving a log -/

section Move

variable (type : CursegType) (segno : Nat)

theorem moveCurseg_here (h : segno = (s.curseg type).segno) : s.moveCurseg sm type segno = s :=
  if_neg (not_not.mpr h)

/-- What `change_curseg` does on the way to another segment. -/
theorem moveCurseg_away (h : segno ≠ (s.curseg type).segno) :
    ((s.moveCurseg sm type segno).curseg type).segno = segno ∧
      ((s.moveCurseg sm type segno).curseg type).allocType = AllocMode.SSR ∧
      (s.moveCurseg sm type segno).sit = s.sit.setSitEntryType type segno true ∧
      (s.moveCurseg sm type segno).ssa =
        Function.update s.ssa (s.curseg type).segno (s.curseg type).sumBlk ∧
      ∀ t, t ≠ type → (s.moveCurseg sm type segno).curseg t = s.curseg t := by
  have hmove : s.moveCurseg sm type segno =
      (s.setCurseg type { s.curseg type with nextSegno := segno }).changeCurseg sm type := if_pos h
  rw [hmove]
  obtain ⟨hsegno, halloc⟩ := changeCurseg_self sm
    (s.setCurseg type { s.curseg type with nextSegno := segno }) type
  refine ⟨?_, halloc, ?_, ?_, ?_⟩
  · rw [hsegno, setCurseg_self]
  · rw [changeCurseg_sit, setCurseg_self]
    rfl
  · rw [changeCurseg_ssa, setCurseg_self]
    rfl
  · intro t ht
    rw [changeCurseg_ne sm _ type ht]
    exact setCurseg_ne _ _ ht

end Move

/-! ## The call -/

section Replace

variable (type : CursegType) (now : Nat) (sum : SumEntry) (oldBlkaddr newBlkaddr : Nat)
  (setNew : Bool)

/-- The state of `__f2fs_replace_block` before the dirty lists are brought up to date. -/
theorem writeAt_same : SameButDirty (s.writeAt sm type now sum oldBlkaddr newBlkaddr setNew)
    { ((s.moveCurseg sm type (getSegno sm newBlkaddr)).setBlkoff type
        (getBlkoff sm newBlkaddr).val).addSumEntry type sum with
      sit := setValidity sm (s.moveCurseg sm type (getSegno sm newBlkaddr)).sit now oldBlkaddr
        newBlkaddr setNew } :=
  (sameButDirty_locateDirtySegment sm _ _).trans
    ((sameButDirty_locateDirtySegment sm _ _).trans (sameButDirty_locateDirtySegment sm _ _))

/-- The log after the write: the summary entry is in its block. -/
theorem writeAt_self :
    ∃ c, (s.writeAt sm type now sum oldBlkaddr newBlkaddr setNew).curseg type = c ∧
      c.segno = ((s.moveCurseg sm type (getSegno sm newBlkaddr)).curseg type).segno ∧
      c.allocType = ((s.moveCurseg sm type (getSegno sm newBlkaddr)).curseg type).allocType ∧
      c.sumBlk.entries (getBlkoff sm newBlkaddr).val = sum := by
  refine ⟨_, (congrFun (writeAt_same sm s type now sum oldBlkaddr newBlkaddr setNew).1
    type).trans (setCurseg_self _ type _), ?_, ?_, ?_⟩
  · unfold setBlkoff
    simp only [setCurseg_self]
  · unfold setBlkoff
    simp only [setCurseg_self]
  · unfold setBlkoff
    simp only [setCurseg_self]
    exact Function.update_self ..

theorem writeAt_ne {t : CursegType} (h : t ≠ type) :
    (s.writeAt sm type now sum oldBlkaddr newBlkaddr setNew).curseg t =
      (s.moveCurseg sm type (getSegno sm newBlkaddr)).curseg t := by
  rw [(writeAt_same sm s type now sum oldBlkaddr newBlkaddr setNew).1]
  exact (setCurseg_ne _ _ h).trans (setCurseg_ne _ _ h)

theorem writeAt_sit : (s.writeAt sm type now sum oldBlkaddr newBlkaddr setNew).sit =
    setValidity sm (s.moveCurseg sm type (getSegno sm newBlkaddr)).sit now oldBlkaddr newBlkaddr
      setNew := (writeAt_same sm s type now sum oldBlkaddr newBlkaddr setNew).2.1

/-- The position of a log: its segment, its next block, how it allocates. -/
def position (s : SegManager) (type : CursegType) : Nat × Nat × AllocMode :=
  ((s.curseg type).segno, (s.curseg type).nextBlkoff, (s.curseg type).allocType)

/-- The log is in the segment of the block: it need not move. -/
theorem replaceIn_here (h : (s.curseg type).segno = getSegno sm newBlkaddr) :
    position (s.replaceIn sm type now sum oldBlkaddr newBlkaddr true setNew) = position s ∧
      (s.replaceIn sm type now sum oldBlkaddr newBlkaddr true setNew).sit =
        setValidity sm s.sit now oldBlkaddr newBlkaddr setNew ∧
      ((s.replaceIn sm type now sum oldBlkaddr newBlkaddr true setNew).curseg type).sumBlk.entries
        (getBlkoff sm newBlkaddr).val = sum := by
  obtain ⟨c, hc, hsegno, halloc, hsum⟩ := writeAt_self sm s type now sum oldBlkaddr newBlkaddr
    setNew
  have hmove := moveCurseg_here sm s type (getSegno sm newBlkaddr) h.symm
  rw [hmove] at hsegno halloc
  have hback : s.replaceIn sm type now sum oldBlkaddr newBlkaddr true setNew =
      (s.writeAt sm type now sum oldBlkaddr newBlkaddr setNew).setBlkoff type
        (s.curseg type).nextBlkoff := by
    show SegManager.setBlkoff (SegManager.moveCurseg sm _ type _) type _ = _
    rw [moveCurseg_here sm _ type _ (by rw [Bool.not_true, Bool.false_or, hc, hsegno])]
    rfl
  rw [hback]
  unfold setBlkoff
  refine ⟨?_, ?_, ?_⟩
  · funext t
    by_cases ht : t = type
    · rw [ht]
      unfold position
      rw [setCurseg_self, hc, hsegno, halloc]
    · unfold position
      rw [setCurseg_ne _ _ ht, writeAt_ne sm s type now sum oldBlkaddr newBlkaddr setNew ht, hmove]
  · exact (writeAt_sit sm s type now sum oldBlkaddr newBlkaddr setNew).trans (by rw [hmove])
  · rw [setCurseg_self, hc]
    exact hsum

/-- The log moves to the segment of the block and back. -/
theorem replaceIn_away (h : (s.curseg type).segno ≠ getSegno sm newBlkaddr) :
    position (s.replaceIn sm type now sum oldBlkaddr newBlkaddr true setNew) =
        Function.update (position s) type
          ((s.curseg type).segno, (s.curseg type).nextBlkoff, AllocMode.SSR) ∧
      (s.replaceIn sm type now sum oldBlkaddr newBlkaddr true setNew).sit =
        (setValidity sm (s.sit.setSitEntryType type (getSegno sm newBlkaddr) true) now oldBlkaddr
          newBlkaddr setNew).setSitEntryType type (s.curseg type).segno true ∧
      ((s.replaceIn sm type now sum oldBlkaddr newBlkaddr true setNew).ssa
        (getSegno sm newBlkaddr)).entries (getBlkoff sm newBlkaddr).val = sum := by
  obtain ⟨c, hc, hsegno, -, hsum⟩ := writeAt_self sm s type now sum oldBlkaddr newBlkaddr
    setNew
  obtain ⟨hsegno₁, -, hsit₁, -, hother₁⟩ := moveCurseg_away sm s type
    (getSegno sm newBlkaddr) h.symm
  rw [hsegno₁] at hsegno
  set m := s.writeAt sm type now sum oldBlkaddr newBlkaddr setNew with hm
  have hne : (s.curseg type).segno ≠ (m.curseg type).segno := by
    rw [hc, hsegno]
    exact h
  obtain ⟨hsegno₂, halloc₂, hsit₂, hssa₂, hother₂⟩ := moveCurseg_away sm m type
    (s.curseg type).segno hne
  have hback : s.replaceIn sm type now sum oldBlkaddr newBlkaddr true setNew =
      (m.moveCurseg sm type (s.curseg type).segno).setBlkoff type (s.curseg type).nextBlkoff := by
    rw [hm]
    rfl
  rw [hback]
  refine ⟨?_, ?_, ?_⟩
  · funext t
    by_cases ht : t = type
    · rw [ht, Function.update_self]
      unfold position setBlkoff
      rw [setCurseg_self, hsegno₂, halloc₂]
    · rw [Function.update_of_ne ht]
      unfold position setBlkoff
      rw [setCurseg_ne _ _ ht, hother₂ t ht, hm,
        writeAt_ne sm s type now sum oldBlkaddr newBlkaddr setNew ht, hother₁ t ht]
  · show (m.moveCurseg sm type (s.curseg type).segno).sit = _
    rw [hsit₂, hm, writeAt_sit sm s type now sum oldBlkaddr newBlkaddr setNew, hsit₁]
  · show ((m.moveCurseg sm type (s.curseg type).segno).ssa _).entries _ = _
    rw [hssa₂, hc, hsegno, Function.update_self]
    exact hsum

end Replace

/-! ## The SIT -/

section Sit

variable (sit : SitInfo) (type : CursegType) (now addr oldBlkaddr newBlkaddr : Nat) (set : Bool)

/-- Nothing changes in an entry that has the type already. -/
theorem setSitEntryType_same {segno : Nat} (modified : Bool)
    (h : (sit.sentries segno).type = Fin.ofNat 64 type.idx) :
    (sit.setSitEntryType type segno modified).sentries = sit.sentries := by
  rw [setSitEntryType_sentries, ← h]
  exact Function.update_eq_self segno sit.sentries

theorem updateSitEntry_congr {sit sit' : SitInfo} (h : sit.sentries = sit'.sentries) :
    (sit.updateSitEntry sm now addr set).sentries =
      (sit'.updateSitEntry sm now addr set).sentries := by
  rw [updateSitEntry_sentries, updateSitEntry_sentries, updated, updated, h]

theorem setValidity_congr {sit sit' : SitInfo} (h : sit.sentries = sit'.sentries) :
    (setValidity sm sit now oldBlkaddr newBlkaddr set).sentries =
      (setValidity sm sit' now oldBlkaddr newBlkaddr set).sentries := by
  have hnew : (if set then sit.updateSitEntry sm now newBlkaddr true else sit).sentries =
      (if set then sit'.updateSitEntry sm now newBlkaddr true else sit').sentries := by
    split
    · exact updateSitEntry_congr sm now newBlkaddr true h
    · exact h
  unfold setValidity
  by_cases hold : getSegno sm oldBlkaddr ≠ nullSegno
  · simp only [if_pos hold]
    exact updateSitEntry_congr sm now oldBlkaddr false hnew
  · simp only [if_neg hold]
    exact hnew

theorem setValidity_type (k : Nat) :
    ((setValidity sm sit now oldBlkaddr newBlkaddr set).sentries k).type =
      (sit.sentries k).type := by
  have hnew : ((if set then sit.updateSitEntry sm now newBlkaddr true else sit).sentries k).type =
      (sit.sentries k).type := by
    split
    · exact updateSitEntry_type now sit newBlkaddr true k
    · rfl
  unfold setValidity
  by_cases hold : getSegno sm oldBlkaddr ≠ nullSegno
  · simp only [if_pos hold]
    exact (updateSitEntry_type now _ oldBlkaddr false k).trans hnew
  · simp only [if_neg hold]
    exact hnew

end Sit

/-! ## No trace -/

/-- Every log stands where it stood, and the SIT differs in the validity of the two blocks. -/
def NoTrace (now oldBlkaddr newBlkaddr : Nat) (recoverNewaddr : Bool) (s' : SegManager) : Prop :=
  position s' = position s ∧
    s'.sit.sentries = (setValidity sm s.sit now oldBlkaddr newBlkaddr recoverNewaddr).sentries

theorem warmData_idx_lt : CursegType.warmData.idx < 64 := by decide

/-- `CURSEG_WARM_DATA` as a segment type. -/
def warmDataType : Fin 64 := ⟨CursegType.warmData.idx, warmData_idx_lt⟩

/-- The segment is that of a log, or taking the warm data log there changes no type. -/
def StealsNothing (newBlkaddr : Nat) : Prop :=
  s.isCurseg (getSegno sm newBlkaddr) ∨
    (s.curseg CursegType.warmData).allocType = AllocMode.SSR ∧
      (s.sit.sentries (getSegno sm newBlkaddr)).type = warmDataType ∧
      (s.sit.sentries (s.curseg CursegType.warmData).segno).type = warmDataType

instance (newBlkaddr : Nat) : Decidable (StealsNothing sm s newBlkaddr) := by
  unfold StealsNothing
  infer_instance

/-- A log whose segment it is. -/
theorem getCurseg_of_isCurseg {segno : Nat} (h : s.isCurseg segno = true) :
    ∃ type, s.getCurseg segno = some type ∧ (s.curseg type).segno = segno := by
  obtain ⟨type, hmem, htype⟩ := List.any_eq_true.mp h
  have hsome : (s.getCurseg segno).isSome := by
    rw [getCurseg, List.find?_isSome]
    exact ⟨type, hmem, decide_eq_true (of_decide_eq_true htype).symm⟩
  obtain ⟨found, hfound⟩ := Option.isSome_iff_exists.mp hsome
  have hsegno : decide ((s.curseg found).segno = segno) = true :=
    List.find?_some (p := fun type => decide ((s.curseg type).segno = segno)) hfound
  exact ⟨found, hfound, of_decide_eq_true hsegno⟩

theorem segno_ne_of_not_isCurseg {segno : Nat} (h : s.isCurseg segno = false)
    (type : CursegType) : (s.curseg type).segno ≠ segno := by
  have hne := List.any_eq_false.mp h type (CursegType.mem_all type)
  exact fun heq => hne (decide_eq_true heq.symm)

/-- With `recover_curseg` the call always finds a log: one that is there, or warm data. -/
theorem replaceBlock_cases (now : Nat) (sum : SumEntry) (oldBlkaddr newBlkaddr : Nat)
    (recoverNewaddr : Bool) :
    (∃ type, s.isCurseg (getSegno sm newBlkaddr) = true ∧
        s.getCurseg (getSegno sm newBlkaddr) = some type ∧
        (s.curseg type).segno = getSegno sm newBlkaddr ∧
        s.replaceBlock sm now sum oldBlkaddr newBlkaddr true recoverNewaddr =
          some (s.replaceIn sm type now sum oldBlkaddr newBlkaddr true recoverNewaddr)) ∨
      s.isCurseg (getSegno sm newBlkaddr) = false ∧
        s.replaceBlock sm now sum oldBlkaddr newBlkaddr true recoverNewaddr =
          some (s.replaceIn sm CursegType.warmData now sum oldBlkaddr newBlkaddr true
            recoverNewaddr) := by
  cases hcur : s.isCurseg (getSegno sm newBlkaddr) with
  | true =>
      obtain ⟨type, htype, hsegno⟩ := getCurseg_of_isCurseg s hcur
      have hlog : s.replaceType sm oldBlkaddr newBlkaddr true = some type := by
        rw [← htype]
        exact if_pos hcur
      refine Or.inl ⟨type, rfl, htype, hsegno, ?_⟩
      rw [replaceBlock, hlog]
      rfl
  | false =>
      have hlog : s.replaceType sm oldBlkaddr newBlkaddr true = some CursegType.warmData :=
        if_neg (Bool.not_eq_true _ ▸ hcur)
      refine Or.inr ⟨rfl, ?_⟩
      rw [replaceBlock, hlog]
      rfl

/-- Exactly when the call leaves no trace. -/
theorem replaceBlock_noTrace (now : Nat) (sum : SumEntry) (oldBlkaddr newBlkaddr : Nat)
    (recoverNewaddr : Bool) :
    ∃ s', s.replaceBlock sm now sum oldBlkaddr newBlkaddr true recoverNewaddr = some s' ∧
      (NoTrace sm s now oldBlkaddr newBlkaddr recoverNewaddr s' ↔
        StealsNothing sm s newBlkaddr) := by
  obtain ⟨type, hcur, -, hsegno, hcall⟩ | ⟨hcur, hcall⟩ :=
    replaceBlock_cases sm s now sum oldBlkaddr newBlkaddr recoverNewaddr
  · obtain ⟨hpos, hsit, -⟩ := replaceIn_here sm s type now sum oldBlkaddr newBlkaddr
      recoverNewaddr hsegno
    exact ⟨_, hcall, iff_of_true ⟨hpos, congrArg SitInfo.sentries hsit⟩ (Or.inl hcur)⟩
  · have hne := segno_ne_of_not_isCurseg s hcur CursegType.warmData
    obtain ⟨hpos, hsit, -⟩ := replaceIn_away sm s CursegType.warmData now sum oldBlkaddr newBlkaddr
      recoverNewaddr hne
    refine ⟨_, hcall, ?_, ?_⟩
    · rintro ⟨hpos', hsit'⟩
      -- the log comes back as an SSR log
      have halloc := congrFun (hpos.symm.trans hpos') CursegType.warmData
      rw [Function.update_self] at halloc
      have htype : ∀ k, k = getSegno sm newBlkaddr ∨ k = (s.curseg CursegType.warmData).segno →
          (s.sit.sentries k).type = warmDataType := by
        intro k hk
        rw [hsit, setSitEntryType_sentries] at hsit'
        have hk' := congrArg SegEntry.type (congrFun hsit' k)
        rw [setValidity_type] at hk'
        rw [← hk']
        by_cases hlog : k = (s.curseg CursegType.warmData).segno
        · rw [hlog, Function.update_self]
          rfl
        · rw [Function.update_of_ne hlog, setValidity_type, setSitEntryType_sentries,
            hk.resolve_right hlog, Function.update_self]
          rfl
      exact Or.inr ⟨(congrArg (fun x => x.2.2) halloc).symm, htype _ (Or.inl rfl),
        htype _ (Or.inr rfl)⟩
    · rintro (habs | ⟨halloc, htarget, hlog⟩)
      · rw [hcur] at habs
        exact absurd habs Bool.false_ne_true
      · constructor
        · rw [hpos, ← halloc]
          exact Function.update_eq_self _ _
        · have hsame : (s.sit.setSitEntryType CursegType.warmData (getSegno sm newBlkaddr)
              true).sentries = s.sit.sentries := setSitEntryType_same s.sit _ true htarget
          rw [hsit, setSitEntryType_same]
          · exact setValidity_congr sm now oldBlkaddr newBlkaddr recoverNewaddr hsame
          · rw [setValidity_type, hsame]
            exact hlog

end SegManager

end F2fs.Segment

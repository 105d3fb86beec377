/-
  The counters of the SIT describe its bitmaps.

  `CountersDescribe` is the invariant; a mount establishes it if every record counts
  its own bitmap, and `update_sit_entry`, `f2fs_issue_discard` and `flush_sit_entries`
  keep it.  Setting a block that is set, or clearing one that is clear, changes no
  count: the code corrects the count it has just changed.
-/
import F2fs.Segment.FreeSegmap
import F2fs.Segment.SitFlushSpec

namespace F2fs.Segment

variable (sm : SmInfo)

/-! ## One entry -/

section Update

variable (now : Nat) (se : SegEntry) (offset : Fin blocksPerSeg) (set : Bool)

@[simp] theorem update_curValidMap : (se.update sm now offset set).1.curValidMap =
    if set then insert offset se.curValidMap else se.curValidMap.erase offset := by
  cases set <;> rfl

@[simp] theorem update_ckptValidMap : (se.update sm now offset set).1.ckptValidMap =
    if set ∧ se.type.val = CursegType.warmNode.idx then insert offset se.ckptValidMap
    else se.ckptValidMap := by
  cases set with
  | true =>
      simp only [true_and]
      rfl
  | false => rw [if_neg (fun h => Bool.false_ne_true h.1)]; rfl

@[simp] theorem update_discardMap : (se.update sm now offset set).1.discardMap =
    if sm.discardEn then
      if set then insert offset se.discardMap else se.discardMap.erase offset
    else se.discardMap := by
  cases set <;> rfl

@[simp] theorem update_type : (se.update sm now offset set).1.type = se.type := by
  cases set <;> rfl

/-- `del` is what the bitmap gains. -/
theorem update_del : (se.update sm now offset set).2.1 =
    ((se.update sm now offset set).1.curValidMap.card : Int) - se.curValidMap.card := by
  rw [update_curValidMap]
  by_cases hin : offset ∈ se.curValidMap
  · cases set with
    | true =>
      have hdel : (se.update sm now offset true).2.1 = 0 := if_pos hin
      rw [hdel, if_pos rfl, Finset.insert_eq_of_mem hin]
      omega
    | false =>
      have hdel : (se.update sm now offset false).2.1 = -1 := if_pos hin
      have hcard := Finset.card_erase_add_one hin
      rw [hdel, if_neg Bool.false_ne_true]
      omega
  · cases set with
    | true =>
      have hdel : (se.update sm now offset true).2.1 = 1 := if_neg hin
      rw [hdel, if_pos rfl, Finset.card_insert_of_notMem hin]
      omega
    | false =>
      have hdel : (se.update sm now offset false).2.1 = 0 := if_neg hin
      rw [hdel, if_neg Bool.false_ne_true, Finset.erase_eq_of_notMem hin]
      omega

/-- What is added to `discard_blks` is what the discard map loses. -/
theorem update_discard : (se.update sm now offset set).2.2 =
    (se.discardMap.card : Int) - (se.update sm now offset set).1.discardMap.card := by
  rw [update_discardMap]
  cases set with
  | true =>
      have hdel : (se.update sm now offset true).2.2 =
        if sm.discardEn ∧ offset ∉ se.discardMap then -1 else 0 := rfl
      rw [hdel]
      by_cases hen : sm.discardEn
      · rw [if_pos hen, if_pos rfl, Finset.card_insert_eq_ite]
        by_cases hin : offset ∈ se.discardMap
        · rw [if_neg fun h => h.2 hin, if_pos hin]
          omega
        · rw [if_pos ⟨hen, hin⟩, if_neg hin]
          omega
      · rw [if_neg hen, if_neg fun h => hen h.1]
        omega
  | false =>
      have hdel : (se.update sm now offset false).2.2 =
        if sm.discardEn ∧ offset ∈ se.discardMap then 1 else 0 := rfl
      rw [hdel]
      by_cases hen : sm.discardEn
      · rw [if_pos hen, if_neg Bool.false_ne_true]
        by_cases hin : offset ∈ se.discardMap
        · have hcard := Finset.card_erase_add_one hin
          rw [if_pos ⟨hen, hin⟩]
          omega
        · rw [if_neg fun h => hin h.2, Finset.erase_eq_of_notMem hin]
          omega
      · rw [if_neg hen, if_neg fun h => hen h.1]
        omega

variable {se}

/-- The block counts describe the bitmaps. -/
structure SegEntry.Counted (se : SegEntry) : Prop where
  valid : se.validBlocks = se.curValidMap.card
  ckptValid : se.ckptValidBlocks = (se.curValidMap ∪ se.ckptValidMap).card

theorem update_valid (h : se.validBlocks = se.curValidMap.card) :
    (se.update sm now offset set).1.validBlocks =
      (se.update sm now offset set).1.curValidMap.card := by
  have hle : se.curValidMap.card ≤ 512 := card_blockMap_le se.curValidMap
  rw [update_curValidMap]
  cases set with
  | true =>
      have hval : (se.update sm now offset true).1.validBlocks =
          if offset ∈ se.curValidMap then bits10 (bits10 (se.validBlocks + 1) - 1)
          else bits10 (se.validBlocks + 1) := rfl
      rw [hval, if_pos rfl, h]
      split
      case isTrue hin =>
        rw [Finset.insert_eq_of_mem hin]
        unfold bits10
        omega
      case isFalse hin =>
        rw [Finset.card_insert_of_notMem hin]
        unfold bits10
        omega
  | false =>
      have hval : (se.update sm now offset false).1.validBlocks =
          if offset ∈ se.curValidMap then bits10 (se.validBlocks + -1)
          else bits10 (bits10 (se.validBlocks + -1) + 1) := rfl
      rw [hval, if_neg Bool.false_ne_true, h]
      split
      case isTrue hin =>
        have hcard := Finset.card_erase_add_one hin
        unfold bits10
        omega
      case isFalse hin =>
        rw [Finset.erase_eq_of_notMem hin]
        unfold bits10
        omega

theorem update_set_ckptValidBlocks : (se.update sm now offset true).1.ckptValidBlocks =
    if offset ∈ se.ckptValidMap then se.ckptValidBlocks
    else if se.type.val = CursegType.warmNode.idx then bits10 (se.ckptValidBlocks + 1)
    else bits10 (se.ckptValidBlocks + if offset ∈ se.curValidMap then 0 else 1) := by
  by_cases hw : se.type.val = CursegType.warmNode.idx
  · by_cases hck : offset ∈ se.ckptValidMap <;> simp [SegEntry.update, setBlock, hw, hck]
  · by_cases hck : offset ∈ se.ckptValidMap <;> simp [SegEntry.update, setBlock, hw, hck]

theorem update_clear_ckptValidBlocks : (se.update sm now offset false).1.ckptValidBlocks =
    if offset ∈ se.ckptValidMap then se.ckptValidBlocks
    else bits10 (se.ckptValidBlocks + if offset ∈ se.curValidMap then -1 else 0) := rfl

/-- The count of the union.  In a warm node segment a block set twice must have been kept
    in the checkpoint map the first time. -/
theorem update_ckptValid
    (h : se.ckptValidBlocks = (se.curValidMap ∪ se.ckptValidMap).card)
    (hwarm : set = true → se.type.val = CursegType.warmNode.idx → offset ∈ se.curValidMap →
      offset ∈ se.ckptValidMap) :
    (se.update sm now offset set).1.ckptValidBlocks =
      ((se.update sm now offset set).1.curValidMap ∪
        (se.update sm now offset set).1.ckptValidMap).card := by
  have hle : (se.curValidMap ∪ se.ckptValidMap).card ≤ 512 := card_blockMap_le _
  rw [update_curValidMap, update_ckptValidMap]
  cases set with
  | true =>
      have hunion : insert offset se.curValidMap ∪
          (if true = true ∧ se.type.val = CursegType.warmNode.idx then insert offset se.ckptValidMap
            else se.ckptValidMap) = insert offset (se.curValidMap ∪ se.ckptValidMap) := by
        split
        · exact (Finset.insert_union_distrib _ _ _).symm
        · exact Finset.insert_union _ _ _
      rw [if_pos rfl, hunion, update_set_ckptValidBlocks, h]
      by_cases hck : offset ∈ se.ckptValidMap
      · rw [if_pos hck, Finset.insert_eq_of_mem (Finset.mem_union_right _ hck)]
      · rw [if_neg hck]
        by_cases hcur : offset ∈ se.curValidMap
        · rw [if_neg fun hw => hck (hwarm rfl hw hcur), if_pos hcur,
            Finset.insert_eq_of_mem (Finset.mem_union_left _ hcur)]
          unfold bits10
          omega
        · have hnot : offset ∉ se.curValidMap ∪ se.ckptValidMap := by
            rw [Finset.mem_union, not_or]
            exact ⟨hcur, hck⟩
          rw [if_neg hcur, Finset.card_insert_of_notMem hnot, ite_self]
          unfold bits10
          omega
  | false =>
      rw [if_neg Bool.false_ne_true, if_neg fun hc => Bool.false_ne_true hc.1,
        update_clear_ckptValidBlocks, h]
      by_cases hck : offset ∈ se.ckptValidMap
      · have hunion : se.curValidMap.erase offset ∪ se.ckptValidMap =
            se.curValidMap ∪ se.ckptValidMap := by
          ext i
          rw [Finset.mem_union, Finset.mem_union, Finset.mem_erase]
          constructor
          · rintro (⟨-, hi⟩ | hi)
            · exact Or.inl hi
            · exact Or.inr hi
          · rintro (hi | hi)
            · by_cases hio : i = offset
              · exact Or.inr (hio ▸ hck)
              · exact Or.inl ⟨hio, hi⟩
            · exact Or.inr hi
        rw [if_pos hck, hunion]
      · rw [if_neg hck]
        by_cases hcur : offset ∈ se.curValidMap
        · have hcard := Finset.card_erase_add_one
            (Finset.mem_union_left se.ckptValidMap hcur)
          rw [Finset.erase_union_distrib, Finset.erase_eq_of_notMem hck] at hcard
          rw [if_pos hcur]
          unfold bits10
          omega
        · rw [if_neg hcur, Finset.erase_eq_of_notMem hcur]
          unfold bits10
          omega

theorem counted_update (h : se.Counted)
    (hwarm : set = true → se.type.val = CursegType.warmNode.idx → offset ∈ se.curValidMap →
      offset ∈ se.ckptValidMap) : (se.update sm now offset set).1.Counted :=
  ⟨update_valid sm now offset set h.valid, update_ckptValid sm now offset set h.ckptValid hwarm⟩

end Update

theorem counted_checkpointed {se : SegEntry} (h : se.Counted) : se.checkpointed.Counted where
  valid := h.valid
  ckptValid := by
    show se.validBlocks = (se.curValidMap ∪ se.curValidMap).card
    rw [Finset.union_self, h.valid]

/-! ## The whole table -/

variable {sm}

/-- The number of valid blocks of some segments. -/
def totalValid (sit : SitInfo) (S : Finset Nat) : Int :=
  ∑ k ∈ S, ((sit.sentries k).validBlocks : Int)

/-- The number of zero bits of the discard maps of some segments. -/
def totalUndiscarded (sit : SitInfo) (S : Finset Nat) : Int :=
  ∑ k ∈ S, ((blocksPerSeg : Int) - (sit.sentries k).discardMap.card)

/-- The main segments of a section. -/
def secSegments (sm : SmInfo) (secno : Nat) : Finset Nat :=
  (Finset.range sm.mainSegments).filter fun k => getSec sm k = secno

/-- The counts of the sections are those of their segments. -/
def SecCounted (sm : SmInfo) (sit : SitInfo) : Prop :=
  1 < sm.segsPerSec → ∀ secno < sm.totalSections,
    sit.secEntries secno = totalValid sit (secSegments sm secno)

/-- Every counter describes the bitmaps. -/
structure CountersDescribe (sm : SmInfo) (sit : SitInfo) : Prop where
  entries : ∀ k < sm.mainSegments, (sit.sentries k).Counted
  sections : 1 < sm.segsPerSec → ∀ secno < sm.totalSections,
    sit.secEntries secno = totalValid sit (secSegments sm secno)
  written : sit.writtenValidBlocks = totalValid sit (Finset.range sm.mainSegments)
  discard : sm.discardEn = true →
    sit.discardBlks = totalUndiscarded sit (Finset.range sm.mainSegments)

/-- A sum over segments after one entry was replaced. -/
theorem sum_sentries_update (g : SegEntry → Int) (f : Nat → SegEntry) (S : Finset Nat) (k : Nat)
    (se : SegEntry) : ∑ i ∈ S, g (Function.update f k se i) =
      ∑ i ∈ S, g (f i) + if k ∈ S then g se - g (f k) else 0 := by
  by_cases hk : k ∈ S
  · have hrest : ∑ i ∈ S.erase k, g (Function.update f k se i) = ∑ i ∈ S.erase k, g (f i) := by
      apply Finset.sum_congr rfl
      intro i hi
      rw [Function.update_of_ne (Finset.ne_of_mem_erase hi)]
    rw [if_pos hk, ← Finset.add_sum_erase S _ hk, ← Finset.add_sum_erase S (fun i => g (f i)) hk,
      hrest, Function.update_self]
    omega
  · rw [if_neg hk, add_zero]
    apply Finset.sum_congr rfl
    intro i hi
    rw [Function.update_of_ne fun heq : i = k => hk (heq ▸ hi)]

theorem mem_secSegments {k secno : Nat} (hk : k < sm.mainSegments) :
    k ∈ secSegments sm secno ↔ getSec sm k = secno := by
  rw [secSegments, Finset.mem_filter, Finset.mem_range]
  exact and_iff_right hk

/-! ## `update_sit_entry` -/

@[simp] theorem markSitEntryDirty_sentries (sit : SitInfo) (segno : Nat) :
    (sit.markSitEntryDirty segno).sentries = sit.sentries := by
  unfold SitInfo.markSitEntryDirty
  split <;> rfl

@[simp] theorem markSitEntryDirty_bitmap (sit : SitInfo) (segno : Nat) :
    (sit.markSitEntryDirty segno).dirtySentriesBitmap =
      insert segno sit.dirtySentriesBitmap := by
  unfold SitInfo.markSitEntryDirty
  split
  case isTrue h => exact (Finset.insert_eq_of_mem h).symm
  case isFalse => rfl

theorem setSitEntryType_sentries (sit : SitInfo) (type : CursegType) (segno : Nat)
    (modified : Bool) : (sit.setSitEntryType type segno modified).sentries =
      Function.update sit.sentries segno
        { sit.sentries segno with type := Fin.ofNat 64 type.idx } := by
  unfold SitInfo.setSitEntryType
  cases modified with
  | true => exact markSitEntryDirty_sentries _ _
  | false => rfl

theorem markSitEntryDirty_counters (sit : SitInfo) (segno : Nat) :
    (sit.markSitEntryDirty segno).SameCounters sit := by
  unfold SitInfo.markSitEntryDirty
  split <;> exact ⟨rfl, rfl, rfl, rfl⟩

theorem setSitEntryType_secEntries (sit : SitInfo) (type : CursegType) (segno : Nat)
    (modified : Bool) : (sit.setSitEntryType type segno modified).secEntries = sit.secEntries := by
  unfold SitInfo.setSitEntryType
  cases modified with
  | true => exact (markSitEntryDirty_counters _ _).1
  | false => rfl

theorem SecCounted.congr {sit sit' : SitInfo} (h : SecCounted sm sit)
    (hsec : sit'.secEntries = sit.secEntries)
    (hvalid : ∀ k, (sit'.sentries k).validBlocks = (sit.sentries k).validBlocks) :
    SecCounted sm sit' := by
  intro hlt secno hs
  rw [hsec, h hlt secno hs]
  unfold totalValid
  simp only [hvalid]

section UpdateSitEntry

variable (now : Nat) (sit : SitInfo) (addr : Nat) (set : Bool)

/-- The entry `update_sit_entry` leaves, with its `del` and what it adds to `discard_blks`. -/
def updated (sm : SmInfo) (now : Nat) (sit : SitInfo) (addr : Nat) (set : Bool) :
    SegEntry × Int × Int :=
  (sit.sentries (getSegno sm addr)).update sm now (getBlkoff sm addr) set

@[simp] theorem updateSitEntry_sentries : (sit.updateSitEntry sm now addr set).sentries =
    Function.update sit.sentries (getSegno sm addr) (updated sm now sit addr set).1 := by
  show (SitInfo.markSitEntryDirty _ _).sentries = _
  rw [markSitEntryDirty_sentries]
  rfl

@[simp] theorem updateSitEntry_bitmap : (sit.updateSitEntry sm now addr set).dirtySentriesBitmap =
    insert (getSegno sm addr) sit.dirtySentriesBitmap := by
  show (SitInfo.markSitEntryDirty _ _).dirtySentriesBitmap = _
  rw [markSitEntryDirty_bitmap]
  rfl

theorem updateSitEntry_written : (sit.updateSitEntry sm now addr set).writtenValidBlocks =
    sit.writtenValidBlocks + (updated sm now sit addr set).2.1 := by
  show (SitInfo.markSitEntryDirty _ _).writtenValidBlocks + _ = _
  rw [(markSitEntryDirty_counters _ _).2.1]
  rfl

theorem updateSitEntry_discardBlks : (sit.updateSitEntry sm now addr set).discardBlks =
    sit.discardBlks + (updated sm now sit addr set).2.2 := by
  show (SitInfo.markSitEntryDirty _ _).discardBlks = _
  rw [(markSitEntryDirty_counters _ _).2.2.1]
  rfl

theorem updateSitEntry_secEntries (h : 1 < sm.segsPerSec) :
    (sit.updateSitEntry sm now addr set).secEntries =
      Function.update sit.secEntries (getSec sm (getSegno sm addr))
        (sit.secEntries (getSec sm (getSegno sm addr)) + (updated sm now sit addr set).2.1) := by
  show (if sm.segsPerSec > 1 then Function.update (SitInfo.markSitEntryDirty _ _).secEntries _
    ((SitInfo.markSitEntryDirty _ _).secEntries _ + _) else _) = _
  rw [if_pos h, (markSitEntryDirty_counters _ _).1]
  rfl

theorem updateSitEntry_type (k : Nat) :
    ((sit.updateSitEntry sm now addr set).sentries k).type = (sit.sentries k).type := by
  rw [updateSitEntry_sentries, Function.update_apply]
  split
  case isTrue h => rw [updated, update_type, h]
  case isFalse => rfl

theorem updateSitEntry_curValidMap (k : Nat) :
    ((sit.updateSitEntry sm now addr set).sentries k).curValidMap =
      if k = getSegno sm addr then
        if set then insert (getBlkoff sm addr) (sit.sentries k).curValidMap
        else (sit.sentries k).curValidMap.erase (getBlkoff sm addr)
      else (sit.sentries k).curValidMap := by
  rw [updateSitEntry_sentries, Function.update_apply]
  split
  case isTrue h => rw [updated, update_curValidMap, h]
  case isFalse => rfl

variable {now sit addr set}

/-- The valid blocks of some segments change by the corrected `del`. -/
theorem totalValid_updateSitEntry (sm : SmInfo) (now : Nat) (set : Bool)
    (hvalid : (sit.sentries (getSegno sm addr)).validBlocks =
      (sit.sentries (getSegno sm addr)).curValidMap.card) (S : Finset Nat) :
    totalValid (sit.updateSitEntry sm now addr set) S =
      totalValid sit S + if getSegno sm addr ∈ S then (updated sm now sit addr set).2.1 else 0 := by
  have hnew : (updated sm now sit addr set).1.validBlocks =
      (updated sm now sit addr set).1.curValidMap.card := update_valid sm now _ set hvalid
  have hdel : (updated sm now sit addr set).2.1 =
      ((updated sm now sit addr set).1.validBlocks : Int) -
        (sit.sentries (getSegno sm addr)).validBlocks := by
    rw [hnew, hvalid]
    exact update_del sm now _ _ set
  unfold totalValid
  rw [updateSitEntry_sentries, sum_sentries_update (fun se => (se.validBlocks : Int)), hdel]

theorem secCounted_updateSitEntry (h : SecCounted sm sit) (ha : InMain sm addr)
    (hvalid : (sit.sentries (getSegno sm addr)).validBlocks =
      (sit.sentries (getSegno sm addr)).curValidMap.card) :
    SecCounted sm (sit.updateSitEntry sm now addr set) := by
  intro hsec secno hlt
  have hseg := getSegno_lt ha
  rw [updateSitEntry_secEntries now sit addr set hsec, totalValid_updateSitEntry sm now set hvalid]
  by_cases hs : secno = getSec sm (getSegno sm addr)
  · rw [hs, Function.update_self, if_pos ((mem_secSegments hseg).mpr rfl),
      h hsec _ (getSec_lt hseg)]
  · rw [Function.update_of_ne hs, if_neg fun hin => hs ((mem_secSegments hseg).mp hin).symm,
      add_zero]
    exact h hsec secno hlt

theorem countersDescribe_updateSitEntry (h : CountersDescribe sm sit) (ha : InMain sm addr)
    (hwarm : set = true → (sit.sentries (getSegno sm addr)).type.val = CursegType.warmNode.idx →
      getBlkoff sm addr ∈ (sit.sentries (getSegno sm addr)).curValidMap →
      getBlkoff sm addr ∈ (sit.sentries (getSegno sm addr)).ckptValidMap) :
    CountersDescribe sm (sit.updateSitEntry sm now addr set) := by
  have hseg := getSegno_lt ha
  have hold := h.entries _ hseg
  have hnew : (updated sm now sit addr set).1.Counted :=
    counted_update sm now (getBlkoff sm addr) set hold hwarm
  have htotal := totalValid_updateSitEntry sm now set hold.valid
  refine ⟨?_, ?_, ?_, ?_⟩
  · intro k hk
    rw [updateSitEntry_sentries]
    by_cases hks : k = getSegno sm addr
    · rw [hks, Function.update_self]
      exact hnew
    · rw [Function.update_of_ne hks]
      exact h.entries k hk
  · exact secCounted_updateSitEntry h.sections ha hold.valid
  · rw [updateSitEntry_written, htotal, if_pos (Finset.mem_range.mpr hseg), h.written]
  · intro hen
    have hdis : (updated sm now sit addr set).2.2 =
        ((sit.sentries (getSegno sm addr)).discardMap.card : Int) -
          (updated sm now sit addr set).1.discardMap.card := update_discard sm now _ _ set
    rw [updateSitEntry_discardBlks, h.discard hen]
    unfold totalUndiscarded
    rw [updateSitEntry_sentries,
      sum_sentries_update (fun se => (blocksPerSeg : Int) - se.discardMap.card),
      if_pos (Finset.mem_range.mpr hseg), hdis]
    omega

end UpdateSitEntry

/-! ## `f2fs_issue_discard` -/

theorem countersDescribe_discardBlock {sit : SitInfo} {addr : Nat} (h : CountersDescribe sm sit)
    (ha : InMain sm addr) : CountersDescribe sm (sit.discardBlock sm addr) := by
  have hseg := getSegno_lt ha
  unfold SitInfo.discardBlock
  simp only
  split
  case isTrue => exact h
  case isFalse hnot =>
    set se := sit.sentries (getSegno sm addr) with hse
    set se' : SegEntry := { se with discardMap := insert (getBlkoff sm addr) se.discardMap }
      with hse'
    have htotal : ∀ S, ∑ k ∈ S,
        ((Function.update sit.sentries (getSegno sm addr) se' k).validBlocks : Int) =
        totalValid sit S := by
      intro S
      rw [sum_sentries_update (fun se => (se.validBlocks : Int))]
      show _ + (if _ then (se.validBlocks : Int) - se.validBlocks else 0) = _
      rw [sub_self, ite_self, add_zero]
      rfl
    refine ⟨?_, ?_, ?_, ?_⟩
    · intro k hk
      show (Function.update sit.sentries (getSegno sm addr) se' k).Counted
      by_cases hks : k = getSegno sm addr
      · rw [hks, Function.update_self]
        have hold := h.entries _ hseg
        exact ⟨hold.valid, hold.ckptValid⟩
      · rw [Function.update_of_ne hks]
        exact h.entries k hk
    · intro hsec secno hlt
      exact (h.sections hsec secno hlt).trans (htotal _).symm
    · exact h.written.trans (htotal _).symm
    · intro hen
      show sit.discardBlks - 1 = ∑ k ∈ Finset.range sm.mainSegments, ((blocksPerSeg : Int) -
        (Function.update sit.sentries (getSegno sm addr) se' k).discardMap.card)
      have hcard : se'.discardMap.card = se.discardMap.card + 1 :=
        Finset.card_insert_of_notMem hnot
      rw [sum_sentries_update (fun se => (blocksPerSeg : Int) - se.discardMap.card),
        if_pos (Finset.mem_range.mpr hseg), hcard, h.discard hen, ← hse]
      unfold totalUndiscarded
      push_cast
      omega

/-- Discarding touches neither types nor validity maps. -/
theorem discardBlock_sentries (sm : SmInfo) (sit : SitInfo) (addr k : Nat) :
    ((sit.discardBlock sm addr).sentries k).type = (sit.sentries k).type ∧
      ((sit.discardBlock sm addr).sentries k).curValidMap = (sit.sentries k).curValidMap ∧
      ((sit.discardBlock sm addr).sentries k).ckptValidMap = (sit.sentries k).ckptValidMap ∧
      ((sit.discardBlock sm addr).sentries k).validBlocks = (sit.sentries k).validBlocks ∧
      ((sit.discardBlock sm addr).sentries k).mtime = (sit.sentries k).mtime := by
  unfold SitInfo.discardBlock
  simp only
  split
  · exact ⟨rfl, rfl, rfl, rfl, rfl⟩
  · by_cases hk : k = getSegno sm addr
    · subst hk
      simp [SitInfo.setSentry]
    · simp [SitInfo.setSentry, hk]

/-! ## `flush_sit_entries` -/

/-- `a` is `b` after some entries were written out. -/
def SitInfo.WrittenFrom (a b : SitInfo) : Prop := ∃ D, a.Cleaned b D

theorem writtenFrom_refl (a : SitInfo) : a.WrittenFrom a :=
  ⟨fun _ => False, ⟨rfl, rfl, rfl, rfl⟩, fun _ => ⟨False.elim, fun _ => rfl⟩⟩

theorem SitInfo.WrittenFrom.trans {a b c : SitInfo} (h₁ : a.WrittenFrom b)
    (h₂ : b.WrittenFrom c) : a.WrittenFrom c := by
  obtain ⟨D₁, hc₁, hd₁⟩ := h₁
  obtain ⟨D₂, hc₂, hd₂⟩ := h₂
  refine ⟨fun d => D₁ d ∨ D₂ d, hc₁.trans hc₂, fun d => ⟨fun hor => ?_, fun hnot => ?_⟩⟩
  · by_cases h₁ : D₁ d
    · rw [(hd₁ d).1 h₁]
      by_cases h₂ : D₂ d
      · rw [(hd₂ d).1 h₂]
        rfl
      · rw [(hd₂ d).2 h₂]
    · rw [(hd₁ d).2 h₁, (hd₂ d).1 (hor.resolve_left h₁)]
  · rw [not_or] at hnot
    rw [(hd₁ d).2 hnot.1, (hd₂ d).2 hnot.2]

theorem writtenFrom_markSitEntryDirty (sit : SitInfo) (segno : Nat) :
    (sit.markSitEntryDirty segno).WrittenFrom sit := by
  refine ⟨fun _ => False, markSitEntryDirty_counters sit segno, fun d => ⟨False.elim, fun _ => ?_⟩⟩
  rw [markSitEntryDirty_sentries]

theorem writtenFrom_cleanSentry (sit : SitInfo) (segno : Nat) :
    (sit.cleanSentry segno).WrittenFrom sit := by
  refine ⟨fun d => d = segno, ⟨rfl, rfl, rfl, rfl⟩, fun d => ⟨?_, fun hd => ?_⟩⟩
  · rintro rfl
    exact Function.update_self _ _ _
  · exact Function.update_of_ne hd _ _

theorem flushSitEntry_writtenFrom {cpc : CpControl} {toJournal : Bool} {acc acc' : SitState × Int}
    {segno : Nat} (h : flushSitEntry sm cpc toJournal acc segno = some acc') :
    acc'.1.info.WrittenFrom acc.1.info := by
  unfold flushSitEntry at h
  simp only at h
  split at h
  · rw [← Option.some.inj h]
    exact writtenFrom_refl _
  · rw [Option.map_eq_some_iff] at h
    obtain ⟨st, -, rfl⟩ := h
    exact writtenFrom_cleanSentry _ _

theorem flushSitEntrySet_writtenFrom {cpc : CpControl} {acc acc' : Bool × SitState}
    {ses : SitEntrySet} (h : flushSitEntrySet sm cpc acc ses = some acc') :
    acc'.2.info.WrittenFrom acc.2.info := by
  unfold flushSitEntrySet at h
  simp only [Option.bind_eq_some_iff] at h
  obtain ⟨⟨s₂, cnt⟩, hfold, hcond⟩ := h
  have hinfo : s₂.info.WrittenFrom acc.2.info := by
    refine OptionFold.foldlM_inv (P := fun b => b.1.info.WrittenFrom acc.2.info)
      (fun b x b' _ hb hstep => (flushSitEntry_writtenFrom hstep).trans hb) ?_ hfold
    show (if _ then acc.2 else getNextSitPage sm acc.2 _).info.WrittenFrom acc.2.info
    split <;> exact writtenFrom_refl _
  split at hcond
  · cases hcond
  · rw [← Option.some.inj hcond]
    exact hinfo

/-- Whatever a flush does to the table is writing out entries. -/
theorem flushSitEntries_writtenFrom {cpc : CpControl} {s s' : SitState}
    (h : flushSitEntries sm cpc s = some s') : s'.info.WrittenFrom s.info := by
  have htrim : ∀ t, (addTrimDiscards sm cpc t).info = t.info := by
    intro t
    unfold addTrimDiscards
    split <;> rfl
  have hdrain : ∀ (l : List Nat) (t : SitState),
      (l.foldl removeSitInJournal t).info.WrittenFrom t.info := by
    intro l
    induction l with
    | nil => exact fun t => writtenFrom_refl _
    | cons i l ih =>
        intro t
        rw [List.foldl_cons]
        refine (ih (removeSitInJournal t i)).trans ?_
        unfold removeSitInJournal
        simp only
        split
        · exact writtenFrom_refl _
        · exact writtenFrom_markSitEntryDirty _ _
  unfold flushSitEntries at h
  rw [Option.map_eq_some_iff] at h
  obtain ⟨t, ht, rfl⟩ := h
  rw [htrim]
  split at ht
  · rw [← Option.some.inj ht]
    exact writtenFrom_refl _
  · unfold flushSitSets at ht
    simp only [Option.bind_eq_some_iff] at ht
    obtain ⟨⟨tj, s₃⟩, hfold, hcond⟩ := ht
    have hinfo : s₃.info.WrittenFrom s.info := by
      refine OptionFold.foldlM_inv (P := fun b => b.2.info.WrittenFrom s.info)
        (fun b x b' _ hb hstep => (flushSitEntrySet_writtenFrom hstep).trans hb) ?_ hfold
      show (if _ then addSitsInSet sm s else
        removeSitsInJournal (addSitsInSet sm s)).info.WrittenFrom s.info
      split
      · exact writtenFrom_refl _
      · exact hdrain _ (addSitsInSet sm s)
    split at hcond
    · cases hcond
    · rw [← Option.some.inj hcond]
      exact hinfo

theorem countersDescribe_writtenFrom {a b : SitInfo} (h : CountersDescribe sm b)
    (hab : a.WrittenFrom b) : CountersDescribe sm a := by
  obtain ⟨D, ⟨hsec, hwritten, hdiscard, -⟩, hD⟩ := hab
  have hentry : ∀ k, (a.sentries k).validBlocks = (b.sentries k).validBlocks ∧
      (a.sentries k).discardMap = (b.sentries k).discardMap := by
    intro k
    by_cases hk : D k
    · rw [(hD k).1 hk]
      exact ⟨rfl, rfl⟩
    · rw [(hD k).2 hk]
      exact ⟨rfl, rfl⟩
  have htotal : ∀ S, totalValid a S = totalValid b S := by
    intro S
    apply Finset.sum_congr rfl
    intro k _
    rw [(hentry k).1]
  refine ⟨?_, ?_, ?_, ?_⟩
  · intro k hk
    by_cases hkD : D k
    · rw [(hD k).1 hkD]
      exact counted_checkpointed (h.entries k hk)
    · rw [(hD k).2 hkD]
      exact h.entries k hk
  · intro hsp secno hlt
    rw [hsec, htotal]
    exact h.sections hsp secno hlt
  · rw [hwritten, htotal]
    exact h.written
  · intro hen
    rw [hdiscard, h.discard hen]
    apply Finset.sum_congr rfl
    intro k _
    rw [(hentry k).2]

/-! ## Mount -/

/-- Every record a mount reads counts its own bitmap, and the journal holds records of
    main segments. -/
structure SitStore.Sound (sm : SmInfo) (st : SitStore) : Prop where
  blocks : ∀ k < sm.mainSegments,
    (st.blockEntry sm k).getVblocks = (st.blockEntry sm k).validMap.card
  records : ∀ i < st.journal.n,
    (st.journal.slot i).2.getVblocks = (st.journal.slot i).2.validMap.card
  keys : ∀ i < st.journal.n, (st.journal.slot i).1 < sm.mainSegments

/-- `build_sit_entries` after the blocks of the first `n` segments. -/
structure Mounting (sm : SmInfo) (trimmed : Bool) (n : Nat) (sit : SitInfo) : Prop where
  entries : ∀ k, (sit.sentries k).Counted
  clean : ∀ k, (sit.sentries k).curValidMap = (sit.sentries k).ckptValidMap
  maps : sm.discardEn = true → ∀ k < n, (sit.sentries k).discardMap =
    if trimmed then Finset.univ else (sit.sentries k).curValidMap
  sections : 1 < sm.segsPerSec → ∀ secno, sit.secEntries secno =
    totalValid sit ((Finset.range n).filter fun k => getSec sm k = secno)
  discard : sm.discardEn = true → sit.discardBlks = totalUndiscarded sit (Finset.range n)
  fresh : sit.writtenValidBlocks = 0 ∧ sit.dirtySentriesBitmap = ∅ ∧ sit.dirtySentries = 0

theorem mounting_zero (sm : SmInfo) (trimmed : Bool) : Mounting sm trimmed 0 zeroSitInfo where
  entries := fun _ => ⟨rfl, rfl⟩
  clean := fun _ => rfl
  maps := fun _ _ hk => absurd hk (Nat.not_lt_zero _)
  sections := fun _ _ => rfl
  discard := fun _ => rfl
  fresh := ⟨rfl, rfl, rfl⟩

/-- A sum over the loaded segments when one more is loaded. -/
theorem sum_load (g : SegEntry → Int) (f : Nat → SegEntry) (n : Nat) (se : SegEntry)
    (p : Nat → Prop) [DecidablePred p] :
    ∑ i ∈ (Finset.range (n + 1)).filter p, g (Function.update f n se i) =
      ∑ i ∈ (Finset.range n).filter p, g (f i) + if p n then g se else 0 := by
  rw [Finset.sum_filter, Finset.sum_filter, Finset.sum_range_succ, Function.update_self]
  congr 1
  apply Finset.sum_congr rfl
  intro i hi
  rw [Function.update_of_ne (Nat.ne_of_lt (Finset.mem_range.mp hi))]

section Load

variable {trimmed : Bool} {n : Nat} {sit : SitInfo} {rs : RawSit}

/-- The entry made from a record. -/
def loaded (sm : SmInfo) (trimmed : Bool) (sit : SitInfo) (segno : Nat) (rs : RawSit) : SegEntry :=
  mountDiscardMap sm trimmed (segInfoFromRawSit (sit.sentries segno) rs)

theorem loaded_fields (sm : SmInfo) (trimmed : Bool) (sit : SitInfo) (segno : Nat) (rs : RawSit) :
    (loaded sm trimmed sit segno rs).validBlocks = rs.getVblocks ∧
      (loaded sm trimmed sit segno rs).ckptValidBlocks = rs.getVblocks ∧
      (loaded sm trimmed sit segno rs).curValidMap = rs.validMap ∧
      (loaded sm trimmed sit segno rs).ckptValidMap = rs.validMap ∧
      (sm.discardEn = true → (loaded sm trimmed sit segno rs).discardMap =
        if trimmed then Finset.univ else rs.validMap) := by
  unfold loaded mountDiscardMap
  split
  case isTrue => exact ⟨rfl, rfl, rfl, rfl, fun _ => rfl⟩
  case isFalse h => exact ⟨rfl, rfl, rfl, rfl, fun hen => absurd hen h⟩

theorem loaded_counted (hrs : rs.getVblocks = rs.validMap.card) (segno : Nat) :
    (loaded sm trimmed sit segno rs).Counted := by
  obtain ⟨h1, h2, h3, h4, -⟩ := loaded_fields sm trimmed sit segno rs
  refine ⟨by rw [h1, h3, hrs], by rw [h2, h3, h4, Finset.union_self, hrs]⟩

/-- What `discard_blks` must count for a freshly mounted entry. -/
theorem undiscarded_of_map (trimmed : Bool) {se : SegEntry}
    (hvalid : se.validBlocks = se.curValidMap.card)
    (hmap : se.discardMap = if trimmed then Finset.univ else se.curValidMap) :
    (blocksPerSeg : Int) - se.discardMap.card =
      if trimmed then 0 else (blocksPerSeg : Int) - se.validBlocks := by
  rw [hmap, hvalid]
  cases trimmed with
  | true =>
      rw [if_pos rfl, if_pos rfl, Finset.card_univ, Fintype.card_fin]
      omega
  | false => rfl

theorem mounting_loadBlock (h : Mounting sm trimmed n sit)
    (hrs : rs.getVblocks = rs.validMap.card) :
    Mounting sm trimmed (n + 1) (sit.loadSentry sm trimmed n rs
      ((blocksPerSeg : Int) - rs.getVblocks) rs.getVblocks) := by
  obtain ⟨hv, -, hcur, hckpt, hmap⟩ := loaded_fields sm trimmed sit n rs
  have hcounted : (loaded sm trimmed sit n rs).Counted := loaded_counted hrs n
  have hsent : (sit.loadSentry sm trimmed n rs ((blocksPerSeg : Int) - rs.getVblocks)
      rs.getVblocks).sentries = Function.update sit.sentries n (loaded sm trimmed sit n rs) := rfl
  refine ⟨?_, ?_, ?_, ?_, ?_, h.fresh⟩
  · intro k
    rw [hsent]
    by_cases hk : k = n
    · rw [hk, Function.update_self]
      exact hcounted
    · rw [Function.update_of_ne hk]
      exact h.entries k
  · intro k
    rw [hsent]
    by_cases hk : k = n
    · rw [hk, Function.update_self, hcur, hckpt]
    · rw [Function.update_of_ne hk]
      exact h.clean k
  · intro hen k hk
    rw [hsent]
    by_cases hkn : k = n
    · rw [hkn, Function.update_self, hmap hen, hcur]
    · rw [Function.update_of_ne hkn]
      exact h.maps hen k (by omega)
  · intro hsp secno
    show (if sm.segsPerSec > 1 then Function.update sit.secEntries _ _ else sit.secEntries) secno =
      _
    unfold totalValid
    rw [if_pos hsp, hsent, sum_load (fun se => (se.validBlocks : Int)), Function.update_apply,
      h.sections hsp, hv]
    by_cases hs : secno = getSec sm n
    · rw [if_pos hs, if_pos hs.symm, hs]
      rfl
    · rw [if_neg hs, if_neg fun heq => hs heq.symm, add_zero]
      exact h.sections hsp secno
  · intro hen
    show sit.discardBlks + (if sm.discardEn ∧ ¬ trimmed then _ else 0) = ∑ k ∈ _, _
    have hlast := undiscarded_of_map trimmed hcounted.valid
      (by rw [hmap hen, hcur])
    rw [hv] at hlast
    rw [hsent, Finset.sum_range_succ, Function.update_self, hlast, h.discard hen]
    have hrest : ∑ k ∈ Finset.range n, ((blocksPerSeg : Int) -
        (Function.update sit.sentries n (loaded sm trimmed sit n rs) k).discardMap.card) =
        totalUndiscarded sit (Finset.range n) := by
      apply Finset.sum_congr rfl
      intro k hk
      rw [Function.update_of_ne (Nat.ne_of_lt (Finset.mem_range.mp hk))]
    rw [hrest]
    cases trimmed <;> simp [hen]

theorem mounting_loadJournal {segno : Nat} (h : Mounting sm trimmed sm.mainSegments sit)
    (hseg : segno < sm.mainSegments) (hrs : rs.getVblocks = rs.validMap.card) :
    Mounting sm trimmed sm.mainSegments (sit.loadSentry sm trimmed segno rs
      ((sit.sentries segno).validBlocks - rs.getVblocks)
      (rs.getVblocks - (sit.sentries segno).validBlocks)) := by
  obtain ⟨hv, -, hcur, hckpt, hmap⟩ := loaded_fields sm trimmed sit segno rs
  have hcounted : (loaded sm trimmed sit segno rs).Counted := loaded_counted hrs segno
  have hsent : (sit.loadSentry sm trimmed segno rs
      ((sit.sentries segno).validBlocks - rs.getVblocks)
      (rs.getVblocks - (sit.sentries segno).validBlocks)).sentries =
        Function.update sit.sentries segno (loaded sm trimmed sit segno rs) := rfl
  refine ⟨?_, ?_, ?_, ?_, ?_, h.fresh⟩
  · intro k
    rw [hsent]
    by_cases hk : k = segno
    · rw [hk, Function.update_self]
      exact hcounted
    · rw [Function.update_of_ne hk]
      exact h.entries k
  · intro k
    rw [hsent]
    by_cases hk : k = segno
    · rw [hk, Function.update_self, hcur, hckpt]
    · rw [Function.update_of_ne hk]
      exact h.clean k
  · intro hen k hk
    rw [hsent]
    by_cases hks : k = segno
    · rw [hks, Function.update_self, hmap hen, hcur]
    · rw [Function.update_of_ne hks]
      exact h.maps hen k hk
  · intro hsp secno
    show (if sm.segsPerSec > 1 then Function.update sit.secEntries _ _ else sit.secEntries) secno =
      _
    unfold totalValid
    rw [if_pos hsp, hsent, sum_sentries_update (fun se => (se.validBlocks : Int)),
      Function.update_apply, hv]
    have hin : segno ∈ (Finset.range sm.mainSegments).filter (fun k => getSec sm k = secno) ↔
        getSec sm segno = secno := mem_secSegments hseg
    by_cases hs : secno = getSec sm segno
    · rw [if_pos hs, if_pos (hin.mpr hs.symm), ← hs, h.sections hsp]
      rfl
    · rw [if_neg hs, if_neg fun heq => hs (hin.mp heq).symm, add_zero]
      exact h.sections hsp secno
  · intro hen
    show sit.discardBlks + (if sm.discardEn ∧ ¬ trimmed then _ else 0) = ∑ k ∈ _, _
    have hnew := undiscarded_of_map trimmed hcounted.valid
      (by rw [hmap hen, hcur])
    have hold := undiscarded_of_map trimmed (h.entries segno).valid
      (h.maps hen segno hseg)
    rw [hv] at hnew
    rw [hsent, sum_sentries_update (fun se => (blocksPerSeg : Int) - se.discardMap.card),
      if_pos (Finset.mem_range.mpr hseg), hnew, hold, h.discard hen]
    unfold totalUndiscarded
    cases trimmed with
    | true => simp
    | false =>
        simp only [hen, Bool.false_eq_true, not_false_eq_true, and_self, if_true, if_false]
        omega

end Load

/-- After a mount of a sound SIT. -/
theorem mounting_buildSitEntries {trimmed : Bool} {st : SitStore} {sit : SitInfo}
    (hst : st.Sound sm) (h : buildSitEntries sm trimmed st = some sit) :
    Mounting sm trimmed sm.mainSegments sit := by
  unfold buildSitEntries at h
  rw [Option.bind_eq_some_iff] at h
  obtain ⟨sit₁, h₁, h₂⟩ := h
  have hok : ∀ {k : Nat} {rs : RawSit}, k < sm.mainSegments → rs.getVblocks = rs.validMap.card →
      checkBlockCount sm k rs = true := fun hk hrs =>
    checkBlockCount_of_le hk (hrs ▸ card_blockMap_le _)
  obtain ⟨sit₁', h₁', hm₁⟩ := OptionFold.foldlM_range_total (f := loadBlockEntry sm trimmed st)
    (P := Mounting sm trimmed) sm.mainSegments
    (fun i sit hi hP => ⟨_, if_pos (hok hi (hst.blocks i hi)),
      mounting_loadBlock hP (hst.blocks i hi)⟩)
    (mounting_zero sm trimmed)
  rw [h₁] at h₁'
  rw [← Option.some.inj h₁'] at hm₁
  obtain ⟨sit₂', h₂', hm₂⟩ := OptionFold.foldlM_range_total (f := loadJournalEntry sm trimmed st)
    (P := fun _ => Mounting sm trimmed sm.mainSegments) st.journal.n
    (fun i sit hi hP => ⟨_, if_pos (hok (hst.keys i hi) (hst.records i hi)),
      mounting_loadJournal hP (hst.keys i hi) (hst.records i hi)⟩)
    hm₁
  rw [h₂] at h₂'
  rw [Option.some.inj h₂']
  exact hm₂

/-- `init_free_segmap` counts the valid blocks. -/
theorem initFreeSegmap_sit (sit : SitInfo) (f : FreeSegmapInfo) (curseg : CursegType → Nat) :
    (initFreeSegmap sm sit f curseg).1 = { sit with
      writtenValidBlocks := sit.writtenValidBlocks +
        totalValid sit (Finset.range sm.mainSegments) } := by
  have hfold : ∀ n, ((List.range n).foldl (initFreeSegment sm) (sit, f)).1 = { sit with
      writtenValidBlocks := sit.writtenValidBlocks + totalValid sit (Finset.range n) } := by
    intro n
    induction n with
    | zero =>
        unfold totalValid
        rw [Finset.range_zero, Finset.sum_empty, add_zero]
        rfl
    | succ n ih =>
        rw [List.range_succ, List.foldl_append, List.foldl_cons, List.foldl_nil]
        set acc := (List.range n).foldl (initFreeSegment sm) (sit, f) with hacc
        have htotal : totalValid sit (Finset.range (n + 1)) =
            totalValid sit (Finset.range n) + (sit.sentries n).validBlocks :=
          Finset.sum_range_succ _ _
        have hsent : acc.1.sentries = sit.sentries := by rw [ih]
        unfold initFreeSegment
        simp only [hsent]
        split
        case isTrue hzero =>
          rw [ih, htotal, hzero]
          simp
        case isFalse =>
          rw [ih, htotal]
          simp only [add_assoc]
  simp only [initFreeSegmap]
  exact hfold sm.mainSegments

/-! ## Runs -/

/-- The states reached from a mount of the persisted SIT `st` by `update_sit_entry`,
    `f2fs_issue_discard` and `flush_sit_entries` in any order. -/
inductive SitReach (sm : SmInfo) (trimmed : Bool) (st : SitStore) : SitState → Prop
  | mount (sit : SitInfo) (curseg : CursegType → Nat) (dcc : DiscardCmdControl)
      (h : buildSitEntries sm trimmed st = some sit) :
      SitReach sm trimmed st
        { info := (initFreeSegmap sm sit (buildFreeSegmap sm) curseg).1
          store := st
          sitEntrySet := []
          dcc := dcc }
  | update (s : SitState) (now addr : Nat) (set : Bool) (hs : SitReach sm trimmed st s)
      (ha : InMain sm addr) :
      SitReach sm trimmed st { s with info := s.info.updateSitEntry sm now addr set }
  | discard (s : SitState) (start len : Nat) (hs : SitReach sm trimmed st s)
      (ha : ∀ i < len, InMain sm (start + i)) :
      SitReach sm trimmed st { s with info := s.info.issueDiscard sm start len }
  | flush (s s' : SitState) (cpc : CpControl) (hs : SitReach sm trimmed st s)
      (h : flushSitEntries sm cpc s = some s') : SitReach sm trimmed st s'

/-- In a warm node segment every valid block is kept in the checkpoint map. -/
def WarmKept (sit : SitInfo) : Prop :=
  ∀ k, (sit.sentries k).type.val = CursegType.warmNode.idx →
    (sit.sentries k).curValidMap ⊆ (sit.sentries k).ckptValidMap

theorem warmKept_updateSitEntry {sit : SitInfo} (h : WarmKept sit) (now addr : Nat) (set : Bool) :
    WarmKept (sit.updateSitEntry sm now addr set) := by
  intro k hk
  rw [updateSitEntry_sentries] at hk ⊢
  by_cases hks : k = getSegno sm addr
  · rw [hks, Function.update_self] at hk ⊢
    have hw : (sit.sentries (getSegno sm addr)).type.val = CursegType.warmNode.idx := by
      rw [← hk]
      exact congrArg Fin.val (update_type sm now _ _ set).symm
    have hsub := h _ hw
    unfold updated
    rw [update_curValidMap, update_ckptValidMap]
    cases set with
    | true =>
        rw [if_pos rfl, if_pos ⟨rfl, hw⟩]
        exact Finset.insert_subset_insert _ hsub
    | false =>
        rw [if_neg Bool.false_ne_true, if_neg fun hc => Bool.false_ne_true hc.1]
        exact (Finset.erase_subset _ _).trans hsub
  · rw [Function.update_of_ne hks] at hk ⊢
    exact h k hk

theorem issueDiscard_inv {P : SitInfo → Prop} {start len : Nat} {sit : SitInfo}
    (step : ∀ i < len, ∀ t, P t → P (t.discardBlock sm (start + i))) (h : P sit) :
    P (sit.issueDiscard sm start len) := by
  unfold SitInfo.issueDiscard
  induction len with
  | zero => exact h
  | succ len ih =>
      rw [List.range'_concat, List.foldl_append, Nat.one_mul]
      exact step len (by omega) _ (ih fun i hi => step i (by omega))

theorem sitReach_inv {trimmed : Bool} {st : SitStore} {s : SitState} (hst : st.Sound sm)
    (h : SitReach sm trimmed st s) : CountersDescribe sm s.info ∧ WarmKept s.info := by
  induction h with
  | mount sit curseg dcc h =>
      have hm := mounting_buildSitEntries hst h
      rw [initFreeSegmap_sit]
      refine ⟨⟨fun k _ => hm.entries k, fun hsp secno _ => hm.sections hsp secno, ?_,
        fun hen => hm.discard hen⟩, fun k _ => (hm.clean k).subset⟩
      show sit.writtenValidBlocks + _ = _
      rw [hm.fresh.1, zero_add]
      rfl
  | update s now addr set _ ha ih =>
      exact ⟨countersDescribe_updateSitEntry ih.1 ha fun _ hw hin => ih.2 _ hw hin,
        warmKept_updateSitEntry ih.2 now addr set⟩
  | discard s start len _ ha ih =>
      refine issueDiscard_inv (P := fun t => CountersDescribe sm t ∧ WarmKept t)
        (fun i hi t ht => ?_) ih
      refine ⟨countersDescribe_discardBlock ht.1 (ha i hi), fun k hk => ?_⟩
      obtain ⟨htype, hcur, hckpt, -⟩ := discardBlock_sentries sm t (start + i) k
      rw [htype] at hk
      rw [hcur, hckpt]
      exact ht.2 k hk
  | flush s s' cpc _ h ih =>
      have hw := flushSitEntries_writtenFrom h
      refine ⟨countersDescribe_writtenFrom ih.1 hw, ?_⟩
      obtain ⟨D, -, hD⟩ := hw
      intro k hk
      by_cases hkD : D k
      · rw [(hD k).1 hkD]
        exact subset_rfl
      · rw [(hD k).2 hkD] at hk ⊢
        exact ih.2 k hk

/-- In every state reached from the mount of a sound SIT the counters describe the bitmaps. -/
theorem counters_of_reach (trimmed : Bool) (st : SitStore) (s : SitState) (hst : st.Sound sm)
    (h : SitReach sm trimmed st s) : CountersDescribe sm s.info := (sitReach_inv hst h).1

/-- Every record of the SIT is the same. -/
def uniformStore (rs : RawSit) : SitStore where
  pages := fun _ => fun _ => rs
  sitBitmap := fun _ => false
  journal := { n := 0, slot := fun _ => (0, rs) }

/-- The first block of an empty volume is allocated. -/
theorem emptyVolume_counters : ∃ s : SitState,
    SitReach smallSm false (uniformStore (rawAt 0)) s ∧ CountersDescribe smallSm s.info := by
  have hmount : (buildSitEntries smallSm false (uniformStore (rawAt 0))).isSome = true := by
    decide +kernel
  obtain ⟨sit, hsit⟩ := Option.isSome_iff_exists.mp hmount
  have hsound : (uniformStore (rawAt 0)).Sound smallSm :=
    ⟨fun _ _ => rfl, fun _ _ => rfl, fun _ hi => absurd hi (Nat.not_lt_zero _)⟩
  have hreach := SitReach.update _ 1 5632 true
    (SitReach.mount sit CursegType.idx { entryList := [], nrDiscards := 0, maxDiscards := 0 } hsit)
    ⟨by decide, by decide⟩
  exact ⟨_, hreach, counters_of_reach false _ _ hsound hreach⟩

/-- A record that claims a valid block its bitmap does not have is accepted at mount. -/
theorem miscounted_not_counters : ¬ ∀ (trimmed : Bool) (st : SitStore) (s : SitState),
    SitReach smallSm trimmed st s → CountersDescribe smallSm s.info := by
  intro hall
  set st := uniformStore { vblocks := 1, validMap := ∅, mtime := 0 } with hst
  have hmount : (buildSitEntries smallSm false st).isSome = true := by decide +kernel
  have hentry : (buildSitEntries smallSm false st).all (fun sit =>
      decide ((sit.sentries 0).validBlocks = 1 ∧ (sit.sentries 0).curValidMap = ∅)) = true := by
    decide +kernel
  obtain ⟨sit, hsit⟩ := Option.isSome_iff_exists.mp hmount
  rw [hsit, Option.all_some, decide_eq_true_eq] at hentry
  have h := hall false st _ (SitReach.mount sit CursegType.idx
    { entryList := [], nrDiscards := 0, maxDiscards := 0 } hsit)
  rw [initFreeSegmap_sit] at h
  have hvalid : (sit.sentries 0).validBlocks = (sit.sentries 0).curValidMap.card :=
    (h.entries 0 (by decide)).valid
  rw [hentry.1, hentry.2] at hvalid
  exact absurd hvalid (by decide)

/-! ## Flushes -/

theorem flushable_info {s : SitState} {sit : SitInfo} (h : s.Flushable sm)
    (hlt : ∀ d ∈ sit.dirtySentriesBitmap, d < sm.mainSegments)
    (hcount : sit.dirtySentries = (sit.dirtySentriesBitmap.card : Int))
    (hvalid : ∀ k < sm.mainSegments, (sit.sentries k).validBlocks ≤ blocksPerSeg)
    (hclean : ∀ k < sm.mainSegments, k ∉ sit.dirtySentriesBitmap →
      k ∉ s.info.dirtySentriesBitmap ∧ (sit.sentries k).SameRecord (s.info.sentries k)) :
    ({ s with info := sit } : SitState).Flushable sm where
  dirty_lt := hlt
  count := hcount
  valid := hvalid
  coherent := by
    intro k hk hnd
    obtain ⟨hnd', h1, h2, h3, h4⟩ := hclean k hk hnd
    obtain ⟨g1, g2, g3, g4⟩ := h.coherent k hk hnd'
    exact ⟨h1.trans g1, h2.trans g2, h3.trans g3, h4.trans g4⟩
  distinct := h.distinct
  le := h.le
  keys_lt := h.keys_lt
  blocks := h.blocks

theorem markSitEntryDirty_count {sit : SitInfo} (segno : Nat)
    (h : sit.dirtySentries = (sit.dirtySentriesBitmap.card : Int)) :
    (sit.markSitEntryDirty segno).dirtySentries =
      ((sit.markSitEntryDirty segno).dirtySentriesBitmap.card : Int) := by
  unfold SitInfo.markSitEntryDirty
  split
  case isTrue => exact h
  case isFalse hnot =>
    show sit.dirtySentries + 1 = ((insert segno sit.dirtySentriesBitmap).card : Int)
    rw [Finset.card_insert_of_notMem hnot, h]
    push_cast
    rfl

theorem flushable_discardBlock {s : SitState} {sit : SitInfo} (addr : Nat)
    (h : ({ s with info := sit } : SitState).Flushable sm) :
    ({ s with info := sit.discardBlock sm addr } : SitState).Flushable sm := by
  have hbitmap : (sit.discardBlock sm addr).dirtySentriesBitmap = sit.dirtySentriesBitmap ∧
      (sit.discardBlock sm addr).dirtySentries = sit.dirtySentries := by
    unfold SitInfo.discardBlock
    simp only
    split <;> exact ⟨rfl, rfl⟩
  refine flushable_info (s := { s with info := sit }) h ?_ ?_ ?_ ?_
  · rw [hbitmap.1]
    exact h.dirty_lt
  · rw [hbitmap.1, hbitmap.2]
    exact h.count
  · intro k hk
    rw [(discardBlock_sentries sm sit addr k).2.2.2.1]
    exact h.valid k hk
  · intro k hk hnd
    obtain ⟨htype, hcur, -, hvalid, hmtime⟩ := discardBlock_sentries sm sit addr k
    rw [hbitmap.1] at hnd
    exact ⟨hnd, hvalid, hcur, htype, hmtime⟩

/-- What a mount reads from a sound SIT is what the SIT holds. -/
theorem flushable_mount {trimmed : Bool} {st : SitStore} {sit : SitInfo}
    (curseg : CursegType → Nat) (dcc : DiscardCmdControl) (hst : st.Sound sm)
    (hd : st.journal.Distinct) (hle : st.journal.n ≤ sitJournalEntries)
    (h : buildSitEntries sm trimmed st = some sit) :
    ({ info := (initFreeSegmap sm sit (buildFreeSegmap sm) curseg).1, store := st,
       sitEntrySet := [], dcc := dcc } : SitState).Flushable sm := by
  have hm := mounting_buildSitEntries hst h
  have hkeys : ∀ k, st.journal.view k ≠ none → k < sm.mainSegments := by
    intro k hk
    obtain ⟨r, hr⟩ := Option.ne_none_iff_exists'.mp hk
    obtain ⟨i, hi, hslot⟩ := JournalArray.view_eq_some hr
    have hkey := hst.keys i hi
    rwa [hslot] at hkey
  have hblocks : ∀ k < sm.mainSegments, (st.blockEntry sm k).getVblocks ≤ blocksPerSeg := by
    intro k hk
    rw [hst.blocks k hk]
    exact card_blockMap_le _
  have hpers : ∀ k < sm.mainSegments, (st.persisted sm k).getVblocks ≤ blocksPerSeg := by
    intro k hk
    unfold SitStore.persisted
    cases hv : st.journal.view k with
    | none => exact hblocks k hk
    | some r =>
        obtain ⟨i, hi, hslot⟩ := JournalArray.view_eq_some hv
        have hrec := hst.records i hi
        rw [hslot] at hrec
        rw [Option.getD_some, hrec]
        exact card_blockMap_le _
  obtain ⟨sit', hsit', hag⟩ := buildSitEntries_persisted trimmed hd hkeys hblocks hpers
  obtain rfl := Option.some.inj (h.symm.trans hsit')
  rw [initFreeSegmap_sit]
  refine ⟨?_, ?_, ?_, fun k hk _ => hag k hk, hd, hle, hkeys, hblocks⟩
  · show ∀ d ∈ sit.dirtySentriesBitmap, d < sm.mainSegments
    rw [hm.fresh.2.1]
    simp
  · show sit.dirtySentries = (sit.dirtySentriesBitmap.card : Int)
    rw [hm.fresh.2.1, hm.fresh.2.2]
    rfl
  · intro k _
    show (sit.sentries k).validBlocks ≤ blocksPerSeg
    rw [(hm.entries k).valid]
    exact card_blockMap_le _

end F2fs.Segment

/-
  `get_new_segment` with its jumps, in the arithmetic of its unsigned ints.

  `NewSegment` writes the two attempts out one behind the other and keeps to `Nat`.  Here
  `find_other_zone` is a loop, `hint - 1` and the other hints wrap, and a bit of
  `free_secmap` that is tested has to be one of the map.  With a free section left the two
  agree: no hint wraps, no test leaves the map, and the second attempt is the last.
-/
import F2fs.Lib.Loop
import F2fs.Segment.Curseg

namespace F2fs.Segment

open Loop (Turn)

/-! ## The search -/

/-- How the search goes wrong. -/
inductive SearchFault where
  /-- `test_bit` behind the end of `free_secmap` -/
  | outsideMap
  /-- `f2fs_bug_on` -/
  | bugOn
  deriving DecidableEq

/-- The variables that live across `find_other_zone`. -/
structure SectionSearch where
  hint : Nat
  leftStart : Nat
  goLeft : Bool
  init : Bool

section

variable (sm : SmInfo) (secmap : Finset Nat)

/-- `test_bit` in `free_secmap`. -/
def testSection (secno : Nat) : Except SearchFault Bool :=
  if secno < sm.totalSections then .ok (decide (secno ∈ secmap)) else .error .outsideMap

/-- `find_next_zero_bit` from 0, with its `f2fs_bug_on`. -/
def firstSection : Except SearchFault Nat :=
  let secno := nextFreeSection sm secmap 0
  if secno ≥ sm.totalSections then .error .bugOn else .ok secno

/-- The `while (test_bit(left_start, ..))` loop. -/
def testLeft : Nat → Except SearchFault Nat
  | 0 =>
    match testSection sm secmap 0 with
    | .error e => .error e
    | .ok inUse => if inUse then firstSection sm secmap else .ok 0
  | leftStart + 1 =>
    match testSection sm secmap (leftStart + 1) with
    | .error e => .error e
    | .ok inUse => if inUse then testLeft leftStart else .ok (leftStart + 1)

/-- From `find_other_zone` to the test of `go_left`. -/
def searchRight (dir : AllocDir) (st : SectionSearch) :
    Except SearchFault (Nat × SectionSearch) :=
  let secno := nextFreeSection sm secmap st.hint
  if secno ≥ sm.totalSections then
    match dir with
    | .right => (firstSection sm secmap).map fun secno => (secno, st)
    | .left => .ok (secno, { st with goLeft := true, leftStart := u32Sub st.hint 1 })
  else .ok (secno, st)

/-- From `find_other_zone` to `skip_left`. -/
def searchSection (dir : AllocDir) (st : SectionSearch) :
    Except SearchFault (Nat × SectionSearch) :=
  match searchRight sm secmap dir st with
  | .error e => .error e
  | .ok (secno, st) =>
    if st.goLeft then
      (testLeft sm secmap st.leftStart).map fun l => (l, { st with leftStart := l })
    else .ok (secno, st)

/-- The hint for another zone. -/
def nextHint (secno : Nat) (goLeft : Bool) : Nat :=
  let zoneno := secno / sm.secsPerZone
  if goLeft then u32Sub (u32 (zoneno * sm.secsPerZone)) 1
  else if zoneno + 1 ≥ sm.totalSections / sm.secsPerZone then 0
  else u32 ((zoneno + 1) * sm.secsPerZone)

/-- One attempt: `got_it` with a section, or back to `find_other_zone`. -/
def searchRound (zones : CursegType → Nat) (dir : AllocDir) (oldZoneno : Nat)
    (st : SectionSearch) : Turn SectionSearch (Except SearchFault Nat) :=
  match searchSection sm secmap dir st with
  | .error e => .done (.error e)
  | .ok (secno, st) =>
    if !st.init || takesSection sm zones dir oldZoneno secno st.goLeft then .done (.ok secno)
    else .next { st with hint := nextHint sm secno st.goLeft, init := false }

/-- The next free segment of the section of `newseg`, in 32 bits. -/
def searchInSection (segmap : Finset Nat) (newseg : Nat) (newSec : Bool) : Option Nat :=
  let hint := getSec sm newseg
  if ¬newSec ∧ u32 (newseg + 1) % sm.segsPerSec ≠ 0 then
    let stop := u32 (segFromSec sm (u32 (hint + 1)))
    let segno := BitScan.next (fun i => decide (i ∉ segmap)) stop (u32 (newseg + 1))
    if segno < stop then some segno else none
  else none

/-- `got_it`. -/
def gotIt (f : FreeSegmapInfo) (segno : Nat) : Except SearchFault (Nat × FreeSegmapInfo) :=
  if segno ∈ f.freeSegmap then .error .bugOn else .ok (segno, f.setInuse sm segno)

/-- `get_new_segment`; `none` if `fuel` attempts are not enough. -/
def runNewSegment (f : FreeSegmapInfo) (zones : CursegType → Nat) (newseg : Nat)
    (newSec : Bool) (dir : AllocDir) (fuel : Nat) :
    Option (Except SearchFault (Nat × FreeSegmapInfo)) :=
  match searchInSection sm f.freeSegmap newseg newSec with
  | some segno => some (gotIt sm f segno)
  | none =>
    let hint := getSec sm newseg
    (Loop.run (searchRound sm f.freeSecmap zones dir (hint / sm.secsPerZone)) fuel
      ⟨hint, hint, false, true⟩).map fun
      | .error e => .error e
      | .ok secno => gotIt sm f (u32 (segFromSec sm secno))

end

/-! ## One attempt -/

variable {sm : SmInfo} {secmap : Finset Nat} {dir : AllocDir}

theorem mainSegments_lt (sm : SmInfo) : sm.mainSegments < 2 ^ 23 := by
  have hend := sm.mainEnd_le
  unfold newAddr blocksPerSeg at hend
  omega

theorem totalSections_lt (sm : SmInfo) : sm.totalSections < 2 ^ 23 := by
  have hle : sm.totalSections ≤ sm.totalSections * sm.segsPerSec :=
    Nat.le_mul_of_pos_right _ sm.segsPerSec_pos
  rw [sm.sections_eq] at hle
  exact Nat.lt_of_le_of_lt hle (mainSegments_lt sm)

theorem firstSection_eq {secno : Nat} (h : firstFreeSection sm secmap = some secno) :
    firstSection sm secmap = .ok secno := by
  unfold firstFreeSection at h
  unfold firstSection
  simp only at h ⊢
  split at h
  · cases h
  · rename_i hlt
    rw [if_neg hlt, Option.some.inj h]

/-- From a section of the map on, the walk to the left stays in it. -/
theorem testLeft_eq {secno : Nat} : ∀ {leftStart : Nat}, leftStart < sm.totalSections →
    walkLeft sm secmap leftStart = some secno → testLeft sm secmap leftStart = .ok secno := by
  intro leftStart
  induction leftStart with
  | zero =>
      intro hlt h
      rw [walkLeft] at h
      rw [testLeft, testSection, if_pos hlt]
      simp only [decide_eq_true_eq]
      split at h
      · rename_i hin
        rw [if_pos hin, firstSection_eq h]
      · rename_i hin
        rw [if_neg hin, Option.some.inj h]
  | succ n ih =>
      intro hlt h
      rw [walkLeft] at h
      rw [testLeft, testSection, if_pos hlt]
      simp only [decide_eq_true_eq]
      split at h
      · rename_i hin
        rw [if_pos hin, ih (Nat.lt_of_succ_lt hlt) h]
      · rename_i hin
        rw [if_neg hin, Option.some.inj h]

/-- What holds of the variables at `find_other_zone`. -/
structure SearchOk (sm : SmInfo) (dir : AllocDir) (st : SectionSearch) : Prop where
  hint : dir = AllocDir.left → st.hint ≤ sm.totalSections
  goLeft : st.goLeft = true → dir = AllocDir.left ∧ st.leftStart < sm.totalSections

/-- An attempt is one of `findSection`: `hint - 1` does not wrap, since a search from
    section 0 finds a section. -/
theorem searchSection_eq (h : HasFreeSection sm secmap) (st : SectionSearch)
    (hst : SearchOk sm dir st) :
    ∃ secno l g, findSection sm secmap dir st.hint st.leftStart st.goLeft = some (secno, l, g) ∧
      searchSection sm secmap dir st = .ok (secno, { st with leftStart := l, goLeft := g }) ∧
      FreeSection sm secmap secno ∧ SearchOk sm dir { st with leftStart := l, goLeft := g } := by
  have htotal := totalSections_lt sm
  obtain ⟨secno, l, g, hfind, hfree, hl⟩ := findSection_spec h dir st.hint st.leftStart st.goLeft
    hst.hint fun hg => (hst.goLeft hg).2
  refine ⟨secno, l, g, hfind, ?_, hfree, ⟨hst.hint, ?_⟩⟩
  · -- the branches of `findSection`
    unfold findSection at hfind
    unfold searchSection searchRight
    simp only at hfind ⊢
    by_cases hfull : nextFreeSection sm secmap st.hint ≥ sm.totalSections
    · rw [if_pos hfull]
      cases dir with
      | right =>
          rw [if_pos ⟨hfull, rfl⟩, Option.map_eq_some_iff] at hfind
          obtain ⟨secno', hfirst, heq⟩ := hfind
          obtain ⟨rfl, rfl, rfl⟩ : secno' = secno ∧ st.leftStart = l ∧ st.goLeft = g := by
            simpa using heq
          have hg : st.goLeft = false := by
            by_contra hg
            exact AllocDir.noConfusion (hst.goLeft (Bool.eq_true_of_not_eq_false hg)).1
          simp only [firstSection_eq hfirst, Except.map, hg, Bool.false_eq_true, if_false]
          rw [← hg]
      | left =>
          have hhint := hst.hint rfl
          obtain ⟨k, hk, hkfree⟩ := h
          have hpos : 0 < st.hint := by
            by_contra hzero
            have hmatch : nextFreeSection sm secmap st.hint < sm.totalSections :=
              BitScan.next_lt_of_match (Nat.le_trans (Nat.not_lt.mp hzero) (Nat.zero_le k)) hk
                (decide_eq_true hkfree)
            exact absurd hmatch (Nat.not_lt.mpr hfull)
          rw [if_neg (fun hc => AllocDir.noConfusion hc.2), if_pos hfull, decide_eq_true hfull,
            Bool.or_true, if_pos rfl, Option.map_eq_some_iff] at hfind
          obtain ⟨secno', hwalk, heq⟩ := hfind
          obtain ⟨rfl, rfl, rfl⟩ : secno' = secno ∧ secno' = l ∧ true = g := by
            simpa using heq
          have hsub : u32Sub st.hint 1 = st.hint - 1 := u32Sub_of_le hpos (by omega)
          have hleft := testLeft_eq (show st.hint - 1 < sm.totalSections by omega) hwalk
          rw [hsub]
          simp only [if_true, hleft, Except.map]
    · rw [if_neg fun hc => hfull hc.1, if_neg hfull, decide_eq_false hfull, Bool.or_false] at hfind
      rw [if_neg hfull]
      cases hg : st.goLeft with
      | true =>
          rw [hg, if_pos rfl, Option.map_eq_some_iff] at hfind
          obtain ⟨secno', hwalk, heq⟩ := hfind
          obtain ⟨rfl, rfl, rfl⟩ : secno' = secno ∧ secno' = l ∧ true = g := by
            simpa using heq
          simp only [hg, if_true, testLeft_eq (hst.goLeft hg).2 hwalk, Except.map]
      | false =>
          rw [hg, if_neg Bool.false_ne_true] at hfind
          obtain ⟨rfl, rfl, rfl⟩ : nextFreeSection sm secmap st.hint = secno ∧ st.leftStart = l ∧
              false = g := by
            simpa using hfind
          simp only [hg, Bool.false_eq_true, if_false]
          rw [← hg]
  · intro hg
    refine ⟨?_, hl hg⟩
    by_contra hdir
    -- to the right `go_left` is never set
    have hright : dir = AllocDir.right := by
      cases dir with
      | right => rfl
      | left => exact absurd rfl hdir
    have hg0 : st.goLeft = false := by
      by_contra hc
      exact hdir (hst.goLeft (Bool.eq_true_of_not_eq_false hc)).1
    have hg' : g = true := hg
    subst hright
    unfold findSection at hfind
    simp only at hfind
    split at hfind
    · rw [Option.map_eq_some_iff] at hfind
      obtain ⟨secno', -, heq⟩ := hfind
      rw [hg0, hg'] at heq
      cases heq
    · rename_i hc
      have hnot : ¬nextFreeSection sm secmap st.hint ≥ sm.totalSections :=
        fun hfull => hc ⟨hfull, trivial⟩
      rw [if_neg hnot, decide_eq_false hnot, hg0, Bool.or_false, hg'] at hfind
      cases hfind

/-- A hint for another zone is a section number again. -/
theorem nextHint_eq {secno : Nat} {goLeft : Bool} (hsec : secno < sm.totalSections)
    (hzone : goLeft = true → secno / sm.secsPerZone ≠ 0) :
    nextHint sm secno goLeft = otherZoneHint sm secno goLeft := by
  have htotal := totalSections_lt sm
  have hmul : secno / sm.secsPerZone * sm.secsPerZone ≤ secno := Nat.div_mul_le_self _ _
  unfold nextHint otherZoneHint
  simp only
  cases goLeft with
  | true =>
      have hpos : 0 < secno / sm.secsPerZone * sm.secsPerZone :=
        Nat.mul_pos (Nat.pos_of_ne_zero (hzone rfl)) sm.secsPerZone_pos
      rw [if_pos rfl, if_pos rfl, u32_of_lt (by omega), u32Sub_of_le hpos (by omega)]
  | false =>
      rw [if_neg Bool.false_ne_true, if_neg Bool.false_ne_true]
      split
      · rfl
      · rename_i hlt
        have hle : (secno / sm.secsPerZone + 1) * sm.secsPerZone ≤ sm.totalSections :=
          (Nat.mul_le_mul_right _ (Nat.le_of_lt (Nat.not_le.mp hlt))).trans
            (Nat.div_mul_le_self _ _)
        rw [u32_of_lt (by omega)]

/-! ## The search -/

/-- Two attempts are enough, and they are those of `findNewSection`. -/
theorem run_searchRound (h : HasFreeSection sm secmap) (zones : CursegType → Nat) {newseg : Nat}
    (hseg : dir = AllocDir.left → newseg < sm.mainSegments) {fuel : Nat} (hfuel : 2 ≤ fuel) :
    ∃ secno, findNewSection sm secmap zones newseg dir = some secno ∧
      FreeSection sm secmap secno ∧
      Loop.run (searchRound sm secmap zones dir (getSec sm newseg / sm.secsPerZone)) fuel
        ⟨getSec sm newseg, getSec sm newseg, false, true⟩ = some (.ok secno) := by
  obtain ⟨n, rfl⟩ : ∃ n, fuel = n + 2 := ⟨fuel - 2, by omega⟩
  obtain ⟨secno, l, g, hfind, hsearch, hfree, hok⟩ := searchSection_eq h
    ⟨getSec sm newseg, getSec sm newseg, false, true⟩
    ⟨fun hd => Nat.le_of_lt (getSec_lt (hseg hd)), fun hc => absurd hc Bool.false_ne_true⟩
  rw [findNewSection, Loop.run]
  simp only at hfind
  simp only [hfind, Option.bind_some, searchRound, hsearch, Bool.not_true, Bool.false_or]
  by_cases htake : takesSection sm zones dir (getSec sm newseg / sm.secsPerZone) secno g = true
  · rw [if_pos htake, if_pos htake]
    exact ⟨secno, rfl, hfree, rfl⟩
  rw [if_neg htake, if_neg htake]
  -- to the left zone 0 is taken as it is
  have hzone : g = true → secno / sm.secsPerZone ≠ 0 := by
    intro hg hz
    apply htake
    have hleft : dir = AllocDir.left := (hok.goLeft hg).1
    unfold takesSection
    simp [hg, hz, hleft]
  have hhint := nextHint_eq hfree.1 hzone
  obtain ⟨secno', l', g', hfind', hsearch', hfree', -⟩ := searchSection_eq h
    ⟨nextHint sm secno g, l, g, false⟩
    ⟨fun _ => by rw [hhint]; exact otherZoneHint_le hfree.1 g, hok.goLeft⟩
  rw [hhint] at hfind'
  simp only at hfind'
  simp only [hfind', Option.map_some, Loop.run, searchRound, hsearch', Bool.not_false,
    Bool.true_or, if_true]
  exact ⟨secno', rfl, hfree', rfl⟩

/-- The scan inside the section does not wrap. -/
theorem searchInSection_eq {segmap : Finset Nat} {newseg : Nat} {newSec : Bool}
    (hseg : sm.segsPerSec ≠ 1 → newseg < sm.mainSegments) :
    searchInSection sm segmap newseg newSec = nextInSection sm segmap newseg newSec := by
  have hmain := mainSegments_lt sm
  unfold searchInSection nextInSection
  by_cases hone : sm.segsPerSec = 1
  · simp only [hone, Nat.mod_one, ne_eq, not_true_eq_false, and_false, if_false]
  have hlt := hseg hone
  have hsec := getSec_lt hlt
  have htotal := totalSections_lt sm
  have hstop : segFromSec sm (getSec sm newseg + 1) ≤ sm.mainSegments := by
    unfold segFromSec
    rw [← sm.sections_eq]
    exact Nat.mul_le_mul_right _ hsec
  simp only
  rw [u32_of_lt (show newseg + 1 < 2 ^ 32 by omega),
    u32_of_lt (show getSec sm newseg + 1 < 2 ^ 32 by omega),
    u32_of_lt (show segFromSec sm (getSec sm newseg + 1) < 2 ^ 32 by omega)]

/-- The two models of `get_new_segment` agree. -/
theorem runNewSegment_eq {f : FreeSegmapInfo} (h : HasFreeSection sm f.freeSecmap)
    (zones : CursegType → Nat) {newseg : Nat} (newSec : Bool)
    (hseg : sm.segsPerSec ≠ 1 ∨ dir = AllocDir.left → newseg < sm.mainSegments)
    {fuel : Nat} (hfuel : 2 ≤ fuel) {r : Nat × FreeSegmapInfo}
    (hr : getNewSegment sm f zones newseg newSec dir = some r) :
    runNewSegment sm f zones newseg newSec dir fuel = some (.ok r) := by
  have hmain := mainSegments_lt sm
  unfold getNewSegment at hr
  unfold runNewSegment
  rw [searchInSection_eq fun hne => hseg (Or.inl hne)]
  cases hnext : nextInSection sm f.freeSegmap newseg newSec with
  | some segno =>
      rw [hnext, Option.some_or, Option.bind_some] at hr
      simp only
      unfold gotIt
      split at hr
      · cases hr
      · rename_i hfree
        rw [if_neg hfree, Option.some.inj hr]
  | none =>
      obtain ⟨secno, hsec, hfree, hrun⟩ :=
        run_searchRound h zones (fun hd => hseg (Or.inr hd)) hfuel
      have hlt : segFromSec sm secno ≤ sm.mainSegments := by
        unfold segFromSec
        rw [← sm.sections_eq]
        exact Nat.mul_le_mul_right _ (Nat.le_of_lt hfree.1)
      rw [hnext, Option.none_or, hsec, Option.map_some, Option.bind_some] at hr
      simp only [hrun, Option.map_some]
      rw [u32_of_lt (by omega)]
      unfold gotIt
      split at hr
      · cases hr
      · rename_i hfree'
        rw [if_neg hfree', Option.some.inj hr]

/-- The segment that is handed out and its section are in use afterwards. -/
theorem setInuse_inUse (sm : SmInfo) (f : FreeSegmapInfo) (segno : Nat) :
    segno ∈ (f.setInuse sm segno).freeSegmap ∧
      getSec sm segno ∈ (f.setInuse sm segno).freeSecmap := by
  constructor
  · rw [setInuse_freeSegmap]
    exact Finset.mem_insert_self _ _
  · rw [FreeSegmapInfo.setInuse, mem_useSection]
    exact Or.inl rfl

/-- The segment `__get_next_segno` hints at is a main segment where it has to be one. -/
theorem getNextSegno_lt {s : SegManager} {type : CursegType}
    (hlog : (s.curseg type).segno < sm.mainSegments)
    (h : sm.segsPerSec ≠ 1 ∨ ¬(type = CursegType.warmData ∨ type = CursegType.coldData)) :
    s.getNextSegno sm type < sm.mainSegments := by
  unfold SegManager.getNextSegno
  split
  · exact hlog
  · rename_i hone
    rcases h with hne | htype
    · exact absurd hne hone
    · rw [if_pos]
      · omega
      · cases type with
        | warmData => exact absurd (Or.inl rfl) htype
        | coldData => exact absurd (Or.inr rfl) htype
        | hotData => exact Or.inl rfl
        | hotNode => exact Or.inr rfl
        | warmNode => exact Or.inr rfl
        | coldNode => exact Or.inr rfl

/-- `get_new_segment` ends after two attempts at most, with a free main segment, on every
    hint `new_curseg` calls it with. -/
theorem getNewSegment_finds (sm : SmInfo) (fuel : Nat) (hfuel : 2 ≤ fuel) :
    (∀ (f : FreeSegmapInfo) (zones : CursegType → Nat) (newseg : Nat) (newSec : Bool)
        (dir : AllocDir), SegmapOk sm f → HasFreeSection sm f.freeSecmap →
        (sm.segsPerSec ≠ 1 ∨ dir = AllocDir.left → newseg < sm.mainSegments) →
      ∃ segno f', runNewSegment sm f zones newseg newSec dir fuel = some (.ok (segno, f')) ∧
        getNewSegment sm f zones newseg newSec dir = some (segno, f') ∧
        segno < sm.mainSegments ∧ segno ∉ f.freeSegmap ∧
        segno ∈ f'.freeSegmap ∧ getSec sm segno ∈ f'.freeSecmap ∧ SegmapOk sm f') ∧
    ∀ (s : SegManager) (type : CursegType), (s.curseg type).segno < sm.mainSegments →
      sm.segsPerSec ≠ 1 ∨ ¬(type = CursegType.warmData ∨ type = CursegType.coldData) →
      s.getNextSegno sm type < sm.mainSegments := by
  refine ⟨?_, fun s type hlog h => getNextSegno_lt hlog h⟩
  intro f zones newseg newSec dir hok h hseg
  obtain ⟨segno, hnew, hlt, hfree⟩ := getNewSegment_spec hok h zones newSec hseg
  obtain ⟨hin, hsec⟩ := setInuse_inUse sm f segno
  exact ⟨segno, f.setInuse sm segno, runNewSegment_eq h zones newSec hseg hfuel hnew, hnew, hlt,
    hfree, hin, hsec, hok.setInuse segno⟩

/-- Four zones of two sections. -/
def zonedSm : SmInfo := { smallSm with secsPerZone := 2, secsPerZone_pos := Nat.zero_lt_two }

/-- The segments from 4 on are in use. -/
def upperInUse : FreeSegmapInfo := ⟨4, 4, {4, 5, 6, 7}, {4, 5, 6, 7}⟩

theorem upperInUse_ok : SegmapOk zonedSm upperInUse := by
  intro secno hsec
  have hsec' : secno < 8 := hsec
  interval_cases secno <;> decide

/-- From segment 7 to the left, with every log in the zone that is found first. -/
theorem upperInUse_finds :
    ∃ segno f', runNewSegment zonedSm upperInUse (fun _ => 1) 7 true .left 2 =
      some (.ok (segno, f')) ∧
    segno < 8 ∧ segno ∉ upperInUse.freeSegmap ∧ segno ∈ f'.freeSegmap := by
  obtain ⟨segno, f', hrun, -, hlt, hfree, hin, -⟩ :=
    (getNewSegment_finds zonedSm 2 (Nat.le_refl 2)).1 upperInUse (fun _ => 1) 7 true .left
      upperInUse_ok ⟨0, by decide, by decide⟩ (fun _ => by decide)
  exact ⟨segno, f', hrun, hlt, hfree, hin⟩

end F2fs.Segment

/-
  `get_new_segment`: where a log goes when it asks for a fresh segment.

  `none` stands for the `f2fs_bug_on`s of the source: no free section, or the chosen
  segment is in use.  `getNewSegment_spec` says that with a free section left neither
  happens.
-/
import F2fs.Segment.FreeSegmap

namespace F2fs.Segment

/-- `ALLOC_RIGHT`, `ALLOC_LEFT`. -/
inductive AllocDir where
  | right | left
  deriving DecidableEq

/-- `find_next_zero_bit` in `free_secmap`. -/
def nextFreeSection (sm : SmInfo) (secmap : Finset Nat) (start : Nat) : Nat :=
  BitScan.next (fun i => decide (i ∉ secmap)) sm.totalSections start

/-- The first free section of all. -/
def firstFreeSection (sm : SmInfo) (secmap : Finset Nat) : Option Nat :=
  let secno := nextFreeSection sm secmap 0
  if secno ≥ sm.totalSections then none else some secno

/-- The `while (test_bit(left_start, ..))` loop. -/
def walkLeft (sm : SmInfo) (secmap : Finset Nat) : Nat → Option Nat
  | 0 => if 0 ∈ secmap then firstFreeSection sm secmap else some 0
  | leftStart + 1 =>
    if leftStart + 1 ∈ secmap then walkLeft sm secmap leftStart else some (leftStart + 1)

/-- From `find_other_zone` to `skip_left`: the section, `left_start` and `go_left`. -/
def findSection (sm : SmInfo) (secmap : Finset Nat) (dir : AllocDir) (hint leftStart : Nat)
    (goLeft : Bool) : Option (Nat × Nat × Bool) :=
  let secno := nextFreeSection sm secmap hint
  if secno ≥ sm.totalSections ∧ dir = AllocDir.right then
    (firstFreeSection sm secmap).map fun secno => (secno, leftStart, goLeft)
  else
    let leftStart := if secno ≥ sm.totalSections then hint - 1 else leftStart
    let goLeft := goLeft || decide (secno ≥ sm.totalSections)
    if goLeft then (walkLeft sm secmap leftStart).map fun l => (l, l, true)
    else some (secno, leftStart, false)

/-- Whether a section found on the first attempt is taken as it is. -/
def takesSection (sm : SmInfo) (zones : CursegType → Nat) (dir : AllocDir) (oldZoneno secno : Nat)
    (goLeft : Bool) : Bool :=
  let totalZones := sm.totalSections / sm.secsPerZone
  let zoneno := secno / sm.secsPerZone
  decide (sm.secsPerZone = 1) || decide (zoneno = oldZoneno) ||
    (decide (dir = AllocDir.left) &&
      ((!goLeft && decide (zoneno + 1 ≥ totalZones)) || (goLeft && decide (zoneno = 0)))) ||
    CursegType.all.all fun i => decide (zones i ≠ zoneno)

/-- The hint for the second attempt, outside the zone of `secno`. -/
def otherZoneHint (sm : SmInfo) (secno : Nat) (goLeft : Bool) : Nat :=
  let zoneno := secno / sm.secsPerZone
  if goLeft then zoneno * sm.secsPerZone - 1
  else if zoneno + 1 ≥ sm.totalSections / sm.secsPerZone then 0
  else (zoneno + 1) * sm.secsPerZone

/-- The search for a free section, with at most one more attempt in another zone. -/
def findNewSection (sm : SmInfo) (secmap : Finset Nat) (zones : CursegType → Nat)
    (newseg : Nat) (dir : AllocDir) : Option Nat :=
  let hint := getSec sm newseg
  (findSection sm secmap dir hint hint false).bind fun (secno, leftStart, goLeft) =>
    if takesSection sm zones dir (hint / sm.secsPerZone) secno goLeft then some secno
    else
      (findSection sm secmap dir (otherZoneHint sm secno goLeft) leftStart goLeft).map
        fun (secno, _, _) => secno

/-- The next free segment of the section of `newseg`, if the log may stay there. -/
def nextInSection (sm : SmInfo) (segmap : Finset Nat) (newseg : Nat) (newSec : Bool) :
    Option Nat :=
  if ¬ newSec ∧ (newseg + 1) % sm.segsPerSec ≠ 0 then
    let stop := segFromSec sm (getSec sm newseg + 1)
    let segno := BitScan.next (fun i => decide (i ∉ segmap)) stop (newseg + 1)
    if segno < stop then some segno else none
  else none

/-- `get_new_segment`; `zones` are the zones of the logs. -/
def getNewSegment (sm : SmInfo) (f : FreeSegmapInfo) (zones : CursegType → Nat)
    (newseg : Nat) (newSec : Bool) (dir : AllocDir) : Option (Nat × FreeSegmapInfo) :=
  (((nextInSection sm f.freeSegmap newseg newSec).or
    ((findNewSection sm f.freeSecmap zones newseg dir).map (segFromSec sm)))).bind fun segno =>
      if segno ∈ f.freeSegmap then none else some (segno, f.setInuse sm segno)

/-! ## Free sections are found -/

variable {sm : SmInfo} {secmap : Finset Nat}

/-- There is a free section. -/
def HasFreeSection (sm : SmInfo) (secmap : Finset Nat) : Prop :=
  ∃ secno < sm.totalSections, secno ∉ secmap

/-- A section number that may be handed out. -/
def FreeSection (sm : SmInfo) (secmap : Finset Nat) (secno : Nat) : Prop :=
  secno < sm.totalSections ∧ secno ∉ secmap

theorem freeSection_nextFreeSection {start : Nat}
    (h : nextFreeSection sm secmap start < sm.totalSections) :
    FreeSection sm secmap (nextFreeSection sm secmap start) := by
  obtain ⟨-, hfree, -⟩ := BitScan.next_spec h
  exact ⟨h, of_decide_eq_true hfree⟩

theorem firstFreeSection_spec (h : HasFreeSection sm secmap) :
    ∃ secno, firstFreeSection sm secmap = some secno ∧ FreeSection sm secmap secno := by
  obtain ⟨k, hk, hkfree⟩ := h
  have hlt : nextFreeSection sm secmap 0 < sm.totalSections :=
    BitScan.next_lt_of_match (Nat.zero_le k) hk (decide_eq_true hkfree)
  exact ⟨_, if_neg (Nat.not_le.mpr hlt), freeSection_nextFreeSection hlt⟩

theorem walkLeft_spec (h : HasFreeSection sm secmap) (leftStart : Nat)
    (hlt : leftStart < sm.totalSections) :
    ∃ secno, walkLeft sm secmap leftStart = some secno ∧ FreeSection sm secmap secno := by
  induction leftStart with
  | zero =>
      rw [walkLeft]
      split
      case isTrue => exact firstFreeSection_spec h
      case isFalse hfree => exact ⟨0, rfl, hlt, hfree⟩
  | succ n ih =>
      rw [walkLeft]
      split
      case isTrue => exact ih (by omega)
      case isFalse hfree => exact ⟨n + 1, rfl, hlt, hfree⟩

theorem findSection_spec (h : HasFreeSection sm secmap) (dir : AllocDir) (hint leftStart : Nat)
    (goLeft : Bool) (hhint : dir = AllocDir.left → hint ≤ sm.totalSections)
    (hleft : goLeft = true → leftStart < sm.totalSections) :
    ∃ secno l g, findSection sm secmap dir hint leftStart goLeft = some (secno, l, g) ∧
      FreeSection sm secmap secno ∧ (g = true → l < sm.totalSections) := by
  have htotal : 0 < sm.totalSections := by
    obtain ⟨k, hk, -⟩ := h
    omega
  unfold findSection
  simp only
  by_cases hfull : nextFreeSection sm secmap hint ≥ sm.totalSections
  · cases dir with
    | right =>
        obtain ⟨secno, hsec, hfree⟩ := firstFreeSection_spec h
        rw [if_pos ⟨hfull, rfl⟩, hsec]
        exact ⟨secno, leftStart, goLeft, rfl, hfree, hleft⟩
    | left =>
        have hh := hhint rfl
        obtain ⟨secno, hsec, hfree⟩ := walkLeft_spec h (hint - 1) (by omega)
        rw [if_neg fun hc => AllocDir.noConfusion hc.2, if_pos hfull, decide_eq_true hfull,
          Bool.or_true, if_pos rfl, hsec]
        exact ⟨secno, secno, true, rfl, hfree, fun _ => hfree.1⟩
  · rw [if_neg fun hc => hfull hc.1, if_neg hfull, decide_eq_false hfull, Bool.or_false]
    cases goLeft with
    | true =>
        obtain ⟨secno, hsec, hfree⟩ := walkLeft_spec h leftStart (hleft rfl)
        rw [if_pos rfl, hsec]
        exact ⟨secno, secno, true, rfl, hfree, fun _ => hfree.1⟩
    | false =>
        refine ⟨_, leftStart, false, if_neg Bool.false_ne_true, ?_, fun hc => ?_⟩
        · exact freeSection_nextFreeSection (Nat.lt_of_not_ge hfull)
        · cases hc

/-- The second hint is a section number again. -/
theorem otherZoneHint_le {secno : Nat} (h : secno < sm.totalSections) (goLeft : Bool) :
    otherZoneHint sm secno goLeft ≤ sm.totalSections := by
  have hpos := sm.secsPerZone_pos
  have hmul : secno / sm.secsPerZone * sm.secsPerZone ≤ secno := Nat.div_mul_le_self _ _
  unfold otherZoneHint
  simp only
  split
  · omega
  split
  · exact Nat.zero_le _
  case isFalse hlt =>
    rw [Nat.not_le] at hlt
    calc (secno / sm.secsPerZone + 1) * sm.secsPerZone
        ≤ sm.totalSections / sm.secsPerZone * sm.secsPerZone :=
          Nat.mul_le_mul_right _ (Nat.le_of_lt hlt)
      _ ≤ sm.totalSections := Nat.div_mul_le_self _ _

theorem findNewSection_spec (h : HasFreeSection sm secmap) (zones : CursegType → Nat)
    (newseg : Nat) (dir : AllocDir) (hseg : dir = AllocDir.left → newseg < sm.mainSegments) :
    ∃ secno, findNewSection sm secmap zones newseg dir = some secno ∧
      FreeSection sm secmap secno := by
  obtain ⟨secno, l, g, hfind, hfree, hl⟩ :=
    findSection_spec h dir (getSec sm newseg) (getSec sm newseg) false
    (fun hd => Nat.le_of_lt (getSec_lt (hseg hd))) (fun hc => absurd hc Bool.false_ne_true)
  unfold findNewSection
  simp only [hfind, Option.bind_some]
  by_cases htake : takesSection sm zones dir (getSec sm newseg / sm.secsPerZone) secno g = true
  · rw [if_pos htake]
    exact ⟨secno, rfl, hfree⟩
  · obtain ⟨secno', l', g', hfind', hfree', -⟩ :=
      findSection_spec h dir (otherZoneHint sm secno g) l g
      (fun _ => otherZoneHint_le hfree.1 g) hl
    rw [if_neg htake, hfind']
    exact ⟨secno', rfl, hfree'⟩

/-- The first segment of a free section is a free main segment. -/
theorem segFromSec_free {f : FreeSegmapInfo} (hok : SegmapOk sm f) {secno : Nat}
    (h : FreeSection sm f.freeSecmap secno) :
    segFromSec sm secno < sm.mainSegments ∧ segFromSec sm secno ∉ f.freeSegmap := by
  have hpos := sm.segsPerSec_pos
  have hsec : getSec sm (segFromSec sm secno) = secno :=
    getSec_eq_iff.mpr ⟨le_rfl, Nat.lt_add_of_pos_right hpos⟩
  constructor
  · unfold segFromSec
    rw [← sm.sections_eq]
    exact Nat.mul_lt_mul_of_pos_right h.1 hpos
  · intro hin
    exact h.2 ((hok secno h.1).mpr ⟨_, hin, hsec⟩)

theorem nextInSection_spec {segmap : Finset Nat} {newseg segno : Nat} {newSec : Bool}
    (h : nextInSection sm segmap newseg newSec = some segno)
    (hseg : sm.segsPerSec ≠ 1 → newseg < sm.mainSegments) :
    segno < sm.mainSegments ∧ segno ∉ segmap := by
  unfold nextInSection at h
  simp only at h
  split at h
  case isFalse => cases h
  case isTrue hcond =>
    split at h
    case isFalse => cases h
    case isTrue hlt =>
      obtain rfl := Option.some.inj h
      obtain ⟨-, hfree, -⟩ := BitScan.next_spec hlt
      refine ⟨?_, of_decide_eq_true hfree⟩
      have hne : sm.segsPerSec ≠ 1 := by
        intro hone
        rw [hone, Nat.mod_one] at hcond
        exact hcond.2 rfl
      have hsec := getSec_lt (hseg hne)
      refine lt_of_lt_of_le hlt ?_
      unfold segFromSec
      rw [← sm.sections_eq]
      exact Nat.mul_le_mul_right _ hsec

/-- With a free section left `get_new_segment` hands out a free main segment. -/
theorem getNewSegment_spec {f : FreeSegmapInfo} (hok : SegmapOk sm f)
    (h : HasFreeSection sm f.freeSecmap) (zones : CursegType → Nat) {newseg : Nat} (newSec : Bool)
    {dir : AllocDir} (hseg : sm.segsPerSec ≠ 1 ∨ dir = AllocDir.left → newseg < sm.mainSegments) :
    ∃ segno, getNewSegment sm f zones newseg newSec dir = some (segno, f.setInuse sm segno) ∧
      segno < sm.mainSegments ∧ segno ∉ f.freeSegmap := by
  unfold getNewSegment
  cases hnext : nextInSection sm f.freeSegmap newseg newSec with
  | some segno =>
      obtain ⟨hlt, hfree⟩ := nextInSection_spec hnext fun hne => hseg (Or.inl hne)
      refine ⟨segno, ?_, hlt, hfree⟩
      rw [Option.some_or, Option.bind_some, if_neg hfree]
  | none =>
      obtain ⟨secno, hsec, hfree⟩ := findNewSection_spec h zones newseg dir
        fun hd => hseg (Or.inr hd)
      obtain ⟨hlt, hfree'⟩ := segFromSec_free hok hfree
      refine ⟨segFromSec sm secno, ?_, hlt, hfree'⟩
      rw [Option.none_or, hsec, Option.map_some, Option.bind_some, if_neg hfree']

/-! ## Without a free section -/

theorem firstFreeSection_none (h : ¬ HasFreeSection sm secmap) :
    firstFreeSection sm secmap = none := by
  refine if_pos (Nat.le_of_not_lt fun hlt => h ⟨_, freeSection_nextFreeSection hlt⟩)

theorem walkLeft_none (h : ¬ HasFreeSection sm secmap) {leftStart : Nat}
    (hlt : leftStart < sm.totalSections) : walkLeft sm secmap leftStart = none := by
  have hused : ∀ k < sm.totalSections, k ∈ secmap := by
    intro k hk
    by_contra hfree
    exact h ⟨k, hk, hfree⟩
  induction leftStart with
  | zero => rw [walkLeft, if_pos (hused 0 hlt), firstFreeSection_none h]
  | succ n ih => rw [walkLeft, if_pos (hused _ hlt), ih (by omega)]

theorem findSection_none (h : ¬ HasFreeSection sm secmap) {dir : AllocDir} {hint : Nat}
    (hhint : dir = AllocDir.left → hint < sm.totalSections) (leftStart : Nat) (goLeft : Bool) :
    findSection sm secmap dir hint leftStart goLeft = none := by
  have hfull : nextFreeSection sm secmap hint ≥ sm.totalSections :=
    Nat.le_of_not_lt fun hlt => h ⟨_, freeSection_nextFreeSection hlt⟩
  unfold findSection
  simp only
  cases dir with
  | right => rw [if_pos ⟨hfull, rfl⟩, firstFreeSection_none h, Option.map_none]
  | left =>
      have hh := hhint rfl
      rw [if_neg fun hc => AllocDir.noConfusion hc.2, if_pos hfull, decide_eq_true hfull,
        Bool.or_true, if_pos rfl, walkLeft_none h (by omega), Option.map_none]

/-- Whenever `get_new_segment` returns, the segment was a free main segment. -/
theorem getNewSegment_some {f f' : FreeSegmapInfo} (hok : SegmapOk sm f)
    {zones : CursegType → Nat} {newseg segno : Nat} {newSec : Bool} {dir : AllocDir}
    (hseg : sm.segsPerSec ≠ 1 ∨ dir = AllocDir.left → newseg < sm.mainSegments)
    (h : getNewSegment sm f zones newseg newSec dir = some (segno, f')) :
    segno < sm.mainSegments ∧ segno ∉ f.freeSegmap ∧ f' = f.setInuse sm segno := by
  by_cases hfree : HasFreeSection sm f.freeSecmap
  · obtain ⟨k, hk, hlt, hkfree⟩ := getNewSegment_spec hok hfree zones newSec hseg
    rw [h] at hk
    obtain ⟨rfl, rfl⟩ := Prod.mk.inj (Option.some.inj hk)
    exact ⟨hlt, hkfree, rfl⟩
  · have hnone : findNewSection sm f.freeSecmap zones newseg dir = none := by
      unfold findNewSection
      simp only
      rw [findSection_none hfree (fun hd => getSec_lt (hseg (Or.inr hd))), Option.bind_none]
    unfold getNewSegment at h
    rw [hnone, Option.map_none, Option.or_none, Option.bind_eq_some_iff] at h
    obtain ⟨k, hk, hkf⟩ := h
    obtain ⟨hlt, hkfree⟩ := nextInSection_spec hk fun hne => hseg (Or.inl hne)
    rw [if_neg hkfree] at hkf
    obtain ⟨rfl, rfl⟩ := Prod.mk.inj (Option.some.inj hkf)
    exact ⟨hlt, hkfree, rfl⟩

/-- The segment is in the section of the hint, or in one that was free. -/
theorem getNewSegment_section {f f' : FreeSegmapInfo} {zones : CursegType → Nat}
    {newseg segno : Nat} {newSec : Bool} {dir : AllocDir}
    (hseg : dir = AllocDir.left → newseg < sm.mainSegments)
    (h : getNewSegment sm f zones newseg newSec dir = some (segno, f')) :
    (sm.segsPerSec ≠ 1 ∧ getSec sm segno = getSec sm newseg) ∨
      getSec sm segno ∉ f.freeSecmap := by
  unfold getNewSegment at h
  obtain ⟨k, hk, hkf⟩ := Option.bind_eq_some_iff.mp h
  split at hkf
  case isTrue => cases hkf
  obtain rfl : k = segno := (Prod.mk.inj (Option.some.inj hkf)).1
  rcases Option.or_eq_some_iff.mp hk with hnext | ⟨-, hfind⟩
  · refine Or.inl ?_
    unfold nextInSection at hnext
    simp only at hnext
    split at hnext
    case isFalse => cases hnext
    case isTrue hcond =>
      split at hnext
      case isFalse => cases hnext
      case isTrue hlt =>
        obtain rfl := Option.some.inj hnext
        obtain ⟨hle, -, -⟩ := BitScan.next_spec hlt
        constructor
        · intro hone
          rw [hone, Nat.mod_one] at hcond
          exact hcond.2 rfl
        · obtain ⟨hstart, -⟩ := getSec_eq_iff.mp (rfl : getSec sm newseg = getSec sm newseg)
          refine getSec_eq_iff.mpr ⟨by omega, lt_of_lt_of_eq hlt ?_⟩
          exact Nat.succ_mul _ _
  · obtain ⟨secno, hsec, rfl⟩ := Option.map_eq_some_iff.mp hfind
    refine Or.inr ?_
    have hgetSec : getSec sm (segFromSec sm secno) = secno :=
      Nat.mul_div_cancel _ sm.segsPerSec_pos
    rw [hgetSec]
    by_cases hfree : HasFreeSection sm f.freeSecmap
    · obtain ⟨secno', hsec', hfree'⟩ := findNewSection_spec hfree zones newseg dir hseg
      rw [hsec] at hsec'
      rw [Option.some.inj hsec']
      exact hfree'.2
    · unfold findNewSection at hsec
      simp only at hsec
      rw [findSection_none hfree (fun hd => getSec_lt (hseg hd)), Option.bind_none] at hsec
      cases hsec

end F2fs.Segment

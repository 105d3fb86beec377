/-
  The scan of `get_victim_by_default`: it ends, it looks at everything if it may search as
  many segments as are dirty, and what it takes is the cheapest of what it looked at.

  The scan goes round at most once.  It may come to the section it started in a second time,
  and count that section twice; by then everything else has been looked at
  (`ScanInv.seen_twice`).
-/
import F2fs.Gc.Victim

namespace F2fs.Gc

open F2fs.Segment
open F2fs.Node (uint32)
open Loop (Turn)

/-! ## What the scan leaves alone -/

/-- The parts of the state that a scan only reads. -/
structure SameSegments (g g' : GcInfo) : Prop where
  curseg : g'.segs.curseg = g.segs.curseg
  dirty : g'.segs.dirty = g.segs.dirty
  free : g'.segs.free = g.segs.free
  ssa : g'.segs.ssa = g.segs.ssa
  sentries : g'.segs.sit.sentries = g.segs.sit.sentries
  secEntries : g'.segs.sit.secEntries = g.segs.sit.secEntries
  curVictimSec : g'.curVictimSec = g.curVictimSec

section

variable {sm : SmInfo} {g g' g₁ : GcInfo} {gcType : GcType} {p p' : VictimPolicy}
  {segno secno : Nat}

theorem SameSegments.refl (g : GcInfo) : SameSegments g g := ⟨rfl, rfl, rfl, rfl, rfl, rfl, rfl⟩

theorem SameSegments.trans (h : SameSegments g g₁) (h' : SameSegments g₁ g') :
    SameSegments g g' :=
  ⟨h'.curseg.trans h.curseg, h'.dirty.trans h.dirty, h'.free.trans h.free, h'.ssa.trans h.ssa,
    h'.sentries.trans h.sentries, h'.secEntries.trans h.secEntries,
    h'.curVictimSec.trans h.curVictimSec⟩

theorem SameSegments.setLastVictim (g : GcInfo) (mode : GcMode) (segno : Nat) :
    SameSegments g (g.setLastVictim mode segno) := ⟨rfl, rfl, rfl, rfl, rfl, rfl, rfl⟩

theorem setLastVictim_le {mode : GcMode} (h : segno ≤ g.lastVictim mode) (mode' : GcMode) :
    (g.setLastVictim mode segno).lastVictim mode' ≤ g.lastVictim mode' := by
  unfold GcInfo.setLastVictim
  simp only [Function.update_apply]
  split
  case isTrue heq => rwa [heq]
  case isFalse => exact Nat.le_refl _

theorem SameSegments.secUsageCheck (h : SameSegments g g') (secno : Nat) :
    secUsageCheck sm g' secno = secUsageCheck sm g secno := by
  unfold Gc.secUsageCheck
  rw [h.curseg, h.curVictimSec]

theorem getGcCost_same (sm : SmInfo) (g : GcInfo) (segno : Nat) (p : VictimPolicy) :
    SameSegments g (getGcCost sm g segno p).2 := by
  unfold getGcCost
  split
  · exact SameSegments.refl g
  · split
    · exact SameSegments.refl g
    · exact ⟨rfl, rfl, rfl, rfl, rfl, rfl, rfl⟩

/-- A cost changes no `last_victim`. -/
theorem getGcCost_lastVictim (sm : SmInfo) (g : GcInfo) (segno : Nat) (p : VictimPolicy) :
    (getGcCost sm g segno p).2.lastVictim = g.lastVictim := by
  unfold getGcCost
  split
  · rfl
  · split <;> rfl

theorem getGcCost_congr (halloc : p'.allocMode = p.allocMode) (hmode : p'.gcMode = p.gcMode) :
    getGcCost sm g segno p' = getGcCost sm g segno p := by
  unfold getGcCost
  rw [halloc, hmode]

end

/-! ## Units -/

/-- `ofs_unit` segments make a unit: one in SSR, a section in LFS. -/
def unitOf (u segno : Nat) : Nat := segno / u

/-- The first segment behind the unit. -/
def unitEnd (u segno : Nat) : Nat := unitOf u segno * u + u

section

variable {D : Finset Nat} {u segno s e offset : Nat}

theorem unitEnd_eq (u segno : Nat) : unitEnd u segno = segno + u - segno % u := by
  have h := Nat.div_add_mod segno u
  unfold unitEnd unitOf
  rw [Nat.mul_comm]
  omega

theorem lt_unitEnd (hu : 0 < u) (segno : Nat) : segno < unitEnd u segno := by
  have hmod := Nat.mod_lt segno hu
  rw [unitEnd_eq]
  omega

theorem mem_unit (hu : 0 < u) :
    s ∈ List.range' (unitEnd u segno - u) u ↔ unitOf u s = unitOf u segno := by
  have hstart : unitEnd u segno - u = segno / u * u := Nat.add_sub_cancel _ _
  rw [List.mem_range'_1, hstart]
  unfold unitOf
  constructor
  · rintro ⟨hle, hlt⟩
    exact Nat.div_eq_of_lt_le hle (by rw [Nat.succ_mul]; exact hlt)
  · intro h
    rw [← h]
    exact ⟨Nat.div_mul_le_self s u, Nat.lt_div_mul_add hu⟩

theorem countBits_unit (hu : 0 < u) (D : Finset Nat) (segno : Nat) :
    countBits D (unitEnd u segno - u) u =
      (D.filter fun s => unitOf u s = unitOf u segno).card := by
  unfold countBits
  rw [← List.toFinset_card_of_nodup (List.Nodup.filter _ List.nodup_range')]
  congr 1
  ext s
  rw [List.mem_toFinset, List.mem_filter, decide_eq_true_eq, Finset.mem_filter, mem_unit hu,
    and_comm]

/-- A unit that ends at or before `offset` has no segment from there on. -/
theorem unitOf_ne (hu : 0 < u) (hend : unitEnd u e ≤ offset) (hs : offset ≤ s) :
    unitOf u s ≠ unitOf u e := by
  intro h
  have hlt := lt_unitEnd hu s
  unfold unitEnd at hlt hend
  rw [h] at hlt
  omega

theorem unitOf_between {a b : Nat} (h : unitOf u a = unitOf u b) (ha : a ≤ s) (hb : s ≤ b) :
    unitOf u s = unitOf u a := by
  unfold unitOf at *
  exact Nat.le_antisymm (h ▸ Nat.div_le_div_right hb) (Nat.div_le_div_right ha)

theorem unitOf_of_lt_end (hs : segno ≤ s) (hlt : s < unitEnd u segno) :
    unitOf u s = unitOf u segno := by
  unfold unitEnd at hlt
  unfold unitOf at *
  exact Nat.div_eq_of_lt_le (Nat.le_trans (Nat.div_mul_le_self _ _) hs)
    (by rw [Nat.succ_mul]; exact hlt)

end

/-! ## A segment that is looked at -/

section

variable (sm : SmInfo) (gcType : GcType) {st : ScanState} {segno : Nat}

/-- The smallest cost after a segment of cost `c`. -/
def improves (p : VictimPolicy) (segno c : Nat) : VictimPolicy :=
  if p.minCost > c then { p with minSegno := segno, minCost := c } else p

/-- The two ways a segment is looked at. -/
theorem examineSegment_cases (hu : 0 < st.p.ofsUnit) (hmem : segno ∈ st.p.dirtySegmap) :
    (examineSegment sm gcType st segno).p.offset = unitEnd st.p.ofsUnit segno ∧
    (examineSegment sm gcType st segno).nsearched = st.nsearched +
      (st.p.dirtySegmap.filter fun s => unitOf st.p.ofsUnit s = unitOf st.p.ofsUnit segno).card ∧
    (examineSegment sm gcType st segno).lastSegment = st.lastSegment ∧
    SameSegments st.g (examineSegment sm gcType st segno).g ∧
    (examineSegment sm gcType st segno).g.lastVictim = st.g.lastVictim ∧
    ∃ e, (examineSegment sm gcType st segno).examined = st.examined ++ [e] ∧ e.segno = segno ∧
      ((e.cost = none ∧ (examineSegment sm gcType st segno).p =
          { st.p with offset := unitEnd st.p.ofsUnit segno }) ∨
        (e.cost = some (getGcCost sm st.g segno st.p).1 ∧
          secUsageCheck sm st.g (getSec sm segno) = false ∧
          (examineSegment sm gcType st segno).p =
            { improves st.p segno (getGcCost sm st.g segno st.p).1 with
              offset := unitEnd st.p.ofsUnit segno })) := by
  have hoffset : (if st.p.ofsUnit > 1 then segno + st.p.ofsUnit - segno % st.p.ofsUnit
      else segno + st.p.ofsUnit) = unitEnd st.p.ofsUnit segno := by
    rw [unitEnd_eq]
    split
    · rfl
    · have hone : st.p.ofsUnit = 1 := by omega
      rw [hone, Nat.mod_one, Nat.sub_zero]
  have hfound : (if st.p.ofsUnit > 1 then
      countBits st.p.dirtySegmap (unitEnd st.p.ofsUnit segno - st.p.ofsUnit) st.p.ofsUnit else 1) =
      (st.p.dirtySegmap.filter fun s => unitOf st.p.ofsUnit s =
        unitOf st.p.ofsUnit segno).card := by
    split
    · exact countBits_unit hu _ _
    · have hone : st.p.ofsUnit = 1 := by omega
      unfold unitOf
      simp only [hone, Nat.div_one]
      rw [Finset.filter_eq', if_pos hmem, Finset.card_singleton]
  have hcost : ∀ o, getGcCost sm st.g segno { st.p with offset := o } =
      getGcCost sm st.g segno st.p := fun o => getGcCost_congr rfl rfl
  generalize hout : examineSegment sm gcType st segno = out
  unfold examineSegment at hout
  simp only [hoffset, hfound, hcost] at hout
  by_cases hskip : skipsSegment sm gcType st.g
      { st.p with offset := unitEnd st.p.ofsUnit segno } (getSec sm segno) = true
  · rw [if_pos hskip] at hout
    subst hout
    exact ⟨rfl, rfl, rfl, SameSegments.refl _, rfl, ⟨segno, none⟩, rfl, rfl, Or.inl ⟨rfl, rfl⟩⟩
  · rw [if_neg hskip] at hout
    have husage : secUsageCheck sm st.g (getSec sm segno) = false := by
      by_contra hc
      apply hskip
      unfold skipsSegment
      rw [Bool.eq_true_of_not_eq_false hc, Bool.true_or, Bool.true_or]
    subst hout
    refine ⟨?_, rfl, rfl, getGcCost_same sm st.g segno st.p,
      getGcCost_lastVictim sm st.g segno st.p, ⟨segno, some _⟩, rfl, rfl, Or.inr ⟨rfl, husage, ?_⟩⟩
    · simp only
      split <;> rfl
    · unfold improves
      simp only
      split <;> rfl

end

/-! ## The scan -/

/-- A segment of the unit was looked at. -/
def Seen (u : Nat) (examined : List Examined) (s : Nat) : Prop :=
  ∃ e ∈ examined, unitOf u e.segno = unitOf u s

instance (u : Nat) (examined : List Examined) : DecidablePred (Seen u examined) :=
  fun s => inferInstanceAs (Decidable (∃ e ∈ examined, unitOf u e.segno = unitOf u s))

/-- Whether the scan went round. -/
def Wrapped (g₀ : GcInfo) (p₀ : VictimPolicy) (st : ScanState) : Prop :=
  g₀.lastVictim p₀.gcMode ≠ 0 ∧ st.g.lastVictim p₀.gcMode = 0

/-- The policy is that of the start but for the offset and the minimum. -/
structure SamePolicy (p₀ p : VictimPolicy) : Prop where
  allocMode : p.allocMode = p₀.allocMode
  gcMode : p.gcMode = p₀.gcMode
  map : p.dirtySegmap = p₀.dirtySegmap
  maxSearch : p.maxSearch = p₀.maxSearch
  unit : p.ofsUnit = p₀.ofsUnit

/-- What was chosen is the cheapest of what was looked at. -/
structure Cheapest (sm : SmInfo) (g₀ : GcInfo) (p₀ : VictimPolicy) (p : VictimPolicy)
    (examined : List Examined) : Prop where
  inMap : ∀ e ∈ examined, e.segno ∈ p₀.dirtySegmap
  usable : ∀ e ∈ examined, ∀ c, e.cost = some c →
    secUsageCheck sm g₀ (getSec sm e.segno) = false ∧
      ∃ g, SameSegments g₀ g ∧ c = (getGcCost sm g e.segno p₀).1
  least : ∀ e ∈ examined, ∀ c, e.cost = some c → p.minCost ≤ c
  chosen : (p.minSegno = nullSegno ∧ p.minCost = p₀.minCost) ∨
    (p.minCost < p₀.minCost ∧ ⟨p.minSegno, some p.minCost⟩ ∈ examined)

/-- What a round of the scan keeps. -/
structure ScanInv (sm : SmInfo) (g₀ : GcInfo) (p₀ : VictimPolicy) (st : ScanState) : Prop where
  same : SameSegments g₀ st.g
  policy : SamePolicy p₀ st.p
  /-- before it went round, and after -/
  round : (st.g.lastVictim p₀.gcMode = g₀.lastVictim p₀.gcMode ∧
      st.lastSegment = sm.mainSegments) ∨
    (Wrapped g₀ p₀ st ∧ st.lastSegment = g₀.lastVictim p₀.gcMode)
  start : Wrapped g₀ p₀ st ∨ p₀.offset ≤ st.p.offset
  covered : ∀ s ∈ p₀.dirtySegmap,
    (p₀.offset ≤ s ∧ (s < st.p.offset ∨ Wrapped g₀ p₀ st)) ∨
      (Wrapped g₀ p₀ st ∧ s < st.p.offset) → Seen p₀.ofsUnit st.examined s
  /-- units looked at end before the offset, or are behind the start -/
  ended : ∀ e ∈ st.examined,
    (p₀.offset ≤ e.segno ∧ (unitEnd p₀.ofsUnit e.segno ≤ st.p.offset ∨ Wrapped g₀ p₀ st)) ∨
      (Wrapped g₀ p₀ st ∧ unitEnd p₀.ofsUnit e.segno ≤ st.p.offset)
  counted : (∀ s ∈ p₀.dirtySegmap, Seen p₀.ofsUnit st.examined s) ∨
    st.nsearched ≤ (p₀.dirtySegmap.filter (Seen p₀.ofsUnit st.examined)).card
  cheapest : Cheapest sm g₀ p₀ st.p st.examined
  lastVictim_le : ∀ mode, st.g.lastVictim mode ≤ g₀.lastVictim mode

section

variable {sm : SmInfo} {g₀ : GcInfo} {gcType : GcType} {p₀ : VictimPolicy} {st : ScanState}
  {segno s u : Nat} {examined : List Examined} {e : Examined}

theorem seen_append_iff :
    Seen u (examined ++ [e]) s ↔ Seen u examined s ∨ unitOf u s = unitOf u e.segno := by
  unfold Seen
  constructor
  · rintro ⟨e', he', heq⟩
    rcases List.mem_append.mp he' with he' | he'
    · exact Or.inl ⟨e', he', heq⟩
    · rw [List.mem_singleton.mp he'] at heq
      exact Or.inr heq.symm
  · rintro (⟨e', he', heq⟩ | heq)
    · exact ⟨e', List.mem_append_left _ he', heq⟩
    · exact ⟨e, List.mem_append_right _ (List.mem_singleton.mpr rfl), heq.symm⟩

/-- A unit that is looked at for the second time is the last one. -/
theorem ScanInv.seen_twice (h : ScanInv sm g₀ p₀ st) (hu : 0 < p₀.ofsUnit)
    (hge : st.p.offset ≤ segno) (hfirst : ∀ i, st.p.offset ≤ i → i < segno → i ∉ p₀.dirtySegmap)
    (hseen : Seen p₀.ofsUnit st.examined segno) :
    ∀ s ∈ p₀.dirtySegmap, Seen p₀.ofsUnit st.examined s := by
  obtain ⟨e, he, heq⟩ := hseen
  have hnot : ¬unitEnd p₀.ofsUnit e.segno ≤ st.p.offset :=
    fun hend => unitOf_ne hu hend hge heq.symm
  obtain ⟨hbehind, hwrapped⟩ : p₀.offset ≤ e.segno ∧ Wrapped g₀ p₀ st := by
    rcases h.ended e he with ⟨hle, hend | hw⟩ | ⟨-, hend⟩
    · exact absurd hend hnot
    · exact ⟨hle, hw⟩
    · exact absurd hend hnot
  intro s hs
  by_cases hcov : p₀.offset ≤ s ∨ s < st.p.offset
  · refine h.covered s hs ?_
    rcases hcov with hle | hlt
    · exact Or.inl ⟨hle, Or.inr hwrapped⟩
    · exact Or.inr ⟨hwrapped, hlt⟩
  · -- between the segment and the start of the scan
    rw [not_or, Nat.not_le, Nat.not_lt] at hcov
    have hsegno : segno ≤ s := Nat.not_lt.mp fun hlt => hfirst s hcov.2 hlt hs
    exact ⟨e, he, heq.trans (unitOf_between heq.symm hsegno (by omega)).symm⟩

theorem Cheapest.push (h : Cheapest sm g₀ p₀ st.p st.examined) (hsame : SameSegments g₀ st.g)
    (hpolicy : SamePolicy p₀ st.p) {p : VictimPolicy} (hmem : e.segno ∈ p₀.dirtySegmap)
    (hcost : (e.cost = none ∧ p.minSegno = st.p.minSegno ∧ p.minCost = st.p.minCost) ∨
      (e.cost = some (getGcCost sm st.g e.segno st.p).1 ∧
        secUsageCheck sm st.g (getSec sm e.segno) = false ∧
        p.minSegno = (improves st.p e.segno (getGcCost sm st.g e.segno st.p).1).minSegno ∧
        p.minCost = (improves st.p e.segno (getGcCost sm st.g e.segno st.p).1).minCost)) :
    Cheapest sm g₀ p₀ p (st.examined ++ [e]) := by
  have hforall : ∀ {P : Examined → Prop}, (∀ e' ∈ st.examined, P e') → P e →
      ∀ e' ∈ st.examined ++ [e], P e' := by
    intro P hall hlast e' he'
    rcases List.mem_append.mp he' with he' | he'
    · exact hall e' he'
    · rw [List.mem_singleton.mp he']
      exact hlast
  rcases hcost with ⟨hnone, hsegno, hmin⟩ | ⟨hsome, husage, hsegno, hmin⟩
  · refine ⟨hforall h.inMap hmem, hforall h.usable fun c hc => ?_,
      hforall (fun e' he' c hc => ?_) fun c hc => ?_, ?_⟩
    · rw [hnone] at hc
      cases hc
    · rw [hmin]
      exact h.least e' he' c hc
    · rw [hnone] at hc
      cases hc
    · rw [hsegno, hmin]
      exact h.chosen.imp_right fun hc => ⟨hc.1, List.mem_append_left _ hc.2⟩
  · generalize hc₀ : (getGcCost sm st.g e.segno st.p).1 = c₀ at *
    have hle : p.minCost ≤ st.p.minCost ∧ p.minCost ≤ c₀ := by
      rw [hmin]
      unfold improves
      split
      · exact ⟨by simp only; omega, Nat.le_refl _⟩
      · exact ⟨Nat.le_refl _, by omega⟩
    refine ⟨hforall h.inMap hmem, hforall h.usable fun c hc => ?_,
      hforall (fun e' he' c hc => ?_) fun c hc => ?_, ?_⟩
    · rw [hsome] at hc
      obtain rfl := Option.some.inj hc
      refine ⟨(hsame.secUsageCheck _).symm.trans husage, st.g, hsame, ?_⟩
      rw [← hc₀, getGcCost_congr hpolicy.allocMode hpolicy.gcMode]
    · exact Nat.le_trans hle.1 (h.least e' he' c hc)
    · rw [hsome] at hc
      obtain rfl := Option.some.inj hc
      exact hle.2
    · rw [hsegno, hmin]
      unfold improves
      split
      · rename_i hgt
        refine Or.inr ⟨?_, List.mem_append_right _ (List.mem_singleton.mpr ?_)⟩
        · simp only
          rcases h.chosen with hc | hc
          · omega
          · omega
        · cases e
          simp only at hsome ⊢
          rw [hsome]
      · exact h.chosen.imp_right fun hc => ⟨hc.1, List.mem_append_left _ hc.2⟩

/-- A segment more is looked at. -/
theorem ScanInv.examine (h : ScanInv sm g₀ p₀ st) (gcType : GcType) (hu : 0 < p₀.ofsUnit)
    (hge : st.p.offset ≤ segno) (hmem : segno ∈ p₀.dirtySegmap)
    (hfirst : ∀ i, st.p.offset ≤ i → i < segno → i ∉ p₀.dirtySegmap) :
    ScanInv sm g₀ p₀ (examineSegment sm gcType st segno) ∧
      segno < (examineSegment sm gcType st segno).p.offset ∧
      (examineSegment sm gcType st segno).lastSegment = st.lastSegment ∧
      (examineSegment sm gcType st segno).g.lastVictim = st.g.lastVictim := by
  have hpol := h.policy
  have hunit : 0 < st.p.ofsUnit := hpol.unit.symm ▸ hu
  have hmap : segno ∈ st.p.dirtySegmap := hpol.map.symm ▸ hmem
  obtain ⟨hoff, hcount, hlast, hsame, hlv, e, hex, rfl, hcost⟩ :=
    examineSegment_cases sm gcType hunit hmap
  generalize examineSegment sm gcType st e.segno = st' at *
  rw [hpol.unit] at hoff hcount
  rw [hpol.map] at hcount
  have hend := lt_unitEnd hu e.segno
  have hwrap : Wrapped g₀ p₀ st' ↔ Wrapped g₀ p₀ st := by
    unfold Wrapped
    rw [hlv]
  have hpolicy : SamePolicy p₀ st'.p := by
    rcases hcost with ⟨-, hp⟩ | ⟨-, -, hp⟩
    · rw [hp]
      exact ⟨hpol.allocMode, hpol.gcMode, hpol.map, hpol.maxSearch, hpol.unit⟩
    · rw [hp]
      unfold improves
      split <;> exact ⟨hpol.allocMode, hpol.gcMode, hpol.map, hpol.maxSearch, hpol.unit⟩
  have hcheapest : Cheapest sm g₀ p₀ st'.p st'.examined := by
    rw [hex]
    refine h.cheapest.push h.same hpol hmem ?_
    rcases hcost with ⟨hnone, hp⟩ | ⟨hsome, husage, hp⟩
    · exact Or.inl ⟨hnone, by rw [hp], by rw [hp]⟩
    · exact Or.inr ⟨hsome, husage, by rw [hp], by rw [hp]⟩
  have hseen : ∀ i, Seen p₀.ofsUnit st'.examined i ↔
      Seen p₀.ofsUnit st.examined i ∨ unitOf p₀.ofsUnit i = unitOf p₀.ofsUnit e.segno := by
    intro i
    rw [hex]
    exact seen_append_iff
  -- a segment between the old offset and the new one is in the unit
  have hbetween : ∀ i ∈ p₀.dirtySegmap, st.p.offset ≤ i → i < st'.p.offset →
      Seen p₀.ofsUnit st'.examined i := by
    intro i hi hle hlt
    have hsegno : e.segno ≤ i := Nat.not_lt.mp fun hlt' => hfirst i hle hlt' hi
    exact (hseen i).mpr (Or.inr (unitOf_of_lt_end hsegno (hoff ▸ hlt)))
  refine ⟨⟨h.same.trans hsame, hpolicy, ?_, ?_, ?_, ?_, ?_, hcheapest, ?_⟩, by omega, hlast, hlv⟩
  · rw [hlv, hlast, hwrap]
    exact h.round
  · rw [hwrap]
    exact h.start.imp_right fun hle => by omega
  · intro i hi hcond
    rw [hwrap] at hcond
    by_cases hlt : st.p.offset ≤ i ∧ i < st'.p.offset
    · exact hbetween i hi hlt.1 hlt.2
    · refine (hseen i).mpr (Or.inl (h.covered i hi ?_))
      rcases hcond with ⟨hle, hc | hc⟩ | ⟨hw, hc⟩
      · exact Or.inl ⟨hle, Or.inl (by omega)⟩
      · exact Or.inl ⟨hle, Or.inr hc⟩
      · exact Or.inr ⟨hw, by omega⟩
  · intro e' he'
    rw [hex] at he'
    rw [hwrap, hoff]
    rcases List.mem_append.mp he' with he' | he'
    · rcases h.ended e' he' with ⟨hle, hc | hc⟩ | ⟨hw, hc⟩
      · exact Or.inl ⟨hle, Or.inl (by omega)⟩
      · exact Or.inl ⟨hle, Or.inr hc⟩
      · exact Or.inr ⟨hw, by omega⟩
    · rw [List.mem_singleton.mp he']
      rcases h.start with hw | hle
      · exact Or.inr ⟨hw, Nat.le_refl _⟩
      · exact Or.inl ⟨by omega, Or.inl (Nat.le_refl _)⟩
  · rcases h.counted with hall | hle
    · exact Or.inl fun i hi => (hseen i).mpr (Or.inl (hall i hi))
    by_cases htwice : Seen p₀.ofsUnit st.examined e.segno
    · exact Or.inl fun i hi => (hseen i).mpr (Or.inl (h.seen_twice hu hge hfirst htwice i hi))
    · refine Or.inr ?_
      have hdisj : Disjoint (p₀.dirtySegmap.filter (Seen p₀.ofsUnit st.examined))
          (p₀.dirtySegmap.filter fun i => unitOf p₀.ofsUnit i = unitOf p₀.ofsUnit e.segno) := by
        rw [Finset.disjoint_filter]
        rintro i - ⟨e', he', heq⟩ hunit
        exact htwice ⟨e', he', heq.trans hunit⟩
      have hunion : p₀.dirtySegmap.filter (Seen p₀.ofsUnit st'.examined) =
          p₀.dirtySegmap.filter (Seen p₀.ofsUnit st.examined) ∪
            p₀.dirtySegmap.filter fun i => unitOf p₀.ofsUnit i = unitOf p₀.ofsUnit e.segno := by
        rw [← Finset.filter_or]
        exact Finset.filter_congr fun i _ => hseen i
      rw [hcount, hunion, Finset.card_union_of_disjoint hdisj]
      exact Nat.add_le_add_right hle _
  · rw [hlv]
    exact h.lastVictim_le

/-- What the scan leaves with. -/
structure ScanDone (sm : SmInfo) (g₀ : GcInfo) (p₀ : VictimPolicy) (st : ScanState) : Prop where
  same : SameSegments g₀ st.g
  policy : SamePolicy p₀ st.p
  cheapest : Cheapest sm g₀ p₀ st.p st.examined
  lastVictim_le : ∀ mode, st.g.lastVictim mode ≤ max (g₀.lastVictim mode) sm.mainSegments
  /-- a search that may count every dirty segment has looked at all -/
  complete : p₀.maxSearch = p₀.dirtySegmap.card →
    ∀ s ∈ p₀.dirtySegmap, Seen p₀.ofsUnit st.examined s

/-- Rounds left: the second turn, and the segments up to the end of this one. -/
def scanMeasure (g₀ : GcInfo) (p₀ : VictimPolicy) (st : ScanState) : Nat :=
  (if st.g.lastVictim p₀.gcMode ≠ 0 then g₀.lastVictim p₀.gcMode + 1 else 0) +
    (st.lastSegment - st.p.offset)

/-- The scan found nothing up to the end of the turn. -/
theorem ScanInv.wrap (h : ScanInv sm g₀ p₀ st)
    (hmap : p₀.dirtySegmap ⊆ Finset.range sm.mainSegments)
    (hnone : ∀ i, st.p.offset ≤ i → i < st.lastSegment → i ∉ p₀.dirtySegmap)
    (hlv : st.g.lastVictim p₀.gcMode ≠ 0) :
    ScanInv sm g₀ p₀
      { st with
        lastSegment := st.g.lastVictim p₀.gcMode
        g := st.g.setLastVictim p₀.gcMode 0
        p := { st.p with offset := 0 } } := by
  obtain ⟨hlv₀, hlast⟩ : st.g.lastVictim p₀.gcMode = g₀.lastVictim p₀.gcMode ∧
      st.lastSegment = sm.mainSegments :=
    h.round.resolve_right fun hw => hlv hw.1.2
  have hnot : ¬Wrapped g₀ p₀ st := fun hw => hlv hw.2
  have hpol := h.policy
  have hwrapped : Wrapped g₀ p₀
      { st with
        lastSegment := st.g.lastVictim p₀.gcMode
        g := st.g.setLastVictim p₀.gcMode 0
        p := { st.p with offset := 0 } } :=
    ⟨fun hc => hlv (hlv₀.trans hc), Function.update_self _ _ _⟩
  refine ⟨h.same.trans (SameSegments.setLastVictim _ _ _),
    ⟨hpol.allocMode, hpol.gcMode, hpol.map, hpol.maxSearch, hpol.unit⟩,
    Or.inr ⟨hwrapped, hlv₀⟩, Or.inl hwrapped, ?_, ?_, h.counted,
    ⟨h.cheapest.inMap, h.cheapest.usable, h.cheapest.least, h.cheapest.chosen⟩, ?_⟩
  · intro i hi hcond
    have hle : p₀.offset ≤ i := by
      rcases hcond with hc | hc
      · exact hc.1
      · exact absurd hc.2 (Nat.not_lt_zero i)
    refine h.covered i hi (Or.inl ⟨hle, Or.inl (Nat.not_le.mp fun hoff => ?_)⟩)
    exact hnone i hoff (hlast ▸ Finset.mem_range.mp (hmap hi)) hi
  · intro e he
    rcases h.ended e he with ⟨hle, -⟩ | ⟨hw, -⟩
    · exact Or.inl ⟨hle, Or.inr hwrapped⟩
    · exact absurd hw hnot
  · exact fun mode => (setLastVictim_le (Nat.zero_le _) mode).trans (h.lastVictim_le mode)

/-- Nothing was found, and there is no second turn. -/
theorem ScanInv.complete_end (h : ScanInv sm g₀ p₀ st)
    (hmap : p₀.dirtySegmap ⊆ Finset.range sm.mainSegments)
    (hoffset : p₀.offset = 0 ∨ p₀.offset = g₀.lastVictim p₀.gcMode)
    (hnone : ∀ i, st.p.offset ≤ i → i < st.lastSegment → i ∉ p₀.dirtySegmap)
    (hlv : st.g.lastVictim p₀.gcMode = 0) :
    ∀ s ∈ p₀.dirtySegmap, Seen p₀.ofsUnit st.examined s := by
  intro s hs
  rcases h.round with ⟨hlv₀, hlast⟩ | ⟨hw, hlast⟩
  · have hzero : p₀.offset = 0 := by
      rcases hoffset with h0 | h0
      · exact h0
      · rw [h0, ← hlv₀, hlv]
    refine h.covered s hs (Or.inl ⟨by omega, Or.inl (Nat.not_le.mp fun hoff => ?_)⟩)
    exact hnone s hoff (hlast ▸ Finset.mem_range.mp (hmap hs)) hs
  · by_cases hle : p₀.offset ≤ s
    · exact h.covered s hs (Or.inl ⟨hle, Or.inr hw⟩)
    · refine h.covered s hs (Or.inr ⟨hw, Nat.not_le.mp fun hoff => ?_⟩)
      exact hnone s hoff (by omega) hs

/-- The count has reached the number of dirty segments. -/
theorem ScanInv.complete_count (h : ScanInv sm g₀ p₀ st)
    (hcount : p₀.dirtySegmap.card ≤ st.nsearched) :
    ∀ s ∈ p₀.dirtySegmap, Seen p₀.ofsUnit st.examined s := by
  rcases h.counted with hall | hle
  · exact hall
  · have hfull := Finset.eq_of_subset_of_card_le
      (Finset.filter_subset (Seen p₀.ofsUnit st.examined) p₀.dirtySegmap) (hcount.trans hle)
    intro s hs
    rw [← hfull] at hs
    exact (Finset.mem_filter.mp hs).2

theorem scanRound_cases (h : ScanInv sm g₀ p₀ st) (hu : 0 < p₀.ofsUnit)
    (hmap : p₀.dirtySegmap ⊆ Finset.range sm.mainSegments)
    (hoffset : p₀.offset = 0 ∨ p₀.offset = g₀.lastVictim p₀.gcMode) (lastVictim : Nat) :
    (∃ st', scanRound sm gcType lastVictim st = .next st' ∧ ScanInv sm g₀ p₀ st' ∧
      scanMeasure g₀ p₀ st' < scanMeasure g₀ p₀ st) ∨
    ∃ st', scanRound sm gcType lastVictim st = .done st' ∧ ScanDone sm g₀ p₀ st' := by
  have hpol := h.policy
  unfold scanRound
  rw [hpol.map, hpol.gcMode]
  generalize hsegno : BitScan.next (fun i => decide (i ∈ p₀.dirtySegmap)) st.lastSegment
    st.p.offset = segno
  simp only
  by_cases hend : segno ≥ st.lastSegment
  · rw [if_pos hend]
    have hnone : ∀ i, st.p.offset ≤ i → i < st.lastSegment → i ∉ p₀.dirtySegmap := by
      have hsize := le_antisymm (BitScan.next_le _ _ _) (hsegno ▸ hend)
      exact fun i hi hlt => of_decide_eq_false (BitScan.next_eq_size hsize i hi hlt)
    by_cases hlv : st.g.lastVictim p₀.gcMode = 0
    · rw [if_neg (not_not.mpr hlv)]
      exact Or.inr ⟨st, rfl, h.same, hpol, h.cheapest,
        fun mode => (h.lastVictim_le mode).trans (Nat.le_max_left _ _),
        fun _ => h.complete_end hmap hoffset hnone hlv⟩
    · rw [if_pos hlv]
      refine Or.inl ⟨_, rfl, h.wrap hmap hnone hlv, ?_⟩
      have hround := h.round.resolve_right fun hw => hlv hw.1.2
      unfold scanMeasure GcInfo.setLastVictim
      simp only [Function.update_self, ne_eq, not_true_eq_false, if_false, hlv, not_false_eq_true,
        if_true]
      omega
  rw [if_neg hend]
  have hfound : BitScan.next (fun i => decide (i ∈ p₀.dirtySegmap)) st.lastSegment st.p.offset <
      st.lastSegment := hsegno ▸ Nat.not_le.mp hend
  obtain ⟨hge, hmem, hfirst⟩ := BitScan.next_spec hfound
  rw [hsegno] at hge hmem hfirst
  obtain ⟨hinv, hoff, hlast, hlv⟩ := h.examine gcType hu hge (of_decide_eq_true hmem)
    fun i hi hlt => of_decide_eq_false (hfirst i hi hlt)
  generalize examineSegment sm gcType st segno = st' at *
  rw [hinv.policy.maxSearch, hinv.policy.gcMode]
  by_cases hfull : st'.nsearched ≥ p₀.maxSearch
  · rw [if_pos hfull]
    refine Or.inr ⟨_, rfl, hinv.same.trans (SameSegments.setLastVictim _ _ _), hinv.policy,
      hinv.cheapest, fun mode => ?_, fun hmax => hinv.complete_count (hmax ▸ hfull)⟩
    unfold GcInfo.setLastVictim
    simp only [Function.update_apply]
    split
    · have hpos : 0 < sm.mainSegments :=
        Nat.zero_lt_of_lt (Finset.mem_range.mp (hmap (of_decide_eq_true hmem)))
      exact (Nat.mod_lt _ hpos).le.trans (Nat.le_max_right _ _)
    · exact (hinv.lastVictim_le mode).trans (Nat.le_max_left _ _)
  · rw [if_neg hfull]
    refine Or.inl ⟨st', rfl, hinv, ?_⟩
    unfold scanMeasure
    rw [hlast, hlv]
    have hlt : segno < st.lastSegment := Nat.not_le.mp hend
    omega

/-- The scan ends. -/
theorem scan_total (gcType : GcType) (hu : 0 < p₀.ofsUnit)
    (hmap : p₀.dirtySegmap ⊆ Finset.range sm.mainSegments)
    (hoffset : p₀.offset = 0 ∨ p₀.offset = g₀.lastVictim p₀.gcMode)
    (hnull : p₀.minSegno = nullSegno) (lastVictim : Nat) {fuel : Nat}
    (hfuel : g₀.lastVictim p₀.gcMode + 1 + sm.mainSegments < fuel) :
    ∃ st, Loop.run (scanRound sm gcType lastVictim) fuel ⟨g₀, p₀, sm.mainSegments, 0, []⟩ =
      some st ∧
      ScanDone sm g₀ p₀ st := by
  have hstart : ScanInv sm g₀ p₀ ⟨g₀, p₀, sm.mainSegments, 0, []⟩ := by
    refine ⟨SameSegments.refl _, ⟨rfl, rfl, rfl, rfl, rfl⟩, Or.inl ⟨rfl, rfl⟩,
      Or.inr (Nat.le_refl _),
      ?_, fun e he => absurd he List.not_mem_nil, Or.inr (Nat.zero_le _), ?_, ?_⟩
    · intro s _ hcond
      have hnot : ¬Wrapped g₀ p₀ ⟨g₀, p₀, sm.mainSegments, 0, []⟩ := fun hw => hw.1 hw.2
      rcases hcond with ⟨hle, hlt | hw⟩ | ⟨hw, -⟩
      · simp only at hlt
        omega
      · exact absurd hw hnot
      · exact absurd hw hnot
    · exact ⟨fun e he => absurd he List.not_mem_nil, fun e he => absurd he List.not_mem_nil,
        fun e he => absurd he List.not_mem_nil, Or.inl ⟨hnull, rfl⟩⟩
    · exact fun mode => Nat.le_refl _
  refine Loop.run_total (P := ScanInv sm g₀ p₀) (m := scanMeasure g₀ p₀)
    (fun st hst => scanRound_cases hst hu hmap hoffset lastVictim) hstart ?_
  unfold scanMeasure
  split <;> simp only <;> omega

end

/-! ## The call -/

/-- A victim: what holds of it whichever way it was found, and what a scan says about it. -/
structure Selected (sm : SmInfo) (gcType : GcType) (g : GcInfo) (result : Nat)
    (p : VictimPolicy) (out : VictimOut) : Prop where
  unused : out.minSegno ≠ nullSegno → secUsageCheck sm g (getSec sm out.result) = false
  /-- when there is a scan -/
  scans : result = nullSegno → p.maxSearch ≠ 0 ∨ out.minSegno ≠ nullSegno →
    (p.allocMode = .LFS → gcType = .fgGc → checkBgVictims sm g = none) → out.scan.isSome = true
  least : ∀ st, out.scan = some st → out.minSegno ≠ nullSegno →
    out.minSegno ∈ p.dirtySegmap ∧ out.result = out.minSegno / p.ofsUnit * p.ofsUnit ∧
      ∃ c, c < p.minCost ∧ ⟨out.minSegno, some c⟩ ∈ st.examined ∧
        ∀ e ∈ st.examined, ∀ c', e.cost = some c' → c ≤ c'
  examined : ∀ st, out.scan = some st → ∀ e ∈ st.examined,
    e.segno ∈ p.dirtySegmap ∧ ∀ c, e.cost = some c →
      secUsageCheck sm g (getSec sm e.segno) = false ∧
        ∃ g', SameSegments g g' ∧ c = (getGcCost sm g' e.segno p).1
  complete : ∀ st, out.scan = some st → p.maxSearch = p.dirtySegmap.card →
    ∀ s ∈ p.dirtySegmap, ∃ e ∈ st.examined, e.segno / p.ofsUnit = s / p.ofsUnit
  lastVictim_le : ∀ mode, out.g.lastVictim mode ≤ max (g.lastVictim mode) sm.mainSegments
  /-- SSR takes no victim for itself -/
  same : p.allocMode = .SSR → SameSegments g out.g

section

variable {sm : SmInfo} {gcType : GcType} {g g' : GcInfo} {type : Option CursegType}
  {allocMode : AllocMode} {p : VictimPolicy} {minSegno result : Nat} {scan : Option ScanState}

theorem takeVictim_fields (h : minSegno ≠ nullSegno) :
    (takeVictim sm gcType g p minSegno result scan).minSegno = minSegno ∧
    (takeVictim sm gcType g p minSegno result scan).result = minSegno / p.ofsUnit * p.ofsUnit ∧
    (takeVictim sm gcType g p minSegno result scan).scan = scan := by
  unfold takeVictim
  rw [if_neg h]
  exact ⟨rfl, rfl, rfl⟩

theorem takeVictim_null (h : minSegno = nullSegno) :
    takeVictim sm gcType g p minSegno result scan = ⟨minSegno, result, g, scan⟩ := by
  unfold takeVictim
  rw [if_pos h]

theorem takeVictim_g :
    (takeVictim sm gcType g p minSegno result scan).g.lastVictim = g.lastVictim ∧
    (p.allocMode = .SSR → (takeVictim sm gcType g p minSegno result scan).g = g) := by
  unfold takeVictim
  cases hmode : p.allocMode with
  | LFS =>
      refine ⟨?_, fun hc => by cases hc⟩
      split
      · rfl
      · cases gcType with
        | bgGc => rfl
        | fgGc => rfl
        | forceFgGc => rfl
  | SSR =>
      split <;> exact ⟨rfl, fun _ => rfl⟩

/-- Rounding stays in the section. -/
theorem getSec_unit (hunit : p.ofsUnit = 1 ∨ p.ofsUnit = sm.segsPerSec) (segno : Nat) :
    getSec sm (segno / p.ofsUnit * p.ofsUnit) = getSec sm segno := by
  rcases hunit with h | h
  · rw [h, Nat.div_one, Nat.mul_one]
  · rw [h]
    unfold getSec
    exact Nat.mul_div_cancel _ sm.segsPerSec_pos

theorem selectPolicy_unit (sm : SmInfo) (g : GcInfo) (gcType : GcType)
    (type : Option CursegType) (allocMode : AllocMode) :
    (selectPolicy sm g gcType type allocMode).ofsUnit =
      match allocMode with
      | .SSR => 1
      | .LFS => sm.segsPerSec := rfl

/-- The sections of earlier background choices that are still free to take. -/
theorem checkBgVictims_some {secno : Nat} (h : checkBgVictims sm g = some secno) :
    secUsageCheck sm g secno = false := by
  have hp := List.find?_some h
  rw [Bool.and_eq_true, Bool.and_eq_true, Bool.not_eq_true', Bool.not_eq_true'] at hp
  exact hp.1.2

theorem ScanDone.selected {st : ScanState} (h : ScanDone sm g p st)
    (hunit : p.ofsUnit = 1 ∨ p.ofsUnit = sm.segsPerSec) :
    Selected sm gcType g result p
      (takeVictim sm gcType st.g st.p st.p.minSegno result (some st)) := by
  have hcheap := h.cheapest
  have hscan : (takeVictim sm gcType st.g st.p st.p.minSegno result (some st)).scan = some st := by
    unfold takeVictim
    split <;> rfl
  have hmin : (takeVictim sm gcType st.g st.p st.p.minSegno result (some st)).minSegno =
      st.p.minSegno := by
    unfold takeVictim
    split <;> rfl
  have hres : st.p.minSegno ≠ nullSegno →
      (takeVictim sm gcType st.g st.p st.p.minSegno result (some st)).result =
        st.p.minSegno / p.ofsUnit * p.ofsUnit := fun hne => by
    rw [(takeVictim_fields hne).2.1, h.policy.unit]
  have hchosen : st.p.minSegno ≠ nullSegno →
      st.p.minCost < p.minCost ∧ ⟨st.p.minSegno, some st.p.minCost⟩ ∈ st.examined :=
    fun hne => hcheap.chosen.resolve_left fun hc => hne hc.1
  refine ⟨fun hne => ?_, fun _ _ _ => ?_, fun st' hst' hne => ?_, fun st' hst' e he => ?_,
    fun st' hst' hmax => ?_, ?_, fun hssr => ?_⟩
  · rw [hmin] at hne
    rw [hres hne, getSec_unit hunit]
    exact (hcheap.usable _ (hchosen hne).2 _ rfl).1
  · rw [hscan]
    rfl
  · obtain rfl := Option.some.inj (hscan.symm.trans hst')
    rw [hmin] at hne ⊢
    obtain ⟨hlt, hmem⟩ := hchosen hne
    exact ⟨hcheap.inMap _ hmem, hres hne, st.p.minCost, hlt, hmem, hcheap.least⟩
  · obtain rfl := Option.some.inj (hscan.symm.trans hst')
    exact ⟨hcheap.inMap e he, hcheap.usable e he⟩
  · obtain rfl := Option.some.inj (hscan.symm.trans hst')
    exact h.complete hmax
  · rw [takeVictim_g.1]
    exact h.lastVictim_le
  · rw [takeVictim_g.2 (h.policy.allocMode.trans hssr)]
    exact h.same

theorem getVictimByDefault_selected (sm : SmInfo) (gcType : GcType) (g : GcInfo) (result : Nat)
    (type : Option CursegType) (allocMode : AllocMode)
    (hmap : ∀ t, g.segs.dirty.dirtySegmap t ⊆ Finset.range sm.mainSegments) (fuel : Nat)
    (hfuel : ∀ mode, g.lastVictim mode + 1 + sm.mainSegments < fuel) :
    ∃ out, getVictimByDefault sm gcType g result type allocMode fuel = some out ∧
      Selected sm gcType g result (selectPolicy sm g gcType type allocMode) out := by
  have hunit : (selectPolicy sm g gcType type allocMode).ofsUnit = 1 ∨
      (selectPolicy sm g gcType type allocMode).ofsUnit = sm.segsPerSec := by
    rw [selectPolicy_unit]
    cases allocMode with
    | LFS => exact Or.inr rfl
    | SSR => exact Or.inl rfl
  have hu : 0 < (selectPolicy sm g gcType type allocMode).ofsUnit := by
    have hpos := sm.segsPerSec_pos
    rcases hunit with h | h <;> omega
  have hoffset : (selectPolicy sm g gcType type allocMode).offset = 0 ∨
      (selectPolicy sm g gcType type allocMode).offset =
        g.lastVictim (selectPolicy sm g gcType type allocMode).gcMode := by
    unfold selectPolicy
    simp only
    split
    · exact Or.inl rfl
    · exact Or.inr rfl
  have hdirty : (selectPolicy sm g gcType type allocMode).dirtySegmap ⊆
      Finset.range sm.mainSegments := hmap _
  have hmode : (selectPolicy sm g gcType type allocMode).allocMode = allocMode := rfl
  unfold getVictimByDefault
  simp only
  by_cases hresult : result = nullSegno
  swap
  · -- the caller chose
    rw [if_pos hresult]
    refine ⟨_, rfl, fun hne => ?_, fun hc => absurd hc hresult, (by intro st hst; cases hst),
      (by intro st hst; cases hst), (by intro st hst; cases hst),
      fun mode => Nat.le_max_left _ _, fun _ => SameSegments.refl g⟩
    simp only at hne ⊢
    split at hne
    · rename_i hvalid
      exact Bool.eq_false_of_not_eq_true hvalid.2.2
    · exact absurd rfl hne
  rw [if_neg (not_not.mpr hresult)]
  by_cases hmax : (selectPolicy sm g gcType type allocMode).maxSearch = 0
  · rw [if_pos hmax]
    exact ⟨_, rfl, fun hne => absurd rfl hne,
      fun _ hc => hc.elim (fun hm => absurd hmax hm) fun hne => absurd rfl hne,
      (by intro st hst; cases hst), (by intro st hst; cases hst), (by intro st hst; cases hst),
      fun mode => Nat.le_max_left _ _, fun _ => SameSegments.refl g⟩
  rw [if_neg hmax]
  cases hbg : (if allocMode = .LFS ∧ gcType = .fgGc then checkBgVictims sm g else none) with
  | some secno =>
      have hbg' : allocMode = .LFS ∧ gcType = .fgGc ∧ checkBgVictims sm g = some secno := by
        split at hbg
        · rename_i hc
          exact ⟨hc.1, hc.2, hbg⟩
        · cases hbg
      obtain ⟨hlfs, hfg, hfind⟩ := hbg'
      refine ⟨_, rfl, fun hne => ?_, fun _ _ hc => ?_, fun st hst => ?_, fun st hst => ?_,
        fun st hst => ?_, fun mode => ?_, fun hssr => ?_⟩
      · by_cases hnull : segFromSec sm secno = nullSegno
        · rw [takeVictim_null hnull] at hne
          exact absurd hnull hne
        · rw [(takeVictim_fields hnull).2.1, getSec_unit hunit]
          have hsec : getSec sm (segFromSec sm secno) = secno :=
            Nat.mul_div_cancel _ sm.segsPerSec_pos
          rw [hsec]
          exact checkBgVictims_some hfind
      · rw [hc (hmode.trans hlfs) hfg] at hfind
        cases hfind
      · unfold takeVictim at hst
        split at hst <;> cases hst
      · unfold takeVictim at hst
        split at hst <;> cases hst
      · unfold takeVictim at hst
        split at hst <;> cases hst
      · rw [takeVictim_g.1]
        exact Nat.le_max_left _ _
      · rw [hmode, hlfs] at hssr
        cases hssr
  | none =>
      obtain ⟨st, hrun, hdone⟩ := scan_total gcType hu hdirty hoffset rfl
        (g.lastVictim (selectPolicy sm g gcType type allocMode).gcMode)
        (hfuel (selectPolicy sm g gcType type allocMode).gcMode)
      simp only [hrun, Option.map_some]
      exact ⟨_, rfl, hdone.selected hunit⟩

/-- `get_victim_by_default` ends, and what it returns is a victim. -/
theorem getVictim_selects (sm : SmInfo) (gcType : GcType) (g : GcInfo) (result : Nat)
    (type : Option CursegType) (allocMode : AllocMode)
    (hmap : ∀ t, g.segs.dirty.dirtySegmap t ⊆ Finset.range sm.mainSegments) (fuel : Nat)
    (hfuel : ∀ mode, g.lastVictim mode + 1 + sm.mainSegments < fuel) :
    ∃ out, getVictimByDefault sm gcType g result type allocMode fuel = some out ∧
      Selected sm gcType g result (selectPolicy sm g gcType type allocMode) out :=
  getVictimByDefault_selected sm gcType g result type allocMode hmap fuel hfuel

end

/-- The logs are in segment 0; it and segment 1 are dirty. -/
def twoDirty : GcInfo where
  segs :=
    { curseg := fun _ => ⟨⟨fun _ => ⟨0, 0, 0⟩, .data⟩, .LFS, 0, 0, 0, nullSegno⟩
      sit := zeroSitInfo
      ssa := fun _ => ⟨fun _ => ⟨0, 0, 0⟩, .data⟩
      free := ⟨6, 6, {0, 1}, {0, 1}⟩
      dirty := ⟨fun _ => {0, 1}, fun _ => 2, ∅⟩
      lastVictim := 0 }
  lastVictim := fun _ => 7
  minMtime := 0
  curVictimSec := nullSegno
  maxVictimSearch := 4096
  fggcThreshold := 0
  gcIdle := none

theorem twoDirty_map (t : Nat) :
    twoDirty.segs.dirty.dirtySegmap t ⊆ Finset.range smallSm.mainSegments := by
  show ({0, 1} : Finset Nat) ⊆ Finset.range 8
  decide

theorem twoDirty_selects : ∃ out,
    getVictimByDefault smallSm .bgGc twoDirty nullSegno none .LFS 17 = some out ∧
      Selected smallSm .bgGc twoDirty nullSegno
        (selectPolicy smallSm twoDirty .bgGc none .LFS) out :=
  getVictim_selects smallSm .bgGc twoDirty nullSegno none .LFS twoDirty_map 17
    fun _ => show 7 + 1 + 8 < 17 by decide

end F2fs.Gc

/-
  `get_ssr_segment` with the search of `get_victim_by_default`: what it finds has room for
  an SSR allocation.

  The search compares `ckpt_valid_blocks` with `blocks_per_seg`, the most a segment can cost.
  What it takes costs less, so the counts say that a block of the segment is free.
-/
import F2fs.Gc.VictimScan
import F2fs.Segment.SsrRoom

namespace F2fs.Gc

open F2fs.Segment

/-! ## The calls of `get_victim` -/

section

variable (sm : SmInfo) (fuel : Nat)

/-- The calls of `get_victim`, for one type after the other until one succeeds. -/
def askVictims : GcInfo → List CursegType → Option (Option Nat × GcInfo)
  | g, [] => some (none, g)
  | g, type :: types =>
    (getVictimByDefault sm .bgGc g nullSegno (some type) .SSR fuel).bind fun out =>
      if out.minSegno ≠ nullSegno then some (some out.result, out.g)
      else askVictims out.g types

/-- `get_ssr_segment`; `none` if `fuel` is not enough for a scan. -/
def getSsrSegment (g : GcInfo) (type : CursegType) : Option (Option Nat × GcInfo) :=
  askVictims sm fuel g (type :: SegManager.ssrTypes type)

/-- What the call for the type `i` answers. -/
def victimAnswer (i : CursegType) : GcInfo → List CursegType → Option Nat
  | _, [] => none
  | g, type :: types =>
    (getVictimByDefault sm .bgGc g nullSegno (some type) .SSR fuel).bind fun out =>
      if out.minSegno ≠ nullSegno then if i = type then some out.result else none
      else victimAnswer i out.g types

/-- The surroundings of an allocation with this search. -/
def victimPolicy (g : GcInfo) (type : CursegType) (needSSR crcRecovery : Bool) :
    SegManager.AllocPolicy where
  needSSR := needSSR
  crcRecovery := crcRecovery
  getVictim := fun i => victimAnswer sm fuel i g (type :: SegManager.ssrTypes type)

end

/-! ## What is found -/

/-- A segment an SSR allocation can go to. -/
structure Usable (sm : SmInfo) (s : SegManager) (segno : Nat) : Prop where
  inMain : segno < sm.mainSegments
  unused : isCursec sm (fun type => (s.curseg type).segno) (getSec sm segno) = false
  free : ∃ i, (s.sit.sentries segno).FreeAt i

/-- The counts describe the maps of valid blocks, and the lists hold segments. -/
structure SearchOk (sm : SmInfo) (s : SegManager) : Prop where
  counted : ∀ k < sm.mainSegments, (s.sit.sentries k).Counted
  dirty : ∀ t, s.dirty.dirtySegmap t ⊆ Finset.range sm.mainSegments

section

variable {sm : SmInfo} {g g' : GcInfo} {type : CursegType} {out : VictimOut} {fuel : Nat}

theorem SearchOk.same (h : SearchOk sm g.segs) (hsame : SameSegments g g') :
    SearchOk sm g'.segs where
  counted := hsame.sentries ▸ h.counted
  dirty := hsame.dirty ▸ h.dirty

theorem Usable.same {segno : Nat} (h : Usable sm g'.segs segno) (hsame : SameSegments g g') :
    Usable sm g.segs segno where
  inMain := h.inMain
  unused := hsame.curseg ▸ h.unused
  free := hsame.sentries ▸ h.free

/-- A victim for SSR is on the list of its type and has a free block. -/
theorem Selected.ssr (h : Selected sm .bgGc g nullSegno
    (selectPolicy sm g .bgGc (some type) .SSR) out) (hok : SearchOk sm g.segs)
    (hne : out.minSegno ≠ nullSegno) : out.result = out.minSegno ∧
      out.result ∈ g.segs.dirty.dirtySegmap type.idx ∧
      ∃ i, (g.segs.sit.sentries out.result).FreeAt i := by
  have hscan := h.scans rfl (Or.inr hne) fun hc => by cases hc
  obtain ⟨st, hst⟩ := Option.isSome_iff_exists.mp hscan
  obtain ⟨hmem, hresult, c, hlt, hex, -⟩ := h.least st hst hne
  -- a segment is a unit of its own
  have hout : out.result = out.minSegno := by
    rw [hresult]
    show out.minSegno / 1 * 1 = out.minSegno
    rw [Nat.div_one, Nat.mul_one]
  have hmain : out.minSegno < sm.mainSegments := Finset.mem_range.mp (hok.dirty _ hmem)
  obtain ⟨-, hcost⟩ := h.examined st hst _ hex
  obtain ⟨-, g', hsame, hc⟩ := hcost c rfl
  have hckpt : (g.segs.sit.sentries out.minSegno).ckptValidBlocks < blocksPerSeg := by
    have hc' : c = (g'.segs.sit.sentries out.minSegno).ckptValidBlocks := hc
    rw [← hsame.sentries, ← hc']
    exact hlt
  refine ⟨hout, hout ▸ hmem, ?_⟩
  rw [hout]
  exact (hok.counted _ hmain).exists_freeAt hckpt

/-- A victim for SSR is usable. -/
theorem Selected.usable (h : Selected sm .bgGc g nullSegno
    (selectPolicy sm g .bgGc (some type) .SSR) out) (hok : SearchOk sm g.segs)
    (hne : out.minSegno ≠ nullSegno) : Usable sm g.segs out.result := by
  obtain ⟨-, hmem, hfree⟩ := h.ssr hok hne
  have hunused := h.unused hne
  unfold secUsageCheck at hunused
  rw [Bool.or_eq_false_iff] at hunused
  exact ⟨Finset.mem_range.mp (hok.dirty _ hmem), hunused.1, hfree⟩

/-- The calls end, and what holds of the victims of all calls holds of the segment found. -/
theorem askVictims_spec {Q : Nat → Prop} (fuel : Nat) (g₀ : GcInfo) (types : List CursegType)
    (hQ : ∀ g, ∀ type ∈ types, ∀ out, SameSegments g₀ g → SearchOk sm g.segs →
      getVictimByDefault sm .bgGc g nullSegno (some type) .SSR fuel = some out →
      Selected sm .bgGc g nullSegno (selectPolicy sm g .bgGc (some type) .SSR) out →
      out.minSegno ≠ nullSegno → Q out.result) :
    ∀ g, SameSegments g₀ g → SearchOk sm g.segs →
      (∀ mode, max (g.lastVictim mode) sm.mainSegments + 1 + sm.mainSegments < fuel) →
      ∃ found g', askVictims sm fuel g types = some (found, g') ∧
        ∀ segno, found = some segno → Q segno := by
  induction types with
  | nil =>
      intro g _ _ _
      exact ⟨none, g, rfl, fun segno hc => by cases hc⟩
  | cons type types ih =>
      intro g hfrom hok hfuel
      obtain ⟨out, hcall, hsel⟩ := getVictimByDefault_selected sm .bgGc g nullSegno (some type) .SSR
        hok.dirty fuel fun mode => by
          have hmode := hfuel mode
          omega
      have hsame := hsel.same rfl
      have hstep : askVictims sm fuel g (type :: types) =
          if out.minSegno ≠ nullSegno then some (some out.result, out.g)
          else askVictims sm fuel out.g types := by
        rw [askVictims, hcall]
        rfl
      rw [hstep]
      by_cases hne : out.minSegno ≠ nullSegno
      · rw [if_pos hne]
        refine ⟨_, _, rfl, fun segno heq => ?_⟩
        obtain rfl := Option.some.inj heq
        exact hQ g type List.mem_cons_self out hfrom hok hcall hsel hne
      · rw [if_neg hne]
        refine ih (fun g t ht => hQ g t (List.mem_cons_of_mem type ht)) out.g
          (hfrom.trans hsame) (hok.same hsame) fun mode => ?_
        have hmode := hfuel mode
        have hle := hsel.lastVictim_le mode
        omega

/-- The calls end, and a segment they find is usable. -/
theorem askVictims_usable (fuel : Nat) (types : List CursegType) (g : GcInfo)
    (hok : SearchOk sm g.segs)
    (hfuel : ∀ mode, max (g.lastVictim mode) sm.mainSegments + 1 + sm.mainSegments < fuel) :
    ∃ found g', askVictims sm fuel g types = some (found, g') ∧
      ∀ segno, found = some segno → Usable sm g.segs segno :=
  askVictims_spec fuel g types
    (fun _ _ _ _ hsame hok' _ hsel hne => (hsel.usable hok' hne).same hsame) g
    (SameSegments.refl g) hok hfuel

theorem victimAnswer_none {i : CursegType} (types : List CursegType) :
    ∀ g, i ∉ types → victimAnswer sm fuel i g types = none := by
  induction types with
  | nil => exact fun g _ => rfl
  | cons type types ih =>
      intro g hnot
      rw [List.mem_cons, not_or] at hnot
      obtain ⟨hne, hnot⟩ := hnot
      rw [victimAnswer]
      cases getVictimByDefault sm .bgGc g nullSegno (some type) .SSR fuel with
      | none => rfl
      | some out =>
          simp only [Option.bind_some, if_neg hne]
          split
          · rfl
          · exact ih out.g hnot

/-- The policy answers as the calls do. -/
theorem findSome_victimAnswer (types : List CursegType) : ∀ (g : GcInfo), types.Nodup →
    ∀ found g', askVictims sm fuel g types = some (found, g') →
      types.findSome? (fun i => victimAnswer sm fuel i g types) = found := by
  induction types with
  | nil =>
      intro g _ found g' h
      exact (Prod.mk.inj (Option.some.inj h)).1
  | cons type types ih =>
      intro g hnodup found g' h
      obtain ⟨hnot, hnodup⟩ := List.nodup_cons.mp hnodup
      rw [askVictims] at h
      obtain ⟨out, hcall, h⟩ := Option.bind_eq_some_iff.mp h
      have hanswer : ∀ i, victimAnswer sm fuel i g (type :: types) =
          if out.minSegno ≠ nullSegno then if i = type then some out.result else none
          else victimAnswer sm fuel i out.g types := by
        intro i
        rw [victimAnswer, hcall]
        rfl
      simp only [hanswer]
      by_cases hne : out.minSegno ≠ nullSegno
      · rw [if_pos hne] at h
        simp only [if_pos hne, List.findSome?_cons, if_true]
        exact (Prod.mk.inj (Option.some.inj h)).1
      · rw [if_neg hne] at h
        simp only [if_neg hne, List.findSome?_cons, victimAnswer_none types out.g hnot]
        exact ih out.g hnodup found g' h

/-- What `get_ssr_segment` finds with the policy. -/
theorem getSsrSegment_victimPolicy {found : Option Nat} (needSSR crcRecovery : Bool)
    (h : getSsrSegment sm fuel g type = some (found, g')) :
    SegManager.getSsrSegment (victimPolicy sm fuel g type needSSR crcRecovery) type = found := by
  have hnodup : (type :: SegManager.ssrTypes type).Nodup := by
    cases type <;> decide
  exact findSome_victimAnswer _ g hnodup found g' h

/-! ## Room -/

/-- `get_ssr_segment` ends, and `change_curseg` leaves room in what it finds. -/
def FindsRoom (sm : SmInfo) (fuel : Nat) (g : GcInfo) (type : CursegType) : Prop :=
  ∃ found g', getSsrSegment sm fuel g type = some (found, g') ∧
    ∀ segno, found = some segno → Usable sm g.segs segno ∧
      let s := (g.segs.setCurseg type { g.segs.curseg type with nextSegno := segno }).changeCurseg
        sm type
      (s.curseg type).segno = segno ∧ (s.curseg type).allocType = .SSR ∧ s.HasRoom type

/-- A block was written: the log still has room, or it was full and switched, to the start of
    a new segment or to room that SSR found. -/
def KeepsRoom (type : CursegType) (found : Option Nat) (s t s' : SegManager) : Prop :=
  ((t.curseg type).nextBlkoff < blocksPerSeg ∧
      (s'.curseg type).segno = (s.curseg type).segno ∧ s'.HasRoom type) ∨
    (blocksPerSeg ≤ (t.curseg type).nextBlkoff ∧
      (((s'.curseg type).allocType = .LFS ∧ (s'.curseg type).nextBlkoff = 0) ∨
        (found = some (s'.curseg type).segno ∧ (s'.curseg type).allocType = .SSR ∧
          s'.HasRoom type)))

/-- SSR always gets room. -/
theorem ssr_hasRoom (sm : SmInfo) (s : SegManager) (hok : SearchOk sm s) (type : CursegType)
    (fuel : Nat) :
    (∀ g, g.segs = s →
      (∀ mode, max (g.lastVictim mode) sm.mainSegments + 1 + sm.mainSegments < fuel) →
      FindsRoom sm fuel g type) ∧
    ((s.curseg type).allocType = .SSR →
      (s.refreshNextBlkoff type).HasRoom type ∨
        blocksPerSeg ≤ ((s.refreshNextBlkoff type).curseg type).nextBlkoff) ∧
    ∀ now oldBlkaddr sum g needSSR crcRecovery addr s',
      (s.curseg type).allocType = .SSR → s.HasRoom type →
      (s.curseg type).segno < sm.mainSegments →
      g.segs = s.writeNext sm type now oldBlkaddr sum →
      (∀ mode, max (g.lastVictim mode) sm.mainSegments + 1 + sm.mainSegments < fuel) →
      s.allocateDataBlock sm (victimPolicy sm fuel g type needSSR crcRecovery) now oldBlkaddr sum
        type = some (addr, s') →
      ∃ found g', getSsrSegment sm fuel g type = some (found, g') ∧
        KeepsRoom type found s g.segs s' := by
  refine ⟨?_, SegManager.refreshNextBlkoff_room, ?_⟩
  · rintro g rfl hfuel
    obtain ⟨found, g', hcall, husable⟩ :=
      askVictims_usable fuel (type :: SegManager.ssrTypes type) g hok hfuel
    refine ⟨found, g', hcall, fun segno hs => ⟨husable segno hs, ?_⟩⟩
    obtain ⟨i, hi⟩ := (husable segno hs).free
    exact SegManager.changeCurseg_to sm type hi
  · intro now oldBlkaddr sum g needSSR crcRecovery addr s' hssr hroom hseg hg hfuel h
    have hok' : SearchOk sm g.segs := by
      refine ⟨fun k hk => ?_, fun t => ?_⟩
      · rw [hg]
        exact (SegManager.writeNext_sit sm now oldBlkaddr sum hroom hseg k).2 (hok.counted k hk)
      · rw [hg, SegManager.writeNext_dirty]
        exact hok.dirty t
    obtain ⟨found, g', hcall, husable⟩ :=
      askVictims_usable fuel (type :: SegManager.ssrTypes type) g hok' hfuel
    have hpolicy := getSsrSegment_victimPolicy needSSR crcRecovery hcall
    refine ⟨found, g', hcall, ?_⟩
    have hafter := SegManager.allocateDataBlock_room sm hssr hroom hseg
      (fun segno hs => hg ▸ (husable segno (hpolicy.symm.trans hs)).free) h
    rw [hpolicy, ← hg] at hafter
    exact hafter

end

theorem twoDirty_searchOk : SearchOk smallSm twoDirty.segs where
  counted := fun _ _ => ⟨rfl, rfl⟩
  dirty := twoDirty_map

/-- Segment 0 is that of the logs, so segment 1 is found. -/
theorem twoDirty_room : (getSsrSegment smallSm 18 twoDirty .warmData).map Prod.fst = some (some 1) ∧
    FindsRoom smallSm 18 twoDirty .warmData :=
  ⟨by decide, (ssr_hasRoom smallSm twoDirty.segs twoDirty_searchOk .warmData 18).1 twoDirty rfl
    fun _ => show max 7 8 + 1 + 8 < 18 by decide⟩

end F2fs.Gc

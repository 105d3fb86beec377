/-
  A section under collection: what the choice of it leaves, and why no log comes into it.

  FG_GC keeps the section in `cur_victim_sec`, BG_GC in `victim_secmap`; the search of SSR
  passes over both.
-/
import F2fs.Gc.SsrSegment
import F2fs.Segment.MoveOut

namespace F2fs.Gc

open F2fs.Segment
open Loop (Turn)

/-! ## The sections BG_GC chose before -/

/-- The smallest so far is in no section chosen before. -/
def Spares (sm : SmInfo) (g : GcInfo) (st : ScanState) : Prop :=
  st.g.segs.dirty = g.segs.dirty ∧
    (st.p.minSegno = nullSegno ∨ getSec sm st.p.minSegno ∉ g.segs.dirty.victimSecmap)

section

variable {sm : SmInfo} {g : GcInfo} {st st' : ScanState} {segno fuel : Nat}

theorem Spares.examine (h : Spares sm g st) (segno : Nat) :
    Spares sm g (examineSegment sm .bgGc st segno) := by
  obtain ⟨hdirty, hmin⟩ := h
  unfold examineSegment
  simp only
  generalize (if st.p.ofsUnit > 1 then segno + st.p.ofsUnit - segno % st.p.ofsUnit
    else segno + st.p.ofsUnit) = offset
  split
  case isTrue => exact ⟨hdirty, hmin⟩
  case isFalse hskip =>
    refine ⟨(getGcCost_same sm st.g segno _).dirty.trans hdirty, ?_⟩
    simp only
    split
    case isTrue =>
      refine Or.inr fun hc => hskip ?_
      unfold skipsSegment
      simp only [hdirty, decide_eq_true hc, decide_true, Bool.and_self, Bool.or_true, Bool.true_or]
    case isFalse => exact hmin

theorem Spares.run (lastVictim : Nat) : ∀ (fuel : Nat) {st : ScanState}, Spares sm g st →
    Loop.run (scanRound sm .bgGc lastVictim) fuel st = some st' → Spares sm g st'
  | 0, _, _, hrun => by cases hrun
  | fuel + 1, st, h, hrun => by
      rw [Loop.run] at hrun
      unfold scanRound at hrun
      simp only at hrun
      split at hrun
      case h_1 a hs =>
        refine Spares.run lastVictim fuel ?_ hrun
        split at hs
        · split at hs
          · obtain rfl := Turn.next.inj hs
            exact h
          · cases hs
        · split at hs
          · cases hs
          · obtain rfl := Turn.next.inj hs
            exact h.examine _
      case h_2 b hs =>
        obtain rfl := Option.some.inj hrun
        split at hs
        · split at hs
          · cases hs
          · obtain rfl := Turn.done.inj hs
            exact h
        · split at hs
          · obtain rfl := Turn.done.inj hs
            exact h.examine _
          · cases hs

/-- A choice for BG_GC or SSR is in no section chosen before. -/
theorem getVictim_spares {type : Option CursegType} {allocMode : AllocMode} {out : VictimOut}
    (h : getVictimByDefault sm .bgGc g nullSegno type allocMode fuel = some out)
    (hne : out.minSegno ≠ nullSegno) : getSec sm out.minSegno ∉ g.segs.dirty.victimSecmap := by
  unfold getVictimByDefault at h
  simp only [ne_eq, not_true_eq_false, if_false] at h
  split at h
  · obtain rfl := Option.some.inj h
    exact absurd rfl hne
  · rw [if_neg (fun hc => by cases hc.2)] at h
    obtain ⟨st, hrun, rfl⟩ := Option.map_eq_some_iff.mp h
    have hmin : (takeVictim sm .bgGc st.g st.p st.p.minSegno nullSegno (some st)).minSegno =
        st.p.minSegno := by
      unfold takeVictim
      split <;> rfl
    rw [hmin] at hne ⊢
    exact (Spares.run _ fuel (g := g) ⟨rfl, Or.inl rfl⟩ hrun).2.resolve_left hne

end

/-! ## The search of SSR -/

/-- The section is the one FG_GC collects, or BG_GC chose it. -/
def Guarded (g : GcInfo) (secno : Nat) : Prop :=
  g.curVictimSec = secno ∨ secno ∈ g.segs.dirty.victimSecmap

section

variable {sm : SmInfo} {g : GcInfo} {secno fuel : Nat} {type : CursegType}

theorem idx_lt_dirtyAll (type : CursegType) : type.idx < dirtyAll := by
  cases type <;> decide

/-- SSR stays out of sections that are guarded or have no dirty segments. -/
theorem ssr_outside {secs : Finset Nat} (h : SegManager.Books sm g.segs)
    (hguard : ∀ c ∈ secs, Guarded g c ∨
      ∀ k ∈ g.segs.dirty.dirtySegmap dirtyAll, getSec sm k ≠ c)
    (hfuel : ∀ mode, max (g.lastVictim mode) sm.mainSegments + 1 + sm.mainSegments < fuel)
    (needSSR crcRecovery : Bool) :
    SegManager.SsrOutside sm g.segs secs (SegManager.getSsrSegment
      (victimPolicy sm fuel g type needSSR crcRecovery) type) := by
  have hok : SearchOk sm g.segs := ⟨h.counted, h.dirtyMain⟩
  obtain ⟨found, g', hcall, hfound⟩ := askVictims_spec
    (Q := fun m => m ∈ g.segs.dirty.dirtySegmap dirtyAll ∧ getSec sm m ∉ secs ∧
      ∃ i, (g.segs.sit.sentries m).FreeAt i) fuel g (type :: SegManager.ssrTypes type)
    (fun g₁ type _ out hsame hok₁ hcall hsel hne => by
      obtain ⟨hout, hmem, hfree⟩ := hsel.ssr hok₁ hne
      rw [hsame.dirty] at hmem
      rw [hsame.sentries] at hfree
      have hdirty := (h.lists (idx_lt_dirtyAll type) hmem).1
      refine ⟨hdirty, fun hin => ?_, hfree⟩
      rcases hguard _ hin with (hcur | hvictim) | hclean
      · have hunused := hsel.unused hne
        unfold secUsageCheck at hunused
        rw [hsame.curVictimSec, hcur, Bool.or_eq_false_iff] at hunused
        exact absurd rfl (of_decide_eq_false hunused.2)
      · have hspares := getVictim_spares hcall hne
        rw [hsame.dirty, ← hout] at hspares
        exact hspares hvictim
      · exact hclean _ hdirty rfl)
    g (SameSegments.refl g) hok hfuel
  rw [getSsrSegment_victimPolicy needSSR crcRecovery hcall]
  exact hfound

end

/-! ## The choice -/

/-- The tables but the sections chosen. -/
structure SameTables (s s' : SegManager) : Prop where
  curseg : s'.curseg = s.curseg
  sentries : s'.sit.sentries = s.sit.sentries
  secEntries : s'.sit.secEntries = s.sit.secEntries
  ssa : s'.ssa = s.ssa
  free : s'.free = s.free
  dirty : s'.dirty.dirtySegmap = s.dirty.dirtySegmap

section

variable {sm : SmInfo} {s s' : SegManager}

theorem SameTables.booksOk (hsame : SameTables s s') (h : SegManager.BooksOk sm s)
    (hvictims : s'.dirty.victimSecmap ⊆ Finset.range sm.totalSections) :
    SegManager.BooksOk sm s' where
  logMain := hsame.curseg ▸ h.logMain
  logInUse := hsame.curseg ▸ hsame.free ▸ h.logInUse
  apart := hsame.curseg ▸ h.apart
  counted := hsame.sentries ▸ h.counted
  sections := h.sections.congr hsame.secEntries fun k => by rw [hsame.sentries]
  unused := hsame.sentries ▸ hsame.free ▸ h.unused
  segmap := hsame.free ▸ h.segmap
  dirtyMain := hsame.dirty ▸ h.dirtyMain
  dirtyInUse := hsame.dirty ▸ hsame.free ▸ h.dirtyInUse
  dirtyLog := hsame.curseg ▸ hsame.dirty ▸ h.dirtyLog
  lists := hsame.dirty ▸ hsame.sentries ▸ h.lists
  victims := hvictims
  rooms type := by
    have hroom := h.rooms type
    constructor
    · unfold SegManager.HasRoom
      rw [hsame.curseg, hsame.sentries]
      exact hroom.room
    · rw [hsame.curseg, hsame.sentries]
      exact hroom.ahead
  dirtyValid := by
    unfold SegManager.DirtyValid
    rw [hsame.dirty, hsame.sentries]
    exact h.dirtyValid

theorem SameSegments.sameTables {g g' : GcInfo} (h : SameSegments g g') :
    SameTables g.segs g'.segs :=
  ⟨h.curseg, h.sentries, h.secEntries, h.ssa, h.free, congrArg _ h.dirty⟩

/-- What `__get_victim` leaves when it finds a section. -/
structure Taken (sm : SmInfo) (gcType : GcType) (g : GcInfo) (out : VictimOut) : Prop where
  start : out.result = segFromSec sm (getSec sm out.result)
  inMain : getSec sm out.result < sm.totalSections
  unused : secUsageCheck sm g (getSec sm out.result) = false
  tables : SameTables g.segs out.g.segs
  /-- a section with a dirty segment, or one BG_GC chose, which is not marked any more -/
  chosen : (∃ k ∈ g.segs.dirty.dirtySegmap dirtyAll, getSec sm k = getSec sm out.result) ∨
    (gcType = .fgGc ∧ getSec sm out.result ∈ g.segs.dirty.victimSecmap ∧
      getSec sm out.result ∉ out.g.segs.dirty.victimSecmap)
  fgGc : gcType = .fgGc → out.g.curVictimSec = getSec sm out.result ∧
    out.g.segs.dirty.victimSecmap ⊆ g.segs.dirty.victimSecmap
  bgGc : gcType = .bgGc →
    getSec sm out.result ∉ g.segs.dirty.victimSecmap ∧
      out.g.segs.dirty.victimSecmap = insert (getSec sm out.result) g.segs.dirty.victimSecmap

/-- From `got_it` on, for a whole section. -/
theorem takeVictim_taken {gcType : GcType} {g g₁ : GcInfo} {p : VictimPolicy} {minSegno : Nat}
    {result : Nat} {scan : Option ScanState} (hne : minSegno ≠ nullSegno)
    (hmain : getSec sm minSegno < sm.totalSections)
    (hunused : secUsageCheck sm g (getSec sm minSegno) = false)
    (halloc : p.allocMode = .LFS) (hunit : p.ofsUnit = sm.segsPerSec)
    (htables : SameTables g.segs g₁.segs)
    (hvictims : g₁.segs.dirty.victimSecmap ⊆ g.segs.dirty.victimSecmap)
    (hchosen : (∃ k ∈ g.segs.dirty.dirtySegmap dirtyAll, getSec sm k = getSec sm minSegno) ∨
      (gcType = .fgGc ∧ getSec sm minSegno ∈ g.segs.dirty.victimSecmap ∧
        getSec sm minSegno ∉ g₁.segs.dirty.victimSecmap))
    (hbg : gcType = .bgGc → getSec sm minSegno ∉ g.segs.dirty.victimSecmap ∧
      g₁.segs.dirty.victimSecmap = g.segs.dirty.victimSecmap) :
    Taken sm gcType g (takeVictim sm gcType g₁ p minSegno result scan) := by
  have hsec : getSec sm (minSegno / p.ofsUnit * p.ofsUnit) = getSec sm minSegno :=
    getSec_unit (Or.inr hunit) minSegno
  have hstart : minSegno / p.ofsUnit * p.ofsUnit = segFromSec sm (getSec sm minSegno) := by
    rw [hunit]
    rfl
  unfold takeVictim
  rw [if_neg hne]
  simp only [if_pos halloc]
  by_cases hfg : gcType = .fgGc
  · rw [if_pos hfg]
    refine ⟨?_, ?_, ?_, htables, ?_, fun _ => ⟨?_, hvictims⟩, fun hc => ?_⟩
    all_goals simp only [hsec]
    · exact hstart
    · exact hmain
    · exact hunused
    · exact hchosen
    · rw [hfg] at hc
      cases hc
  · rw [if_neg hfg]
    refine ⟨?_, ?_, ?_, ?_, Or.inl ?_, fun hc => absurd hc hfg, fun hc => ⟨?_, ?_⟩⟩
    all_goals simp only [hsec]
    · exact hstart
    · exact hmain
    · exact hunused
    · exact ⟨htables.curseg, htables.sentries, htables.secEntries, htables.ssa, htables.free,
        htables.dirty⟩
    · exact hchosen.resolve_right fun hc => hfg hc.1
    · exact (hbg hc).1
    · rw [(hbg hc).2]

theorem getVictim_taken {gcType : GcType} {g : GcInfo} {fuel : Nat} {out : VictimOut}
    (hmap : ∀ t, g.segs.dirty.dirtySegmap t ⊆ Finset.range sm.mainSegments)
    (hfuel : ∀ mode, g.lastVictim mode + 1 + sm.mainSegments < fuel)
    (h : getVictimByDefault sm gcType g nullSegno none .LFS fuel = some out)
    (hne : out.minSegno ≠ nullSegno) : Taken sm gcType g out := by
  have hspares : gcType = .bgGc → getSec sm out.minSegno ∉ g.segs.dirty.victimSecmap := by
    rintro rfl
    exact getVictim_spares h hne
  unfold getVictimByDefault at h
  simp only [ne_eq, not_true_eq_false, if_false] at h
  split at h
  · obtain rfl := Option.some.inj h
    exact absurd rfl hne
  split at h
  case h_1 secno hbg =>
    -- a section BG_GC chose
    obtain rfl := Option.some.inj h
    have hfg : True ∧ gcType = .fgGc := by
      by_contra hc
      rw [if_neg hc] at hbg
      cases hbg
    rw [if_pos hfg] at hbg
    have hfind := List.find?_some hbg
    rw [Bool.and_eq_true, Bool.and_eq_true, Bool.not_eq_true', decide_eq_true_eq] at hfind
    have hsec : getSec sm (segFromSec sm secno) = secno := Nat.mul_div_cancel _ sm.segsPerSec_pos
    have hlt : secno < sm.totalSections := List.mem_range.mp (List.mem_of_find?_eq_some hbg)
    have hnull : segFromSec sm secno ≠ nullSegno := fun hc => by
      rw [takeVictim_null hc] at hne
      exact hne hc
    refine takeVictim_taken hnull (hsec.symm ▸ hlt) (hsec.symm ▸ hfind.1.2) rfl rfl
      ⟨rfl, rfl, rfl, rfl, rfl, rfl⟩ (Finset.erase_subset _ _) (Or.inr ⟨hfg.2, ?_⟩) fun hc => ?_
    · rw [hsec]
      exact ⟨hfind.1.1, Finset.notMem_erase _ _⟩
    · rw [hfg.2] at hc
      cases hc
  case h_2 hbg =>
    obtain ⟨st, hrun, rfl⟩ := Option.map_eq_some_iff.mp h
    have hoffset : (selectPolicy sm g gcType none .LFS).offset = 0 ∨
        (selectPolicy sm g gcType none .LFS).offset =
          g.lastVictim (selectPolicy sm g gcType none .LFS).gcMode := by
      unfold selectPolicy
      simp only
      split
      · exact Or.inl rfl
      · exact Or.inr rfl
    have hunit : 0 < (selectPolicy sm g gcType none .LFS).ofsUnit := sm.segsPerSec_pos
    obtain ⟨st', hrun', hdone⟩ := scan_total gcType hunit (hmap dirtyAll) hoffset rfl
      (g.lastVictim (selectPolicy sm g gcType none .LFS).gcMode)
      (hfuel (selectPolicy sm g gcType none .LFS).gcMode)
    obtain rfl := Option.some.inj (hrun.symm.trans hrun')
    have hnull : st.p.minSegno ≠ nullSegno := fun hc => by
      rw [takeVictim_null hc] at hne
      exact hne hc
    obtain ⟨-, hex⟩ := hdone.cheapest.chosen.resolve_left fun hc => hnull hc.1
    have hmem : st.p.minSegno ∈ g.segs.dirty.dirtySegmap dirtyAll := hdone.cheapest.inMap _ hex
    have hsame := congrArg DirtySeglist.victimSecmap hdone.same.dirty
    refine takeVictim_taken hnull (getSec_lt (Finset.mem_range.mp (hmap _ hmem)))
      (hdone.cheapest.usable _ hex _ rfl).1 hdone.policy.allocMode hdone.policy.unit
      hdone.same.sameTables hsame.subset (Or.inl ⟨_, hmem, rfl⟩) fun hc => ⟨?_, hsame⟩
    rw [(takeVictim_fields hnull).1] at hspares
    exact hspares hc

end

end F2fs.Gc

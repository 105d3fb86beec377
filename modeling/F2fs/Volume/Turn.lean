/-
  A log turns to another segment: `new_curseg` takes a free one, `change_curseg` a dirty one.

  Either way the segment the log leaves is on no list afterwards, and every other segment is
  where it belongs (`Lists.turn`).
-/
import F2fs.Volume.Lists
import F2fs.Segment.SectionSearch

namespace F2fs.Volume

open F2fs.Segment F2fs.Gc
open SegManager (isCurseg_iff isCurseg_false_iff mem_removeDirty_pre mem_removeDirty_all
  setCurseg_self setCurseg_ne)

section

variable {sm : SmInfo} {s u : SegManager} {type : CursegType}

/-! ## What the two functions change -/

/-- `new_curseg`. -/
theorem newCurseg_tables (h : SegManager.Books sm s) {newSec : Bool}
    (hnew : s.newCurseg sm type newSec = some u) :
    (u.curseg type).segno ∉ s.free.freeSegmap ∧
      u.free = s.free.setInuse sm (u.curseg type).segno ∧
      u.sit = s.sit.setSitEntryType type (u.curseg type).segno true ∧
      u.dirty = s.dirty ∧
      (u.curseg type).sumBlk =
        { (s.curseg type).sumBlk with entryType := sumTypeOf type.isNodeSeg } := by
  unfold SegManager.newCurseg at hnew
  obtain ⟨⟨m, free⟩, hget, rfl⟩ := Option.map_eq_some_iff.mp hnew
  obtain ⟨-, hfree, hinuse⟩ := getNewSegment_some h.segmap (fun hc => by
    refine getNextSegno_lt (h.logMain type) (hc.imp id fun hdir htype => ?_)
    rw [if_pos (htype.elim Or.inl fun hcold => Or.inr (Or.inl hcold))] at hdir
    cases hdir) hget
  unfold SegManager.resetCurseg
  simp only [setCurseg_self]
  exact ⟨hfree, hinuse, rfl, rfl, rfl⟩

theorem removeDirty_congr {v w : SegManager} (hdirty : v.dirty = w.dirty) (hsit : v.sit = w.sit)
    (segno t : Nat) : (v.removeDirty sm segno t).dirty = (w.removeDirty sm segno t).dirty := by
  unfold SegManager.removeDirty
  rw [hdirty, hsit]
  split <;> rfl

theorem removeDirty_sit (w : SegManager) (segno t : Nat) :
    (w.removeDirty sm segno t).sit = w.sit :=
  (SegManager.sameButDirty_removeDirty sm w segno t).2.1

/-- `change_curseg` to the segment `m`. -/
theorem changeCurseg_tables (sm : SmInfo) (s : SegManager) (type : CursegType) (m : Nat) :
    let u := (s.setCurseg type { s.curseg type with nextSegno := m }).changeCurseg sm type
    u.free = s.free.setTestAndInuse sm m ∧
      u.sit = s.sit.setSitEntryType type m true ∧
      u.dirty = ((s.removeDirty sm m dirtyPre).removeDirty sm m dirtyAll).dirty ∧
      (u.curseg type).sumBlk =
        { entries := (Function.update s.ssa (s.curseg type).segno (s.curseg type).sumBlk m).entries
          entryType := sumTypeOf type.isNodeSeg } := by
  intro u
  set v := s.setCurseg type { s.curseg type with nextSegno := m } with hv
  have hself : v.curseg type = { s.curseg type with nextSegno := m } := setCurseg_self _ _ _
  have hsegno : (v.curseg type).segno = (s.curseg type).segno := by rw [hself]
  have hnext : (v.curseg type).nextSegno = m := by rw [hself]
  have hsum : (v.curseg type).sumBlk = (s.curseg type).sumBlk := by rw [hself]
  set w : SegManager := { v.writeSumPage (v.curseg type).sumBlk (v.curseg type).segno with
    free := v.free.setTestAndInuse sm (v.curseg type).nextSegno } with hw
  set x := (w.removeDirty sm (v.curseg type).nextSegno dirtyPre).removeDirty sm
    (v.curseg type).nextSegno dirtyAll with hx
  have hxeq : x = { w with dirty := x.dirty } := by
    rw [hx, SegManager.removeDirty_eq, SegManager.removeDirty_eq (s := w)]
  refine ⟨?_, ?_, ?_, ?_⟩
  · have hfree : u.free = x.free := rfl
    rw [hfree, hxeq, ← hnext]
    rfl
  · have hsit := SegManager.changeCurseg_sit sm v type
    rw [hnext] at hsit
    exact hsit
  · have hdirty : u.dirty = x.dirty := rfl
    rw [hdirty, hx, hnext]
    refine removeDirty_congr (removeDirty_congr rfl rfl m dirtyPre) ?_ m dirtyAll
    rw [removeDirty_sit]
  · obtain ⟨t, -, -, hssa, heq⟩ := SegManager.changeCurseg_reset sm v type
    have htype : ((t.resetCurseg sm type true).curseg type).sumBlk.entryType =
        sumTypeOf type.isNodeSeg := by
      unfold SegManager.resetCurseg
      rw [setCurseg_self]
      rfl
    have hssa' : t.ssa = Function.update s.ssa (s.curseg type).segno (s.curseg type).sumBlk := by
      rw [hssa, hsegno, hsum]
      rfl
    have hu : u = _ := heq
    rw [hu, setCurseg_self, ← htype, ← hssa', hnext]

/-- What SSR may take: a dirty segment of the log's kind, node or data, with a free block. -/
def SsrFits (s : SegManager) (type : CursegType) (found : Option Nat) : Prop :=
  ∀ m, found = some m → m ∈ s.dirty.dirtySegmap dirtyAll ∧
    isNodeType (s.sit.sentries m).type = type.isNodeSeg ∧ ∃ i, (s.sit.sentries m).FreeAt i

/-- A segment on the list of a log that `get_ssr_segment` asks for is of the same kind. -/
theorem sameKind {type t : CursegType} (ht : t ∈ type :: SegManager.ssrTypes type) {x : Fin 64}
    (hx : x.val = t.idx) : isNodeType x = type.isNodeSeg := by
  unfold isNodeType
  rw [hx]
  cases type <;> cases t <;> first | rfl | exact absurd ht (by decide)

theorem ssr_fits {g : GcInfo} {fuel : Nat} (h : SegManager.Books sm g.segs)
    (hfuel : ∀ mode, max (g.lastVictim mode) sm.mainSegments + 1 + sm.mainSegments < fuel)
    (needSSR crcRecovery : Bool) :
    SsrFits g.segs type (SegManager.getSsrSegment
      (victimPolicy sm fuel g type needSSR crcRecovery) type) := by
  have hok : SearchOk sm g.segs := ⟨h.counted, h.dirtyMain⟩
  obtain ⟨found, g', hcall, hfound⟩ := askVictims_spec
    (Q := fun m => m ∈ g.segs.dirty.dirtySegmap dirtyAll ∧
      isNodeType (g.segs.sit.sentries m).type = type.isNodeSeg ∧
      ∃ i, (g.segs.sit.sentries m).FreeAt i) fuel g (type :: SegManager.ssrTypes type)
    (fun g₁ t ht out hsame hok₁ _ hsel hne => by
      obtain ⟨-, hmem, hfree⟩ := hsel.ssr hok₁ hne
      rw [hsame.dirty] at hmem
      rw [hsame.sentries] at hfree
      obtain ⟨hdirty, htype⟩ := h.lists (idx_lt_dirtyAll t) hmem
      exact ⟨hdirty, sameKind ht htype, hfree⟩)
    g (SameSegments.refl g) hok hfuel
  rw [getSsrSegment_victimPolicy needSSR crcRecovery hcall]
  exact hfound

/-- What `allocate_segment_by_default` does: the log goes to a segment that was free, or to
    one that was dirty. -/
structure Turned (sm : SmInfo) (s u : SegManager) (type : CursegType) (m : Nat) : Prop where
  moved : SegManager.LogMoved s u type m
  books : SegManager.Books sm u
  rooms : ∀ t, u.LogRoom t
  sit : u.sit = s.sit.setSitEntryType type m true
  main : m < sm.mainSegments
  notLog : ∀ t, (s.curseg t).segno ≠ m
  footer : (u.curseg type).sumBlk.entryType = sumTypeOf type.isNodeSeg
  how : (m ∉ s.free.freeSegmap ∧ u.free = s.free.setInuse sm m ∧ u.dirty = s.dirty) ∨
    (m ∈ s.dirty.dirtySegmap dirtyAll ∧ u.free = s.free ∧
      u.dirty = ((s.removeDirty sm m dirtyPre).removeDirty sm m dirtyAll).dirty ∧
      (u.curseg type).sumBlk.entries = (s.ssa m).entries ∧
      isNodeType (s.sit.sentries m).type = type.isNodeSeg)

theorem turned_newCurseg (h : SegManager.Books sm s) (hrooms : ∀ t, t ≠ type → s.LogRoom t)
    {newSec : Bool} (hnew : s.newCurseg sm type newSec = some u) :
    Turned sm s u type (u.curseg type).segno := by
  obtain ⟨m, hbooks, hmoved, hroom, -, -, -, hmain, hfree, -⟩ := SegManager.newCurseg_spec h hnew
  obtain ⟨-, hinuse, hsit, hdirty, hsum⟩ := newCurseg_tables h hnew
  rw [hmoved.segno] at hinuse hsit ⊢
  refine ⟨hmoved, hbooks, fun t => ?_, hsit, hmain, fun t heq => hfree (heq ▸ h.logInUse t), ?_,
    Or.inl ⟨hfree, hinuse, hdirty⟩⟩
  · by_cases ht : t = type
    · rwa [ht]
    · exact hmoved.room ht (hrooms t ht)
  · rw [hsum]

theorem turned_changeCurseg (h : SegManager.Books sm s) (hrooms : ∀ t, t ≠ type → s.LogRoom t)
    {m i : Nat} (hm : m ∈ s.dirty.dirtySegmap dirtyAll) (hi : (s.sit.sentries m).FreeAt i)
    (hkind : isNodeType (s.sit.sentries m).type = type.isNodeSeg) :
    Turned sm s ((s.setCurseg type { s.curseg type with nextSegno := m }).changeCurseg sm type)
      type m := by
  obtain ⟨hbooks, hmoved, hroom, -⟩ := SegManager.changeCurseg_spec h type hm hi
  obtain ⟨hinuse, hsit, hdirty, hsum⟩ := changeCurseg_tables sm s type m
  have hlog : ∀ t, (s.curseg t).segno ≠ m := fun t heq => h.dirtyLog t (heq ▸ hm)
  refine ⟨hmoved, hbooks, fun t => ?_, hsit, Finset.mem_range.mp (h.dirtyMain _ hm), hlog, ?_,
    Or.inr ⟨hm, hinuse.trans (if_pos (h.dirtyInUse hm)), hdirty, ?_, hkind⟩⟩
  · by_cases ht : t = type
    · rwa [ht]
    · exact hmoved.room ht (hrooms t ht)
  · rw [hsum]
  · rw [hsum, Function.update_of_ne (hlog type).symm]

theorem turned_allocateSegment (h : SegManager.Books sm s) (hrooms : ∀ t, t ≠ type → s.LogRoom t)
    {p : SegManager.AllocPolicy} {force : Bool}
    (hp : force = false → SsrFits s type (SegManager.getSsrSegment p type))
    (heq : s.allocateSegmentByDefault sm p type force = some u) :
    ∃ m, Turned sm s u type m := by
  cases force with
  | true =>
      unfold SegManager.allocateSegmentByDefault at heq
      rw [if_pos rfl] at heq
      exact ⟨_, turned_newCurseg h hrooms heq⟩
  | false =>
      rcases SegManager.allocateSegmentByDefault_cases sm heq with ⟨newSec, hnew⟩ | ⟨m, hfound, rfl⟩
      · exact ⟨_, turned_newCurseg h hrooms hnew⟩
      · obtain ⟨hm, hkind, i, hi⟩ := hp rfl m hfound
        exact ⟨m, turned_changeCurseg h hrooms hm hi hkind⟩

/-! ## The lists -/

theorem Turned.isCurseg {m : Nat} (h : Turned sm s u type m) {k : Nat} (hk : k ≠ m)
    (hj : k ≠ (s.curseg type).segno) : u.isCurseg k = s.isCurseg k := by
  rw [Bool.eq_iff_iff, isCurseg_iff, isCurseg_iff]
  constructor
  · rintro ⟨t, ht⟩
    by_cases htt : t = type
    · rw [htt, h.moved.segno] at ht
      exact absurd ht.symm hk
    · rw [h.moved.other t htt] at ht
      exact ⟨t, ht⟩
  · rintro ⟨t, ht⟩
    by_cases htt : t = type
    · rw [htt] at ht
      exact absurd ht.symm hj
    · exact ⟨t, (congrArg Curseg.segno (h.moved.other t htt)).trans ht⟩

theorem Turned.inUse {m : Nat} (h : Turned sm s u type m) {k : Nat} :
    k ∈ u.free.freeSegmap ↔ k = m ∨ k ∈ s.free.freeSegmap := by
  rcases h.how with ⟨-, hfree, -⟩ | ⟨-, hfree, -⟩
  · rw [hfree, setInuse_freeSegmap, Finset.mem_insert]
  · rw [hfree]
    refine ⟨Or.inr, fun hk => hk.elim ?_ id⟩
    rintro rfl
    have hk : k ∈ u.free.freeSegmap := h.moved.segno ▸ h.books.logInUse type
    rwa [hfree] at hk

theorem Turned.left {m : Nat} (h : Turned sm s u type m) {k : Nat} (hk : k ≠ m)
    (hj : k ≠ (s.curseg type).segno) : Left u k ↔ Left s k := by
  unfold Left
  rw [h.isCurseg hk hj, h.inUse]
  exact and_congr_left fun _ => ⟨fun hc => hc.resolve_left hk, Or.inr⟩

theorem Turned.mem_dirty {m : Nat} (h : Turned sm s u type m) (hbooks : SegManager.Books sm s)
    {but : Finset Nat} (hlists : Lists sm s but) {k t : Nat} :
    k ∈ u.dirty.dirtySegmap t ↔ k ∈ s.dirty.dirtySegmap t ∧
      ¬(k = m ∧ (t = dirtyAll ∨ t = dirtyPre ∨ t = (s.sit.sentries m).type.val)) := by
  rcases h.how with ⟨hfree, -, hdirty⟩ | ⟨-, -, hdirty, -⟩
  · rw [hdirty]
    refine ⟨fun hk => ⟨hk, ?_⟩, And.left⟩
    rintro ⟨rfl, rfl | rfl | rfl⟩
    · exact hfree (hbooks.dirtyInUse hk)
    · exact hfree (hlists.pre k hk).1.1
    · exact hfree (hbooks.dirtyInUse (hbooks.lists (hlists.types k h.main) hk).1)
  · rw [hdirty, mem_removeDirty_all, mem_removeDirty_pre, removeDirty_sit]
    tauto

theorem Turned.sentry {m : Nat} (h : Turned sm s u type m) {k : Nat} (hk : k ≠ m) :
    u.sit.sentries k = s.sit.sentries k := by
  rw [h.sit, setSitEntryType_sentries, Function.update_of_ne hk]

theorem Turned.type_eq {m : Nat} (h : Turned sm s u type m) :
    (u.sit.sentries m).type.val = type.idx := by
  rw [h.sit, setSitEntryType_sentries, Function.update_self]
  exact Nat.mod_eq_of_lt (Nat.lt_trans type.idx_lt (by decide))

theorem Turned.count {m : Nat} (h : Turned sm s u type m)
    (hcount : ∀ t, s.dirty.nrDirty t = ((s.dirty.dirtySegmap t).card : Int)) (t : Nat) :
    u.dirty.nrDirty t = ((u.dirty.dirtySegmap t).card : Int) := by
  rcases h.how with ⟨-, -, hdirty⟩ | ⟨-, -, hdirty, -⟩
  · rw [hdirty]
    exact hcount t
  · rw [hdirty]
    exact removeDirty_count (removeDirty_count hcount m dirtyPre) m dirtyAll t

/-- The segment the log leaves is on no list yet. -/
theorem Lists.turn {but : Finset Nat} (hlists : Lists sm s but) (hbooks : SegManager.Books sm s)
    {m : Nat} (h : Turned sm s u type m) : Lists sm u (insert (s.curseg type).segno but) := by
  have hmem := fun k t => h.mem_dirty hbooks hlists (k := k) (t := t)
  have hleft : ¬Left u m := fun hc => isCurseg_false_iff.mp hc.2 type h.moved.segno
  have hsame : ∀ k, k ≠ m → k ≠ (s.curseg type).segno → Listed s k → Listed u k := by
    intro k hk hj hlist
    constructor
    · rw [hmem, h.left hk hj, h.sentry hk, ← hlist.dirty]
      exact ⟨And.left, fun hc => ⟨hc, fun heq => hk heq.1⟩⟩
    · rw [hmem, h.left hk hj, h.sentry hk, ← hlist.pre]
      exact ⟨And.left, fun hc => ⟨hc, fun heq => hk heq.1⟩⟩
  have hne : ∀ {k}, k ∈ u.dirty.dirtySegmap dirtyPre → k ≠ m := fun {k} hk heq =>
    ((hmem k dirtyPre).mp hk).2 ⟨heq, Or.inr (Or.inl rfl)⟩
  refine ⟨fun k hk hnot => ?_, fun k hk => ?_, fun k hk => ?_, fun k hk => ?_, fun k hk => ?_,
    h.count hlists.count⟩
  · rw [Finset.mem_insert, not_or] at hnot
    by_cases hkm : k = m
    · subst hkm
      exact ⟨iff_of_false (fun hc => ((hmem k dirtyAll).mp hc).2 ⟨rfl, Or.inl rfl⟩)
          fun hc => hleft hc.1,
        iff_of_false (fun hc => hne hc rfl) fun hc => hleft hc.1⟩
    · exact hsame k hkm hnot.1 (hlists.listed k hk hnot.2)
  · have hold := hlists.pre k ((hmem k dirtyPre).mp hk).1
    have hj : k ≠ (s.curseg type).segno := (isCurseg_false_iff.mp hold.1.2 type).symm
    rw [h.left (hne hk) hj, h.sentry (hne hk)]
    exact hold
  · exact hlists.preMain ((hmem k dirtyPre).mp hk).1
  · obtain ⟨hold, hkm⟩ := (hmem k dirtyAll).mp hk
    have hkm : k ≠ m := fun hc => hkm ⟨hc, Or.inl rfl⟩
    rw [hmem, h.sentry hkm]
    exact ⟨hlists.byType k hold, fun hc => hkm hc.1⟩
  · by_cases hkm : k = m
    · rw [hkm, h.type_eq]
      exact idx_lt_dirtyAll type
    · rw [h.sentry hkm]
      exact hlists.types k hk

/-- The counts of free segments and sections. -/
theorem Turned.segmap {m : Nat} (h : Turned sm s u type m) (hfree : SegmapBooks sm s.free) :
    SegmapBooks sm u.free := by
  rcases h.how with ⟨hm, heq, -⟩ | ⟨-, heq, -⟩
  · rw [heq]
    exact hfree.setInuse h.main hm
  · rwa [heq]

end

end F2fs.Volume

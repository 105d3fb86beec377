/-
  The `gc_more` loop of `f2fs_gc` with `sync` false: when it ends, and a volume on which it
  does not.

  Every round of FG_GC empties a section, as long as the valid blocks of the section can be
  moved: a block of a pinned file stays, but `f2fs_pin_file_control` counts it, and the file
  loses its pin some time.  So first `pinBudget` and then the number of dirty segments, open
  logs and sections in `victim_secmap` comes down.  BG_GC uses up the dirty segments outside
  `victim_secmap`.  Nothing counts the blocks `move_data_page` leaves where they are because
  the file is atomic: FG_GC takes their section again and again.
-/
import F2fs.Gc.CollectSection

namespace F2fs.Gc

open F2fs.Segment
open SegManager (BooksOk SectionEmpty openDirt dirtyOutside looseLogs)
open Loop (Turn Stands)

/-! ## What there is to collect -/

/-- No log stands in a section BG_GC chose, and each of them is in use. -/
structure VictimsApart (sm : SmInfo) (s : SegManager) : Prop where
  inUse : s.dirty.victimSecmap ⊆ s.free.freeSecmap
  apart : ∀ t, getSec sm (s.curseg t).segno ∉ s.dirty.victimSecmap

section

variable {sm : SmInfo} {s s' : SegManager} {secs secs' : Finset Nat}

theorem openDirt_anti (hsub : secs ⊆ secs') : openDirt sm s secs' ≤ openDirt sm s secs := by
  refine Nat.add_le_add_right (Finset.card_le_card fun k hk => ?_) _
  obtain ⟨hk, hout⟩ := SegManager.mem_dirtyOutside.mp hk
  exact SegManager.mem_dirtyOutside.mpr ⟨hk, fun hc => hout (hsub hc)⟩

/-- A section with a dirty segment is left out. -/
theorem openDirt_lt {k : Nat} (hsub : secs ⊆ secs') (hk : k ∈ s.dirty.dirtySegmap dirtyAll)
    (hin : getSec sm k ∈ secs') (hout : getSec sm k ∉ secs) :
    openDirt sm s secs' < openDirt sm s secs := by
  have hsubset : dirtyOutside sm s secs' ⊆ dirtyOutside sm s secs := fun j hj => by
    obtain ⟨hj, hjout⟩ := SegManager.mem_dirtyOutside.mp hj
    exact SegManager.mem_dirtyOutside.mpr ⟨hj, fun hc => hjout (hsub hc)⟩
  have hssubset : dirtyOutside sm s secs' ⊂ dirtyOutside sm s secs :=
    (Finset.ssubset_iff_of_subset hsubset).mpr ⟨k, SegManager.mem_dirtyOutside.mpr ⟨hk, hout⟩,
      fun hc => (SegManager.mem_dirtyOutside.mp hc).2 hin⟩
  exact Nat.add_lt_add_right (Finset.card_lt_card hssubset) _

/-- Sections without dirty segments count for nothing. -/
theorem openDirt_le_of_clean
    (hclean : ∀ c ∈ secs', c ∉ secs → ∀ k ∈ s.dirty.dirtySegmap dirtyAll, getSec sm k ≠ c) :
    openDirt sm s secs ≤ openDirt sm s secs' := by
  refine Nat.add_le_add_right (Finset.card_le_card fun k hk => ?_) _
  obtain ⟨hk, hout⟩ := SegManager.mem_dirtyOutside.mp hk
  exact SegManager.mem_dirtyOutside.mpr ⟨hk, fun hc => hclean _ hc hout k hk rfl⟩

theorem SameTables.openDirt (h : SameTables s s') (sm : SmInfo) (secs : Finset Nat) :
    SegManager.openDirt sm s' secs = SegManager.openDirt sm s secs := by
  have hloose : looseLogs s' = looseLogs s := by
    ext t
    rw [SegManager.mem_looseLogs, SegManager.mem_looseLogs]
    unfold SegManager.Loose
    rw [h.curseg, h.sentries]
  unfold SegManager.openDirt dirtyOutside
  rw [hloose, h.dirty]

end

section

variable {env : GcEnv} {fs fs' fs₂ : GcFs} {gcType : GcType} {out : VictimOut} {n : Nat}

/-- The sections that are counted, and the sections BG_GC has left for FG_GC. -/
def collectable (env : GcEnv) (fs : GcFs) : Nat :=
  openDirt env.sm fs.segs ∅ + fs.segs.dirty.victimSecmap.card

/-- What BG_GC can still choose. -/
def choosable (env : GcEnv) (fs : GcFs) : Nat :=
  openDirt env.sm fs.segs fs.segs.dirty.victimSecmap

/-! ## One section -/

theorem getVictim_spec (h : BooksOk env.sm fs.segs)
    (hget : getVictim env gcType nullSegno fs = some out) (hne : out.minSegno ≠ nullSegno) :
    Taken env.sm gcType fs.g out := by
  refine getVictim_taken h.dirtyMain (fun mode => ?_) hget hne
  unfold scanFuel
  have hpos : 0 < env.sm.mainSegments := Nat.lt_of_le_of_lt (Nat.zero_le _) (h.logMain .hotData)
  cases mode <;> omega

/-- Without dirty segments there is no victim. -/
theorem getVictim_clean (hzero : fs.segs.dirty.nrDirty dirtyAll = 0)
    (hget : getVictim env gcType nullSegno fs = some out) : out.minSegno = nullSegno := by
  have hmax : (selectPolicy env.sm fs.g gcType none .LFS).maxSearch = 0 := by
    unfold selectPolicy
    simp only
    rw [show fs.g.segs.dirty.nrDirty dirtyAll = 0 from hzero]
    split
    case isTrue h => exact absurd h.2 (Nat.not_lt_zero _)
    case isFalse => rfl
  unfold getVictim getVictimByDefault at hget
  simp only [ne_eq, not_true_eq_false, if_false, hmax, if_true] at hget
  rw [← Option.some.inj hget]

theorem Taken.notLog (htaken : Taken env.sm gcType fs.g out) (t : CursegType) :
    getSec env.sm (fs.segs.curseg t).segno ≠ getSec env.sm out.result := by
  have hunused := htaken.unused
  unfold secUsageCheck at hunused
  rw [Bool.or_eq_false_iff] at hunused
  intro hc
  have hall := List.any_eq_false.mp hunused.1 t (CursegType.mem_all t)
  exact hall (decide_eq_true hc.symm)

theorem Taken.victims (htaken : Taken env.sm gcType fs.g out)
    (hgc : gcType = .bgGc ∨ gcType = .fgGc) :
    out.g.segs.dirty.victimSecmap ⊆
      insert (getSec env.sm out.result) fs.segs.dirty.victimSecmap := by
  rcases hgc with hbg | hfg
  · exact (htaken.bgGc hbg).2.subset
  · exact (htaken.fgGc hfg).2.trans (Finset.subset_insert _ _)

/-- The section is in use. -/
theorem Taken.used (htaken : Taken env.sm gcType fs.g out) (h : BooksOk env.sm fs.segs)
    (hused : fs.segs.dirty.victimSecmap ⊆ fs.segs.free.freeSecmap) :
    getSec env.sm out.result ∈ fs.segs.free.freeSecmap := by
  rcases htaken.chosen with ⟨k, hk, hsec⟩ | ⟨-, hmem, -⟩
  · have hmain := Finset.mem_range.mp (h.dirtyMain _ hk)
    exact hsec ▸ (h.segmap _ (getSec_lt hmain)).mpr ⟨k, h.dirtyInUse hk, rfl⟩
  · exact hused hmem

/-- The pass over the section that was taken starts. -/
theorem Taken.pass {isData : Bool} (secs : Finset Nat) (htaken : Taken env.sm gcType fs.g out)
    (hgc : gcType = .bgGc ∨ gcType = .fgGc) (h : BooksOk env.sm fs.segs)
    (hin : getSec env.sm out.result ∈ secs)
    (hapart : ∀ t, getSec env.sm (fs.segs.curseg t).segno ∉ secs)
    (huse : secs ⊆ fs.segs.free.freeSecmap) (hguard : ∀ c ∈ secs, Guarded out.g c)
    (hmovable : Movable env isData (getSec env.sm out.result) { fs with g := out.g }) :
    Pass env isData secs (getSec env.sm out.result) { fs with g := out.g } where
  books := htaken.tables.booksOk h ((htaken.victims hgc).trans
    (Finset.insert_subset (Finset.mem_range.mpr htaken.inMain) h.victims))
  inSecs := hin
  apart t := htaken.tables.curseg ▸ hapart t
  inUse := htaken.tables.free ▸ huse
  guarded c hc := Or.inl (hguard c hc)
  movable := hmovable

/-- FG_GC empties the section, or a pinned file spends some of the budget. -/
theorem collect_fgGc (htaken : Taken env.sm .fgGc fs.g out) (h : BooksOk env.sm fs.segs)
    (hused : fs.segs.dirty.victimSecmap ⊆ fs.segs.free.freeSecmap)
    (hmovable : Movable env (isDataSection { fs with g := out.g } out.result)
      (getSec env.sm out.result) { fs with g := out.g })
    (hthresh : env.pinThreshold < 2 ^ 16 - 1) (hcp : env.cpError = false)
    (heq : doGarbageCollect env .fgGc out.result { fs with g := out.g } = some (fs₂, n)) :
    BooksOk env.sm fs₂.segs ∧ fs₂.segs.dirty.victimSecmap ⊆ fs₂.segs.free.freeSecmap ∧
      (pinBudget env fs₂ < pinBudget env fs ∨
        pinBudget env fs₂ ≤ pinBudget env fs ∧ collectable env fs₂ < collectable env fs) := by
  obtain ⟨hcur, hvictims⟩ := htaken.fgGc rfl
  have hopen := htaken.tables.openDirt env.sm
  have hpass := htaken.pass {getSec env.sm out.result} (Or.inr rfl) h
    (Finset.mem_singleton_self _) (fun t hc => htaken.notLog t (Finset.mem_singleton.mp hc))
    (Finset.singleton_subset_iff.mpr (htaken.used h hused))
    (fun c hc => Or.inl (hcur.trans (Finset.mem_singleton.mp hc).symm)) hmovable
  have hinMain := htaken.inMain
  have hchosen := htaken.chosen
  have hfree := htaken.tables.free
  have hstart := htaken.start
  generalize getSec env.sm out.result = secno at *
  rw [hstart] at hpass heq
  obtain ⟨hpass₂, hafter, hdone⟩ := doGarbageCollect_pass hinMain hpass hthresh hcp heq
  have hv₂ : fs₂.segs.dirty.victimSecmap ⊆ fs.segs.dirty.victimSecmap :=
    hafter.victims.trans hvictims
  refine ⟨hpass₂.books, (hv₂.trans hused).trans (hfree ▸ hafter.free), ?_⟩
  refine (hdone rfl).symm.imp id fun hempty => ⟨hafter.budget, ?_⟩
  have hclean := notDirty_of_empty hpass₂.books hempty
  have h₁ : openDirt env.sm fs₂.segs ∅ ≤ openDirt env.sm fs₂.segs {secno} :=
    openDirt_le_of_clean fun c hc _ => Finset.mem_singleton.mp hc ▸ hclean
  have h₂ : openDirt env.sm fs₂.segs {secno} ≤ openDirt env.sm fs.segs {secno} :=
    hafter.dirt.trans (hopen {secno}).le
  have h₃ : openDirt env.sm fs.segs {secno} ≤ openDirt env.sm fs.segs ∅ :=
    openDirt_anti (Finset.empty_subset _)
  have hcard := Finset.card_le_card hafter.victims
  have hcard' := Finset.card_le_card hvictims
  unfold collectable
  rcases hchosen with ⟨k, hk, hsec⟩ | ⟨-, hmem, hnot⟩
  · have hlt : openDirt env.sm fs.segs {secno} < openDirt env.sm fs.segs ∅ :=
      openDirt_lt (Finset.empty_subset _) hk (Finset.mem_singleton.mpr hsec)
        (Finset.notMem_empty _)
    have hle := hcard.trans hcard'
    exact Nat.add_lt_add_of_lt_of_le (Nat.lt_of_le_of_lt (h₁.trans h₂) hlt) hle
  · have hlt := Finset.card_lt_card
      ((Finset.ssubset_iff_of_subset hvictims).mpr ⟨secno, hmem, hnot⟩)
    exact Nat.add_lt_add_of_le_of_lt ((h₁.trans h₂).trans h₃) (Nat.lt_of_le_of_lt hcard hlt)

/-- BG_GC marks a section it could choose. -/
theorem collect_bgGc (htaken : Taken env.sm .bgGc fs.g out) (h : BooksOk env.sm fs.segs)
    (hvictims : VictimsApart env.sm fs.segs)
    (hmovable : Movable env (isDataSection { fs with g := out.g } out.result)
      (getSec env.sm out.result) { fs with g := out.g })
    (hthresh : env.pinThreshold < 2 ^ 16 - 1) (hcp : env.cpError = false)
    (heq : doGarbageCollect env .bgGc out.result { fs with g := out.g } = some (fs₂, n)) :
    BooksOk env.sm fs₂.segs ∧ VictimsApart env.sm fs₂.segs ∧
      choosable env fs₂ < choosable env fs := by
  obtain ⟨hnew, hmarked⟩ := htaken.bgGc rfl
  have hin : getSec env.sm out.result ∈ out.g.segs.dirty.victimSecmap :=
    hmarked ▸ Finset.mem_insert_self _ _
  have hpass := htaken.pass out.g.segs.dirty.victimSecmap (Or.inl rfl) h hin
    (fun t hc => by
      rcases Finset.mem_insert.mp (hmarked ▸ hc) with hlog | hlog
      · exact htaken.notLog t hlog
      · exact hvictims.apart t hlog)
    (by
      rw [hmarked]
      exact Finset.insert_subset (htaken.used h hvictims.inUse) hvictims.inUse)
    (fun c hc => Or.inr hc) hmovable
  have hopen := htaken.tables.openDirt env.sm out.g.segs.dirty.victimSecmap
  have hlt : openDirt env.sm fs.segs out.g.segs.dirty.victimSecmap < choosable env fs := by
    obtain ⟨k, hk, hsec⟩ := htaken.chosen.resolve_right fun hc => by cases hc.1
    exact openDirt_lt (hmarked ▸ Finset.subset_insert _ _) hk (hsec ▸ hin) (hsec ▸ hnew)
  have hinMain := htaken.inMain
  have hstart := htaken.start
  generalize getSec env.sm out.result = secno at *
  rw [hstart] at hpass heq
  obtain ⟨hpass₂, hafter, -⟩ := doGarbageCollect_pass hinMain hpass hthresh hcp heq
  have hkept : choosable env fs₂ ≤ openDirt env.sm fs₂.segs out.g.segs.dirty.victimSecmap :=
    openDirt_le_of_clean fun c hc hout =>
      notDirty_of_empty hpass₂.books ((hafter.kept c hc hc).resolve_left hout)
  exact ⟨hpass₂.books, ⟨hafter.victims.trans hpass₂.inUse,
      fun t hc => hpass₂.apart t (hafter.victims hc)⟩,
    Nat.lt_of_le_of_lt ((hkept.trans hafter.dirt).trans hopen.le) hlt⟩

end

/-! ## Rounds -/

/-- What a round of the loop must find for the loop to end. -/
structure RoundOk (env : GcEnv) (background : Bool) (st : GcLoop) : Prop where
  /-- Every valid block of the section that is taken can be moved. -/
  movable : ∀ gcType fs out, gcMore env background st = .inr (gcType, fs) →
    getVictim env gcType st.segno fs = some out → out.minSegno ≠ nullSegno →
    Movable env (isDataSection { fs with g := out.g } out.result) (getSec env.sm out.result)
      { fs with g := out.g }
  /-- A checkpoint that lets BG_GC go on leaves it no more to choose. -/
  checkpoint : background = true → st.gcType = .bgGc → hasNotEnoughFreeSecs env st.fs 0 = true →
    hasNotEnoughFreeSecs env (env.writeCheckpoint st.fs).2 0 = false →
    choosable env (env.writeCheckpoint st.fs).2 ≤ choosable env st.fs

/-- The tables between two rounds that look for their victim. -/
structure GcInv (env : GcEnv) (st : GcLoop) : Prop where
  unnamed : st.segno = nullSegno
  books : BooksOk env.sm st.fs.segs
  inUse : st.fs.segs.dirty.victimSecmap ⊆ st.fs.segs.free.freeSecmap
  type : st.gcType = .bgGc ∧ VictimsApart env.sm st.fs.segs ∨ st.gcType = .fgGc

/-- FG_GC does not go back to BG_GC. -/
def gcMeasure (env : GcEnv) (st : GcLoop) : ℕ ×ₗ ℕ ×ₗ ℕ :=
  if st.gcType = .bgGc then toLex (1, toLex (choosable env st.fs, 0))
  else toLex (0, toLex (pinBudget env st.fs, collectable env st.fs))

section

variable {env : GcEnv} {background : Bool} {st st' : GcLoop} {gcType : GcType} {fs : GcFs}

/-- The type of the collection, and whether a checkpoint was written. -/
theorem gcMore_cases (h : gcMore env background st = .inr (gcType, fs)) : env.cpError = false ∧
    ((gcType = st.gcType ∧ fs = st.fs) ∨
      (st.gcType = .bgGc ∧ gcType = .fgGc ∧ (fs = st.fs ∨ fs = (env.writeCheckpoint st.fs).2)) ∨
      (background = true ∧ st.gcType = .bgGc ∧ gcType = .bgGc ∧
        hasNotEnoughFreeSecs env st.fs 0 = true ∧ hasNotEnoughFreeSecs env fs 0 = false ∧
        fs = (env.writeCheckpoint st.fs).2)) := by
  unfold gcMore at h
  split at h
  · cases h
  split at h
  · cases h
  case isFalse hcp =>
    refine ⟨Bool.eq_false_of_not_eq_true hcp, ?_⟩
    simp only at h
    by_cases hshort : st.gcType = .bgGc ∧ hasNotEnoughFreeSecs env st.fs 0 = true
    · rw [if_pos hshort] at h
      obtain ⟨hbg, hshort'⟩ := hshort
      generalize hckpt : (if st.fs.segs.dirty.nrDirty dirtyPre ≠ 0 then env.writeCheckpoint st.fs
        else (0, st.fs)) = checked at h
      obtain ⟨ret, fs₁⟩ := checked
      have hfs : fs₁ = st.fs ∨ fs₁ = (env.writeCheckpoint st.fs).2 := by
        split at hckpt
        · exact Or.inr (congrArg Prod.snd hckpt).symm
        · exact Or.inl (congrArg Prod.snd hckpt).symm
      simp only at h
      by_cases hret : ret ≠ 0
      · rw [if_pos hret] at h
        cases h
      rw [if_neg hret] at h
      simp only at h
      by_cases hstill : hasNotEnoughFreeSecs env fs₁ 0 = true
      · rw [if_pos hstill, if_neg fun hc => by cases hc.1] at h
        obtain ⟨rfl, rfl⟩ := Prod.mk.inj (Sum.inr.inj h)
        exact Or.inr (Or.inl ⟨hbg, rfl, hfs⟩)
      · rw [if_neg hstill] at h
        split at h
        · cases h
        case isFalse hback =>
          obtain ⟨rfl, rfl⟩ := Prod.mk.inj (Sum.inr.inj h)
          have hbackground : background = true := not_not.mp fun hc => hback ⟨rfl, hc⟩
          refine Or.inr (Or.inr ⟨hbackground, hbg, rfl, hshort',
            Bool.eq_false_of_not_eq_true hstill, hfs.resolve_left ?_⟩)
          rintro rfl
          exact hstill hshort'
    · rw [if_neg hshort] at h
      simp only at h
      split at h
      · cases h
      obtain ⟨rfl, rfl⟩ := Prod.mk.inj (Sum.inr.inj h)
      exact Or.inl ⟨rfl, rfl⟩

/-- A round after which the loop goes on collected a section. -/
theorem gcRound_next (h : gcRound env false background st = .next st') :
    ∃ gcType fs out fs₂ n, gcMore env background st = .inr (gcType, fs) ∧
      getVictim env gcType st.segno fs = some out ∧ out.minSegno ≠ nullSegno ∧
      doGarbageCollect env gcType out.result { fs with g := out.g } = some (fs₂, n) ∧
      st'.gcType = gcType ∧ st'.segno = nullSegno ∧ st'.round = st.round + 1 ∧
      st'.fs.segs = fs₂.segs ∧ st'.fs.inode = fs₂.inode := by
  unfold gcRound at h
  split at h
  · cases h
  case h_2 gcType fs hmore =>
    split at h
    · cases h
    case h_2 out hget =>
      simp only at h
      split at h
      · cases h
      case isFalse hne =>
        split at h
        · cases h
        case h_2 fs₂ n hcollect =>
          refine ⟨gcType, fs, out, fs₂, n, hmore, hget, hne, hcollect, ?_⟩
          simp only [Bool.false_eq_true, if_false] at h
          generalize hfs₃ : (if gcType = .fgGc then
            ({ fs₂ with g := { fs₂.g with curVictimSec := nullSegno } } : GcFs) else fs₂) = fs₃ at h
          have hsame : fs₃.segs = fs₂.segs ∧ fs₃.inode = fs₂.inode := by
            rw [← hfs₃]
            split <;> exact ⟨rfl, rfl⟩
          generalize (if gcType = .fgGc ∧ n = env.sm.segsPerSec then st.secFreed + 1
            else st.secFreed) = secFreed at h
          split at h
          · obtain rfl := Turn.next.inj h
            exact ⟨rfl, rfl, rfl, hsame.1, hsame.2⟩
          · split at h <;> cases h

theorem GcInv.more (hinv : GcInv env st)
    (hckpt : ∀ fs, BooksOk env.sm fs.segs → VictimsApart env.sm fs.segs →
      BooksOk env.sm (env.writeCheckpoint fs).2.segs ∧
        VictimsApart env.sm (env.writeCheckpoint fs).2.segs)
    (h : gcMore env background st = .inr (gcType, fs)) : BooksOk env.sm fs.segs ∧
      fs.segs.dirty.victimSecmap ⊆ fs.segs.free.freeSecmap ∧
      (gcType = .bgGc ∧ VictimsApart env.sm fs.segs ∨ gcType = .fgGc) := by
  obtain ⟨-, ⟨rfl, rfl⟩ | ⟨hbg, rfl, hfs⟩ | ⟨-, hbg, rfl, -, -, rfl⟩⟩ := gcMore_cases h
  · exact ⟨hinv.books, hinv.inUse, hinv.type⟩
  · rcases hfs with rfl | rfl
    · exact ⟨hinv.books, hinv.inUse, Or.inr rfl⟩
    · obtain ⟨-, hapart⟩ := hinv.type.resolve_right fun hc => by rw [hbg] at hc; cases hc
      obtain ⟨hbooks, hvictims⟩ := hckpt st.fs hinv.books hapart
      exact ⟨hbooks, hvictims.inUse, Or.inr rfl⟩
  · obtain ⟨-, hapart⟩ := hinv.type.resolve_right fun hc => by rw [hbg] at hc; cases hc
    obtain ⟨hbooks, hvictims⟩ := hckpt st.fs hinv.books hapart
    exact ⟨hbooks, hvictims.inUse, Or.inl ⟨rfl, hvictims⟩⟩

/-- A round keeps the tables in order and brings the measure down. -/
theorem gcRound_down (hthresh : env.pinThreshold < 2 ^ 16 - 1)
    (hckpt : ∀ fs, BooksOk env.sm fs.segs → VictimsApart env.sm fs.segs →
      BooksOk env.sm (env.writeCheckpoint fs).2.segs ∧
        VictimsApart env.sm (env.writeCheckpoint fs).2.segs)
    (hinv : GcInv env st) (hok : RoundOk env background st)
    (h : gcRound env false background st = .next st') :
    GcInv env st' ∧ gcMeasure env st' < gcMeasure env st := by
  obtain ⟨gcType, fs, out, fs₂, n, hmore, hget, hne, hcollect, htype, hsegno, -, hsegs, hinode⟩ :=
    gcRound_next h
  obtain ⟨hcp, hcases⟩ := gcMore_cases hmore
  obtain ⟨hbooks, hused, hgc⟩ := hinv.more hckpt hmore
  have hbudget : pinBudget env st'.fs = pinBudget env fs₂ := pinBudget_congr hinode
  have hcollectable : collectable env st'.fs = collectable env fs₂ := by
    unfold collectable
    rw [hsegs]
  have hchoosable : choosable env st'.fs = choosable env fs₂ := by
    unfold choosable
    rw [hsegs]
  have hnull := hinv.unnamed
  have hmov := hok.movable gcType fs out hmore hget hne
  rw [hnull] at hget
  have htaken := getVictim_spec hbooks hget hne
  rcases hgc with ⟨rfl, hvictims⟩ | rfl
  · -- BG_GC
    obtain ⟨hbooks', hvictims', hlt⟩ :=
      collect_bgGc htaken hbooks hvictims hmov hthresh hcp hcollect
    rw [← hsegs] at hbooks' hvictims'
    refine ⟨⟨hsegno, hbooks', hvictims'.inUse, Or.inl ⟨htype, hvictims'⟩⟩, ?_⟩
    have hle : st.gcType = .bgGc ∧ choosable env fs ≤ choosable env st.fs := by
      rcases hcases with ⟨hsame, rfl⟩ | ⟨-, hc, -⟩ | ⟨hback, hbg, -, hshort, henough, rfl⟩
      · exact ⟨hsame.symm, Nat.le_refl _⟩
      · cases hc
      · exact ⟨hbg, hok.checkpoint hback hbg hshort henough⟩
    unfold gcMeasure
    simp only [htype, hle.1, if_true, hchoosable]
    refine Prod.Lex.toLex_lt_toLex.mpr (Or.inr ⟨rfl, ?_⟩)
    exact Prod.Lex.toLex_lt_toLex.mpr (Or.inl (Nat.lt_of_lt_of_le hlt hle.2))
  · -- FG_GC
    obtain ⟨hbooks', hused', hdown⟩ := collect_fgGc htaken hbooks hused hmov hthresh hcp hcollect
    rw [← hsegs] at hbooks' hused'
    refine ⟨⟨hsegno, hbooks', hused', Or.inr htype⟩, ?_⟩
    have hfg : ¬st'.gcType = .bgGc := fun hc => by rw [htype] at hc; cases hc
    unfold gcMeasure
    simp only [if_neg hfg, hbudget, hcollectable]
    by_cases hbg : st.gcType = .bgGc
    · rw [if_pos hbg]
      exact Prod.Lex.toLex_lt_toLex.mpr (Or.inl Nat.zero_lt_one)
    · obtain rfl : fs = st.fs := by
        rcases hcases with ⟨-, rfl⟩ | ⟨hc, -⟩ | ⟨-, hc, -⟩
        · rfl
        · exact absurd hc hbg
        · exact absurd hc hbg
      rw [if_neg hbg]
      refine Prod.Lex.toLex_lt_toLex.mpr (Or.inr ⟨rfl, Prod.Lex.toLex_lt_toLex.mpr ?_⟩)
      rcases hdown with hlt | ⟨hle, hlt⟩
      · exact Or.inl hlt
      · exact (Nat.lt_or_eq_of_le hle).imp id fun heq => ⟨heq, hlt⟩

/-- From a round that looks for its victim on. -/
theorem gcRound_ends (hthresh : env.pinThreshold < 2 ^ 16 - 1)
    (hckpt : ∀ fs, BooksOk env.sm fs.segs → VictimsApart env.sm fs.segs →
      BooksOk env.sm (env.writeCheckpoint fs).2.segs ∧
        VictimsApart env.sm (env.writeCheckpoint fs).2.segs)
    (hinv : GcInv env st)
    (hrounds : ∀ st', Stands (gcRound env false background) st st' → st'.segno = nullSegno →
      RoundOk env background st') :
    ∃ fuel ret, Loop.run (gcRound env false background) fuel st = some ret :=
  Loop.run_of_stands (gcMeasure env)
    (fun _ _ hinv hok hs => gcRound_down hthresh hckpt hinv (hok hinv.unnamed) hs) hinv hrounds

/-- Garbage collection ends if every round that looks for its victim meets `RoundOk`, and the
    first of them finds the tables in order. -/
theorem f2fsGc_ends (hthresh : env.pinThreshold < 2 ^ 16 - 1)
    (hckpt : ∀ fs, BooksOk env.sm fs.segs → VictimsApart env.sm fs.segs →
      BooksOk env.sm (env.writeCheckpoint fs).2.segs ∧
        VictimsApart env.sm (env.writeCheckpoint fs).2.segs)
    (segno : Nat)
    (htables : ∀ st, Stands (gcRound env false background) (gcStart false segno fs) st →
      st.round = (if segno = nullSegno then 0 else 1) →
      BooksOk env.sm st.fs.segs ∧ VictimsApart env.sm st.fs.segs)
    (hrounds : ∀ st, Stands (gcRound env false background) (gcStart false segno fs) st →
      st.segno = nullSegno → RoundOk env background st) :
    ∃ fuel ret, f2fsGc env false background segno fs fuel = some ret := by
  suffices h : ∃ fuel ret,
      Loop.run (gcRound env false background) fuel (gcStart false segno fs) = some ret by
    obtain ⟨fuel, ret, hrun⟩ := h
    unfold f2fsGc
    exact ⟨fuel, _, congrArg (Option.map _) hrun⟩
  by_cases hnull : segno = nullSegno
  · obtain ⟨hbooks, hvictims⟩ := htables _ .start (if_pos hnull).symm
    exact gcRound_ends hthresh hckpt ⟨hnull, hbooks, hvictims.inUse, Or.inl ⟨rfl, hvictims⟩⟩
      hrounds
  · -- the first round collects the segment of the caller's
    cases hround : gcRound env false background (gcStart false segno fs) with
    | done ret => exact ⟨1, ret, by simp only [Loop.run, hround]⟩
    | next st =>
      have hfirst := Stands.start.next hround
      obtain ⟨gcType, fs₁, -, -, -, hmore, -, -, -, htype, hsegno, hcount, -⟩ := gcRound_next hround
      obtain ⟨hbooks, hvictims⟩ := htables st hfirst (hcount.trans (if_neg hnull).symm)
      have hgc : st.gcType = .bgGc ∨ st.gcType = .fgGc := by
        rw [htype]
        rcases (gcMore_cases hmore).2 with ⟨rfl, -⟩ | ⟨-, rfl, -⟩ | ⟨-, -, rfl, -⟩
        · exact Or.inl rfl
        · exact Or.inr rfl
        · exact Or.inl rfl
      obtain ⟨fuel, ret, hrun⟩ := gcRound_ends hthresh hckpt
        ⟨hsegno, hbooks, hvictims.inUse, hgc.imp (fun hc => ⟨hc, hvictims⟩) id⟩
        fun st' hst => hrounds st' (hfirst.trans hst)
      exact ⟨fuel + 1, ret, by simp only [Loop.run, hround, hrun]⟩

end

/-! ## A section that is not emptied -/

section

variable {fs : GcFs} {segno : Nat}

/-- Every file is written atomically. -/
def AllAtomic (fs : GcFs) : Prop :=
  ∀ ino inode, fs.inode ino = some inode → inode.atomic = true

theorem iget_atomic {env : GcEnv} {ino : Nat} {inode : GcInode} (h : AllAtomic fs)
    (hget : fs.iget env ino = some inode) : inode.atomic = true := by
  unfold GcFs.iget at hget
  split at hget
  · exact h ino inode hget
  · cases hget

/-- Phase 3 changes nothing but `gc_list`. -/
theorem gcDataInode_list (env : GcEnv) (sum : Nat → SumEntry) (segno off : Nat) (fs : GcFs) :
    ∃ l, gcDataInode env sum segno off fs = some { fs with gcList := l } := by
  unfold gcDataInode
  split
  · exact ⟨fs.gcList, rfl⟩
  split
  · exact ⟨fs.gcList, rfl⟩
  split
  · exact ⟨fs.gcList, rfl⟩
  split
  · exact ⟨_, rfl⟩
  · exact ⟨fs.gcList, rfl⟩

/-- Phase 4 leaves the blocks of atomic files alone, and counts nothing. -/
theorem gcDataBlock_atomic (env : GcEnv) (gcType : GcType) (sum : Nat → SumEntry) (segno off : Nat)
    (h : AllAtomic fs) : gcDataBlock env gcType sum segno off fs = some fs := by
  unfold gcDataBlock
  split
  · rfl
  split
  · rfl
  split
  · rfl
  case h_2 node _ inode hget =>
    have hatomic := iget_atomic h hget
    split
    · rfl
    split
    · rfl
    split
    · unfold moveDataBlock
      exact if_pos (Or.inr (Or.inr hatomic))
    · unfold moveDataPage
      exact if_pos (Or.inr (Or.inr hatomic))

theorem walkBlocks_list (env : GcEnv) (gcType : GcType) {block : Nat → GcFs → Option GcFs}
    (hblock : ∀ off fs, AllAtomic fs → ∃ l, block off fs = some { fs with gcList := l }) :
    ∀ (offs : List Nat) (fs : GcFs), AllAtomic fs →
      ∃ l, walkBlocks env gcType block offs fs = some { fs with gcList := l } := by
  intro offs
  induction offs with
  | nil => exact fun fs _ => ⟨fs.gcList, rfl⟩
  | cons off offs ih =>
    intro fs h
    rw [walkBlocks]
    split
    · exact ⟨fs.gcList, rfl⟩
    · obtain ⟨l, hone⟩ := hblock off fs h
      obtain ⟨l', hrest⟩ := ih { fs with gcList := l } h
      exact ⟨l', by rw [hone, Option.bind_some, hrest]⟩

/-- The collection of a data segment of atomic files moves no block. -/
theorem gcDataSegment_atomic (env : GcEnv) (gcType : GcType) (segno : Nat) (h : AllAtomic fs) :
    ∃ l, gcDataSegment env gcType segno fs = some { fs with gcList := l } := by
  unfold gcDataSegment
  generalize (fs.segs.ssa segno).entries = sum
  obtain ⟨l, hlist⟩ := walkBlocks_list env gcType
    (fun off fs _ => gcDataInode_list env sum segno off fs) (List.range blocksPerSeg) fs h
  obtain ⟨l', hmove⟩ := walkBlocks_list env gcType
    (fun off fs h => ⟨fs.gcList, gcDataBlock_atomic env gcType sum segno off h⟩)
    (List.range blocksPerSeg) { fs with gcList := l } h
  exact ⟨l', by simp only [hlist, Option.bind_some, hmove]⟩

theorem collectSegment_atomic (env : GcEnv) (gcType : GcType) (fs : GcFs) (h : AllAtomic fs)
    (hssa : (fs.segs.ssa segno).entryType = .data) (n : Nat) :
    ∃ l, collectSegment env gcType true (fs, n) segno = some ({ fs with gcList := l }, n) := by
  unfold collectSegment
  simp only
  split
  · exact ⟨fs.gcList, rfl⟩
  case isFalse hskip =>
    obtain ⟨l, hseg⟩ := gcDataSegment_atomic env gcType segno h
    refine ⟨l, ?_⟩
    rw [if_neg fun hc => hc hssa, if_pos trivial, hseg, Option.map_some]
    -- the segment has its valid blocks as before
    rw [if_neg fun hc => hskip (Or.inl hc.2)]

/-- Nothing comes out of a data section of atomic files. -/
theorem doGarbageCollect_atomic (env : GcEnv) (gcType : GcType) (startSegno : Nat) (fs : GcFs)
    (h : AllAtomic fs) (hssa : ∀ k, (fs.segs.ssa k).entryType = .data)
    (hdata : isDataSection fs startSegno = true) :
    ∃ l, doGarbageCollect env gcType startSegno fs = some ({ fs with gcList := l }, 0) := by
  have hall : ∀ (segs : List Nat) (l : Finset Nat), ∃ l',
      segs.foldlM (collectSegment env gcType true) (({ fs with gcList := l } : GcFs), 0) =
        some ({ fs with gcList := l' }, 0) := by
    intro segs
    induction segs with
    | nil => exact fun l => ⟨l, rfl⟩
    | cons segno segs ih =>
      intro l
      obtain ⟨l₁, hone⟩ :=
        collectSegment_atomic env gcType { fs with gcList := l } h (hssa segno) 0
      obtain ⟨l', hrest⟩ := ih l₁
      exact ⟨l', by rw [List.foldlM_cons, Option.bind_eq_bind, hone, Option.bind_some, hrest]⟩
  unfold doGarbageCollect
  rw [hdata]
  exact hall _ fs.gcList

end

/-! ## A volume with one file -/

theorem segType_lt (type : CursegType) : type.idx < 64 :=
  Nat.lt_trans type.idx_lt (by decide)

/-- A segment with its first block valid. -/
def firstBlock (type : CursegType) : SegEntry :=
  { zeroSegEntry with
    type := ⟨type.idx, segType_lt type⟩
    validBlocks := 1
    ckptValidBlocks := 1
    curValidMap := {0}
    ckptValidMap := {0} }

/-- The logs stand in the segments 0 to 5.  The file has its inode in segment 4 and its one
    block in segment 6, and segment 7 is free. -/
def oneFileSegs : SegManager where
  curseg type :=
    { sumBlk := ⟨fun _ => ⟨4, 0, 0⟩, if type.isNodeSeg then .node else .data⟩
      allocType := .LFS
      segno := type.idx
      nextBlkoff := if type = .warmNode then 1 else 0
      zone := type.idx
      nextSegno := nullSegno }
  sit :=
    { zeroSitInfo with
      sentries := fun k =>
        if k = 4 then firstBlock .warmNode
        else if k = 6 then firstBlock .warmData
        else zeroSegEntry
      writtenValidBlocks := 2 }
  ssa _ := ⟨fun _ => ⟨4, 0, 0⟩, .data⟩
  free := ⟨1, 1, {0, 1, 2, 3, 4, 5, 6}, {0, 1, 2, 3, 4, 5, 6}⟩
  dirty :=
    { dirtySegmap := fun t => if t = 1 ∨ t = dirtyAll then {6} else ∅
      nrDirty := fun t => if t = 1 ∨ t = dirtyAll then 1 else 0
      victimSecmap := ∅ }
  lastVictim := 0

def oneFileInfo : GcInfo where
  segs := oneFileSegs
  lastVictim := fun _ => 7
  minMtime := 0
  curVictimSec := nullSegno
  maxVictimSearch := 4096
  fggcThreshold := 512
  gcIdle := none

/-- The inode block of the file. -/
def oneFileNode : GcNode where
  ino := 4
  blkAddr := startBlock smallSm 4
  version := 0
  nofs := 0
  isDnode := true
  isCold := false
  addr ofs := if ofs = 0 then startBlock smallSm 6 else nullAddr

theorem noFailures_lt : 0 < 2 ^ 16 := Nat.two_pow_pos 16

def oneFileInode (atomic : Bool) : GcInode where
  addrsPerInode := 923
  isReg := true
  isDir := false
  encrypted := false
  atomic := atomic
  pinned := false
  gcFailures := ⟨0, noFailures_lt⟩
  dioRead := true
  dioWrite := true

def oneFile (atomic : Bool) : GcFs where
  g := oneFileInfo
  node nid := if nid = 4 then some oneFileNode else none
  inode ino := if ino = 4 then some (oneFileInode atomic) else none
  gcList := ∅
  dirtyNodes := ∅
  dirtyDents := ∅
  dirtyImeta := ∅

/-- Three sections are reserved. -/
def reservedEnv : GcEnv where
  sm := smallSm
  active := true
  cpError := false
  porDoing := false
  activeLogs := 6
  gcUrgent := false
  reservedSegments := 3
  minSsrSections := 0
  crcRecovery := false
  pinThreshold := 2048
  maxNid := 8
  now := 0
  sumUptodate _ := true
  dnode ino bidx := if ino = 4 then some (4, bidx) else none
  readPage _ _ := true
  grabPage _ _ := true
  trylockOp := true
  moveFails _ := false
  reallocs _ := 0
  writeCheckpoint fs := (0, fs)

deriving instance DecidableEq for VictimPolicy

/-- FG_GC takes segment 6. -/
theorem oneFile_victim : ∃ scan,
    getVictimByDefault smallSm .fgGc oneFileInfo nullSegno none .LFS 32 =
      some ⟨6, 6, { oneFileInfo with curVictimSec := 6 }, scan⟩ := by
  have hpolicy : selectPolicy smallSm oneFileInfo .fgGc none .LFS =
      ⟨.LFS, .greedy, {6}, 1, 0, 1, 1024, nullSegno⟩ := by decide +kernel
  have hbg : checkBgVictims smallSm oneFileInfo = none := by decide
  have hnext : BitScan.next (fun i => decide (i ∈ ({6} : Finset Nat))) 8 0 = 6 := by decide
  have hskip : skipsSegment smallSm .fgGc oneFileInfo
      ⟨.LFS, .greedy, {6}, 1, 7, 1, 1024, nullSegno⟩ 6 = false := by decide
  have hcost : getGcCost smallSm oneFileInfo 6 ⟨.LFS, .greedy, {6}, 1, 7, 1, 1024, nullSegno⟩ =
      (1, oneFileInfo) := Prod.ext (by decide) rfl
  have hlast : oneFileInfo.setLastVictim .greedy 7 = oneFileInfo := by
    unfold GcInfo.setLastVictim
    rw [show (7 : Nat) = oneFileInfo.lastVictim .greedy from rfl, Function.update_eq_self]
  have hexamine : examineSegment smallSm .fgGc
      ⟨oneFileInfo, ⟨.LFS, .greedy, {6}, 1, 0, 1, 1024, nullSegno⟩, 8, 0, []⟩ 6 =
      ⟨oneFileInfo, ⟨.LFS, .greedy, {6}, 1, 7, 1, 1, 6⟩, 8, 1, [⟨6, some 1⟩]⟩ := by
    unfold examineSegment
    rw [show getSec smallSm 6 = 6 by decide]
    simp [hskip, hcost]
  have hround : scanRound smallSm .fgGc 7
      ⟨oneFileInfo, ⟨.LFS, .greedy, {6}, 1, 0, 1, 1024, nullSegno⟩, 8, 0, []⟩ =
      .done ⟨oneFileInfo, ⟨.LFS, .greedy, {6}, 1, 7, 1, 1, 6⟩, 8, 1, [⟨6, some 1⟩]⟩ := by
    unfold scanRound
    simp only [hnext, hexamine]
    rw [if_neg (by decide), if_pos (by decide),
      show nextStart smallSm 7 6 oneFileInfo .greedy = 7 by decide, hlast]
  refine ⟨some ⟨oneFileInfo, ⟨.LFS, .greedy, {6}, 1, 7, 1, 1, 6⟩, 8, 1, [⟨6, some 1⟩]⟩, ?_⟩
  unfold getVictimByDefault
  simp only [hpolicy, hbg, ite_self, ne_eq, not_true_eq_false, if_false]
  rw [if_neg (by decide), show oneFileInfo.lastVictim GcMode.greedy = 7 from rfl,
    show smallSm.mainSegments = 8 from rfl, Loop.run, hround, Option.map_some]
  unfold takeVictim
  rw [if_neg (by decide)]
  rfl

theorem mem_oneFile_dirty {t k : Nat} : k ∈ oneFileSegs.dirty.dirtySegmap t ↔
    k = 6 ∧ (t = 1 ∨ t = dirtyAll) := by
  unfold oneFileSegs
  simp only
  split
  case isTrue h => rw [Finset.mem_singleton, and_iff_left h]
  case isFalse h => exact ⟨fun hk => absurd hk (Finset.notMem_empty _), fun hk => absurd hk.2 h⟩

theorem firstBlock_freeAt {type : CursegType} {i : Nat} (hpos : 0 < i) (hi : i < blocksPerSeg) :
    (firstBlock type).FreeAt i := by
  refine ⟨⟨i, hi⟩, rfl, fun hc => ?_⟩
  have hmap : (firstBlock type).ckptValidMap ∪ (firstBlock type).curValidMap = {0} := rfl
  rw [hmap, Finset.mem_singleton] at hc
  exact hpos.ne' (congrArg Fin.val hc)

theorem zeroSegEntry_freeAt {i : Nat} (hi : i < blocksPerSeg) : zeroSegEntry.FreeAt i :=
  ⟨⟨i, hi⟩, rfl, Finset.notMem_empty _⟩

/-- The blocks of a log behind the next one. -/
theorem oneFile_ahead (type : CursegType) {i : Nat}
    (hle : (oneFileSegs.curseg type).nextBlkoff ≤ i) (hi : i < blocksPerSeg) :
    (oneFileSegs.sit.sentries (oneFileSegs.curseg type).segno).FreeAt i := by
  by_cases hwarm : type = .warmNode
  · subst hwarm
    exact firstBlock_freeAt hle hi
  · have hzero : oneFileSegs.sit.sentries (oneFileSegs.curseg type).segno = zeroSegEntry := by
      cases type <;> first | rfl | exact absurd rfl hwarm
    rw [hzero]
    exact zeroSegEntry_freeAt hi

theorem oneFile_booksOk : BooksOk smallSm oneFileSegs where
  logMain type := by cases type <;> decide
  logInUse type := by cases type <;> decide
  apart {t t'} h := by revert h; cases t <;> cases t' <;> decide
  counted k hk := by
    have hk' : k < 8 := hk
    interval_cases k <;> exact ⟨by decide, by decide⟩
  sections h := absurd h (by decide)
  unused k hk hfree := by
    have hk' : k < 8 := hk
    obtain rfl : k = 7 := by
      interval_cases k <;> first | rfl | exact absurd (by decide) hfree
    exact fun i hi => zeroSegEntry_freeAt hi
  segmap secno hsec := by
    have hsec' : secno < 8 := hsec
    interval_cases secno <;> decide
  dirtyMain t := by
    intro k hk
    rw [(mem_oneFile_dirty.mp hk).1]
    decide
  dirtyInUse := by decide
  dirtyLog type := by cases type <;> decide
  lists {t k} ht hk := by
    obtain ⟨rfl, rfl | rfl⟩ := mem_oneFile_dirty.mp hk
    · exact ⟨mem_oneFile_dirty.mpr ⟨rfl, Or.inr rfl⟩, by decide⟩
    · exact absurd ht (Nat.lt_irrefl _)
  victims := by decide
  rooms type :=
    ⟨oneFile_ahead type (Nat.le_refl _) (by cases type <;> decide),
      fun _ i hle hi => oneFile_ahead type hle hi⟩
  dirtyValid k hk _ := by
    rw [(mem_oneFile_dirty.mp hk).1]
    decide

theorem oneFile_victimsApart : VictimsApart smallSm oneFileSegs where
  inUse := by decide
  apart t := Finset.notMem_empty _

theorem oneFile_short (atomic : Bool) (l : Finset Nat) :
    hasNotEnoughFreeSecs reservedEnv { oneFile atomic with gcList := l } 0 = true := by
  show hasNotEnoughFreeSecs reservedEnv (oneFile atomic) 0 = true
  cases atomic <;> decide

/-- There are not enough free sections: a round starts FG_GC. -/
theorem oneFile_more {st : GcLoop} (atomic : Bool) (l : Finset Nat)
    (hgc : st.gcType = .bgGc ∨ st.gcType = .fgGc)
    (hfs : st.fs = { oneFile atomic with gcList := l }) :
    gcMore reservedEnv false st = .inr (.fgGc, st.fs) := by
  have hshort : hasNotEnoughFreeSecs reservedEnv st.fs 0 = true := hfs ▸ oneFile_short atomic l
  have hpre : st.fs.segs.dirty.nrDirty dirtyPre = 0 := by
    rw [hfs]
    rfl
  unfold gcMore
  rw [if_neg (by decide), if_neg (by decide)]
  rcases hgc with hbg | hfg
  · simp [hbg, hshort, hpre]
  · simp [hfg]

/-- A round starts on the volume of the atomic file, but for `gc_list`. -/
structure Stuck (st : GcLoop) : Prop where
  type : st.gcType = .bgGc ∨ st.gcType = .fgGc
  unnamed : st.segno = nullSegno
  freed : st.secFreed = 0
  same : ∃ l, st.fs = { oneFile true with gcList := l }

theorem oneFile_atomic {fs : GcFs} (h : fs.inode = (oneFile true).inode) : AllAtomic fs := by
  intro ino inode hinode
  rw [h] at hinode
  obtain ⟨-, heq⟩ := Option.ite_none_right_eq_some.mp hinode
  rw [← Option.some.inj heq]
  rfl

theorem stuck_round (st : GcLoop) (h : Stuck st) :
    ∃ st', gcRound reservedEnv false false st = .next st' ∧ Stuck st' := by
  obtain ⟨l, hfs⟩ := h.same
  obtain ⟨scan, hvictim⟩ := oneFile_victim
  have hget : getVictim reservedEnv .fgGc st.segno st.fs =
      some ⟨6, 6, { oneFileInfo with curVictimSec := 6 }, scan⟩ := by
    rw [h.unnamed, hfs]
    exact hvictim
  obtain ⟨l', hcollect⟩ := doGarbageCollect_atomic reservedEnv .fgGc 6
    { oneFile true with g := { oneFileInfo with curVictimSec := 6 }, gcList := l }
    (oneFile_atomic rfl) (fun _ => rfl) rfl
  refine ⟨⟨{ oneFile true with gcList := l' }, .fgGc, 0, nullSegno, st.round + 1⟩, ?_,
    Or.inr rfl, rfl, rfl, l', rfl⟩
  unfold gcRound
  rw [oneFile_more true l h.type hfs]
  simp only [hget]
  rw [hfs, if_neg (by decide), hcollect]
  have hstill : hasNotEnoughFreeSecs reservedEnv { oneFile true with gcList := l' } 0 = true :=
    oneFile_short true l'
  simp only [h.freed, if_true, true_and, Bool.false_eq_true, if_false]
  rw [if_neg (show ¬0 = reservedEnv.sm.segsPerSec by decide)]
  exact if_pos hstill

/-- Garbage collection takes the section of an atomic file for ever. -/
theorem f2fsGc_atomic : BooksOk smallSm oneFileSegs ∧ VictimsApart smallSm oneFileSegs ∧
    ¬∃ fuel ret, f2fsGc reservedEnv false false nullSegno (oneFile true) fuel = some ret := by
  refine ⟨oneFile_booksOk, oneFile_victimsApart, ?_⟩
  rintro ⟨fuel, ret, hret⟩
  have hrun := Loop.run_none stuck_round fuel
    (⟨Or.inl rfl, rfl, rfl, ∅, rfl⟩ : Stuck (gcStart false nullSegno (oneFile true)))
  unfold f2fsGc at hret
  rw [hrun, Option.map_none] at hret
  cases hret

/-- The valid block of segment 6. -/
theorem oneFile_valid {off : Nat} (hoff : off < blocksPerSeg)
    (hvalid : checkValidMap (oneFile false) 6 off = true) : off = 0 := by
  have hmem := of_decide_eq_true hvalid
  have hzero : Fin.ofNat blocksPerSeg off = 0 := Finset.mem_singleton.mp hmem
  have hval := congrArg Fin.val hzero
  rwa [Fin.val_ofNat, Nat.mod_eq_of_lt hoff] at hval

theorem oneFile_roundOk : RoundOk reservedEnv false (gcStart false nullSegno (oneFile false)) where
  movable gcType fs out hmore hget _ := by
    rw [oneFile_more false ∅ (Or.inl rfl) rfl] at hmore
    obtain ⟨rfl, rfl⟩ := Prod.mk.inj (Sum.inr.inj hmore)
    obtain ⟨scan, hvictim⟩ := oneFile_victim
    have hsame : getVictim reservedEnv .fgGc nullSegno (oneFile false) = some out := hget
    obtain rfl := Option.some.inj (hvictim.symm.trans hsame)
    intro k hk hsec off hoff hvalid
    obtain rfl : k = 6 := by
      have hdiv : k / 1 = 6 / 1 := hsec
      omega
    obtain rfl := oneFile_valid hoff hvalid
    exact ⟨rfl, oneFileNode, oneFileInode false, rfl, rfl, rfl, rfl, fun _ => ⟨rfl, rfl⟩, rfl, rfl,
      rfl, rfl, rfl⟩
  checkpoint h := by cases h

/-- The first round empties segment 6, and then there is nothing left to collect. -/
theorem oneFile_rounds :
    ((gcRound reservedEnv false false (gcStart false nullSegno (oneFile false))).next?.map
      fun st => (st.fs.segs.dirty.nrDirty dirtyAll, st.round)) = some (0, 1) ∧
    (Loop.run (gcRound reservedEnv false false) 2
      (gcStart false nullSegno (oneFile false))).isSome = true := by
  decide +kernel

theorem oneFile_ends :
    ∃ fuel ret, f2fsGc reservedEnv false false nullSegno (oneFile false) fuel = some ret := by
  obtain ⟨hnext, hrun⟩ := oneFile_rounds
  cases hround : gcRound reservedEnv false false (gcStart false nullSegno (oneFile false)) with
  | done r =>
    rw [hround] at hnext
    cases hnext
  | next st =>
    rw [hround] at hnext
    obtain ⟨hclean, hcount⟩ := Prod.mk.inj (Option.some.inj hnext)
    have hstands : ∀ {st'}, Stands (gcRound reservedEnv false false)
        (gcStart false nullSegno (oneFile false)) st' →
        st' = gcStart false nullSegno (oneFile false) ∨ st' = st := by
      intro st' hst
      rcases hst.head with rfl | ⟨st₁, hst₁, hrest⟩
      · exact Or.inl rfl
      obtain rfl := Turn.next.inj (hround.symm.trans hst₁)
      rcases hrest.head with rfl | ⟨st₂, hst₂, -⟩
      · exact Or.inr rfl
      · -- there are two rounds
        simp only [Loop.run, hround, hst₂] at hrun
        cases hrun
    refine f2fsGc_ends (by decide) (fun fs hbooks hvictims => ⟨hbooks, hvictims⟩) nullSegno
      (fun st' hst hfirst => ?_) fun st' hst hnull => ?_
    · rcases hstands hst with rfl | rfl
      · exact ⟨oneFile_booksOk, oneFile_victimsApart⟩
      · rw [hcount] at hfirst
        cases hfirst
    · rcases hstands hst with rfl | rfl
      · exact oneFile_roundOk
      · refine ⟨fun gcType fs out hmore hget hne => absurd ?_ hne, fun h => by cases h⟩
        obtain ⟨_, _, _, _, _, hmore₀, _, _, _, htype, _⟩ := gcRound_next hround
        rw [oneFile_more false ∅ (Or.inl rfl) rfl] at hmore₀
        obtain ⟨rfl, -⟩ := Prod.mk.inj (Sum.inr.inj hmore₀)
        rw [hnull] at hget
        refine getVictim_clean ?_ hget
        rcases (gcMore_cases hmore).2 with ⟨-, rfl⟩ | ⟨hbg, -⟩ | ⟨-, hbg, -⟩
        · exact hclean
        · rw [htype] at hbg
          cases hbg
        · rw [htype] at hbg
          cases hbg

end F2fs.Gc

/-
  Runs of a volume, from a mount on, through writes, invalidations, checkpoints and crashes.

  The volume implements a `CommitStore`: a write goes to a block that is valid neither now nor
  in the last checkpoint, a checkpoint commits, and a mount goes back to what was committed.
-/
import F2fs.Lib.CommitStore
import F2fs.Volume.Checkpoint

namespace F2fs.Volume

open F2fs.Segment F2fs.Gc F2fs.Checkpoint

variable {α : Type} {sm : SmInfo}

/-! ## The store it implements -/

/-- The blocks by address, those that are valid, and those of the last checkpoint. -/
def Mounted.toStore (sm : SmInfo) (v : Mounted α) : CommitStore Nat (Block α) where
  content := v.dev.blocks
  live := {addr | ValidAt sm v.segs.sit addr}
  saved := {addr | SavedAt sm v.dev.store addr}

section

variable {v v' v₀ : Mounted α} {dev : Device α} {addr oldBlkaddr : Nat} {segs : SegManager}

theorem validAt_of_cur {sit sit' : SitInfo}
    (h : ∀ k < sm.mainSegments, (sit'.sentries k).curValidMap = (sit.sentries k).curValidMap)
    (a : Nat) : ValidAt sm sit' a ↔ ValidAt sm sit a := by
  refine and_congr_right fun hmain => ?_
  rw [h _ (getSegno_lt hmain)]

theorem validSet_of_cur {sit sit' : SitInfo}
    (h : ∀ k < sm.mainSegments, (sit'.sentries k).curValidMap = (sit.sentries k).curValidMap) :
    {a | ValidAt sm sit' a} = {a | ValidAt sm sit a} := Set.ext (validAt_of_cur h)

theorem validAt_of_saved {sit : SitInfo} {st : SitStore}
    (h : ∀ k < sm.mainSegments, (sit.sentries k).curValidMap = (st.persisted sm k).validMap)
    (a : Nat) : ValidAt sm sit a ↔ SavedAt sm st a := by
  refine and_congr_right fun hmain => ?_
  rw [h _ (getSegno_lt hmain)]

/-- The old block is given up after the new one is written. -/
theorem quiets_write (b : Block α) (hnew : ¬ValidAt sm v.segs.sit addr)
    (hsaved : ¬SavedAt sm v.dev.store addr)
    (hvalid : ∀ a, ValidAt sm segs.sit a ↔ (a = addr ∨ ValidAt sm v.segs.sit a) ∧ a ≠ oldBlkaddr) :
    CommitStore.Quiets (v.toStore sm)
      (Mounted.toStore sm { v with
        segs := segs, dev := { v.dev with blocks := Function.update v.dev.blocks addr b } }) := by
  have hlive : {a | ValidAt sm segs.sit a} =
      insert addr {a | ValidAt sm v.segs.sit a} \ {oldBlkaddr} := Set.ext hvalid
  have hwrite := CommitStore.Quiet.write (v.toStore sm) addr b hnew hsaved
  refine (Relation.ReflTransGen.single hwrite).tail ?_
  have hrelease := CommitStore.Quiet.release
    { v.toStore sm with
      content := Function.update v.dev.blocks addr b
      live := insert addr {a | ValidAt sm v.segs.sit a} } oldBlkaddr
  unfold Mounted.toStore
  rw [hlive]
  exact hrelease

/-- The valid blocks stay as they are. -/
theorem toStore_segs (hvalid : ∀ k, (segs.sit.sentries k).curValidMap =
      (v.segs.sit.sentries k).curValidMap) :
    Mounted.toStore sm { v with segs := segs } = v.toStore sm := by
  unfold Mounted.toStore
  rw [validSet_of_cur fun k _ => hvalid k]

/-- Every step that writes no checkpoint keeps the volume sound, and commits nothing. -/
theorem step_refines (h : Sound sm v) (hstep : Step sm v v') :
    Sound sm v' ∧ CommitStore.Quiets (v.toStore sm) (v'.toStore sm) := by
  cases hstep with
  | write g fuel needSSR crcRecovery now old addr sum type data segs hold hsum hg hfuel heq =>
      obtain ⟨u, ha, hsegs⟩ := h.write_steps hold hg hfuel heq
      have hw := ha.located h.books hold hsegs
      obtain ⟨hnew, hsaved⟩ := hw.unsaved h
      exact ⟨h.write hold hsum data ha hsegs, quiets_write _ hnew hsaved hw.valid⟩
  | invalidate now addr haddr =>
      obtain ⟨-, hvalid⟩ := invalidateBlocks_settled now h.books h.lists haddr
      refine ⟨h.invalidate now haddr, Relation.ReflTransGen.single ?_⟩
      have hrelease := CommitStore.Quiet.release (v.toStore sm) addr
      have hlive : {a | ValidAt sm (invalidateBlocks sm now addr v.segs).sit a} =
          {a | ValidAt sm v.segs.sit a} \ {addr} := Set.ext hvalid
      unfold Mounted.toStore at hrelease ⊢
      rw [hlive]
      exact hrelease
  | newSegments p segs heq =>
      obtain ⟨hsound, hcur⟩ := h.newSegments heq
      refine ⟨hsound, ?_⟩
      rw [toStore_segs hcur]
      exact Relation.ReflTransGen.refl
  | mark secs lastVictim hsecs => exact ⟨h.mark lastVictim hsecs, Relation.ReflTransGen.refl⟩
  | writeSum segno => exact ⟨h.writeSum segno, Relation.ReflTransGen.refl⟩
  | crash v' blocks hsaved heq =>
      obtain ⟨w, hw, hsound, hdev, hcur⟩ := mount_sound (h.saved.ofBlocks blocks hsaved)
      rw [hw] at heq
      obtain rfl := Option.some.inj heq
      refine ⟨hsound, Relation.ReflTransGen.single ?_⟩
      have hcrash := CommitStore.Quiet.crash (v.toStore sm) blocks fun a ha => hsaved a ha
      have hlive : {a | ValidAt sm w.segs.sit a} = {a | SavedAt sm v.dev.store a} :=
        Set.ext (validAt_of_saved hcur)
      unfold Mounted.toStore at hcrash ⊢
      rw [hdev, hlive]
      exact hcrash

/-- A checkpoint commits. -/
theorem checkpoint_commits (h : Checkpointed sm v v') :
    v'.toStore sm = (v.toStore sm).commit := by
  unfold Mounted.toStore CommitStore.commit
  have hsaved : {a | SavedAt sm v'.dev.store a} = {a | ValidAt sm v.segs.sit a} :=
    Set.ext fun a => (validAt_of_saved (fun k hk => (h.saved k hk).symm) a).symm
  rw [h.blocks, validSet_of_cur fun k _ => h.valid k, hsaved]

theorem steps_kept (h : Sound sm v) (hrun : Relation.ReflTransGen (Step sm) v v') :
    Sound sm v' ∧ CommitStore.Kept (v.toStore sm) (v'.toStore sm) :=
  CommitStore.kept_of_refines (Mounted.toStore sm) (fun _ _ => step_refines) h hrun

/-! ## Every reachable state -/

theorem reach_sound (h : Sound sm v₀) (hsec : ¬BySection sm) (hreach : Reach sm v₀ v) :
    Sound sm v := by
  induction hreach with
  | start => exact h
  | step _ hstep ih => exact (step_refines ih hstep).1
  | checkpoint cpc blkzoned fuel _ hck ih =>
      exact ((ih.checkpoint hsec cpc blkzoned).2 fuel _ hck).sound

/-- A run, from the mount of a checkpoint on. -/
structure Run (sm : SmInfo) (dev : Device α) (v : Mounted α) : Prop where
  saved : Saved sm dev
  reach : ∃ v₀, buildSegmentManager sm dev = some v₀ ∧ Reach sm v₀ v

theorem Run.sound (h : Run sm dev v) (hsec : ¬BySection sm) : Sound sm v := by
  obtain ⟨v₀, hmount, hreach⟩ := h.reach
  obtain ⟨w, hw, hsound, -⟩ := mount_sound h.saved
  obtain rfl := Option.some.inj (hmount.symm.trans hw)
  exact reach_sound hsound hsec hreach

end

/-! ## An empty volume -/

/-- The SIT of an empty volume: the first segments have the types of the logs. -/
def emptyStore : SitStore where
  pages := fun _ i => { vblocks := if i < 6 then i <<< 10 else 0, validMap := ∅, mtime := 0 }
  sitBitmap := fun _ => false
  journal := { n := 0, slot := fun _ => (0, rawAt 0) }

/-- Each log is at the start of one of the first segments. -/
def emptyLog (type : CursegType) : Curseg where
  sumBlk := { entries := fun _ => ⟨0, 0, 0⟩, entryType := SumType.data }
  segno := type.idx
  nextBlkoff := 0
  zone := 0
  allocType := AllocMode.LFS
  nextSegno := nullSegno

def emptyDevice : Device Unit where
  blocks := fun _ => ⟨⟨0, 0, 0⟩, false, ()⟩
  ssa := fun _ => { entries := fun _ => ⟨0, 0, 0⟩, entryType := SumType.data }
  store := emptyStore
  logs := emptyLog
  nodeSums := false
  trimmed := false

theorem emptyDevice_saved : Saved smallSm emptyDevice where
  sound := ⟨by decide, fun i hi => absurd hi (Nat.not_lt_zero i),
    fun i hi => absurd hi (Nat.not_lt_zero i)⟩
  distinct := fun a _ ha => absurd ha (Nat.not_lt_zero a)
  le := Nat.zero_le _
  types := by decide
  logMain := fun t => by cases t <;> decide
  apart := fun {t t'} h => by
    cases t <;> cases t' <;> first | rfl | exact absurd h (by decide)
  logTypes := fun t => by cases t <;> decide
  rooms := fun t => ⟨⟨0, rfl, Finset.notMem_empty _⟩, fun _ _ _ => Finset.notMem_empty _⟩
  logNames := fun t i hi => absurd hi (Finset.notMem_empty i)
  ssaNames := fun k _ _ i hi => absurd hi (Finset.notMem_empty i)

theorem emptyDevice_run : ∃ v, Run smallSm emptyDevice v := by
  obtain ⟨v, hmount, -⟩ := mount_sound emptyDevice_saved
  exact ⟨v, emptyDevice_saved, v, hmount, Reach.start⟩

/-- The collector that finds the tables as they are. -/
def emptyGc (segs : SegManager) : GcInfo where
  segs := segs
  lastVictim := fun _ => 0
  minMtime := 0
  curVictimSec := 0
  maxVictimSearch := 0
  fggcThreshold := 0
  gcIdle := none

theorem emptyGc_fuel (segs : SegManager) (mode : GcMode) :
    max ((emptyGc segs).lastVictim mode) smallSm.mainSegments + 1 + smallSm.mainSegments < 18 := by
  show max 0 8 + 1 + 8 < 18
  decide

/-- The first block goes to the log of hot data. -/
theorem emptyDevice_write : ∃ v addr segs, Run smallSm emptyDevice v ∧
    v.segs.allocateDataBlock smallSm
      (victimPolicy smallSm 18
        (emptyGc (v.segs.writeNext smallSm .hotData 1 nullAddr ⟨3, 0, 0⟩)) .hotData false false)
      1 nullAddr ⟨3, 0, 0⟩ .hotData = some (addr, segs) := by
  have hsome : ((buildSegmentManager smallSm emptyDevice).bind fun v =>
      v.segs.allocateDataBlock smallSm
        (victimPolicy smallSm 18
          (emptyGc (v.segs.writeNext smallSm .hotData 1 nullAddr ⟨3, 0, 0⟩)) .hotData false false)
        1 nullAddr ⟨3, 0, 0⟩ .hotData).isSome = true := by
    decide +kernel
  obtain ⟨⟨addr, segs⟩, heq⟩ := Option.isSome_iff_exists.mp hsome
  obtain ⟨v, hmount, hwrite⟩ := Option.bind_eq_some_iff.mp heq
  exact ⟨v, addr, segs, ⟨emptyDevice_saved, v, hmount, Reach.start⟩, hwrite⟩

theorem smallSm_notBySection : ¬BySection smallSm := fun h => Bool.false_ne_true h.1

/-! ## Results -/

section

variable {dev : Device α} {v v' w : Mounted α} {cpc : CpControl} {blkzoned : Bool} {fuel : Nat}

/-- In every reachable state a block is written to an address of the main area that is valid
    neither now nor in the last checkpoint; afterwards it is valid and the old one is not. -/
theorem write_outOfPlace (h : Run sm dev v) (hsec : ¬BySection sm) {type : CursegType}
    {now oldBlkaddr addr : Nat} {sum : SumEntry} {g : GcInfo} {needSSR crcRecovery : Bool}
    {segs : SegManager} (hold : OldBlock sm v.segs.sit oldBlkaddr)
    (hg : g.segs = v.segs.writeNext sm type now oldBlkaddr sum)
    (hfuel : ∀ mode, max (g.lastVictim mode) sm.mainSegments + 1 + sm.mainSegments < fuel)
    (heq : v.segs.allocateDataBlock sm (victimPolicy sm fuel g type needSSR crcRecovery) now
      oldBlkaddr sum type = some (addr, segs)) :
    InMain sm addr ∧ ¬ValidAt sm v.segs.sit addr ∧ ¬SavedAt sm v.dev.store addr ∧
      ∀ a, ValidAt sm segs.sit a ↔ (a = addr ∨ ValidAt sm v.segs.sit a) ∧ a ≠ oldBlkaddr := by
  have hsound := h.sound hsec
  have hw := hsound.wrote hold hg hfuel heq
  exact ⟨hw.inMain, (hw.unsaved hsound).1, (hw.unsaved hsound).2, hw.valid⟩

theorem write_outOfPlace_empty : ∃ (v : Mounted Unit) (addr : Nat) (segs : SegManager),
    Run smallSm emptyDevice v ∧ InMain smallSm addr ∧ ¬ValidAt smallSm v.segs.sit addr ∧
      ¬SavedAt smallSm v.dev.store addr ∧
      ∀ a, ValidAt smallSm segs.sit a ↔
        (a = addr ∨ ValidAt smallSm v.segs.sit a) ∧ a ≠ nullAddr := by
  obtain ⟨v, addr, segs, hrun, heq⟩ := emptyDevice_write
  exact ⟨v, addr, segs, hrun, write_outOfPlace hrun smallSm_notBySection (Or.inl rfl) rfl
    (emptyGc_fuel _) heq⟩

/-- The lists of dirty segments as the SIT has them: a segment that is that of no log is dirty
    if it has valid blocks and room, on the list of its type if it is dirty, and prefree if it
    is in use without valid blocks. -/
structure MirrorsSit (sm : SmInfo) (s : SegManager) : Prop where
  dirty : ∀ k < sm.mainSegments, k ∈ s.dirty.dirtySegmap dirtyAll ↔
    s.isCurseg k = false ∧ 0 < (s.sit.sentries k).validBlocks ∧
      (s.sit.sentries k).validBlocks < blocksPerSeg
  byType : ∀ t < dirtyAll, ∀ k < sm.mainSegments, k ∈ s.dirty.dirtySegmap t ↔
    k ∈ s.dirty.dirtySegmap dirtyAll ∧ (s.sit.sentries k).type.val = t
  pre : ∀ k < sm.mainSegments, k ∈ s.dirty.dirtySegmap dirtyPre ↔
    k ∈ s.free.freeSegmap ∧ s.isCurseg k = false ∧ (s.sit.sentries k).validBlocks = 0
  inMain : ∀ t, s.dirty.dirtySegmap t ⊆ Finset.range sm.mainSegments
  counts : ∀ t, s.dirty.nrDirty t = ((s.dirty.dirtySegmap t).card : Int)
  maps : MapsAgree sm s.free

/-- In every reachable state, after any crash too, a reader finds for every valid block the
    entry that it was written with, in the log's summary block or in the SSA; and the footer
    and the type of the segment say whether it is that of a node. -/
theorem summaries_name (h : Run sm dev v) (hsec : ¬BySection sm) {addr : Nat}
    (hvalid : ValidAt sm v.segs.sit addr) :
    (sumOf v.segs (getSegno sm addr)).entries (getBlkoff sm addr).val = (v.dev.blocks addr).sum ∧
      (sumOf v.segs (getSegno sm addr)).entryType = sumTypeOf (v.dev.blocks addr).node ∧
      isNodeType (v.segs.sit.sentries (getSegno sm addr)).type = (v.dev.blocks addr).node := by
  have hname := (h.sound hsec).sums.named _ (getSegno_lt hvalid.1) _
    (Finset.mem_union_left _ hvalid.2)
  rw [startBlock_getSegno hvalid.1] at hname
  exact ⟨hname.entry, hname.footer, hname.kind⟩

theorem summaries_name_empty : ∃ (v : Mounted Unit) (addr : Nat), Run smallSm emptyDevice v ∧
    ValidAt smallSm v.segs.sit addr ∧
    (sumOf v.segs (getSegno smallSm addr)).entries (getBlkoff smallSm addr).val = ⟨3, 0, 0⟩ ∧
      (sumOf v.segs (getSegno smallSm addr)).entryType = SumType.data := by
  obtain ⟨v, addr, segs, hrun, heq⟩ := emptyDevice_write
  have hstep := Step.write v (emptyGc (v.segs.writeNext smallSm .hotData 1 nullAddr ⟨3, 0, 0⟩)) 18
    false false 1 nullAddr addr ⟨3, 0, 0⟩ .hotData () segs (Or.inl rfl)
    (fun hc => Bool.noConfusion hc) rfl (emptyGc_fuel _) heq
  have hw := (hrun.sound smallSm_notBySection).wrote (Or.inl rfl) rfl (emptyGc_fuel _) heq
  have hv : ValidAt smallSm segs.sit addr := by
    refine (hw.valid addr).mpr ⟨Or.inl rfl, ?_⟩
    rintro rfl
    exact absurd hw.inMain.1 (by decide)
  obtain ⟨v₀, hmount, hreach⟩ := hrun.reach
  have hrun' := Run.mk hrun.saved ⟨v₀, hmount, hreach.step hstep⟩
  obtain ⟨hentry, hfooter, -⟩ := summaries_name hrun' smallSm_notBySection hv
  refine ⟨_, addr, hrun', hv, ?_, ?_⟩
  · rw [hentry]
    show (Function.update v.dev.blocks addr _ addr).sum = _
    rw [Function.update_self]
  · rw [hfooter]
    show sumTypeOf (Function.update v.dev.blocks addr _ addr).node = _
    rw [Function.update_self]
    rfl

end

end F2fs.Volume

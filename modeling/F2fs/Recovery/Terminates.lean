/-
  When the two passes of roll-forward recovery come to an end.

  Neither pass remembers where it has been, so both follow a `next_blkaddr` chain that
  loops back for ever.  They end exactly when the chain, followed from where the
  checkpoint left the log, comes to an address outside the main area, to a block of
  another checkpoint version, or to an fsynced block of an inode number out of range,
  on which `find_fsync_dnodes` gives up.
-/
import F2fs.Recovery.RollForward

namespace F2fs.Recovery

open Checkpoint Segment Loop

namespace NodeLog

variable (log : NodeLog)

/-- Inode numbers `f2fs_iget_retry` refuses, whatever is on the volume. -/
def BadIno (ino : Nat) : Prop :=
  ino ≠ log.nodeIno ∧ ino ≠ log.metaIno ∧ log.checkNidRange ino = true

/-- Where `find_fsync_dnodes` cannot get past. -/
def Stops (blkaddr : Nat) : Prop :=
  log.recoverable blkaddr = false ∨
    (log.page blkaddr).isFsyncDnode = true ∧ log.BadIno (log.page blkaddr).ino

/-- Whatever the rest of the volume holds, both passes leave their loop without standing
    on a block twice: `find_fsync_dnodes`, and `recover_data` if the former returned 0. -/
def Terminates : Prop :=
  ∀ (checkOnly : Bool) (inodes : Inodes),
    (∃ l r, Trail (findStep log checkOnly) (findStart log inodes) l r ∧
      (l.map (·.blkaddr)).Nodup) ∧
    ∀ l s, Trail (findStep log checkOnly) (findStart log inodes) l (none, s) →
      ∀ (σ : Type) (f : Callees σ) (vol : σ),
        ∃ l r, Trail (recoverStep log f) (recoverStart log s.head vol) l r ∧
          (l.map (·.blkaddr)).Nodup

end NodeLog

variable {log : NodeLog} {checkOnly : Bool}

theorem iget_badIno {ino : Nat} (h : log.BadIno ino) (inodes : Inodes) :
    inodes.iget log ino = some .inval := by
  obtain ⟨hn, hm, hr⟩ := h
  unfold Inodes.iget
  rw [if_neg (by simp [hn, hm]), if_pos hr]

theorem getFsyncInode_eq_none {head : List FsyncInodeEntry} {ino : Nat} :
    getFsyncInode head ino = none ↔ ∀ entry ∈ head, entry.ino ≠ ino := by
  simp [getFsyncInode]

theorem mem_of_getFsyncInode {head : List FsyncInodeEntry} {ino : Nat} {entry : FsyncInodeEntry}
    (h : getFsyncInode head ino = some entry) : entry ∈ head ∧ entry.ino = ino := by
  unfold getFsyncInode at h
  exact ⟨List.mem_of_find?_eq_some h, by simpa using List.find?_some h⟩

theorem ino_markList (page : NodeFooter) (blkaddr : Nat) (head : List FsyncInodeEntry) :
    (markList page blkaddr head).map (·.ino) = head.map (·.ino) := by
  unfold markList
  rw [List.map_map]
  apply List.map_congr_left
  intro entry _
  simp only [Function.comp_apply]
  split <;> rfl

/-! ## `find_fsync_dnodes` -/

/-- No listed inode has a number that cannot be read. -/
def NoneBad (log : NodeLog) (s : FindState) : Prop := ∀ ino ∈ s.head.map (·.ino), ¬log.BadIno ino

/-- Going on means going to the next block; no bad inode gets into the list. -/
theorem findStep_next {s s' : FindState} (h : findStep log checkOnly s = .next s')
    (hs : NoneBad log s) : s'.blkaddr = log.nextBlkaddr s.blkaddr ∧ NoneBad log s' := by
  obtain ⟨-, e⟩ | ⟨-, ⟨-, e⟩ | ⟨-, ⟨entry, -, e⟩ | ⟨-, ⟨err, -, e⟩ | ⟨s₁, hm, ⟨hi, e⟩ |
    ⟨err, -, hi, e⟩ | ⟨hi, e⟩⟩⟩⟩⟩ := findStep_cases log checkOnly s
  · cases e.symm.trans h
  · obtain rfl := Turn.next.inj (e.symm.trans h)
    exact ⟨rfl, hs⟩
  · obtain rfl := Turn.next.inj (e.symm.trans h)
    refine ⟨rfl, ?_⟩
    unfold NoneBad FindState.mark
    rw [ino_markList]
    exact hs
  · cases e.symm.trans h
  · obtain ⟨-, hh, -⟩ := recoverMissing_frame _ _ hm
    obtain rfl := Turn.next.inj (e.symm.trans h)
    refine ⟨rfl, ?_⟩
    unfold NoneBad FindState.skip
    rw [hh]
    exact hs
  · cases e.symm.trans h
  · obtain ⟨-, hh, -⟩ := recoverMissing_frame _ _ hm
    obtain rfl := Turn.next.inj (e.symm.trans h)
    refine ⟨rfl, ?_⟩
    unfold NoneBad FindState.mark
    rw [ino_markList, hh, List.map_append]
    intro ino hino
    obtain hino | hino := List.mem_append.mp hino
    · exact hs ino hino
    · obtain rfl : ino = (log.page s.blkaddr).ino := by simpa using hino
      intro hbad
      rw [iget_badIno hbad] at hi
      cases hi

/-- The pass does not get past a block where it stops. -/
theorem findStep_of_stops (checkOnly : Bool) {s : FindState} (hs : NoneBad log s)
    (h : log.Stops s.blkaddr) :
    ∃ r, findStep log checkOnly s = .done r := by
  obtain h | ⟨hf, hbad⟩ := h
  · exact ⟨_, findStep_stop log checkOnly s h⟩
  obtain ⟨-, e⟩ | ⟨-, ⟨hf', -⟩ | ⟨-, ⟨entry, hg, -⟩ | ⟨-, ⟨err, -, e⟩ | ⟨s₁, hm, ⟨hi, -⟩ |
    ⟨err, -, hi, e⟩ | ⟨hi, -⟩⟩⟩⟩⟩ := findStep_cases log checkOnly s
  · exact ⟨_, e⟩
  · rw [hf] at hf'
    cases hf'
  · obtain ⟨hmem, hino⟩ := mem_of_getFsyncInode hg
    exact absurd (hino ▸ hbad) (hs _ (List.mem_map_of_mem hmem))
  · exact ⟨_, e⟩
  · rw [iget_badIno hbad] at hi
    cases hi
  · exact ⟨_, e⟩
  · rw [iget_badIno hbad] at hi
    cases hi

/-- The pass stays on the walk. -/
theorem exists_find_trail (checkOnly : Bool) {a : Nat} {w : List Nat} {z : Nat}
    (hw : Walk log.nextBlkaddr log.Stops a w z) :
    ∀ s : FindState, s.blkaddr = a → NoneBad log s →
      ∃ l r, Trail (findStep log checkOnly) s l r ∧ l.map (·.blkaddr) <+: w ++ [z] := by
  induction hw with
  | stop h =>
      rintro s rfl hs
      obtain ⟨r, hr⟩ := findStep_of_stops checkOnly hs h
      exact ⟨[s], r, .done hr, by simp⟩
  | @step a w z h hw ih =>
      rintro s rfl hs
      cases hstep : findStep log checkOnly s with
      | done r => exact ⟨[s], r, .done hstep, by simp⟩
      | next s' =>
          obtain ⟨hb, hs'⟩ := findStep_next hstep hs
          obtain ⟨l, r, t, hp⟩ := ih s' hb hs'
          exact ⟨s :: l, r, .next hstep t, by simpa using hp⟩

/-- Returning 0 means having come to the end of the log. -/
theorem walk_of_find_trail {s s' : FindState} {l : List FindState}
    (t : Trail (findStep log checkOnly) s l (none, s')) (hs : NoneBad log s) :
    ∃ w z, Walk log.nextBlkaddr (fun a => log.recoverable a = false) s.blkaddr w z := by
  generalize hr : (none, s') = r at t
  induction t with
  | @done s b h =>
      subst hr
      obtain ⟨hrec, -⟩ | ⟨-, ⟨-, e⟩ | ⟨-, ⟨entry, -, e⟩ | ⟨-, ⟨err, -, e⟩ | ⟨s₁, -, ⟨-, e⟩ |
        ⟨err, -, -, e⟩ | ⟨-, e⟩⟩⟩⟩⟩ := findStep_cases log checkOnly s
      · exact ⟨[], s.blkaddr, .stop hrec⟩
      all_goals cases e.symm.trans h
  | @next s s₁ l b h t ih =>
      obtain ⟨hb, hs₁⟩ := findStep_next h hs
      obtain ⟨w, z, hw⟩ := ih hs₁ hr
      by_cases hrec : log.recoverable s.blkaddr = false
      · exact ⟨[], s.blkaddr, .stop hrec⟩
      · exact ⟨s.blkaddr :: w, z, .step hrec (hb ▸ hw)⟩

/-! ## `recover_data` -/

theorem recoverStep_next {σ : Type} {f : Callees σ} {s s' : RecoverState σ}
    (h : recoverStep log f s = .next s') : s'.blkaddr = log.nextBlkaddr s.blkaddr := by
  cases hr : log.recoverable s.blkaddr with
  | false => cases (recoverStep_stop log f s hr).symm.trans h
  | true =>
      cases he : getFsyncInode s.inodeList (log.page s.blkaddr).ino with
      | none =>
          rw [recoverStep_skip log f s hr he] at h
          cases h
          rfl
      | some entry =>
          rw [recoverStep_replay log f s hr he] at h
          split at h
          · cases h
          · cases h
            rfl

theorem exists_recover_trail {σ : Type} {f : Callees σ} {a : Nat} {w : List Nat} {z : Nat}
    (hw : Walk log.nextBlkaddr (fun a => log.recoverable a = false) a w z) :
    ∀ s : RecoverState σ, s.blkaddr = a →
      ∃ l r, Trail (recoverStep log f) s l r ∧ l.map (·.blkaddr) <+: w ++ [z] := by
  induction hw with
  | stop h =>
      rintro s rfl
      exact ⟨[s], _, .done (recoverStep_stop log f s h), by simp⟩
  | @step a w z h hw ih =>
      rintro s rfl
      cases hstep : recoverStep log f s with
      | done r => exact ⟨[s], r, .done hstep, by simp⟩
      | next s' =>
          obtain ⟨l, r, t, hp⟩ := ih s' (recoverStep_next hstep)
          exact ⟨s :: l, r, .next hstep t, by simpa using hp⟩

/-! ## A volume on which nothing fails -/

/-- No inode of the log is in the checkpoint, and none has trouble being read. -/
def freshInodes : Inodes where
  blkAddr := fun _ => nullAddr
  setupErr := fun _ => none

/-- Nothing has failed so far: the nodes found are those of listed inodes. -/
def Fresh (s : FindState) : Prop :=
  (∀ ino, s.inodes.setupErr ino = none) ∧
    ∀ ino, s.inodes.blkAddr ino ≠ nullAddr → ino ∈ s.head.map (·.ino)

theorem fresh_mark {s : FindState} (hs : Fresh s) (page : NodeFooter) : Fresh (s.mark page) := by
  unfold Fresh FindState.mark
  rw [ino_markList]
  exact hs

theorem iget_fresh (log : NodeLog) {inodes : Inodes} (h : ∀ ino, inodes.setupErr ino = none)
    (ino : Nat) :
    (inodes.iget log ino = some .inval ∧ log.BadIno ino) ∨
      (inodes.iget log ino = some .noent ∧ inodes.blkAddr ino = nullAddr) ∨
      inodes.iget log ino = none := by
  unfold Inodes.iget
  by_cases hc : ino = log.nodeIno ∨ ino = log.metaIno
  · rw [if_pos hc]
    exact .inr (.inr (h ino))
  rw [if_neg hc]
  by_cases hr : log.checkNidRange ino = true
  · rw [if_pos hr]
    exact .inl ⟨rfl, fun e => hc (.inl e), fun e => hc (.inr e), hr⟩
  rw [if_neg hr]
  by_cases hb : inodes.blkAddr ino = nullAddr
  · rw [if_pos hb]
    exact .inr (.inl ⟨rfl, hb⟩)
  · rw [if_neg hb]
    exact .inr (.inr (h ino))

/-- On such a volume a missing inode that says it is new is recovered. -/
theorem recoverMissing_fresh (checkOnly : Bool) {s : FindState} {page : NodeFooter} (hs : Fresh s)
    (hg : getFsyncInode s.head page.ino = none) :
    ∃ s₁, recoverMissing checkOnly s page = .ok s₁ ∧ s₁.head = s.head ∧
      (∀ ino, s₁.inodes.setupErr ino = none) ∧
      ∀ ino, ino ≠ page.ino → s₁.inodes.blkAddr ino = s.inodes.blkAddr ino := by
  obtain ⟨e, -⟩ | ⟨-, -, -, ⟨hb, -⟩ | ⟨-, e⟩⟩ := recoverMissing_cases checkOnly s page
  · exact ⟨_, e, rfl, hs.1, fun _ _ => rfl⟩
  · obtain ⟨entry, hmem, hino⟩ := List.mem_map.mp (hs.2 _ hb)
    exact absurd hino (getFsyncInode_eq_none.mp hg entry hmem)
  · exact ⟨_, e, rfl, hs.1, fun ino hne => Function.update_of_ne hne _ _⟩

/-- With nothing failing, every round but the last goes on. -/
theorem findStep_fresh (log : NodeLog) (checkOnly : Bool) {s : FindState} (hs : Fresh s) :
    log.Stops s.blkaddr ∨ ∃ s', findStep log checkOnly s = .next s' ∧ Fresh s' := by
  obtain ⟨hrec, -⟩ | ⟨-, ⟨-, e⟩ | ⟨hf, ⟨entry, -, e⟩ | ⟨hg, hrest⟩⟩⟩ :=
    findStep_cases log checkOnly s
  · exact .inl (.inl hrec)
  · exact .inr ⟨_, e, hs⟩
  · exact .inr ⟨_, e, fresh_mark hs _⟩
  obtain ⟨s₁, hm, hh, hok, hblk⟩ := recoverMissing_fresh checkOnly hs hg
  have hino := iget_fresh log hok (log.page s.blkaddr).ino
  obtain ⟨err, hm', -⟩ | ⟨s₂, hm', hrest⟩ := hrest
  · cases hm.symm.trans hm'
  obtain rfl := Except.ok.inj (hm.symm.trans hm')
  obtain ⟨hi, e⟩ | ⟨err, hne, hi, -⟩ | ⟨hi, e⟩ := hrest
  · refine .inr ⟨_, e, hok, fun ino hb => ?_⟩
    obtain ⟨hi', -⟩ | ⟨-, hnull⟩ | hi' := hino
    · cases hi.symm.trans hi'
    · have hne : ino ≠ (log.page s.blkaddr).ino := fun heq => hb (heq ▸ hnull)
      have hmem := hs.2 ino (hblk ino hne ▸ hb)
      rwa [← hh] at hmem
    · cases hi.symm.trans hi'
  · obtain ⟨-, hbad⟩ | ⟨hi', -⟩ | hi' := hino
    · exact .inl (.inr ⟨hf, hbad⟩)
    · exact absurd (Option.some.inj (hi.symm.trans hi')) hne
    · cases hi.symm.trans hi'
  · have hadd : Fresh { s₁ with head := s₁.head ++ [⟨(log.page s.blkaddr).ino, 0, 0⟩] } := by
      refine ⟨hok, fun ino hb => ?_⟩
      rw [List.map_append, hh]
      by_cases heq : ino = (log.page s.blkaddr).ino
      · exact List.mem_append_right _ (by simp [heq])
      · exact List.mem_append_left _ (hs.2 ino (hblk ino heq ▸ hb))
    exact .inr ⟨_, e, fresh_mark hadd _⟩

/-- Leaving the loop there takes a block where the pass stops. -/
theorem walk_of_fresh_trail {s : FindState} {l : List FindState}
    {r : Option Errno × FindState} (t : Trail (findStep log checkOnly) s l r) (hs : Fresh s)
    (hbad : NoneBad log s) : ∃ w z, Walk log.nextBlkaddr log.Stops s.blkaddr w z := by
  induction t with
  | @done s r h =>
      obtain hstop | ⟨s', e, -⟩ := findStep_fresh log checkOnly hs
      · exact ⟨[], _, .stop hstop⟩
      · cases e.symm.trans h
  | @next s s' l r h t ih =>
      by_cases hstop : log.Stops s.blkaddr
      · exact ⟨[], _, .stop hstop⟩
      obtain hstop' | ⟨s₁, e, hs₁⟩ := findStep_fresh log checkOnly hs
      · exact absurd hstop' hstop
      obtain rfl := Turn.next.inj (e.symm.trans h)
      obtain ⟨hb, hbad'⟩ := findStep_next h hbad
      obtain ⟨w, z, hw⟩ := ih hs₁ hbad'
      exact ⟨s.blkaddr :: w, z, .step hstop (hb ▸ hw)⟩

/-! ## When both passes end -/

theorem noneBad_start (log : NodeLog) (inodes : Inodes) : NoneBad log (findStart log inodes) :=
  fun _ hino => absurd hino List.not_mem_nil

/-- Both passes end exactly when the chain comes to a block where it stops. -/
theorem terminates_iff (log : NodeLog) :
    log.Terminates ↔ ∃ k, log.Stops (log.nextBlkaddr^[k] log.start) := by
  rw [← exists_walk_iff]
  constructor
  · intro h
    obtain ⟨⟨l, r, t, -⟩, -⟩ := h false freshInodes
    have hfresh : Fresh (findStart log freshInodes) := ⟨fun _ => rfl, fun _ hb => absurd rfl hb⟩
    exact walk_of_fresh_trail t hfresh (noneBad_start log _)
  · rintro ⟨w, z, hw⟩ checkOnly inodes
    constructor
    · obtain ⟨l, r, t, hp⟩ := exists_find_trail checkOnly hw
        (findStart log inodes) rfl (noneBad_start log _)
      exact ⟨l, r, t, hw.nodup.sublist hp.sublist⟩
    · intro l s t σ f vol
      obtain ⟨w', z', hw'⟩ := walk_of_find_trail t (noneBad_start log _)
      obtain ⟨l', r, t', hp⟩ := exists_recover_trail (f := f) hw'
        (recoverStart log s.head vol) rfl
      exact ⟨l', r, t', hw'.nodup.sublist hp.sublist⟩

/-! ## A chain that loops -/

/-- The log begins with a block that names itself as the next one. -/
def loopingLog : NodeLog where
  sm := smallSm
  cp := { ckpt := { checkpointVer := 7 }, crc := 0 }
  nodeIno := 1
  metaIno := 2
  rootIno := 3
  maxNid := 455
  curseg := { segno := 2, nextBlkoff := 5, allocType := .LFS }
  page := fun blkaddr =>
    { nid := 4, ino := 4, flag := 6, cpVer := 7, nextBlkaddr := blkaddr }

/-- Neither pass gets past it. -/
theorem loopingLog_not_terminates : ¬loopingLog.Terminates := by
  rw [terminates_iff]
  rintro ⟨k, h⟩
  rw [Function.iterate_fixed (f := loopingLog.nextBlkaddr) rfl] at h
  obtain h | ⟨-, -, -, h⟩ := h
  · exact absurd h (by decide +kernel)
  · exact absurd h (by decide +kernel)

end F2fs.Recovery

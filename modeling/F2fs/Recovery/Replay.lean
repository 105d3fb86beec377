/-
  What roll-forward recovery replays.

  On a chain that ends and with no error on the way, `find_fsync_dnodes` lists the
  inodes with an fsynced block, each with the last such block, provided that the inode
  is in the checkpoint or one of its fsynced inode blocks carries the dentry mark.
  `recover_data` then replays, for every listed inode, its blocks from the start of the
  chain through that last one, and strikes the inode off the list there.
-/
import F2fs.Recovery.Terminates

namespace F2fs.Recovery

open Checkpoint Segment Loop

universe u

/-! ## The blocks of an inode on a chain -/

/-- A list through its last element with `p`; nothing if there is none. -/
def throughLast {α : Type u} (p : α → Bool) : List α → List α
  | [] => []
  | a :: l => if (a :: l).any p then a :: throughLast p l else []

namespace NodeLog

variable (log : NodeLog) (l : List Nat) (ino : Nat)

/-- A block of the inode. -/
def isDnodeOf (blkaddr : Nat) : Bool := (log.page blkaddr).ino = ino

/-- A block of the inode with the fsync mark. -/
def isFsyncOf (blkaddr : Nat) : Bool :=
  log.isDnodeOf ino blkaddr && (log.page blkaddr).isFsyncDnode

/-- An inode block with both marks. -/
def isDentryOf (blkaddr : Nat) : Bool :=
  log.isFsyncOf ino blkaddr && ((log.page blkaddr).isInode && (log.page blkaddr).isDentDnode)

/-- The inode can be read, or an inode block of the chain brings it back. -/
def known (inodes : Inodes) : Bool :=
  inodes.iget log ino = none || l.any (log.isDentryOf ino)

/-- The last inode block with both marks; 0 if there is none. -/
def lastDentry : Nat := ((l.filter (log.isDentryOf ino)).getLast?).getD 0

/-- The entry `find_fsync_dnodes` makes for the inode. -/
def entryOf (inodes : Inodes) : Option FsyncInodeEntry :=
  if log.known l ino inodes then
    ((l.filter (log.isFsyncOf ino)).getLast?).map fun blkaddr =>
      { ino := ino, blkaddr := blkaddr, lastDentry := log.lastDentry l ino }
  else none

/-- The calls for one block of the chain. -/
def callsAt (blkaddr : Nat) : List Call :=
  let page := log.page blkaddr
  (if page.isInode then [.recoverInode page.ino blkaddr] else []) ++
    (if log.lastDentry l page.ino = blkaddr then [.recoverDentry page.ino blkaddr] else []) ++
    [.doRecoverData page.ino blkaddr]

/-- The blocks of the inode that are replayed when `rest` of the chain is to come. -/
def toReplay (inodes : Inodes) (rest : List Nat) : List Nat :=
  if log.known l ino inodes then
    throughLast (log.isFsyncOf ino) (rest.filter (log.isDnodeOf ino))
  else []

/-- What the chain is promised to hold: inode numbers in range, and the dentry mark only
    on inodes that are not in the checkpoint. -/
def Written (inodes : Inodes) : Prop :=
  ∀ blkaddr ∈ l, log.checkNidRange (log.page blkaddr).ino = false ∧
    (log.isDentryOf (log.page blkaddr).ino blkaddr = true →
      inodes.blkAddr (log.page blkaddr).ino = nullAddr)

end NodeLog

namespace Callees

variable {σ : Type u} (f : Callees σ)

/-- No call returns an error. -/
def NoErr : Prop :=
  ∀ vol ino blkaddr, (f.recoverDentry vol ino blkaddr).1 = none ∧
    (f.doRecoverData vol ino blkaddr).1 = none

/-- One call. -/
def call (vol : σ) : Call → σ
  | .recoverInode ino blkaddr => f.recoverInode vol ino blkaddr
  | .recoverDentry ino blkaddr => (f.recoverDentry vol ino blkaddr).2
  | .doRecoverData ino blkaddr => (f.doRecoverData vol ino blkaddr).2

/-- Calls one after the other. -/
def replay (vol : σ) (calls : List Call) : σ := calls.foldl f.call vol

end Callees

/-! ## `find_fsync_dnodes` -/

section Find

variable {log : NodeLog} {inodes : Inodes} {pre : List Nat} {a ino : Nat}

theorem isFsyncOf_of_isDentryOf (h : log.isDentryOf ino a = true) :
    log.isFsyncOf ino a = true := by
  rw [NodeLog.isDentryOf, Bool.and_eq_true] at h
  exact h.1

theorem isDnodeOf_of_isFsyncOf (h : log.isFsyncOf ino a = true) :
    (log.page a).ino = ino := by
  rw [NodeLog.isFsyncOf, Bool.and_eq_true, NodeLog.isDnodeOf] at h
  exact of_decide_eq_true h.1

/-- A block that is not an fsynced one of the inode does not change its entry. -/
theorem entryOf_append_other (h : log.isFsyncOf ino a = false) :
    log.entryOf (pre ++ [a]) ino inodes = log.entryOf pre ino inodes := by
  have hd : log.isDentryOf ino a = false := by
    rw [NodeLog.isDentryOf, h]
    rfl
  simp [NodeLog.entryOf, NodeLog.known, NodeLog.lastDentry, h, hd]

theorem lastDentry_append (log : NodeLog) (pre : List Nat) (ino a : Nat) :
    log.lastDentry (pre ++ [a]) ino =
      if log.isDentryOf ino a then a else log.lastDentry pre ino := by
  unfold NodeLog.lastDentry
  cases hd : log.isDentryOf ino a with
  | true => simp [hd]
  | false => simp [hd]

/-- An fsynced block of a known inode becomes the last one. -/
theorem entryOf_append_fsync (h : log.isFsyncOf ino a = true) :
    log.entryOf (pre ++ [a]) ino inodes =
      if log.known pre ino inodes || log.isDentryOf ino a then
        some ⟨ino, a, if log.isDentryOf ino a then a else log.lastDentry pre ino⟩
      else none := by
  unfold NodeLog.entryOf
  rw [lastDentry_append]
  have hk : log.known (pre ++ [a]) ino inodes =
      (log.known pre ino inodes || log.isDentryOf ino a) := by
    simp [NodeLog.known, Bool.or_assoc]
  rw [hk]
  simp [h]

theorem entryOf_some {entry : FsyncInodeEntry} (h : log.entryOf pre ino inodes = some entry) :
    log.known pre ino inodes = true ∧
      (pre.filter (log.isFsyncOf ino)).getLast? = some entry.blkaddr ∧
      entry = ⟨ino, entry.blkaddr, log.lastDentry pre ino⟩ := by
  unfold NodeLog.entryOf at h
  split at h
  case isFalse => cases h
  case isTrue hk =>
    obtain ⟨b, hb, rfl⟩ := Option.map_eq_some_iff.mp h
    exact ⟨hk, hb, rfl⟩

/-- Without an entry there was no inode block with both marks. -/
theorem no_dentry_of_entryOf_none (h : log.entryOf pre ino inodes = none) :
    pre.filter (log.isDentryOf ino) = [] := by
  rw [List.filter_eq_nil_iff]
  intro b hb hd
  unfold NodeLog.entryOf at h
  have hk : log.known pre ino inodes = true := by
    rw [NodeLog.known, Bool.or_eq_true]
    exact .inr (List.any_eq_true.mpr ⟨b, hb, hd⟩)
  rw [if_pos hk, Option.map_eq_none_iff, List.getLast?_eq_none_iff, List.filter_eq_nil_iff] at h
  exact h b hb (isFsyncOf_of_isDentryOf hd)

/-- Where the pass stands after the blocks `pre`. -/
structure Found (log : NodeLog) (inodes : Inodes) (pre : List Nat) (s : FindState) : Prop where
  setupErr : s.inodes.setupErr = inodes.setupErr
  blkAddr : ∀ ino, pre.filter (log.isDentryOf ino) = [] →
    s.inodes.blkAddr ino = inodes.blkAddr ino
  nodup : (s.head.map (·.ino)).Nodup
  mem : ∀ entry, entry ∈ s.head ↔ log.entryOf pre entry.ino inodes = some entry

theorem mem_markList {page : NodeFooter} {head : List FsyncInodeEntry} {entry : FsyncInodeEntry} :
    entry ∈ markList page a head ↔
      (entry.ino ≠ page.ino ∧ entry ∈ head) ∨
        ∃ e₀ ∈ head, e₀.ino = page.ino ∧ entry = markEntry page a e₀ := by
  unfold markList
  rw [List.mem_map]
  constructor
  · rintro ⟨e₀, hmem, rfl⟩
    by_cases h : e₀.ino = page.ino
    · rw [if_pos h]
      exact .inr ⟨e₀, hmem, h, rfl⟩
    · rw [if_neg h]
      exact .inl ⟨h, hmem⟩
  · rintro (⟨hne, hmem⟩ | ⟨e₀, hmem, h, rfl⟩)
    · exact ⟨entry, hmem, if_neg hne⟩
    · exact ⟨e₀, hmem, if_pos h⟩

theorem eq_of_mem_of_ino {head : List FsyncInodeEntry} (hnd : (head.map (·.ino)).Nodup)
    {e e' : FsyncInodeEntry} (he : e ∈ head) (he' : e' ∈ head) (h : e.ino = e'.ino) : e = e' :=
  List.inj_on_of_nodup_map hnd he he' h

/-- Marking the entry of the block's inode brings the list up to date. -/
theorem found_mark {s : FindState} (e₀ : FsyncInodeEntry) (ha : s.blkaddr = a)
    (hsetup : s.inodes.setupErr = inodes.setupErr)
    (hblk : ∀ ino, (pre ++ [a]).filter (log.isDentryOf ino) = [] →
      s.inodes.blkAddr ino = inodes.blkAddr ino)
    (hnd : (s.head.map (·.ino)).Nodup)
    (hmem : ∀ entry, entry.ino ≠ (log.page a).ino →
      (entry ∈ s.head ↔ log.entryOf pre entry.ino inodes = some entry))
    (he₀ : e₀ ∈ s.head) (hino : e₀.ino = (log.page a).ino)
    (hnew : log.entryOf (pre ++ [a]) (log.page a).ino inodes =
      some (markEntry (log.page a) a e₀)) :
    Found log inodes (pre ++ [a]) (s.mark (log.page a)) := by
  refine ⟨hsetup, hblk, ?_, ?_⟩
  · unfold FindState.mark
    rw [ino_markList]
    exact hnd
  · intro entry
    simp only [FindState.mark, ha]
    rw [mem_markList]
    by_cases h : entry.ino = (log.page a).ino
    · rw [h, hnew]
      constructor
      · rintro (⟨hne, -⟩ | ⟨e₁, he₁, hino₁, rfl⟩)
        · exact absurd rfl hne
        · rw [eq_of_mem_of_ino hnd he₁ he₀ (hino₁.trans hino.symm)]
      · intro he
        exact .inr ⟨e₀, he₀, hino, (Option.some.inj he).symm⟩
    · have hother : log.isFsyncOf entry.ino a = false := by
        rw [← Bool.not_eq_true]
        exact fun hf => h (isDnodeOf_of_isFsyncOf hf).symm
      rw [entryOf_append_other hother, ← hmem entry h]
      constructor
      · rintro (⟨-, hin⟩ | ⟨e₁, -, hino₁, rfl⟩)
        · exact hin
        · exact absurd hino₁ h
      · exact fun hin => .inl ⟨h, hin⟩

/-- The same list stands for a block that changes no entry. -/
theorem found_skip {s s₁ : FindState} (hf : Found log inodes pre s)
    (hin : s₁.inodes = s.inodes) (hh : s₁.head = s.head)
    (h : ∀ ino, log.entryOf (pre ++ [a]) ino inodes = log.entryOf pre ino inodes) :
    Found log inodes (pre ++ [a]) (s₁.skip (log.page a)) := by
  refine ⟨?_, ?_, ?_, ?_⟩
  · exact (congrArg Inodes.setupErr hin).trans hf.setupErr
  · intro ino hno
    rw [List.filter_append, List.append_eq_nil_iff] at hno
    exact (congrArg (fun i => Inodes.blkAddr i ino) hin).trans (hf.blkAddr ino hno.1)
  · simp only [FindState.skip, hh]
    exact hf.nodup
  · intro entry
    simp only [FindState.skip, hh]
    rw [h, hf.mem]

theorem entryOf_eq_none_of_getFsyncInode {s : FindState} (hf : Found log inodes pre s)
    (h : getFsyncInode s.head ino = none) : log.entryOf pre ino inodes = none := by
  cases he : log.entryOf pre ino inodes with
  | none => rfl
  | some entry =>
      have hino : entry.ino = ino := by rw [(entryOf_some he).2.2]
      have hmem : entry ∈ s.head := (hf.mem entry).mpr (by rw [hino, he])
      exact absurd hino (getFsyncInode_eq_none.mp h entry hmem)

/-- The inode of an fsynced block gets its entry. -/
theorem found_add {s s₁ : FindState} (hf : Found log inodes pre s)
    (hg : getFsyncInode s.head (log.page s.blkaddr).ino = none)
    (hfsync : log.isFsyncOf (log.page s.blkaddr).ino s.blkaddr = true)
    (hb : s₁.blkaddr = s.blkaddr) (hh : s₁.head = s.head)
    (hsetup : s₁.inodes.setupErr = inodes.setupErr)
    (hblk : ∀ ino, (pre ++ [s.blkaddr]).filter (log.isDentryOf ino) = [] →
      s₁.inodes.blkAddr ino = inodes.blkAddr ino)
    (hk : (log.known pre (log.page s.blkaddr).ino inodes ||
      log.isDentryOf (log.page s.blkaddr).ino s.blkaddr) = true) :
    Found log inodes (pre ++ [s.blkaddr])
      (FindState.mark { s₁ with head := s₁.head ++ [⟨(log.page s.blkaddr).ino, 0, 0⟩] }
        (log.page s.blkaddr)) := by
  have hnone := entryOf_eq_none_of_getFsyncInode hf hg
  have hnotin : (log.page s.blkaddr).ino ∉ s.head.map (·.ino) := by
    rintro hmem
    obtain ⟨entry, hmem, hino⟩ := List.mem_map.mp hmem
    exact getFsyncInode_eq_none.mp hg entry hmem hino
  refine found_mark ⟨(log.page s.blkaddr).ino, 0, 0⟩ hb hsetup hblk ?_ ?_ ?_ rfl ?_
  · simp only [hh, List.map_append, List.map_cons, List.map_nil]
    exact List.nodup_append_comm.mp (List.nodup_cons.mpr ⟨hnotin, hf.nodup⟩)
  · intro entry hne
    rw [← hf.mem entry]
    simp only [hh, List.mem_append, List.mem_singleton]
    constructor
    · rintro (hin | rfl)
      · exact hin
      · exact absurd rfl hne
    · exact fun hin => .inl hin
  · exact List.mem_append_right _ List.mem_cons_self
  · have hlast : log.lastDentry pre (log.page s.blkaddr).ino = 0 := by
      rw [NodeLog.lastDentry, no_dentry_of_entryOf_none hnone]
      rfl
    rw [entryOf_append_fsync hfsync, if_pos hk, hlast]
    simp [markEntry, NodeLog.isDentryOf, hfsync]

theorem iget_congr (log : NodeLog) {i i' : Inodes} (hs : i.setupErr = i'.setupErr)
    (hb : i.blkAddr ino = i'.blkAddr ino) : i.iget log ino = i'.iget log ino := by
  unfold Inodes.iget
  rw [hs, hb]

/-- An inode whose number is in range is read, unless its node is missing. -/
theorem iget_of_inRange (log : NodeLog) {i : Inodes} (hset : ∀ ino, i.setupErr ino = none)
    (hrange : log.checkNidRange ino = false) :
    i.iget log ino = none ∨ (i.iget log ino = some .noent ∧ i.blkAddr ino = nullAddr) := by
  obtain ⟨-, -, -, hbad⟩ | h | h := iget_fresh log hset ino
  · rw [hrange] at hbad
    cases hbad
  · exact .inr h
  · exact .inl h

/-- One round over a block of the chain. -/
theorem found_step {s : FindState} (hset : ∀ ino, inodes.setupErr ino = none)
    (hf : Found log inodes pre s) (hrec : log.recoverable s.blkaddr = true)
    (hrange : log.checkNidRange (log.page s.blkaddr).ino = false)
    (hnew : log.isDentryOf (log.page s.blkaddr).ino s.blkaddr = true →
      inodes.blkAddr (log.page s.blkaddr).ino = nullAddr) :
    ∃ s', findStep log false s = .next s' ∧ s'.blkaddr = log.nextBlkaddr s.blkaddr ∧
      Found log inodes (pre ++ [s.blkaddr]) s' := by
  obtain ⟨hrec', -⟩ | ⟨-, ⟨hF, e⟩ | ⟨hF, ⟨entry, hg, e⟩ | ⟨hg, hrest⟩⟩⟩ :=
    findStep_cases log false s
  · rw [hrec] at hrec'
    cases hrec'
  · refine ⟨_, e, rfl, found_skip hf rfl rfl fun ino => entryOf_append_other ?_⟩
    rw [NodeLog.isFsyncOf, hF, Bool.and_false]
  · have hfsync : log.isFsyncOf (log.page s.blkaddr).ino s.blkaddr = true := by
      simp [NodeLog.isFsyncOf, NodeLog.isDnodeOf, hF]
    obtain ⟨hmem, hino⟩ := mem_of_getFsyncInode hg
    have hentry := (hf.mem entry).mp hmem
    rw [hino] at hentry
    obtain ⟨hk, -, heq⟩ := entryOf_some hentry
    refine ⟨_, e, rfl, found_mark entry rfl hf.setupErr ?_ hf.nodup (fun entry _ => hf.mem entry)
      hmem hino ?_⟩
    · intro ino hno
      rw [List.filter_append, List.append_eq_nil_iff] at hno
      exact hf.blkAddr ino hno.1
    · rw [entryOf_append_fsync hfsync, hk, Bool.true_or, if_pos rfl, heq]
      simp [markEntry, NodeLog.isDentryOf, hfsync]
  have hfsync : log.isFsyncOf (log.page s.blkaddr).ino s.blkaddr = true := by
    simp [NodeLog.isFsyncOf, NodeLog.isDnodeOf, hF]
  have hnone := entryOf_eq_none_of_getFsyncInode hf hg
  have hdent := no_dentry_of_entryOf_none hnone
  have hset' : ∀ ino, s.inodes.setupErr ino = none := by
    rw [hf.setupErr]
    exact hset
  obtain ⟨hm, hnot⟩ | ⟨-, hi, hd, hcase⟩ := recoverMissing_cases false s (log.page s.blkaddr)
  · have hd : log.isDentryOf (log.page s.blkaddr).ino s.blkaddr = false := by
      rw [NodeLog.isDentryOf, hfsync, Bool.true_and, ← Bool.not_eq_true, Bool.and_eq_true]
      exact fun h => hnot ⟨rfl, h.1, h.2⟩
    have higet := iget_congr log hf.setupErr (hf.blkAddr _ hdent)
    obtain ⟨err, hm', -⟩ | ⟨s₁, hm', hrest⟩ := hrest
    · cases hm.symm.trans hm'
    obtain rfl := Except.ok.inj (hm.symm.trans hm')
    obtain ⟨hi, e⟩ | ⟨err, hne, hi, -⟩ | ⟨hi, e⟩ := hrest
    · refine ⟨_, e, rfl, found_skip hf rfl rfl fun ino => ?_⟩
      by_cases hino : ino = (log.page s.blkaddr).ino
      · subst hino
        have hk : log.known pre (log.page s.blkaddr).ino inodes = false := by
          rw [NodeLog.known, ← higet, hi, Bool.or_eq_false_iff]
          refine ⟨rfl, ?_⟩
          rw [List.any_eq_false]
          exact fun b hb => List.filter_eq_nil_iff.mp hdent b hb
        rw [entryOf_append_fsync hfsync, hk, hd, hnone]
        rfl
      · apply entryOf_append_other
        rw [← Bool.not_eq_true]
        exact fun h => hino (isDnodeOf_of_isFsyncOf h).symm
    · obtain h | ⟨h, -⟩ := iget_of_inRange log hset' hrange
      · cases hi.symm.trans h
      · exact absurd (Option.some.inj (hi.symm.trans h)) hne
    · refine ⟨_, e, rfl, found_add hf hg hfsync rfl rfl hf.setupErr ?_ ?_⟩
      · intro ino hno
        rw [List.filter_append, List.append_eq_nil_iff] at hno
        exact hf.blkAddr ino hno.1
      · rw [NodeLog.known, ← higet, hi]
        rfl
  · have hd' : log.isDentryOf (log.page s.blkaddr).ino s.blkaddr = true := by
      rw [NodeLog.isDentryOf, hfsync, hi, hd]
      rfl
    obtain ⟨hb, -⟩ | ⟨-, hm⟩ := hcase
    · exact absurd ((hf.blkAddr _ hdent).trans (hnew hd')) hb
    obtain ⟨err, hm', -⟩ | ⟨s₁, hm', hrest⟩ := hrest
    · cases hm.symm.trans hm'
    obtain rfl := Except.ok.inj (hm.symm.trans hm')
    have higet := iget_of_inRange log
      (i := { s.inodes with
        blkAddr := Function.update s.inodes.blkAddr (log.page s.blkaddr).ino newAddr })
      hset' hrange
    obtain higet | ⟨-, hnull⟩ := higet
    · obtain ⟨hi, -⟩ | ⟨err, -, hi, -⟩ | ⟨-, e⟩ := hrest
      · cases hi.symm.trans higet
      · cases hi.symm.trans higet
      · refine ⟨_, e, rfl, found_add hf hg hfsync rfl rfl hf.setupErr ?_ ?_⟩
        · intro ino hno
          rw [List.filter_append, List.append_eq_nil_iff] at hno
          have hne : ino ≠ (log.page s.blkaddr).ino := by
            rintro rfl
            simp [hd'] at hno
          exact (Function.update_of_ne hne _ _).trans (hf.blkAddr ino hno.1)
        · rw [hd', Bool.or_true]
    · have hself : newAddr = nullAddr := (Function.update_self ..).symm.trans hnull
      exact absurd hself (by decide)

/-- The whole pass. -/
theorem found_trail {l : List Nat} {z : Nat} (hset : ∀ ino, inodes.setupErr ino = none)
    (hw : Walk log.nextBlkaddr (fun a => log.recoverable a = false) a l z) :
    ∀ (pre : List Nat) (s : FindState), s.blkaddr = a → Found log inodes pre s →
      log.Written l inodes →
      ∃ tl s', Trail (findStep log false) s tl (none, s') ∧ Found log inodes (pre ++ l) s' := by
  induction hw with
  | stop h =>
      rintro pre s rfl hf -
      refine ⟨[s], s, .done (findStep_stop log false s h), ?_⟩
      rw [List.append_nil]
      exact hf
  | @step a l z h hw ih =>
      rintro pre s rfl hf hl
      obtain ⟨hrange, hnew⟩ := hl s.blkaddr List.mem_cons_self
      obtain ⟨s₁, e, hb, hf₁⟩ := found_step hset hf (by simpa using h) hrange hnew
      obtain ⟨tl, s', t, hf'⟩ := ih (pre ++ [s.blkaddr]) s₁ hb hf₁
        fun b hb => hl b (List.mem_cons_of_mem _ hb)
      refine ⟨s :: tl, s', .next e t, ?_⟩
      rw [List.append_assoc] at hf'
      exact hf'

end Find

/-! ## `recover_data` -/

section Recover

variable {σ : Type u} {log : NodeLog} {inodes : Inodes} {f : Callees σ} {l : List Nat}

/-- Where the pass stands when the blocks `rest` of the chain `l` are still to come. -/
structure ToReplay (log : NodeLog) (inodes : Inodes) (l rest : List Nat)
    (list : List FsyncInodeEntry) : Prop where
  nodup : (list.map (·.ino)).Nodup
  mem : ∀ entry, entry ∈ list ↔
    log.entryOf l entry.ino inodes = some entry ∧ entry.blkaddr ∈ rest

/-- The last fsynced block of an inode is still to come exactly if some fsynced one is. -/
theorem last_mem_rest {pre rest : List Nat} {p : Nat → Bool} {b : Nat}
    (hb : ((pre ++ rest).filter p).getLast? = some b) :
    b ∈ rest ↔ rest.any p = true := by
  rw [List.filter_append] at hb
  constructor
  · intro hmem
    have hp : p b = true := by
      have hin := List.mem_of_getLast? hb
      rw [← List.filter_append] at hin
      exact (List.mem_filter.mp hin).2
    exact List.any_eq_true.mpr ⟨b, hmem, hp⟩
  · intro hany
    obtain ⟨c, hc, hp⟩ := List.any_eq_true.mp hany
    have hne : rest.filter p ≠ [] := List.ne_nil_of_mem (List.mem_filter.mpr ⟨hc, hp⟩)
    rw [List.getLast?_append_of_ne_nil _ hne] at hb
    exact List.mem_of_mem_filter (List.mem_of_getLast? hb)

variable {pre rest : List Nat} {a : Nat} {list : List FsyncInodeEntry}

theorem ino_of_blkaddr_eq {entry : FsyncInodeEntry}
    (h : log.entryOf l entry.ino inodes = some entry) (ha : entry.blkaddr = a) :
    (log.page a).ino = entry.ino := by
  obtain ⟨-, hlast, -⟩ := entryOf_some h
  have hin := (List.mem_filter.mp (List.mem_of_getLast? hlast)).2
  exact isDnodeOf_of_isFsyncOf (ha ▸ hin)

theorem ToReplay.eq_nil (h : ToReplay log inodes l [] list) : list = [] := by
  rw [List.eq_nil_iff_forall_not_mem]
  intro entry hmem
  exact List.not_mem_nil ((h.mem entry).mp hmem).2

/-- A block of an inode that is not listed is not to be replayed. -/
theorem ToReplay.skip (hl : l = pre ++ a :: rest) (h : ToReplay log inodes l (a :: rest) list)
    (hg : getFsyncInode list (log.page a).ino = none) :
    ToReplay log inodes l rest list ∧
      (log.known l (log.page a).ino inodes = false ∨
        (a :: rest).any (log.isFsyncOf (log.page a).ino) = false) := by
  have hnone : ∀ entry ∈ list, entry.ino ≠ (log.page a).ino := getFsyncInode_eq_none.mp hg
  refine ⟨⟨h.nodup, fun entry => ?_⟩, ?_⟩
  · rw [h.mem]
    constructor
    · rintro ⟨hentry, hmem⟩
      refine ⟨hentry, (List.mem_cons.mp hmem).resolve_left fun heq => ?_⟩
      exact hnone entry ((h.mem entry).mpr ⟨hentry, hmem⟩) (ino_of_blkaddr_eq hentry heq).symm
    · rintro ⟨hentry, hmem⟩
      exact ⟨hentry, List.mem_cons_of_mem _ hmem⟩
  · by_contra hcon
    rw [not_or, Bool.not_eq_false, Bool.not_eq_false] at hcon
    obtain ⟨hk, hany⟩ := hcon
    cases hlast : (l.filter (log.isFsyncOf (log.page a).ino)).getLast? with
    | none =>
        obtain ⟨b, hb, hp⟩ := List.any_eq_true.mp hany
        rw [List.getLast?_eq_none_iff, List.filter_eq_nil_iff] at hlast
        exact hlast b (hl ▸ List.mem_append_right _ hb) hp
    | some b =>
        have hentry : log.entryOf l (log.page a).ino inodes =
            some ⟨(log.page a).ino, b, log.lastDentry l (log.page a).ino⟩ := by
          rw [NodeLog.entryOf, if_pos hk, hlast]
          rfl
        have hmem : b ∈ a :: rest := (last_mem_rest (hl ▸ hlast)).mpr hany
        exact hnone ⟨(log.page a).ino, b, log.lastDentry l (log.page a).ino⟩
          ((h.mem _).mpr ⟨hentry, hmem⟩) rfl

/-- A block of a listed inode is to be replayed; at its last one the inode leaves the list. -/
theorem ToReplay.step (hl : l = pre ++ a :: rest) (hnd : l.Nodup)
    (h : ToReplay log inodes l (a :: rest) list) {entry : FsyncInodeEntry}
    (hg : getFsyncInode list (log.page a).ino = some entry) :
    ToReplay log inodes l rest
        (if entry.blkaddr = a then delFsyncInode entry list else list) ∧
      entry.ino = (log.page a).ino ∧ entry.lastDentry = log.lastDentry l (log.page a).ino ∧
      log.known l (log.page a).ino inodes = true ∧
      (a :: rest).any (log.isFsyncOf (log.page a).ino) = true := by
  obtain ⟨hmem, hino⟩ := mem_of_getFsyncInode hg
  obtain ⟨hentry, hrest⟩ := (h.mem entry).mp hmem
  rw [hino] at hentry
  obtain ⟨hk, hlast, heq⟩ := entryOf_some hentry
  refine ⟨?_, hino, by rw [heq], hk, (last_mem_rest (hl ▸ hlast)).mp hrest⟩
  have harest : a ∉ rest := by
    rw [hl] at hnd
    exact (List.nodup_cons.mp (List.nodup_append.mp hnd).2.1).1
  -- no other entry ends at this block
  have honly : ∀ e ∈ list, e.blkaddr = a → e = entry := fun e he ha =>
    eq_of_mem_of_ino h.nodup he hmem
      ((ino_of_blkaddr_eq ((h.mem e).mp he).1 ha).symm.trans hino.symm)
  split
  case isTrue ha =>
    have hlnd : list.Nodup := List.Nodup.of_map _ h.nodup
    refine ⟨?_, fun e => ?_⟩
    · exact h.nodup.sublist ((List.erase_sublist (a := entry)).map _)
    · unfold delFsyncInode
      rw [hlnd.mem_erase_iff]
      constructor
      · rintro ⟨hne, he⟩
        obtain ⟨he', hin⟩ := (h.mem e).mp he
        exact ⟨he', (List.mem_cons.mp hin).resolve_left fun ha' => hne (honly e he ha')⟩
      · rintro ⟨he', hin⟩
        refine ⟨fun heq' => harest ?_, (h.mem e).mpr ⟨he', List.mem_cons_of_mem _ hin⟩⟩
        rw [heq', ha] at hin
        exact hin
  case isFalse ha =>
    refine ⟨h.nodup, fun e => ?_⟩
    rw [h.mem]
    constructor
    · rintro ⟨he', hin⟩
      refine ⟨he', (List.mem_cons.mp hin).resolve_left fun ha' => ha ?_⟩
      rw [← honly e ((h.mem e).mpr ⟨he', hin⟩) ha']
      exact ha'
    · rintro ⟨he', hin⟩
      exact ⟨he', List.mem_cons_of_mem _ hin⟩

/-- If `recover_data` returns 0 the list is empty. -/
theorem inodeList_eq_nil {z : Nat} (hnd : l.Nodup)
    (hw : Walk log.nextBlkaddr (fun a => log.recoverable a = false) a rest z) :
    ∀ (pre : List Nat) (s s' : RecoverState σ) (tl : List (RecoverState σ)), l = pre ++ rest →
      s.blkaddr = a → ToReplay log inodes l rest s.inodeList →
      Trail (recoverStep log f) s tl (none, s') → s'.inodeList = [] := by
  induction hw with
  | stop h =>
      rintro pre s s' tl hl rfl hr t
      obtain ⟨-, hs⟩ := t.det (.done (recoverStep_stop log f s h))
      cases hs
      exact hr.eq_nil
  | @step a rest z h hw ih =>
      rintro pre s s' tl hl rfl hr t
      have hrec : log.recoverable s.blkaddr = true := by simpa using h
      have hl' : l = (pre ++ [s.blkaddr]) ++ rest := by simpa using hl
      cases hg : getFsyncInode s.inodeList (log.page s.blkaddr).ino with
      | none =>
          have hstep := recoverStep_skip log f s hrec hg
          cases t with
          | done e => cases e.symm.trans hstep
          | next e t =>
              obtain rfl := Turn.next.inj (e.symm.trans hstep)
              exact ih _ { s with blkaddr := log.nextBlkaddr s.blkaddr } s' _ hl' rfl
                (hr.skip hl hg).1 t
      | some entry =>
          have hstep := recoverStep_replay log f s hrec hg
          have hr' := (hr.step hl hnd hg).1
          rcases hb : replayBlock f s (log.page s.blkaddr) entry with ⟨_ | err, vol⟩
          · rw [hb] at hstep
            cases t with
            | done e => cases e.symm.trans hstep
            | next e t =>
                obtain rfl := Turn.next.inj (e.symm.trans hstep)
                exact ih _ _ s' _ hl' rfl hr' t
          · rw [hb] at hstep
            cases t with
            | done e => cases e.symm.trans hstep
            | next e t => cases e.symm.trans hstep

/-- The calls for one block, when none of them fails. -/
theorem replayBlock_eq (hf : f.NoErr) (s : RecoverState σ) {entry : FsyncInodeEntry}
    (hino : entry.ino = (log.page s.blkaddr).ino)
    (hlast : entry.lastDentry = log.lastDentry l (log.page s.blkaddr).ino) :
    replayBlock f s (log.page s.blkaddr) entry =
      (none, f.replay s.vol (log.callsAt l s.blkaddr)) := by
  have hpair : ∀ x : Option Errno × σ, x.1 = none → x = (none, x.2) := by
    rintro ⟨_, _⟩ rfl
    rfl
  have hdent := fun vol => hpair _ (hf vol (log.page s.blkaddr).ino s.blkaddr).1
  have hdata := fun vol => hpair _ (hf vol (log.page s.blkaddr).ino s.blkaddr).2
  unfold replayBlock NodeLog.callsAt Callees.replay
  rw [hino, hlast]
  simp only
  generalize hvol : (if (log.page s.blkaddr).isInode = true then _ else s.vol) = vol
  have hfirst : (if (log.page s.blkaddr).isInode = true then
      [Call.recoverInode (log.page s.blkaddr).ino s.blkaddr] else []).foldl f.call s.vol = vol := by
    rw [← hvol]
    split <;> rfl
  rw [List.foldl_append, List.foldl_append, hfirst]
  by_cases hd : log.lastDentry l (log.page s.blkaddr).ino = s.blkaddr
  · rw [if_pos hd, if_pos hd, hdent]
    exact hdata _
  · rw [if_neg hd, if_neg hd]
    exact hdata _

theorem throughLast_eq_nil {p : Nat → Bool} {m : List Nat} (h : m.any p = false) :
    throughLast p m = [] := by
  cases m with
  | nil => rfl
  | cons b m =>
      rw [throughLast, if_neg]
      rw [h]
      exact Bool.false_ne_true

theorem any_dnodes (log : NodeLog) (ino : Nat) (m : List Nat) :
    (m.filter (log.isDnodeOf ino)).any (log.isFsyncOf ino) = m.any (log.isFsyncOf ino) := by
  rw [List.any_filter]
  congr 1
  funext b
  unfold NodeLog.isFsyncOf
  rw [← Bool.and_assoc, Bool.and_self]

theorem toReplay_other {ino : Nat} (h : (log.page a).ino ≠ ino) :
    log.toReplay l ino inodes (a :: rest) = log.toReplay l ino inodes rest := by
  unfold NodeLog.toReplay
  rw [List.filter_cons_of_neg]
  simpa [NodeLog.isDnodeOf] using h

theorem filter_dnode_cons (log : NodeLog) (a : Nat) (rest : List Nat) :
    (a :: rest).filter (log.isDnodeOf (log.page a).ino) =
      a :: rest.filter (log.isDnodeOf (log.page a).ino) := by
  rw [List.filter_cons_of_pos]
  simp [NodeLog.isDnodeOf]

theorem toReplay_skip (h : log.known l (log.page a).ino inodes = false ∨
      (a :: rest).any (log.isFsyncOf (log.page a).ino) = false) :
    log.toReplay l (log.page a).ino inodes (a :: rest) = [] ∧
      log.toReplay l (log.page a).ino inodes rest = [] := by
  unfold NodeLog.toReplay
  obtain h | h := h
  · rw [h]
    exact ⟨rfl, rfl⟩
  · have hrest : rest.any (log.isFsyncOf (log.page a).ino) = false := by
      rw [List.any_cons, Bool.or_eq_false_iff] at h
      exact h.2
    rw [throughLast_eq_nil (by rw [any_dnodes]; exact h),
      throughLast_eq_nil (by rw [any_dnodes]; exact hrest)]
    exact ⟨ite_self _, ite_self _⟩

theorem toReplay_step (hk : log.known l (log.page a).ino inodes = true)
    (hany : (a :: rest).any (log.isFsyncOf (log.page a).ino) = true) :
    log.toReplay l (log.page a).ino inodes (a :: rest) =
      a :: log.toReplay l (log.page a).ino inodes rest := by
  unfold NodeLog.toReplay
  rw [if_pos hk, if_pos hk, filter_dnode_cons, throughLast, if_pos]
  rw [← filter_dnode_cons, any_dnodes]
  exact hany

/-- The whole pass. -/
theorem replay_trail {z : Nat} (hnd : l.Nodup) (hf : f.NoErr)
    (hw : Walk log.nextBlkaddr (fun a => log.recoverable a = false) a rest z) :
    ∀ (pre : List Nat) (s : RecoverState σ), l = pre ++ rest → s.blkaddr = a →
      ToReplay log inodes l rest s.inodeList →
      ∃ (tl : List (RecoverState σ)) (s' : RecoverState σ) (m : List Nat),
        Trail (recoverStep log f) s tl (none, s') ∧ m.Sublist rest ∧
        (∀ ino, m.filter (log.isDnodeOf ino) = log.toReplay l ino inodes rest) ∧
        s'.vol = f.replay s.vol (m.flatMap (log.callsAt l)) := by
  induction hw with
  | stop h =>
      rintro pre s hl rfl hr
      refine ⟨[s], s, [], .done (recoverStep_stop log f s h), List.Sublist.refl _, ?_, rfl⟩
      intro ino
      exact (ite_self _).symm
  | @step a rest z h hw ih =>
      rintro pre s hl rfl hr
      have hrec : log.recoverable s.blkaddr = true := by simpa using h
      have hl' : l = (pre ++ [s.blkaddr]) ++ rest := by simpa using hl
      cases hg : getFsyncInode s.inodeList (log.page s.blkaddr).ino with
      | none =>
          obtain ⟨hr', hskip⟩ := hr.skip hl hg
          obtain ⟨tl, s', m, t, hm, hfilter, hvol⟩ :=
            ih _ { s with blkaddr := log.nextBlkaddr s.blkaddr } hl' rfl hr'
          refine ⟨s :: tl, s', m, .next (recoverStep_skip log f s hrec hg) t, hm.cons _, ?_,
            hvol⟩
          intro ino
          by_cases hino : (log.page s.blkaddr).ino = ino
          · subst hino
            obtain ⟨h₁, h₂⟩ := toReplay_skip hskip
            rw [hfilter, h₁, h₂]
          · rw [hfilter, toReplay_other hino]
      | some entry =>
          obtain ⟨hr', hino, hlast, hk, hany⟩ := hr.step hl hnd hg
          have hstep := recoverStep_replay log f s hrec hg
          rw [replayBlock_eq hf s hino hlast] at hstep
          obtain ⟨tl, s', m, t, hm, hfilter, hvol⟩ := ih _ (RecoverState.mk _ _ _) hl' rfl hr'
          refine ⟨s :: tl, s', s.blkaddr :: m, .next hstep t, hm.cons_cons _, ?_, ?_⟩
          · intro ino
            by_cases hino : (log.page s.blkaddr).ino = ino
            · subst hino
              rw [filter_dnode_cons, hfilter, toReplay_step hk hany]
            · rw [List.filter_cons_of_neg (by simpa [NodeLog.isDnodeOf] using hino), hfilter,
                toReplay_other hino]
          · rw [List.flatMap_cons, hvol, Callees.replay, Callees.replay, Callees.replay,
              List.foldl_append]

end Recover

/-! ## Both passes -/

theorem found_start (log : NodeLog) (inodes : Inodes) :
    Found log inodes [] (findStart log inodes) := by
  refine ⟨rfl, fun _ _ => rfl, List.nodup_nil, fun entry => ?_⟩
  constructor
  · exact fun h => absurd h List.not_mem_nil
  · intro h
    obtain ⟨-, hlast, -⟩ := entryOf_some h
    cases hlast

/-- The list the first pass leaves is the one the second pass starts from. -/
theorem toReplay_of_found {log : NodeLog} {inodes : Inodes} {l : List Nat} {s : FindState}
    (hf : Found log inodes l s) : ToReplay log inodes l l s.head := by
  refine ⟨hf.nodup, fun entry => ?_⟩
  rw [hf.mem]
  constructor
  · intro h
    obtain ⟨-, hlast, -⟩ := entryOf_some h
    exact ⟨h, List.mem_of_mem_filter (List.mem_of_getLast? hlast)⟩
  · exact fun h => h.1

/-- With no error on the way, roll-forward replays the blocks of every known inode from
    the start of the chain through its last fsynced one, in the order of the chain, and
    recovers a dentry only at the inode's last block with both marks. -/
theorem rollForward_replays (log : NodeLog) (inodes : Inodes) {l : List Nat} {z : Nat}
    (hw : Walk log.nextBlkaddr (fun a => log.recoverable a = false) log.start l z)
    (hset : ∀ ino, inodes.setupErr ino = none) (hl : log.Written l inodes) :
    ∃ n s, run (findStep log false) n (findStart log inodes) = some (none, s) ∧
      ∀ (σ : Type u) (f : Callees σ) (vol : σ),
        (∀ n' s', run (recoverStep log f) n' (recoverStart log s.head vol) = some (none, s') →
          s'.inodeList = []) ∧
        (f.NoErr → ∃ (n' : Nat) (s' : RecoverState σ) (m : List Nat),
          run (recoverStep log f) n' (recoverStart log s.head vol) = some (none, s') ∧
          m.Sublist l ∧
          (∀ ino, m.filter (log.isDnodeOf ino) = log.toReplay l ino inodes l) ∧
          s'.vol = f.replay vol (m.flatMap (log.callsAt l))) := by
  obtain ⟨tl, s, t, hf⟩ := found_trail hset hw [] (findStart log inodes) rfl
    (found_start log inodes) hl
  have hr := toReplay_of_found hf
  have hnd : l.Nodup := (List.nodup_append.mp hw.nodup).1
  refine ⟨tl.length, s, t.run_eq le_rfl, fun σ f vol => ⟨fun n' s' h => ?_, fun hok => ?_⟩⟩
  · obtain ⟨tl', t', -⟩ := exists_trail h
    exact inodeList_eq_nil hnd hw [] _ s' tl' rfl rfl hr t'
  · obtain ⟨tl', s', m, t', hm, hfilter, hvol⟩ :=
      replay_trail hnd hok hw [] (recoverStart log s.head vol) rfl rfl hr
    exact ⟨tl'.length, s', m, t'.run_eq le_rfl, hm, hfilter, hvol⟩

/-- Callees that only keep a list of the calls. -/
def recorder : Callees (List Call) where
  recoverInode := fun calls ino blkaddr => calls ++ [.recoverInode ino blkaddr]
  recoverDentry := fun calls ino blkaddr => (none, calls ++ [.recoverDentry ino blkaddr])
  doRecoverData := fun calls ino blkaddr => (none, calls ++ [.doRecoverData ino blkaddr])

/-- A chain of blocks of inode 4 with the given flag words: blocks 6661 and on, the first
    one a direct node, the others inode blocks. -/
def fileLog (flags : List Nat) : NodeLog where
  sm := smallSm
  cp := { ckpt := { checkpointVer := 7 }, crc := 0 }
  nodeIno := 1
  metaIno := 2
  rootIno := 3
  maxNid := 455
  curseg := { segno := 2, nextBlkoff := 5, allocType := .LFS }
  page := fun blkaddr =>
    { nid := if blkaddr = 6661 then 9 else 4
      ino := 4
      flag := flags.getD (blkaddr - 6661) 0
      cpVer := 7
      nextBlkaddr := if blkaddr - 6661 + 1 < flags.length then blkaddr + 1 else 0 }

/-- A new file: a direct node and the inode block are fsynced, then the inode is written
    again without the mark; that last block is not replayed. -/
theorem newFile_replays :
    ∃ n s, run (findStep (fileLog [2, 6, 0]) false) n (findStart (fileLog [2, 6, 0]) freshInodes) =
        some (none, s) ∧
      ∃ (n' : Nat) (s' : RecoverState (List Call)) (m : List Nat),
        run (recoverStep (fileLog [2, 6, 0]) recorder) n'
            (recoverStart (fileLog [2, 6, 0]) s.head []) = some (none, s') ∧
        m.filter ((fileLog [2, 6, 0]).isDnodeOf 4) = [6661, 6662] := by
  have hw : Walk (fileLog [2, 6, 0]).nextBlkaddr
      (fun a => (fileLog [2, 6, 0]).recoverable a = false) (fileLog [2, 6, 0]).start
      [6661, 6662, 6663] 0 := by
    have hstart : (fileLog [2, 6, 0]).start = 6661 := by decide +kernel
    rw [hstart]
    apply Walk.cons 6662 (by decide +kernel) (by decide +kernel)
    apply Walk.cons 6663 (by decide +kernel) (by decide +kernel)
    apply Walk.cons 0 (by decide +kernel) (by decide +kernel)
    exact .stop (by decide +kernel)
  obtain ⟨n, s, h, hrec⟩ := rollForward_replays (fileLog [2, 6, 0]) freshInodes hw
    (fun _ => rfl)
    (fun _ _ => ⟨by simp [NodeLog.checkNidRange, fileLog], fun _ => rfl⟩)
  obtain ⟨n', s', m, h', -, hfilter, -⟩ :=
    (hrec (List Call) recorder []).2 fun _ _ _ => ⟨rfl, rfl⟩
  refine ⟨n, s, h, n', s', m, h', (hfilter 4).trans ?_⟩
  decide +kernel

/-- The fsynced direct node of an inode that is neither in the checkpoint nor on the
    chain is dropped. -/
theorem missingInode_dropped :
    Walk (fileLog [2]).nextBlkaddr (fun a => (fileLog [2]).recoverable a = false)
        (fileLog [2]).start [6661] 0 ∧
      throughLast ((fileLog [2]).isFsyncOf 4) ([6661].filter ((fileLog [2]).isDnodeOf 4)) =
        [6661] ∧
      (run (findStep (fileLog [2]) false) 2 (findStart (fileLog [2]) freshInodes)).map
          (fun r => (r.1, r.2.head)) = some (none, []) ∧
      (run (recoverStep (fileLog [2]) recorder) 2 (recoverStart (fileLog [2]) [] [])).map
          (fun r => (r.1, r.2.vol)) = some (none, []) := by
  refine ⟨?_, by decide +kernel, by decide +kernel, by decide +kernel⟩
  have hstart : (fileLog [2]).start = 6661 := by decide +kernel
  rw [hstart]
  apply Walk.cons 0 (by decide +kernel) (by decide +kernel)
  exact .stop (by decide +kernel)

end F2fs.Recovery

/-
  `f2fs_trim_fs`: the loop that hands a range of segments to `write_checkpoint` batch by
  batch.

  A batch ends before the next multiple of `segs_per_sec` that is `trim_sections` sections
  on, or with the range.  `trim_sections` is whatever was written to sysfs, and the end is
  computed in 32 bits: `BatchesMove` says when every batch has a segment.
-/
import F2fs.Lib.Loop
import F2fs.Recovery.NodeLog
import F2fs.Segment.SectionSearch
import F2fs.Segment.SitFlush

namespace F2fs.Segment

open Loop (Turn)
open Recovery (maxBlkaddr)

/-! ## The request -/

/-- `struct fstrim_range`. -/
structure FstrimRange where
  start : Nat
  len : Nat
  minlen : Nat

/-- `F2FS_BYTES_TO_BLK`. -/
def bytesToBlk (bytes : Nat) : Nat := bytes / pageSize

/-- `-EINVAL`. -/
def einval : Nat := 22

/-- What a trim meets: `discard_blks` before each batch, the result of `write_checkpoint` for
    it, and the blocks that `__wait_discard_cmd_range` counts. -/
structure TrimEnv where
  discardBlks : Nat → Nat
  checkpoint : Nat → Option Nat
  trimmed : Nat → Nat → Nat

/-- The result, with the arguments of `write_checkpoint` and of
    `__issue_discard_cmd_range`. -/
structure TrimResult where
  err : Option Nat
  len : Nat
  batches : List CpControl
  discarded : Option (Nat × Nat)

/-- `f2fs_sbi_store` on `batched_trim_sections`: any number is taken. -/
def storeTrimSections (t : Nat) : Nat := u32 t

section

variable (sm : SmInfo) (trimSections : Nat)

/-- `BATCHED_TRIM_SEGMENTS`. -/
def batchedTrimSegments : Nat := u32 (trimSections * sm.segsPerSec)

/-- `BATCHED_TRIM_BLOCKS`. -/
def batchedTrimBlocks : Nat := u32 (batchedTrimSegments sm trimSections * blocksPerSeg)

/-- `rounddown`. -/
def rounddown (x y : Nat) : Nat := x - x % y

/-- `start_segno`. -/
def trimStartSegno (range : FstrimRange) : Nat :=
  let start := bytesToBlk range.start
  if start ≤ sm.mainBlkaddr then 0 else getSegno sm start

/-- The last block of the range. -/
def trimEndBlk (range : FstrimRange) : Nat := bytesToBlk range.start + bytesToBlk range.len - 1

/-- `end_segno`. -/
def trimEndSegno (range : FstrimRange) : Nat :=
  if trimEndBlk range ≥ maxBlkaddr sm then sm.mainSegments - 1 else getSegno sm (trimEndBlk range)

/-! ## The loop -/

/-- The segment the loop is at, and the batches so far. -/
structure TrimState where
  curSegno : Nat
  batches : List CpControl

/-- `cpc.trim_end`. -/
def batchEnd (blks curSegno endSegno : Nat) : Nat :=
  if blks < batchedTrimBlocks sm trimSections then endSegno
  else min (u32Sub (rounddown
    (u32 (curSegno + batchedTrimSegments sm trimSections)) sm.segsPerSec) 1)
    endSegno

/-- One batch. -/
def trimRound (endSegno minlen : Nat) (env : TrimEnv) (st : TrimState) :
    Turn TrimState (Option Nat × TrimState) :=
  if st.curSegno ≤ endSegno then
    let blks := env.discardBlks st.batches.length
    if blks = 0 then .done (none, st)
    else
      let trimEnd := batchEnd sm trimSections blks st.curSegno endSegno
      let batches := st.batches ++ [⟨{ discard := true }, st.curSegno, trimEnd, minlen⟩]
      match env.checkpoint st.batches.length with
      | some e => .done (some e, ⟨st.curSegno, batches⟩)
      | none => .next ⟨u32 (trimEnd + 1), batches⟩
  else .done (none, st)

/-- `f2fs_trim_fs`; `none` if `fuel` batches are not enough. -/
def trimFs (needFsck : Bool) (range : FstrimRange) (env : TrimEnv) (fuel : Nat) :
    Option TrimResult :=
  if bytesToBlk range.start ≥ maxBlkaddr sm ∨ range.len < pageSize then
    some ⟨some einval, range.len, [], none⟩
  else if trimEndBlk range ≤ sm.mainBlkaddr then some ⟨none, 0, [], none⟩
  else if needFsck then some ⟨none, 0, [], none⟩
  else
    let startSegno := trimStartSegno sm range
    let endSegno := trimEndSegno sm range
    let minlen := max 1 (bytesToBlk range.minlen)
    (Loop.run (trimRound sm trimSections endSegno minlen env) fuel ⟨startSegno, []⟩).map
      fun (err, st) =>
        let startBlk := startBlock sm startSegno
        let endBlk := startBlock sm (min st.curSegno endSegno + 1)
        ⟨err, env.trimmed startBlk endBlk * pageSize, st.batches, some (startBlk, endBlk)⟩

end

/-! ## Batches -/

/-- Batches with a segment each, one behind the other from `a` on; `c` is the next segment. -/
def BatchChain : Nat → List CpControl → Nat → Prop
  | a, [], c => a = c
  | a, cpc :: l, c => cpc.trimStart = a ∧ a ≤ cpc.trimEnd ∧ BatchChain (cpc.trimEnd + 1) l c

/-- The trim of the segments from `first` to `last`: everything is covered unless there was
    an error or nothing left to discard. -/
structure TrimCovers (sm : SmInfo) (first last : Nat) (env : TrimEnv) (r : TrimResult) : Prop where
  chain : ∃ next, BatchChain first r.batches next ∧
    (r.err = none → env.discardBlks r.batches.length = 0 ∨ last < next)
  within : ∀ cpc ∈ r.batches, first ≤ cpc.trimStart ∧ cpc.trimEnd ≤ last
  discarded : ∃ startBlk endBlk, r.discarded = some (startBlk, endBlk) ∧
    startBlk = startBlock sm first ∧ endBlk ≤ startBlock sm (last + 1)

/-- Whether the range is trimmed at all. -/
def Trims (sm : SmInfo) (needFsck : Bool) (range : FstrimRange) : Prop :=
  bytesToBlk range.start < maxBlkaddr sm ∧ pageSize ≤ range.len ∧
    sm.mainBlkaddr < trimEndBlk range ∧ needFsck = false

/-- The first multiple of a section that a batch from `cur` on ends before. -/
def nextBatch (sm : SmInfo) (trimSections cur : Nat) : Nat :=
  rounddown (u32 (cur + batchedTrimSegments sm trimSections)) sm.segsPerSec

/-- Every batch from `cur` on has a segment: a batch takes the whole range, or it is a
    section long at least. -/
def BatchesMove (sm : SmInfo) (trimSections cur last : Nat) : Prop :=
  sm.mainSegments * blocksPerSeg < batchedTrimBlocks sm trimSections ∨
    nextBatch sm trimSections cur = 0 ∨ last < nextBatch sm trimSections cur ∨
    (cur < nextBatch sm trimSections cur ∧ sm.segsPerSec ≤ batchedTrimSegments sm trimSections)

section

variable {sm : SmInfo} {trimSections first last cur : Nat} {env : TrimEnv}

theorem BatchChain.snoc {l : List CpControl} (cpc : CpControl) : ∀ {a c : Nat},
    BatchChain a l c → cpc.trimStart = c → c ≤ cpc.trimEnd →
    BatchChain a (l ++ [cpc]) (cpc.trimEnd + 1) := by
  induction l with
  | nil =>
      intro a c h hstart hend
      obtain rfl : a = c := h
      exact ⟨hstart, hend, rfl⟩
  | cons b l ih =>
      intro a c h hstart hend
      obtain ⟨hb, hle, hl⟩ := h
      exact ⟨hb, hle, ih hl hstart hend⟩

/-- No batch of a chain is empty. -/
theorem BatchChain.nonempty {l : List CpControl} : ∀ {a c : Nat}, BatchChain a l c →
    ∀ cpc ∈ l, a ≤ cpc.trimStart ∧ cpc.trimStart ≤ cpc.trimEnd := by
  induction l with
  | nil => exact fun _ cpc hcpc => absurd hcpc List.not_mem_nil
  | cons b l ih =>
      intro a c h cpc hcpc
      obtain ⟨rfl, hle, hl⟩ := h
      rcases List.mem_cons.mp hcpc with rfl | hcpc
      · exact ⟨Nat.le_refl _, hle⟩
      · obtain ⟨hge, hne⟩ := ih hl cpc hcpc
        exact ⟨by omega, hne⟩

theorem rounddown_eq (x y : Nat) : rounddown x y = y * (x / y) := by
  have h := Nat.div_add_mod x y
  unfold rounddown
  omega

theorem segsPerSec_le (h : 0 < sm.mainSegments) : sm.segsPerSec ≤ sm.mainSegments := by
  have hsec := sm.sections_eq
  rcases Nat.eq_zero_or_pos sm.totalSections with h0 | hpos
  · rw [h0, Nat.zero_mul] at hsec
    omega
  · rw [← hsec]
    exact Nat.le_mul_of_pos_left _ hpos

/-- The end of a batch. -/
theorem batchEnd_eq (blks : Nat) (hlast : last < sm.mainSegments) :
    batchEnd sm trimSections blks cur last =
      if blks < batchedTrimBlocks sm trimSections ∨ nextBatch sm trimSections cur = 0 ∨
          last < nextBatch sm trimSections cur then last
      else nextBatch sm trimSections cur - 1 := by
  have hmain := mainSegments_lt sm
  have hlt : nextBatch sm trimSections cur < 2 ^ 32 :=
    Nat.lt_of_le_of_lt (Nat.sub_le _ _) (u32_lt _)
  unfold batchEnd
  rw [show rounddown (u32 (cur + batchedTrimSegments sm trimSections)) sm.segsPerSec =
    nextBatch sm trimSections cur from rfl]
  generalize nextBatch sm trimSections cur = r at *
  by_cases hblks : blks < batchedTrimBlocks sm trimSections
  · rw [if_pos hblks, if_pos (Or.inl hblks)]
  rw [if_neg hblks]
  by_cases hr : r = 0
  · subst hr
    rw [if_pos (Or.inr (Or.inl rfl))]
    refine Nat.min_eq_right ?_
    have hsub : u32Sub 0 1 = 2 ^ 32 - 1 := by decide
    omega
  · rw [u32Sub_of_le (Nat.pos_of_ne_zero hr) hlt]
    split
    · omega
    · omega

/-- Behind a batch that moved, the next one moves: the sections do not wrap. -/
theorem BatchesMove.next (h : BatchesMove sm trimSections cur last) (hlast : last < sm.mainSegments)
    (hblks : ¬sm.mainSegments * blocksPerSeg < batchedTrimBlocks sm trimSections)
    (h0 : nextBatch sm trimSections cur ≠ 0) (hle : nextBatch sm trimSections cur ≤ last) :
    cur < nextBatch sm trimSections cur ∧
      BatchesMove sm trimSections (nextBatch sm trimSections cur) last := by
  obtain ⟨hcur, hsec⟩ : cur < nextBatch sm trimSections cur ∧
      sm.segsPerSec ≤ batchedTrimSegments sm trimSections := by
    rcases h with h | h | h | h
    · exact absurd h hblks
    · exact absurd h h0
    · omega
    · exact h
  refine ⟨hcur, Or.inr (Or.inr (Or.inr ⟨?_, hsec⟩))⟩
  have hmain := mainSegments_lt sm
  have hs : sm.segsPerSec ≤ sm.mainSegments := segsPerSec_le (by omega)
  have hX : batchedTrimSegments sm trimSections < 2 ^ 32 := u32_lt _
  have hpos := sm.segsPerSec_pos
  have hdvd : sm.segsPerSec ∣ nextBatch sm trimSections cur := by
    rw [nextBatch, rounddown_eq]
    exact Nat.dvd_mul_right _ _
  -- the sum did not wrap
  have hsum : cur + batchedTrimSegments sm trimSections < nextBatch sm trimSections cur +
      sm.segsPerSec := by
    have hmod := Nat.mod_lt (u32 (cur + batchedTrimSegments sm trimSections)) hpos
    have hround : nextBatch sm trimSections cur +
        u32 (cur + batchedTrimSegments sm trimSections) % sm.segsPerSec =
        u32 (cur + batchedTrimSegments sm trimSections) :=
      Nat.sub_add_cancel (Nat.mod_le _ _)
    have hwrap : u32 (cur + batchedTrimSegments sm trimSections) =
        cur + batchedTrimSegments sm trimSections := by
      refine u32_of_lt ?_
      by_contra hge
      have hsub : u32 (cur + batchedTrimSegments sm trimSections) =
          cur + batchedTrimSegments sm trimSections - 2 ^ 32 := by
        unfold u32
        omega
      omega
    omega
  generalize nextBatch sm trimSections cur = r at *
  rw [nextBatch, u32_of_lt (by omega), rounddown_eq]
  obtain ⟨q, rfl⟩ := hdvd
  have hq : q + 1 ≤ (sm.segsPerSec * q + batchedTrimSegments sm trimSections) / sm.segsPerSec := by
    rw [Nat.mul_add_div hpos]
    have := Nat.div_pos hsec hpos
    omega
  calc sm.segsPerSec * q < sm.segsPerSec * (q + 1) := by
        rw [Nat.mul_succ]
        omega
    _ ≤ _ := Nat.mul_le_mul_left _ hq

/-! ## Rounds -/

/-- What a round keeps. -/
structure TrimInv (sm : SmInfo) (trimSections first last : Nat) (st : TrimState) : Prop where
  chain : BatchChain first st.batches st.curSegno
  within : ∀ cpc ∈ st.batches, cpc.trimEnd ≤ last
  le : st.curSegno ≤ last + 1
  move : st.curSegno ≤ last → BatchesMove sm trimSections st.curSegno last

/-- What holds where the loop is left. -/
structure TrimLeft (first last : Nat) (env : TrimEnv) (r : Option Nat × TrimState) : Prop where
  chain : ∃ next, BatchChain first r.2.batches next ∧
    (r.1 = none → env.discardBlks r.2.batches.length = 0 ∨ last < next)
  within : ∀ cpc ∈ r.2.batches, cpc.trimEnd ≤ last

/-- A batch ends in the range, and the next one begins where batches move. -/
theorem BatchesMove.batch (h : BatchesMove sm trimSections cur last)
    (hlast : last < sm.mainSegments) (hcur : cur ≤ last) {blks : Nat}
    (hblks : blks ≤ sm.mainSegments * blocksPerSeg) :
    let trimEnd := batchEnd sm trimSections blks cur last
    cur ≤ trimEnd ∧ trimEnd ≤ last ∧
      (trimEnd + 1 ≤ last → BatchesMove sm trimSections (trimEnd + 1) last) := by
  intro trimEnd
  have heq : trimEnd = _ := batchEnd_eq blks hlast
  clear_value trimEnd
  split at heq
  · exact ⟨by omega, by omega, fun hlt => by omega⟩
  · rename_i hnot
    simp only [not_or, Nat.not_lt] at hnot
    obtain ⟨hT, h0, hle⟩ := hnot
    obtain ⟨hgt, hnext⟩ := h.next hlast (by omega) h0 hle
    have hend : trimEnd + 1 = nextBatch sm trimSections cur := by omega
    exact ⟨by omega, by omega, fun _ => hend ▸ hnext⟩

theorem trimRound_cases (minlen : Nat) {st : TrimState} (h : TrimInv sm trimSections first last st)
    (hlast : last < sm.mainSegments)
    (hblks : ∀ i, env.discardBlks i ≤ sm.mainSegments * blocksPerSeg) :
    (∃ st', trimRound sm trimSections last minlen env st = .next st' ∧
      TrimInv sm trimSections first last st' ∧ last + 1 - st'.curSegno < last + 1 - st.curSegno) ∨
    ∃ r, trimRound sm trimSections last minlen env st = .done r ∧ TrimLeft first last env r := by
  have hmain := mainSegments_lt sm
  unfold trimRound
  by_cases hcur : st.curSegno ≤ last
  swap
  · rw [if_neg hcur]
    exact Or.inr ⟨_, rfl, ⟨st.curSegno, h.chain, fun _ => Or.inr (Nat.not_le.mp hcur)⟩, h.within⟩
  rw [if_pos hcur]
  simp only
  by_cases hzero : env.discardBlks st.batches.length = 0
  · rw [if_pos hzero]
    exact Or.inr ⟨_, rfl, ⟨st.curSegno, h.chain, fun _ => Or.inl hzero⟩, h.within⟩
  rw [if_neg hzero]
  obtain ⟨hge, hle, hnext⟩ := (h.move hcur).batch hlast hcur (hblks st.batches.length)
  generalize batchEnd sm trimSections (env.discardBlks st.batches.length) st.curSegno last =
    trimEnd at *
  have hchain := h.chain.snoc ⟨{ discard := true }, st.curSegno, trimEnd, minlen⟩ rfl hge
  have hwithin : ∀ cpc ∈ st.batches ++
      [(⟨{ discard := true }, st.curSegno, trimEnd, minlen⟩ : CpControl)], cpc.trimEnd ≤ last := by
    intro cpc hcpc
    rcases List.mem_append.mp hcpc with hcpc | hcpc
    · exact h.within cpc hcpc
    · rw [List.mem_singleton.mp hcpc]
      exact hle
  cases env.checkpoint st.batches.length with
  | some e =>
      exact Or.inr ⟨_, rfl, ⟨trimEnd + 1, hchain, fun hnone => by cases hnone⟩, hwithin⟩
  | none =>
      have hword : u32 (trimEnd + 1) = trimEnd + 1 := u32_of_lt (by omega)
      refine Or.inl ⟨_, rfl, ⟨?_, hwithin, ?_, ?_⟩, ?_⟩
      · simp only [hword]
        exact hchain
      · simp only [hword]
        omega
      · simp only [hword]
        exact hnext
      · simp only [hword]
        omega

/-- Batches that were handed out stay in the list. -/
theorem run_batches {minlen : Nat} {r : Option Nat × TrimState} : ∀ {fuel : Nat} {st : TrimState},
    Loop.run (trimRound sm trimSections last minlen env) fuel st = some r →
    st.batches ⊆ r.2.batches := by
  intro fuel
  induction fuel with
  | zero =>
      intro st h
      cases h
  | succ fuel ih =>
      intro st h
      rw [Loop.run] at h
      split at h
      · rename_i st' hstep
        have hsub := ih h
        unfold trimRound at hstep
        split at hstep
        · simp only at hstep
          split at hstep
          · cases hstep
          split at hstep
          · cases hstep
          · cases hstep
            exact fun cpc hcpc => hsub (List.mem_append_left _ hcpc)
        · cases hstep
      · rename_i r' hstep
        obtain rfl := Option.some.inj h
        unfold trimRound at hstep
        split at hstep
        · simp only at hstep
          split at hstep
          · cases hstep
            exact List.Subset.refl _
          split at hstep
          · cases hstep
            exact List.subset_append_left _ _
          · cases hstep
        · cases hstep
          exact List.Subset.refl _

/-- Something is left to discard before every batch, and no checkpoint fails. -/
def allLeft (sm : SmInfo) : TrimEnv :=
  ⟨fun _ => sm.mainSegments * blocksPerSeg, fun _ => none, fun _ _ => 0⟩

/-- A round that hands out an empty batch. -/
theorem trimRound_allLeft (minlen : Nat) {st : TrimState} (hcur : st.curSegno ≤ last)
    (hlast : last < sm.mainSegments)
    (hT : ¬sm.mainSegments * blocksPerSeg < batchedTrimBlocks sm trimSections)
    (h0 : nextBatch sm trimSections st.curSegno ≠ 0)
    (hle : nextBatch sm trimSections st.curSegno ≤ last) :
    trimRound sm trimSections last minlen (allLeft sm) st =
      .next ⟨nextBatch sm trimSections st.curSegno, st.batches ++
        [⟨{ discard := true }, st.curSegno, nextBatch sm trimSections st.curSegno - 1,
          minlen⟩]⟩ := by
  have hmain := mainSegments_lt sm
  have hend : batchEnd sm trimSections (sm.mainSegments * blocksPerSeg) st.curSegno last =
      nextBatch sm trimSections st.curSegno - 1 := by
    rw [batchEnd_eq _ hlast, if_neg]
    simp only [not_or, Nat.not_lt]
    exact ⟨Nat.not_lt.mp hT, h0, hle⟩
  have hblks : sm.mainSegments * blocksPerSeg ≠ 0 := by
    unfold blocksPerSeg
    omega
  unfold trimRound allLeft
  rw [if_pos hcur]
  simp only
  rw [if_neg hblks, hend, Nat.sub_add_cancel (Nat.pos_of_ne_zero h0), u32_of_lt (by omega)]

/-- Where batches do not move, one of the first two is empty. -/
theorem empty_batch {minlen fuel : Nat} {r : Option Nat × TrimState} (hcur : cur ≤ last)
    (hlast : last < sm.mainSegments) (h : ¬BatchesMove sm trimSections cur last)
    (hrun : Loop.run (trimRound sm trimSections last minlen (allLeft sm)) fuel ⟨cur, []⟩ = some r) :
    ∃ cpc ∈ r.2.batches, cpc.trimEnd < cpc.trimStart := by
  have hmain := mainSegments_lt sm
  unfold BatchesMove at h
  simp only [not_or, not_and, Nat.not_lt, Nat.not_le] at h
  obtain ⟨hT, h0, hle, hsec⟩ := h
  have hround := fun (st : TrimState) (hst : st.curSegno ≤ last) =>
    trimRound_allLeft minlen hst hlast (Nat.not_lt.mpr hT)
  obtain ⟨n, rfl⟩ : ∃ n, fuel = n + 1 := by
    cases fuel with
    | zero => cases hrun
    | succ n => exact ⟨n, rfl⟩
  rw [Loop.run, hround ⟨cur, []⟩ hcur h0 hle] at hrun
  by_cases hback : nextBatch sm trimSections cur ≤ cur
  · refine ⟨⟨{ discard := true }, cur, nextBatch sm trimSections cur - 1, minlen⟩,
      run_batches hrun ?_, ?_⟩
    · exact List.mem_append_right _ (List.mem_singleton.mpr rfl)
    · simp only
      omega
  · -- the batch ends with a section, and the next one is too short to reach another
    have hX := hsec (Nat.not_le.mp hback)
    have hs : sm.segsPerSec ≤ sm.mainSegments := segsPerSec_le (by omega)
    have hsame : nextBatch sm trimSections (nextBatch sm trimSections cur) =
        nextBatch sm trimSections cur := by
      have hdvd : sm.segsPerSec ∣ nextBatch sm trimSections cur := by
        rw [nextBatch, rounddown_eq]
        exact Nat.dvd_mul_right _ _
      generalize nextBatch sm trimSections cur = q at *
      rw [nextBatch, u32_of_lt (by omega), rounddown_eq]
      obtain ⟨k, rfl⟩ := hdvd
      rw [Nat.mul_add_div sm.segsPerSec_pos, Nat.div_eq_of_lt hX, Nat.add_zero]
    obtain ⟨m, rfl⟩ : ∃ m, n = m + 1 := by
      cases n with
      | zero => cases hrun
      | succ m => exact ⟨m, rfl⟩
    have hround2 := hround ⟨nextBatch sm trimSections cur,
      [⟨{ discard := true }, cur, nextBatch sm trimSections cur - 1, minlen⟩]⟩ hle
    simp only [hsame] at hround2
    simp only [List.nil_append] at hrun
    rw [Loop.run, hround2 h0 hle] at hrun
    refine ⟨⟨{ discard := true }, nextBatch sm trimSections cur,
      nextBatch sm trimSections cur - 1, minlen⟩, run_batches hrun ?_, ?_⟩
    · exact List.mem_append_right _ (List.mem_singleton.mpr rfl)
    · simp only
      omega

end

/-! ## The call -/

section

variable {sm : SmInfo} {range : FstrimRange}

/-- The segments of a range that is trimmed. -/
theorem trimSegnos (hmain : 0 < sm.mainSegments)
    (hcount : sm.startSegno + sm.mainSegments = sm.segmentCount) {needFsck : Bool}
    (h : Trims sm needFsck range) :
    trimStartSegno sm range ≤ trimEndSegno sm range ∧ trimEndSegno sm range < sm.mainSegments := by
  obtain ⟨hstart, hlen, hend, -⟩ := h
  have hmax : maxBlkaddr sm = sm.mainBlkaddr + sm.mainSegments * blocksPerSeg := by
    have heq := sm.mainBlkaddr_eq
    unfold maxBlkaddr
    rw [← hcount, heq]
    ring
  have hblks : bytesToBlk range.start ≤ trimEndBlk range := by
    have hpos : 1 ≤ bytesToBlk range.len := by
      unfold bytesToBlk pageSize
      unfold pageSize at hlen
      omega
    unfold trimEndBlk
    omega
  rw [hmax] at hstart
  have hstart' : bytesToBlk range.start ≤ sm.mainBlkaddr ∨ InMain sm (bytesToBlk range.start) := by
    rcases Nat.lt_or_ge sm.mainBlkaddr (bytesToBlk range.start) with hgt | hle
    · exact Or.inr ⟨Nat.le_of_lt hgt, hstart⟩
    · exact Or.inl hle
  unfold trimStartSegno trimEndSegno
  simp only
  rw [hmax]
  generalize trimEndBlk range = last at *
  generalize bytesToBlk range.start = first at *
  have hlastSeg : (if last ≥ sm.mainBlkaddr + sm.mainSegments * blocksPerSeg then
      sm.mainSegments - 1 else getSegno sm last) < sm.mainSegments := by
    split
    · omega
    · exact getSegno_lt ⟨Nat.le_of_lt hend, by omega⟩
  refine ⟨?_, hlastSeg⟩
  rcases hstart' with hle | hin
  · rw [if_pos hle]
    exact Nat.zero_le _
  · have hlt := getSegno_lt hin
    rcases Nat.eq_or_lt_of_le hin.1 with heq | hgt
    · rw [if_pos (Nat.le_of_eq heq.symm)]
      exact Nat.zero_le _
    rw [if_neg (Nat.not_le.mpr hgt)]
    split
    · omega
    · rename_i hmaxlast
      have hin' : InMain sm last := ⟨Nat.le_of_lt hend, Nat.not_le.mp hmaxlast⟩
      rw [getSegno, getSegno, if_neg hin.ne, if_neg hin'.ne]
      exact Nat.sub_le_sub_right (Nat.div_le_div_right (Nat.sub_le_sub_right hblks _)) _

theorem startBlock_le {a b : Nat} (h : a ≤ b) : startBlock sm a ≤ startBlock sm b := by
  unfold startBlock
  gcongr

/-- What the claims about a trim say: it ends, and covers its segments. -/
def TrimDone (sm : SmInfo) (trimSections : Nat) (needFsck : Bool) (range : FstrimRange)
    (env : TrimEnv) : Prop :=
  ∃ fuel r, trimFs sm trimSections needFsck range env fuel = some r ∧
    (Trims sm needFsck range →
      TrimCovers sm (trimStartSegno sm range) (trimEndSegno sm range) env r) ∧
    (¬Trims sm needFsck range → r.batches = [] ∧ r.discarded = none)

theorem trimFs_not_trims (trimSections fuel : Nat) {needFsck : Bool} (env : TrimEnv)
    (h : ¬Trims sm needFsck range) :
    ∃ r, trimFs sm trimSections needFsck range env fuel = some r ∧ r.batches = [] ∧
      r.discarded = none := by
  unfold trimFs
  by_cases hrange : bytesToBlk range.start ≥ maxBlkaddr sm ∨ range.len < pageSize
  · exact ⟨_, if_pos hrange, rfl, rfl⟩
  rw [if_neg hrange]
  by_cases hend : trimEndBlk range ≤ sm.mainBlkaddr
  · exact ⟨_, if_pos hend, rfl, rfl⟩
  rw [if_neg hend]
  cases needFsck with
  | true => exact ⟨_, if_pos rfl, rfl, rfl⟩
  | false =>
      refine absurd ⟨?_, ?_, ?_, rfl⟩ h
      · exact Nat.not_le.mp fun hc => hrange (Or.inl hc)
      · exact Nat.not_lt.mp fun hc => hrange (Or.inr hc)
      · exact Nat.not_le.mp hend

theorem trimFs_trims {trimSections fuel : Nat} {needFsck : Bool} {env : TrimEnv}
    (h : Trims sm needFsck range) : trimFs sm trimSections needFsck range env fuel =
      (Loop.run (trimRound sm trimSections (trimEndSegno sm range)
        (max 1 (bytesToBlk range.minlen)) env) fuel ⟨trimStartSegno sm range, []⟩).map
      fun (err, st) =>
        let startBlk := startBlock sm (trimStartSegno sm range)
        let endBlk := startBlock sm (min st.curSegno (trimEndSegno sm range) + 1)
        ⟨err, env.trimmed startBlk endBlk * pageSize, st.batches, some (startBlk, endBlk)⟩ := by
  obtain ⟨hstart, hlen, hend, hfsck⟩ := h
  unfold trimFs
  rw [if_neg (by omega), if_neg (Nat.not_le.mpr hend), hfsck, if_neg Bool.false_ne_true]

end

/-! ## No sections in a batch -/

/-- The second main segment of the small volume. -/
def secondSegment : FstrimRange := ⟨6144 * 4096, 512 * 4096, 0⟩

theorem secondSegment_trims : Trims smallSm false secondSegment := by
  refine ⟨?_, ?_, ?_, rfl⟩ <;> decide

/-- With `trim_sections` zero the trim goes round for ever, with an empty batch each time. -/
theorem secondSegment_endless (fuel : Nat) :
    trimFs smallSm (storeTrimSections 0) false secondSegment (allLeft smallSm) fuel = none := by
  have hzero : storeTrimSections 0 = 0 := u32_of_lt (by decide)
  have hX : batchedTrimSegments smallSm 0 = 0 := by
    unfold batchedTrimSegments
    rw [Nat.zero_mul]
    exact u32_of_lt (by decide)
  have hT : batchedTrimBlocks smallSm 0 = 0 := by
    unfold batchedTrimBlocks
    rw [hX, Nat.zero_mul]
    exact u32_of_lt (by decide)
  have hnext : nextBatch smallSm 0 1 = 1 := by
    unfold nextBatch
    rw [hX, u32_of_lt (by decide)]
    decide
  have hstart : trimStartSegno smallSm secondSegment = 1 := by decide
  have hend : trimEndSegno smallSm secondSegment = 1 := by decide
  rw [trimFs_trims secondSegment_trims, hstart, hend, hzero, Option.map_eq_none_iff]
  generalize max 1 (bytesToBlk secondSegment.minlen) = minlen
  generalize ([] : List CpControl) = batches
  induction fuel generalizing batches with
  | zero => rfl
  | succ fuel ih =>
      have hcur : (⟨1, batches⟩ : TrimState).curSegno ≤ 1 := Nat.le_refl 1
      have hlast : 1 < smallSm.mainSegments := by decide
      have hround := trimRound_allLeft minlen hcur hlast (by rw [hT]; decide)
        (by rw [hnext]; decide) (by rw [hnext])
      rw [Loop.run, hround, hnext]
      exact ih _

end F2fs.Segment

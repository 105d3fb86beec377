/-
  `f2fs_ioc_gc_range`: what the ioctl takes and gives back, and the segments it collects.

  The end of the range is a sum of 64 bits that may wrap, and `start` goes on by the blocks
  of a segment from wherever it is.  A run is modelled with its events; the results of the
  functions that it calls are given by the environment, round by round.  `f2fs_gc` unlocks
  `gc_mutex` on every way out.
-/
import F2fs.Recovery.NodeLog

namespace F2fs.File

open Segment Recovery

/-! ## The ioctl -/

/-- A volume that ends with its main area, as `sanity_check_area_boundary` leaves it. -/
structure FittedSm extends SmInfo where
  count_eq : segmentCount = startSegno + mainSegments

theorem FittedSm.maxBlkaddr_eq (vol : FittedSm) :
    maxBlkaddr vol.toSmInfo = vol.mainBlkaddr + vol.mainSegments * blocksPerSeg := by
  have hmain := vol.mainBlkaddr_eq
  rw [maxBlkaddr, vol.count_eq, hmain, Nat.add_mul, Nat.add_assoc]

theorem FittedSm.maxBlkaddr_lt (vol : FittedSm) : maxBlkaddr vol.toSmInfo < 2 ^ 32 := by
  have hend := vol.mainEnd_le
  rw [vol.maxBlkaddr_eq]
  unfold newAddr at hend
  omega

/-- `struct f2fs_gc_range`. -/
structure GcRange where
  sync : Bool
  start : Nat
  len : Nat
  start_lt : start < 2 ^ 64
  len_lt : len < 2 ^ 64

/-- What the ioctl meets; `trylock` and `gc` are the results in each round of the loop. -/
structure GcRangeEnv where
  capable : Bool
  copied : Bool
  readonly : Bool
  wantWrite : Int
  trylock : Nat → Bool
  gc : Nat → Int

inductive GcEvent where
  /-- `mnt_want_write_file`, with success -/
  | want
  | lock
  /-- `f2fs_gc` of a segment, with its result -/
  | gc (segno : Nat) (ret : Int)
  | unlock
  /-- `mnt_drop_write_file` -/
  | drop
  deriving DecidableEq, Repr

/-- The events, the result, and whether the loop came to its end. -/
structure GcRangeResult where
  events : List GcEvent
  ret : Int
  finished : Bool

def eperm : Int := -1
def efault : Int := -14
def ebusy : Int := -16
def einval : Int := -22
def erofs : Int := -30

/-- `GET_SEGNO` of a 64-bit address, as an unsigned int. -/
def getSegno64 (sm : SmInfo) (blkAddr : Nat) : Nat :=
  if blkAddr = nullAddr ∨ blkAddr = newAddr then nullSegno
  else
    let fromSeg0 := (blkAddr + 2 ^ 64 - sm.seg0Blkaddr) % 2 ^ 64 / blocksPerSeg
    u32 ((fromSeg0 + 2 ^ 64 - sm.startSegno) % 2 ^ 64)

def GcRangeResult.after (events : List GcEvent) (r : GcRangeResult) : GcRangeResult :=
  { r with events := events ++ r.events }

variable (sm : SmInfo) (env : GcRangeEnv) (sync : Bool)

/-- The lock of a round is taken: `mutex_lock` waits for it. -/
def locked (k : Nat) : Bool := sync || env.trylock k

/-- The events of a round that collects. -/
def roundEvents (k start : Nat) : List GcEvent :=
  [.lock, .gc (getSegno64 sm start) (env.gc k), .unlock]

/-- `do_more`, in round `k`; the end is too small for `start` to pass it by wrapping. -/
def gcLoop (stop : Nat) (hstop : stop < 2 ^ 64 - blocksPerSeg) (k start : Nat) : GcRangeResult :=
  if locked env sync k then
    let next := (start + blocksPerSeg) % 2 ^ 64
    if next ≤ stop then
      (gcLoop stop hstop (k + 1) next).after (roundEvents sm env k start)
    else ⟨roundEvents sm env k start ++ [.drop], env.gc k, true⟩
  else ⟨[.drop], ebusy, false⟩
  termination_by if start ≤ stop then stop - start else stop + 1
  decreasing_by
    have hblocks : blocksPerSeg = 512 := rfl
    split_ifs <;> omega

/-- `f2fs_ioc_gc_range`. -/
def f2fsIocGcRange (vol : FittedSm) (env : GcRangeEnv) (range : GcRange) : GcRangeResult :=
  if env.capable = false then ⟨[], eperm, false⟩
  else if env.copied = false then ⟨[], efault, false⟩
  else if env.readonly then ⟨[], erofs, false⟩
  else if env.wantWrite ≠ 0 then ⟨[], env.wantWrite, false⟩
  else
    let stop := (range.start + range.len) % 2 ^ 64
    if h : range.start < vol.mainBlkaddr ∨ stop ≥ maxBlkaddr vol.toSmInfo then
      ⟨[.want], einval, false⟩
    else
      (gcLoop vol.toSmInfo env range.sync stop
        (by
          have hmax := vol.maxBlkaddr_lt
          have hblocks : blocksPerSeg = 512 := rfl
          omega) 0 range.start).after [.want]

/-! ## The books -/

/-- `gc_mutex` is held wherever `f2fs_gc` is called, and free at the end. -/
def gcHeld : Bool → List GcEvent → Bool
  | held, [] => !held
  | _, .lock :: events => gcHeld true events
  | held, .gc _ _ :: events => held && gcHeld held events
  | _, .unlock :: events => gcHeld false events
  | held, .want :: events => gcHeld held events
  | held, .drop :: events => gcHeld held events

/-- Segment `segno` of the main area contains a block of the range. -/
def Touches (sm : SmInfo) (range : GcRange) (segno : Nat) : Prop :=
  segno < sm.mainSegments ∧ ∃ b, range.start ≤ b ∧ b ≤ range.start + range.len ∧
    sm.mainBlkaddr + segno * blocksPerSeg ≤ b ∧
    b < sm.mainBlkaddr + (segno + 1) * blocksPerSeg

/-- What the ioctl owes: write access given back as often as it was taken, `f2fs_gc` under the
    lock for the segments of the range and for all of them, and no failure lost. -/
structure GcBooks (sm : SmInfo) (range : GcRange) (r : GcRangeResult) : Prop where
  dropped : r.events.count .drop = r.events.count .want
  held : gcHeld false r.events = true
  touched : ∀ segno ret, .gc segno ret ∈ r.events → Touches sm range segno
  complete : r.finished = true → ∀ segno, Touches sm range segno →
    ∃ ret, .gc segno ret ∈ r.events
  failed : ∀ segno ret, .gc segno ret ∈ r.events → ret ≠ 0 → r.ret ≠ 0

/-! ## Rounds -/

variable {sm env sync}

/-- A run of the loop from round `k` with `m` rounds to go: it ends after them, or where the
    lock is not free. -/
structure LoopRun (sm : SmInfo) (env : GcRangeEnv) (sync : Bool) (k start m : Nat)
    (r : GcRangeResult) : Prop where
  rounds : ∃ n ≤ m,
    r.events = (List.range n).flatMap (fun i =>
      roundEvents sm env (k + i) (start + i * blocksPerSeg)) ++ [.drop] ∧
    (n < m ∧ locked env sync (k + n) = false ∧ r.finished = false ∧ r.ret = ebusy ∨
      n = m ∧ (∀ i < m, locked env sync (k + i) = true) ∧ r.finished = true ∧
        r.ret = env.gc (k + (m - 1)))

theorem LoopRun.busy {k start m : Nat} (hm : 0 < m) (h : locked env sync k = false) :
    LoopRun sm env sync k start m ⟨[.drop], ebusy, false⟩ :=
  ⟨0, Nat.zero_le m, rfl, .inl ⟨hm, h, rfl, rfl⟩⟩

theorem LoopRun.last {k start : Nat} (h : locked env sync k = true) :
    LoopRun sm env sync k start 1
      ⟨roundEvents sm env k start ++ [.drop], env.gc k, true⟩ := by
  refine ⟨1, Nat.le_refl 1, ?_, .inr ⟨rfl, fun i hi => ?_, rfl, rfl⟩⟩
  · rw [List.range_one, List.flatMap_singleton, Nat.add_zero, Nat.zero_mul, Nat.add_zero]
  · rw [Nat.lt_one_iff.mp hi]
    exact h

theorem LoopRun.next {k start m : Nat} {r : GcRangeResult} (hm : 0 < m)
    (h : locked env sync k = true)
    (hrun : LoopRun sm env sync (k + 1) (start + blocksPerSeg) m r) :
    LoopRun sm env sync k start (m + 1) (r.after (roundEvents sm env k start)) := by
  obtain ⟨n, hn, hevents, hend⟩ := hrun
  refine ⟨n + 1, Nat.succ_le_succ hn, ?_, ?_⟩
  · have hshift : ∀ i ∈ List.range n,
        roundEvents sm env (k + 1 + i) (start + blocksPerSeg + i * blocksPerSeg) =
          roundEvents sm env (k + i.succ) (start + i.succ * blocksPerSeg) := fun i _ => by
      rw [show k + 1 + i = k + i.succ by omega, Nat.succ_mul, ← Nat.add_assoc,
        Nat.add_right_comm]
    show roundEvents sm env k start ++ r.events = _
    rw [hevents, List.range_succ_eq_map, List.flatMap_cons, List.flatMap_map, Nat.add_zero,
      Nat.zero_mul, List.append_assoc, List.flatMap_congr hshift]
    rfl
  · rcases hend with ⟨hlt, hlock, hfin, hret⟩ | ⟨heq, hlock, hfin, hret⟩
    · refine .inl ⟨Nat.succ_lt_succ hlt, ?_, hfin, hret⟩
      rw [show k + (n + 1) = k + 1 + n by omega]
      exact hlock
    · refine .inr ⟨congrArg _ heq, fun i hi => ?_, hfin, ?_⟩
      · cases i with
        | zero => exact h
        | succ i =>
          rw [show k + (i + 1) = k + 1 + i by omega]
          exact hlock i (Nat.lt_of_succ_lt_succ hi)
      · refine hret.trans (congrArg env.gc ?_)
        omega

variable (sm env sync) in
/-- Within the range the loop makes one round for each segment's worth of blocks. -/
theorem gcLoop_run {stop : Nat} (hstop : stop < 2 ^ 64 - blocksPerSeg) (k : Nat) {start : Nat}
    (hle : start ≤ stop) :
    LoopRun sm env sync k start ((stop - start) / blocksPerSeg + 1)
      (gcLoop sm env sync stop hstop k start) := by
  have hblocks : blocksPerSeg = 512 := rfl
  induction hm : (stop - start) / blocksPerSeg generalizing k start with
  | zero =>
    rw [gcLoop]
    by_cases hlock : locked env sync k = true
    · rw [if_pos hlock]
      have hend : ¬(start + blocksPerSeg) % 2 ^ 64 ≤ stop := by
        rw [hblocks] at hm hstop ⊢
        omega
      simp only [if_neg hend]
      exact .last hlock
    · rw [if_neg hlock]
      exact .busy Nat.one_pos (Bool.eq_false_iff.mpr hlock)
  | succ m ih =>
    rw [gcLoop]
    by_cases hlock : locked env sync k = true
    · rw [if_pos hlock]
      have hnext : (start + blocksPerSeg) % 2 ^ 64 = start + blocksPerSeg := by
        rw [hblocks] at hm hstop ⊢
        omega
      have hmore : start + blocksPerSeg ≤ stop := by
        rw [hblocks] at hm ⊢
        omega
      simp only [hnext, if_pos hmore]
      refine .next (Nat.succ_pos m) hlock (ih (k + 1) hmore ?_)
      rw [hblocks] at hm ⊢
      omega
    · rw [if_neg hlock]
      exact .busy (Nat.succ_pos _) (Bool.eq_false_iff.mpr hlock)

variable (sm env sync) in
/-- Behind its end the loop makes one round, unless `start` wraps. -/
theorem gcLoop_single {stop : Nat} (hstop : stop < 2 ^ 64 - blocksPerSeg) {start : Nat}
    (hgt : stop < start) (hsmall : start + blocksPerSeg < 2 ^ 64) :
    LoopRun sm env sync 0 start 1 (gcLoop sm env sync stop hstop 0 start) := by
  rw [gcLoop]
  by_cases hlock : locked env sync 0 = true
  · rw [if_pos hlock]
    have hend : ¬(start + blocksPerSeg) % 2 ^ 64 ≤ stop := by
      rw [Nat.mod_eq_of_lt hsmall]
      omega
    simp only [if_neg hend]
    exact .last hlock
  · rw [if_neg hlock]
    exact .busy Nat.one_pos (Bool.eq_false_iff.mpr hlock)

variable (sm) in
/-- The first round collects the segment of `start`, wherever it is. -/
theorem gcLoop_first {stop : Nat} (hstop : stop < 2 ^ 64 - blocksPerSeg) (start : Nat)
    (hlock : locked env sync 0 = true) :
    .gc (getSegno64 sm start) (env.gc 0) ∈ (gcLoop sm env sync stop hstop 0 start).events := by
  rw [gcLoop, if_pos hlock]
  have hmem : GcEvent.gc (getSegno64 sm start) (env.gc 0) ∈ roundEvents sm env 0 start := by
    simp [roundEvents]
  simp only
  split
  · exact List.mem_append_left _ hmem
  · exact List.mem_append_left _ hmem

theorem gcLoop_busy {stop : Nat} (hstop : stop < 2 ^ 64 - blocksPerSeg) {start : Nat}
    (hlock : locked env sync 0 = false) :
    gcLoop sm env sync stop hstop 0 start = ⟨[.drop], ebusy, false⟩ := by
  rw [gcLoop, hlock]
  exact if_neg Bool.false_ne_true

/-! ## The events of a run -/

section

variable {k start m : Nat} {r : GcRangeResult}

theorem roundsEvents_count (n : Nat) (e : GcEvent) (he : e = .want ∨ e = .drop) :
    ((List.range n).flatMap fun i =>
      roundEvents sm env (k + i) (start + i * blocksPerSeg)).count e = 0 := by
  refine List.count_eq_zero.mpr fun hmem => ?_
  obtain ⟨i, -, hi⟩ := List.mem_flatMap.mp hmem
  rcases he with rfl | rfl <;> simp [roundEvents] at hi

theorem gcHeld_rounds (n : Nat) (events : List GcEvent) :
    gcHeld false ((List.range n).flatMap (fun i =>
      roundEvents sm env (k + i) (start + i * blocksPerSeg)) ++ events) = gcHeld false events := by
  induction n generalizing events with
  | zero => rfl
  | succ n ih =>
    rw [List.range_succ, List.flatMap_append, List.append_assoc, ih]
    rfl

theorem gc_mem_rounds {n segno : Nat} {ret : Int} :
    GcEvent.gc segno ret ∈ ((List.range n).flatMap fun i =>
      roundEvents sm env (k + i) (start + i * blocksPerSeg)) ++ [.drop] ↔
      ∃ i < n, segno = getSegno64 sm (start + i * blocksPerSeg) ∧ ret = env.gc (k + i) := by
  rw [List.mem_append, List.mem_flatMap]
  simp [roundEvents]

/-- What the books of a run come down to, if each round is at a block of the range. -/
theorem LoopRun.books_iff {range : GcRange} (hrun : LoopRun sm env sync 0 start m r)
    (htouch : ∀ i < m, Touches sm range (getSegno64 sm (start + i * blocksPerSeg))) :
    GcBooks sm range (r.after [.want]) ↔
      (∃ i < m, locked env sync i = false) ∨
        (∀ segno, Touches sm range segno →
          ∃ i < m, segno = getSegno64 sm (start + i * blocksPerSeg)) ∧
        (env.gc (m - 1) ≠ 0 ∨ ∀ i < m, env.gc i = 0) := by
  obtain ⟨n, hn, hevents, hend⟩ := hrun
  have hall : (r.after [.want]).events = .want :: ((List.range n).flatMap (fun i =>
      roundEvents sm env (0 + i) (start + i * blocksPerSeg)) ++ [.drop]) := by
    show [GcEvent.want] ++ r.events = _
    rw [hevents]
    rfl
  have hmem : ∀ segno ret, .gc segno ret ∈ (r.after [.want]).events ↔
      ∃ i < n, segno = getSegno64 sm (start + i * blocksPerSeg) ∧ ret = env.gc (0 + i) := by
    intro segno ret
    rw [hall, List.mem_cons]
    exact (or_iff_right nofun).trans gc_mem_rounds
  constructor
  · intro h
    rcases hend with ⟨hlt, hlock, -, -⟩ | ⟨rfl, -, hfin, hret⟩
    · rw [Nat.zero_add] at hlock
      exact .inl ⟨n, hlt, hlock⟩
    · refine .inr ⟨fun segno hsegno => ?_, ?_⟩
      · obtain ⟨ret, hgc⟩ := h.complete hfin segno hsegno
        obtain ⟨i, hi, heq, -⟩ := (hmem segno ret).mp hgc
        exact ⟨i, hi, heq⟩
      · by_contra hcon
        push Not at hcon
        obtain ⟨hlast, i, hi, hne⟩ := hcon
        have hgc := (hmem (getSegno64 sm (start + i * blocksPerSeg)) (env.gc i)).mpr
          ⟨i, hi, rfl, by rw [Nat.zero_add]⟩
        refine h.failed _ _ hgc hne (hret.trans ?_)
        rw [Nat.zero_add]
        exact hlast
  · intro h
    refine ⟨?_, ?_, fun segno ret hgc => ?_, fun hfin segno hsegno => ?_,
      fun segno ret hgc hne => ?_⟩
    · rw [hall, List.count_cons, List.count_cons, List.count_append, List.count_append,
        roundsEvents_count n .drop (.inr rfl), roundsEvents_count n .want (.inl rfl)]
      rfl
    · rw [hall, gcHeld, gcHeld_rounds]
      rfl
    · obtain ⟨i, hi, rfl, -⟩ := (hmem segno ret).mp hgc
      exact htouch i (by omega)
    · rcases hend with ⟨-, -, hnot, -⟩ | ⟨rfl, hlocks, -, -⟩
      · cases hnot.symm.trans hfin
      · rcases h with ⟨i, hi, hlock⟩ | ⟨hcomplete, -⟩
        · have hlocked := hlocks i hi
          rw [Nat.zero_add, hlock] at hlocked
          cases hlocked
        · obtain ⟨i, hi, heq⟩ := hcomplete segno hsegno
          exact ⟨env.gc (0 + i), (hmem segno _).mpr ⟨i, hi, heq, rfl⟩⟩
    · rcases hend with ⟨-, -, -, hret⟩ | ⟨rfl, hlocks, -, hret⟩
      · rw [show (r.after [.want]).ret = ebusy from hret]
        decide
      · obtain ⟨i, hi, -, rfl⟩ := (hmem segno ret).mp hgc
        rw [Nat.zero_add] at hne hret
        rw [show (r.after [.want]).ret = env.gc (n - 1) from hret]
        rcases h with ⟨j, hj, hlock⟩ | ⟨-, hlast | hzero⟩
        · have hlocked := hlocks j hj
          rw [Nat.zero_add, hlock] at hlocked
          cases hlocked
        · exact hlast
        · exact absurd (hzero i hi) hne

end

/-! ## When the books are kept -/

/-- `mnt_want_write_file` is reached, and succeeds. -/
def GcRangeEnv.Granted (env : GcRangeEnv) : Prop :=
  env.capable = true ∧ env.copied = true ∧ env.readonly = false ∧ env.wantWrite = 0

/-- The rounds that the loop has to make. -/
def GcRange.rounds (range : GcRange) : Nat :=
  if range.start + range.len < 2 ^ 64 then range.len / blocksPerSeg + 1 else 1

/-- The blocks at which the rounds are lie in all segments of the range. A range whose end
    wraps has one round, which must be in the last segment. -/
def GcRange.Aligned (vol : FittedSm) (range : GcRange) : Prop :=
  if range.start + range.len < 2 ^ 64 then
    (range.start - vol.mainBlkaddr) % blocksPerSeg + range.len % blocksPerSeg < blocksPerSeg
  else
    range.start < maxBlkaddr vol.toSmInfo ∧
      maxBlkaddr vol.toSmInfo ≤ range.start + blocksPerSeg

/-- Write access is not granted; or the range is accepted, and a lock is not free, or the rounds
    reach all segments and none but the last one fails unseen. -/
def BooksKept (vol : FittedSm) (env : GcRangeEnv) (range : GcRange) : Prop :=
  ¬env.Granted ∨
    (vol.mainBlkaddr ≤ range.start ∧
      (range.start + range.len) % 2 ^ 64 < maxBlkaddr vol.toSmInfo ∧
      ((∃ i < range.rounds, locked env range.sync i = false) ∨
        range.Aligned vol ∧
          (env.gc (range.rounds - 1) ≠ 0 ∨ ∀ i < range.rounds, env.gc i = 0)))

variable {vol : FittedSm} {range : GcRange}

theorem getSegno64_eq {b : Nat} (hlow : vol.mainBlkaddr ≤ b) (hhigh : b < maxBlkaddr vol.toSmInfo) :
    getSegno64 vol.toSmInfo b = (b - vol.mainBlkaddr) / blocksPerSeg := by
  have hpos := vol.mainBlkaddr_pos
  have hmain := vol.mainBlkaddr_eq
  have hmax := vol.maxBlkaddr_lt
  have hend := vol.mainEnd_le
  rw [vol.maxBlkaddr_eq] at hhigh hmax
  have hnull : ¬(b = nullAddr ∨ b = newAddr) := by
    unfold nullAddr newAddr at *
    omega
  rw [getSegno64, if_neg hnull]
  unfold u32
  unfold blocksPerSeg at *
  simp only
  omega

variable (vol range) in
theorem touches_iff (segno : Nat) :
    Touches vol.toSmInfo range segno ↔
      segno < vol.mainSegments ∧ range.start < vol.mainBlkaddr + (segno + 1) * blocksPerSeg ∧
        vol.mainBlkaddr + segno * blocksPerSeg ≤ range.start + range.len := by
  constructor
  · rintro ⟨hsegno, b, hstart, hend, hseg, hnext⟩
    exact ⟨hsegno, hstart.trans_lt hnext, hseg.trans hend⟩
  · rintro ⟨hsegno, hnext, hseg⟩
    have hlt : segno * blocksPerSeg < (segno + 1) * blocksPerSeg :=
      Nat.mul_lt_mul_of_pos_right (Nat.lt_succ_self segno) (by decide)
    exact ⟨hsegno, max range.start (vol.mainBlkaddr + segno * blocksPerSeg), le_max_left _ _,
      max_le (Nat.le_add_right _ _) hseg, le_max_right _ _,
      max_lt hnext (Nat.add_lt_add_left hlt _)⟩

/-- A round is at a block of the range. -/
theorem touches_block {b : Nat} (hlow : vol.mainBlkaddr ≤ range.start) (hstart : range.start ≤ b)
    (hend : b ≤ range.start + range.len) (hhigh : b < maxBlkaddr vol.toSmInfo) :
    Touches vol.toSmInfo range (getSegno64 vol.toSmInfo b) := by
  rw [getSegno64_eq (by omega) hhigh, touches_iff]
  rw [vol.maxBlkaddr_eq] at hhigh
  unfold blocksPerSeg at *
  omega

/-- The rounds of a range reach all its segments if its parts of a segment fit into one. -/
theorem rounds_complete (hlow : vol.mainBlkaddr ≤ range.start)
    (hhigh : range.start + range.len < maxBlkaddr vol.toSmInfo) :
    (∀ segno, Touches vol.toSmInfo range segno → ∃ i < range.len / blocksPerSeg + 1,
      segno = getSegno64 vol.toSmInfo (range.start + i * blocksPerSeg)) ↔
      (range.start - vol.mainBlkaddr) % blocksPerSeg + range.len % blocksPerSeg <
        blocksPerSeg := by
  have hblocks : blocksPerSeg = 512 := rfl
  have hround : ∀ i < range.len / blocksPerSeg + 1,
      getSegno64 vol.toSmInfo (range.start + i * blocksPerSeg) =
        (range.start - vol.mainBlkaddr) / 512 + i := by
    intro i hi
    rw [hblocks] at hi
    rw [getSegno64_eq (by omega) (by rw [hblocks]; omega), hblocks]
    omega
  have hmax := vol.maxBlkaddr_eq
  rw [hblocks] at hmax ⊢
  constructor
  · intro h
    obtain ⟨i, hi, hsegno⟩ := h ((range.start + range.len - vol.mainBlkaddr) / 512)
      ((touches_iff vol range _).mpr (by rw [hblocks]; omega))
    have hi' := hround i hi
    rw [hblocks] at hi'
    omega
  · intro h segno hsegno
    obtain ⟨-, hnext, hseg⟩ := (touches_iff vol range segno).mp hsegno
    rw [hblocks] at hnext hseg
    have hi : segno - (range.start - vol.mainBlkaddr) / 512 < range.len / 512 + 1 := by omega
    have hi' := hround _ hi
    rw [hblocks] at hi'
    exact ⟨_, hi, by omega⟩

/-- One round reaches all segments up to the end of the volume if it is in the last one. -/
theorem single_complete (hlow : vol.mainBlkaddr ≤ range.start)
    (hstart : range.start < maxBlkaddr vol.toSmInfo)
    (hwrap : maxBlkaddr vol.toSmInfo ≤ range.start + range.len) :
    (∀ segno, Touches vol.toSmInfo range segno → ∃ i < 1,
      segno = getSegno64 vol.toSmInfo (range.start + i * blocksPerSeg)) ↔
      maxBlkaddr vol.toSmInfo ≤ range.start + blocksPerSeg := by
  have hblocks : blocksPerSeg = 512 := rfl
  have hround := getSegno64_eq hlow hstart
  have hmax := vol.maxBlkaddr_eq
  rw [hblocks] at hmax hround ⊢
  constructor
  · intro h
    obtain ⟨i, hi, hsegno⟩ := h (vol.mainSegments - 1)
      ((touches_iff vol range _).mpr (by rw [hblocks]; omega))
    rw [Nat.lt_one_iff.mp hi, Nat.zero_mul, Nat.add_zero, hround] at hsegno
    omega
  · intro h segno hsegno
    obtain ⟨hin, hnext, -⟩ := (touches_iff vol range segno).mp hsegno
    rw [hblocks] at hnext
    refine ⟨0, Nat.one_pos, ?_⟩
    rw [Nat.zero_mul, Nat.add_zero, hround]
    omega

/-- A run that takes nothing keeps its books. -/
theorem books_idle {sm : SmInfo} {ret : Int} : GcBooks sm range ⟨[], ret, false⟩ where
  dropped := rfl
  held := rfl
  touched _ _ h := absurd h List.not_mem_nil
  complete h := nomatch h
  failed _ _ h := absurd h List.not_mem_nil

/-- So does one that finds the lock taken at once. -/
theorem books_busy {sm : SmInfo} :
    GcBooks sm range (GcRangeResult.after [.want] ⟨[.drop], ebusy, false⟩) where
  dropped := rfl
  held := rfl
  touched _ _ h := by simp [GcRangeResult.after] at h
  complete h := nomatch h
  failed _ _ h := by simp [GcRangeResult.after] at h

theorem locked_first :
    (∃ i < 1, locked env sync i = false) ↔ locked env sync 0 = false := by
  constructor
  · rintro ⟨i, hi, h⟩
    rwa [Nat.lt_one_iff.mp hi] at h
  · exact fun h => ⟨0, Nat.one_pos, h⟩

variable (vol env range)

/-- The loop of an accepted range. -/
theorem gcLoop_books_iff {stop : Nat} (hstop : stop < 2 ^ 64 - blocksPerSeg)
    (heq : stop = (range.start + range.len) % 2 ^ 64) (hlow : vol.mainBlkaddr ≤ range.start)
    (hhigh : stop < maxBlkaddr vol.toSmInfo) :
    GcBooks vol.toSmInfo range
        ((gcLoop vol.toSmInfo env range.sync stop hstop 0 range.start).after [.want]) ↔
      (∃ i < range.rounds, locked env range.sync i = false) ∨
        range.Aligned vol ∧
          (env.gc (range.rounds - 1) ≠ 0 ∨ ∀ i < range.rounds, env.gc i = 0) := by
  have hblocks : blocksPerSeg = 512 := rfl
  have hmax := vol.maxBlkaddr_lt
  have hlen := range.len_lt
  have hstart := range.start_lt
  unfold GcRange.rounds GcRange.Aligned
  by_cases hwrap : range.start + range.len < 2 ^ 64
  · rw [if_pos hwrap, if_pos hwrap]
    rw [Nat.mod_eq_of_lt hwrap] at heq
    have hrun := gcLoop_run vol.toSmInfo env range.sync hstop 0
      (show range.start ≤ stop by omega)
    rw [show (stop - range.start) / blocksPerSeg = range.len / blocksPerSeg by
      rw [heq, Nat.add_sub_cancel_left]] at hrun
    rw [hrun.books_iff fun i hi => ?_, rounds_complete hlow (by omega)]
    rw [hblocks] at hi
    exact touches_block hlow (by omega) (by rw [hblocks]; omega) (by rw [hblocks]; omega)
  · rw [if_neg hwrap, if_neg hwrap, locked_first]
    by_cases hin : range.start < maxBlkaddr vol.toSmInfo
    · have hrun := gcLoop_single vol.toSmInfo env range.sync hstop
        (show stop < range.start by omega) (by rw [hblocks]; omega)
      rw [hrun.books_iff fun i hi => ?_, single_complete hlow hin (by omega), and_iff_right hin,
        locked_first]
      rw [Nat.lt_one_iff.mp hi, Nat.zero_mul, Nat.add_zero]
      exact touches_block hlow (Nat.le_refl _) (Nat.le_add_right _ _) hin
    · by_cases hlock : locked env range.sync 0 = true
      · refine iff_of_false (fun h => ?_) fun h => ?_
        · have hfirst := gcLoop_first vol.toSmInfo hstop range.start hlock
          obtain ⟨hsegno, b, hb, -, -, hnext⟩ :=
            h.touched _ _ (List.mem_cons_of_mem _ hfirst)
          have hend := vol.maxBlkaddr_eq
          rw [hblocks] at hend hnext
          omega
        · rcases h with h | h
          · rw [hlock] at h
            cases h
          · exact hin h.1.1
      · have hbusy := Bool.eq_false_iff.mpr hlock
        rw [gcLoop_busy hstop hbusy]
        exact iff_of_true books_busy (.inl hbusy)

/-- The ioctl keeps its books exactly under `BooksKept`. -/
theorem f2fsIocGcRange_books_iff :
    GcBooks vol.toSmInfo range (f2fsIocGcRange vol env range) ↔ BooksKept vol env range := by
  by_cases hgranted : env.Granted
  · obtain ⟨hcap, hcopy, hro, hwant⟩ := hgranted
    refine Iff.trans ?_ (or_iff_right (not_not_intro ⟨hcap, hcopy, hro, hwant⟩)).symm
    rw [f2fsIocGcRange, hcap, hcopy, hro, hwant]
    simp only [Bool.true_eq_false, Bool.false_eq_true, ne_eq, not_true_eq_false, if_false]
    by_cases hrange : range.start < vol.mainBlkaddr ∨
        (range.start + range.len) % 2 ^ 64 ≥ maxBlkaddr vol.toSmInfo
    · rw [dif_pos hrange]
      refine iff_of_false (fun h => ?_) fun h => by omega
      exact absurd h.dropped (by decide)
    · rw [dif_neg hrange, gcLoop_books_iff env vol range _ rfl (by omega) (by omega)]
      exact (and_iff_right (by omega)).symm.trans
        (and_congr_right fun _ => (and_iff_right (by omega)).symm)
  · refine iff_of_true ?_ (.inl hgranted)
    unfold f2fsIocGcRange
    split_ifs with hcap hcopy hro hwant
    · exact books_idle
    · exact books_idle
    · exact books_idle
    · exact books_idle
    all_goals
      refine absurd ⟨Bool.of_not_eq_false hcap, Bool.of_not_eq_false hcopy,
        Bool.eq_false_iff.mpr hro, not_not.mp hwant⟩ hgranted

/-! ## Three requests -/

def smallVol : FittedSm := ⟨smallSm, by decide⟩

/-- Everything is granted, and only the rounds in the list fail. -/
def quietEnv (failing : List Nat) : GcRangeEnv where
  capable := true
  copied := true
  readonly := false
  wantWrite := 0
  trylock _ := true
  gc k := if k ∈ failing then -11 else 0

/-- A range in front of the main area. -/
def frontRange : GcRange := ⟨true, 0, 0, by decide, by decide⟩

/-- From block 500 of the first segment to block 8 of the second one. -/
def crossingRange : GcRange := ⟨true, 6132, 20, by decide, by decide⟩

/-- The first blocks of the first two segments and what is between them. -/
def twoRange : GcRange := ⟨true, 5632, 512, by decide, by decide⟩

/-- Write access is not given back, a segment is left out, a failure is lost. -/
theorem requests_notKept :
    ¬GcBooks smallSm frontRange (f2fsIocGcRange smallVol (quietEnv []) frontRange) ∧
      ¬GcBooks smallSm crossingRange (f2fsIocGcRange smallVol (quietEnv []) crossingRange) ∧
      ¬GcBooks smallSm twoRange (f2fsIocGcRange smallVol (quietEnv [0]) twoRange) := by
  have hstop : ∀ stop, stop < 8192 → stop < 2 ^ 64 - blocksPerSeg := fun stop h => by
    have hblocks : blocksPerSeg = 512 := rfl
    omega
  refine ⟨fun h => absurd h.dropped (by decide), fun h => ?_, fun h => ?_⟩
  · have hloop := (gcLoop_books_iff (quietEnv []) smallVol crossingRange
      (hstop 6152 (by decide)) (by decide) (by decide) (by decide)).mp h
    rcases hloop with ⟨i, -, hlock⟩ | ⟨haligned, -⟩
    · cases hlock
    · exact absurd haligned (by unfold GcRange.Aligned; decide)
  · have hloop := (gcLoop_books_iff (quietEnv [0]) smallVol twoRange
      (hstop 6144 (by decide)) (by decide) (by decide) (by decide)).mp h
    rcases hloop with ⟨i, -, hlock⟩ | ⟨-, hlast | hzero⟩
    · cases hlock
    · exact hlast (by decide)
    · exact absurd (hzero 0 (by decide)) (by decide)

end F2fs.File

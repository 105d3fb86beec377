/-
  `get_victim_by_default`: the choice of a victim for garbage collection, or of a segment
  for SSR.

  The scan goes round the dirty map from `offset` on, counts what it has searched in
  segments or whole sections, and leaves in `last_victim` where the next one is to start.
  It keeps the segments it looked at, with the cost of those it did not skip, in
  `examined`; the source keeps only the smallest.
-/
import F2fs.Lib.Loop
import F2fs.Node.NodePath
import F2fs.Segment.Curseg
import F2fs.Segment.Prefree

namespace F2fs.Gc

open F2fs.Segment
open F2fs.Node (uint32)
open Loop (Turn)

/-! ## State -/

/-- `GC_CB`, `GC_GREEDY`. -/
inductive GcMode where
  | cb | greedy
  deriving DecidableEq, Repr

/-- `BG_GC`, `FG_GC`, `FORCE_FG_GC`. -/
inductive GcType where
  | bgGc | fgGc | forceFgGc
  deriving DecidableEq, Repr

/-- What the choice reads and changes.  `gcIdle` is that of the GC thread, if there is one. -/
structure GcInfo where
  segs : SegManager
  lastVictim : GcMode → Nat
  minMtime : Nat
  curVictimSec : Nat
  maxVictimSearch : Nat
  fggcThreshold : Nat
  gcIdle : Option Nat

/-- `struct victim_sel_policy`. -/
structure VictimPolicy where
  allocMode : AllocMode
  gcMode : GcMode
  dirtySegmap : Finset Nat
  maxSearch : Nat
  offset : Nat
  ofsUnit : Nat
  minCost : Nat
  minSegno : Nat

/-! ## Policy -/

/-- `select_gc_type`. -/
def selectGcType (g : GcInfo) (gcType : GcType) : GcMode :=
  match g.gcIdle with
  | some 1 => .cb
  | some 2 => .greedy
  | _ => if gcType = .bgGc then .cb else .greedy

/-- The value of a type in `enum dirty_type`; `none` is `NO_CHECK_TYPE`. -/
def typeIdx : Option CursegType → Nat
  | some type => type.idx
  | none => dirtyAll

/-- `get_max_cost`. -/
def getMaxCost (p : VictimPolicy) : Nat :=
  match p.allocMode with
  | .SSR => blocksPerSeg
  | .LFS =>
    match p.gcMode with
    | .greedy => u32 (2 * blocksPerSeg * p.ofsUnit)
    | .cb => 2 ^ 32 - 1

section

variable (sm : SmInfo) (g : GcInfo)

/-- `select_policy`, and the initial minimum. -/
def selectPolicy (gcType : GcType) (type : Option CursegType) (allocMode : AllocMode) :
    VictimPolicy :=
  let gcMode := match allocMode with
    | .SSR => GcMode.greedy
    | .LFS => selectGcType g gcType
  let list := match allocMode with
    | .SSR => typeIdx type
    | .LFS => dirtyAll
  let maxSearch := uint32 (g.segs.dirty.nrDirty list)
  let p : VictimPolicy :=
    { allocMode := allocMode
      gcMode := gcMode
      dirtySegmap := g.segs.dirty.dirtySegmap list
      -- we need to check every dirty segments in the FG_GC case
      maxSearch :=
        if gcType ≠ .fgGc ∧ maxSearch > g.maxVictimSearch then g.maxVictimSearch else maxSearch
      -- let's select beginning hot/small space first
      offset :=
        if typeIdx type = CursegType.hotData.idx ∨ CursegType.hotNode.idx ≤ typeIdx type then 0
        else g.lastVictim gcMode
      ofsUnit := match allocMode with
        | .SSR => 1
        | .LFS => sm.segsPerSec
      minCost := 0
      minSegno := nullSegno }
  { p with minCost := getMaxCost p }

/-- `sec_usage_check`. -/
def secUsageCheck (secno : Nat) : Bool :=
  isCursec sm (fun type => (g.segs.curseg type).segno) secno || decide (g.curVictimSec = secno)

/-- `no_fggc_candidate`. -/
def noFggcCandidate (secno : Nat) : Bool :=
  decide (uint32 (getValidBlocks sm g.segs.sit (segFromSec sm secno) true) > g.fggcThreshold)

/-- The section `check_bg_victims` takes. -/
def checkBgVictims : Option Nat :=
  (List.range sm.totalSections).find? fun secno =>
    decide (secno ∈ g.segs.dirty.victimSecmap) && !secUsageCheck sm g secno &&
      !noFggcCandidate sm g secno

/-! ## Costs -/

/-- `get_cb_cost`. -/
def getCbCost (segno : Nat) : Nat × GcInfo :=
  let start := segFromSec sm (getSec sm segno)
  let sum := ((List.range sm.segsPerSec).map fun i => (g.segs.sit.sentries (start + i)).mtime).sum
  let mtime := sum % 2 ^ 64 / sm.segsPerSec
  let vblocks := uint32 (getValidBlocks sm g.segs.sit segno true) / sm.segsPerSec
  let u : Int := (u32 (vblocks * 100) / blocksPerSeg % 256 : Nat)
  let minMtime := min g.minMtime mtime
  let maxMtime := max g.segs.sit.maxMtime mtime
  let age : Int :=
    if maxMtime ≠ minMtime then
      ((100 - (100 * (mtime - minMtime) % 2 ^ 64 / (maxMtime - minMtime) : Nat) : Int) % 256)
    else 0
  let cost := uint32 (2 ^ 32 - 1 - (100 * (100 - u) * age).tdiv (100 + u))
  (cost,
    { g with
      minMtime := minMtime
      segs := { g.segs with sit := { g.segs.sit with maxMtime := maxMtime } } })

/-- `get_gc_cost`. -/
def getGcCost (segno : Nat) (p : VictimPolicy) : Nat × GcInfo :=
  match p.allocMode with
  | .SSR => ((g.segs.sit.sentries segno).ckptValidBlocks, g)
  | .LFS =>
    match p.gcMode with
    | .greedy => (uint32 (getValidBlocks sm g.segs.sit segno true), g)
    | .cb => getCbCost sm g segno

/-- `count_bits`. -/
def countBits (map : Finset Nat) (offset len : Nat) : Nat :=
  ((List.range' offset len).filter fun i => decide (i ∈ map)).length

end

/-! ## The scan -/

/-- A segment that was looked at, with its cost unless it was skipped. -/
structure Examined where
  segno : Nat
  cost : Option Nat

/-- The variables of the `while (1)` loop. -/
structure ScanState where
  g : GcInfo
  p : VictimPolicy
  lastSegment : Nat
  nsearched : Nat
  examined : List Examined

def GcInfo.setLastVictim (g : GcInfo) (mode : GcMode) (segno : Nat) : GcInfo :=
  { g with lastVictim := Function.update g.lastVictim mode segno }

section

variable (sm : SmInfo) (gcType : GcType)

/-- The tests before the cost of a segment. -/
def skipsSegment (g : GcInfo) (p : VictimPolicy) (secno : Nat) : Bool :=
  secUsageCheck sm g secno ||
    (decide (gcType = .bgGc) && decide (secno ∈ g.segs.dirty.victimSecmap)) ||
    (decide (gcType = .fgGc) && decide (p.allocMode = .LFS) && noFggcCandidate sm g secno)

/-- A segment that `find_next_bit` found, up to `next:`. -/
def examineSegment (st : ScanState) (segno : Nat) : ScanState :=
  let p := st.p
  let offset := if p.ofsUnit > 1 then segno + p.ofsUnit - segno % p.ofsUnit else segno + p.ofsUnit
  let found := if p.ofsUnit > 1 then countBits p.dirtySegmap (offset - p.ofsUnit) p.ofsUnit else 1
  let st := { st with p := { p with offset := offset }, nsearched := st.nsearched + found }
  if skipsSegment sm gcType st.g st.p (getSec sm segno) then
    { st with examined := st.examined ++ [⟨segno, none⟩] }
  else
    let (cost, g) := getGcCost sm st.g segno st.p
    { st with
      g := g
      p := if st.p.minCost > cost then { st.p with minSegno := segno, minCost := cost } else st.p
      examined := st.examined ++ [⟨segno, some cost⟩] }

/-- Where the next scan starts. -/
def nextStart (lastVictim segno : Nat) (g : GcInfo) (mode : GcMode) : Nat :=
  (if g.lastVictim mode = 0 ∧ segno ≤ lastVictim then lastVictim + 1 else segno + 1) %
    sm.mainSegments

/-- One round of the loop. -/
def scanRound (lastVictim : Nat) (st : ScanState) : Turn ScanState ScanState :=
  let segno := BitScan.next (fun i => decide (i ∈ st.p.dirtySegmap)) st.lastSegment st.p.offset
  if segno ≥ st.lastSegment then
    if st.g.lastVictim st.p.gcMode ≠ 0 then
      .next
        { st with
          lastSegment := st.g.lastVictim st.p.gcMode
          g := st.g.setLastVictim st.p.gcMode 0
          p := { st.p with offset := 0 } }
    else .done st
  else
    let st := examineSegment sm gcType st segno
    if st.nsearched ≥ st.p.maxSearch then
      .done
        { st with
          g := st.g.setLastVictim st.p.gcMode (nextStart sm lastVictim segno st.g st.p.gcMode) }
    else .next st

/-! ## The call -/

/-- The result: `p.min_segno`, `*result`, and the scan if there was one. -/
structure VictimOut where
  minSegno : Nat
  result : Nat
  g : GcInfo
  scan : Option ScanState

/-- From `got_it` on, with `p.min_segno`. -/
def takeVictim (g : GcInfo) (p : VictimPolicy) (minSegno result : Nat)
    (scan : Option ScanState) : VictimOut :=
  if minSegno = nullSegno then ⟨minSegno, result, g, scan⟩
  else
    let secno := getSec sm minSegno
    let g :=
      if p.allocMode = .LFS then
        if gcType = .fgGc then { g with curVictimSec := secno }
        else
          { g with
            segs :=
              { g.segs with
                dirty :=
                  { g.segs.dirty with victimSecmap := insert secno g.segs.dirty.victimSecmap } } }
      else g
    ⟨minSegno, minSegno / p.ofsUnit * p.ofsUnit, g, scan⟩

/-- `get_victim_by_default`; `none` if `fuel` rounds are not enough. -/
def getVictimByDefault (g : GcInfo) (result : Nat) (type : Option CursegType)
    (allocMode : AllocMode) (fuel : Nat) : Option VictimOut :=
  let p := selectPolicy sm g gcType type allocMode
  if result ≠ nullSegno then
    let valid := (g.segs.sit.sentries result).type.val ≤ CursegType.coldData.idx ∧
      getValidBlocks sm g.segs.sit result false ≠ 0 ∧
      ¬secUsageCheck sm g (getSec sm result)
    some ⟨if valid then result else nullSegno, result, g, none⟩
  else if p.maxSearch = 0 then some ⟨nullSegno, result, g, none⟩
  else
    let bg := if allocMode = .LFS ∧ gcType = .fgGc then checkBgVictims sm g else none
    match bg with
    | some secno =>
      let g :=
        { g with
          segs :=
            { g.segs with
              dirty := { g.segs.dirty with victimSecmap :=
                g.segs.dirty.victimSecmap.erase secno } } }
      some (takeVictim sm gcType g p (segFromSec sm secno) result none)
    | none =>
      (Loop.run (scanRound sm gcType (g.lastVictim p.gcMode)) fuel
        ⟨g, p, sm.mainSegments, 0, []⟩).map fun st =>
          takeVictim sm gcType st.g st.p st.p.minSegno result (some st)

end

end F2fs.Gc

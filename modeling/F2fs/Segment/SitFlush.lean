/-
  `flush_sit_entries`: dirty SIT entries go, set by set, either to the journal of the
  cold data summary or to the other copy of their SIT block.

  A flush returns `none` when one of its assertions fires: no journal slot for an
  entry it decided to journal (`offset < 0`), entries left in a set after the set was
  flushed, or sets or dirty entries left at the end.  The release of the prefree
  segments at its end is not part of this module.
-/
import F2fs.Lib.BitScan
import F2fs.Lib.Shadow
import F2fs.Segment.Sit

namespace F2fs.Segment

/-- `struct cp_control`. -/
structure CpControl where
  reason : CpReason
  trimStart : Nat
  trimEnd : Nat
  trimMinlen : Nat

/-! ## Discard candidates -/

/-- `struct discard_entry`. -/
structure DiscardEntry where
  startBlkaddr : Nat
  discardMap : BlockMap

/-- The small discards of `struct discard_cmd_control`. -/
structure DiscardCmdControl where
  entryList : List DiscardEntry
  nrDiscards : Int
  maxDiscards : Int

/-- `f2fs_test_bit` at a position below `blocks_per_seg`. -/
def testBit (m : BlockMap) (i : Nat) : Bool := decide (Fin.ofNat blocksPerSeg i ∈ m)

/-- The bits of the positions in `[start, stop)`. -/
def bitRun (start stop : Nat) : BlockMap :=
  Finset.univ.filter fun i => start ≤ i.val ∧ i.val < stop

/-- The blocks of a segment that may be discarded: `dmap` in `add_discard_addrs`. -/
def discardCandidates (force : Bool) (se : SegEntry) : BlockMap :=
  if force then se.ckptValidMapᶜ ∩ se.discardMapᶜ
  else symmDiff se.curValidMap se.ckptValidMap ∩ se.ckptValidMap

/-- The loop of `add_discard_addrs` over the runs of set bits from position `pos`: whether
    it returned early, the bits put into the new entry if one was made, and
    `nr_discards`.  Every round moves `pos` up, so `blocks_per_seg` rounds are enough. -/
def addDiscardRuns (cpc : CpControl) (checkOnly : Bool) (maxDiscards : Int)
    (dmap : BlockMap) : Nat → Nat → Option BlockMap → Int → Bool × Option BlockMap × Int
  | 0, _, de, nr => (false, de, nr)
  | rounds + 1, pos, de, nr =>
    if ¬(cpc.reason.discard ∨ nr ≤ maxDiscards) then (false, de, nr)
    else
      let start := BitScan.next (testBit dmap) blocksPerSeg pos
      if start ≥ blocksPerSeg then (false, de, nr)
      else
        let stop := BitScan.next (fun i => !testBit dmap i) blocksPerSeg (start + 1)
        if cpc.reason.discard ∧ start ≠ 0 ∧ stop ≠ blocksPerSeg ∧
            stop - start < cpc.trimMinlen then
          addDiscardRuns cpc checkOnly maxDiscards dmap rounds (stop + 1) de nr
        else if checkOnly then (true, de, nr)
        else
          addDiscardRuns cpc checkOnly maxDiscards dmap rounds (stop + 1)
            (some (de.getD ∅ ∪ bitRun start stop)) (nr + (stop - start))

/-- `add_discard_addrs` for the segment `cpc->trim_start`. -/
def addDiscardAddrs (sm : SmInfo) (cpc : CpControl) (checkOnly : Bool) (sit : SitInfo)
    (dcc : DiscardCmdControl) (trimStart : Nat) : Bool × DiscardCmdControl :=
  let se := sit.sentries trimStart
  let force := cpc.reason.discard
  if se.validBlocks = blocksPerSeg ∨ ¬ sm.discardEn then (false, dcc)
  else if ¬ force ∧ (¬ sm.discardOpt ∨ se.validBlocks = 0 ∨ dcc.nrDiscards ≥ dcc.maxDiscards) then
    (false, dcc)
  else
    let (found, de, nr) := addDiscardRuns cpc checkOnly dcc.maxDiscards
      (discardCandidates force se) blocksPerSeg 0 none dcc.nrDiscards
    (found, { dcc with
      nrDiscards := nr
      entryList := dcc.entryList ++
        (de.map fun m => { startBlkaddr := startBlock sm trimStart, discardMap := m }).toList })

/-! ## State -/

/-- `struct sit_entry_set`. -/
structure SitEntrySet where
  startSegno : Nat
  entryCnt : Int

/-- Everything the flush reads and writes. -/
structure SitState where
  info : SitInfo
  store : SitStore
  sitEntrySet : List SitEntrySet
  dcc : DiscardCmdControl

/-- `START_SEGNO`. -/
def startSegnoOf (segno : Nat) : Nat := sitBlockOffset segno * sitEntryPerBlock

/-- `__has_cursum_space` for the SIT journal, in `int`. -/
def hasCursumSpace (j : JournalArray RawSit) (size : Int) : Bool :=
  decide (size ≤ (sitJournalEntries : Int) - j.n)

/-- `next_sit_addr`. -/
def nextSitAddr (sm : SmInfo) (blockAddr : Nat) : Nat :=
  let off := blockAddr - sm.sitBaseAddr
  (if off < sm.sitBlocks then off + sm.sitBlocks else off - sm.sitBlocks) + sm.sitBaseAddr

/-- `seg_info_to_sit_page`. -/
def segInfoToSitPage (sm : SmInfo) (sit : SitInfo) (page : SitBlock) (start : Nat) : SitBlock :=
  let stop := min (start + sitEntryPerBlock) sm.mainSegments
  fun i => if i < stop - start then segInfoToRaw (sit.sentries (start + i)) else page i

/-- `get_next_sit_page` and `set_to_next_sit`. -/
def getNextSitPage (sm : SmInfo) (s : SitState) (start : Nat) : SitState :=
  let dstOff := nextSitAddr sm (s.store.currentSitAddr sm start)
  { s with
    store := { s.store with
      pages := Function.update s.store.pages dstOff
        (segInfoToSitPage sm s.info (s.store.pages dstOff) start)
      sitBitmap := ShadowArea.flip s.store.sitBitmap (sitBlockOffset start) } }

/-! ## Sets -/

/-- `adjust_sit_entry_set`: move a set before the first set after it that has at least as
    many entries. -/
def adjustSitEntrySet (ses : SitEntrySet) : List SitEntrySet → List SitEntrySet
  | [] => [ses]
  | next :: rest =>
    if ses.entryCnt ≤ next.entryCnt then ses :: next :: rest
    else next :: adjustSitEntrySet ses rest

/-- The search loop of `add_sit_entry`. -/
def findSitEntrySet (startSegno : Nat) : List SitEntrySet → Option (List SitEntrySet)
  | [] => none
  | ses :: rest =>
    if ses.startSegno = startSegno then
      some (adjustSitEntrySet { ses with entryCnt := ses.entryCnt + 1 } rest)
    else (findSitEntrySet startSegno rest).map (ses :: ·)

/-- `add_sit_entry`. -/
def addSitEntry (head : List SitEntrySet) (segno : Nat) : List SitEntrySet :=
  (findSitEntrySet (startSegnoOf segno) head).getD
    ({ startSegno := startSegnoOf segno, entryCnt := 1 } :: head)

/-- `add_sits_in_set`. -/
def addSitsInSet (sm : SmInfo) (s : SitState) : SitState :=
  { s with
    sitEntrySet := ((List.range sm.mainSegments).filter
      fun segno => segno ∈ s.info.dirtySentriesBitmap).foldl addSitEntry s.sitEntrySet }

/-- One iteration of `remove_sits_in_journal`. -/
def removeSitInJournal (s : SitState) (i : Nat) : SitState :=
  let segno := (s.store.journal.slot i).1
  if segno ∈ s.info.dirtySentriesBitmap then s
  else
    { s with
      info := s.info.markSitEntryDirty segno
      sitEntrySet := addSitEntry s.sitEntrySet segno }

/-- `remove_sits_in_journal`. -/
def removeSitsInJournal (s : SitState) : SitState :=
  let s' := (List.range s.store.journal.n).foldl removeSitInJournal s
  { s' with store := { s'.store with journal := { s'.store.journal with n := 0 } } }

/-! ## Flushing -/

/-- Where the record of one entry goes: a journal slot, or the page of the set's block,
    which `get_next_sit_page` has just made current. -/
def storeSitEntry (sm : SmInfo) (toJournal : Bool) (st : SitStore) (segno : Nat)
    (rs : RawSit) : Option SitStore :=
  if toJournal then
    (st.journal.locate sitJournalEntries segno).map fun (offset, j) =>
      { st with journal := j.write offset segno rs }
  else
    let addr := st.currentSitAddr sm segno
    some { st with
      pages := Function.update st.pages addr
        (Function.update (st.pages addr) (segno % sitEntryPerBlock) rs) }

/-- Storing an entry: `seg_info_to_raw_sit`, its dirty bit and `dirty_sentries`. -/
def SitInfo.cleanSentry (sit : SitInfo) (segno : Nat) : SitInfo :=
  { sit.setSentry segno (sit.sentries segno).checkpointed with
    dirtySentriesBitmap := sit.dirtySentriesBitmap.erase segno
    dirtySentries := sit.dirtySentries - 1 }

/-- One iteration of the entry loop, with the `entry_cnt` of the set. -/
def flushSitEntry (sm : SmInfo) (cpc : CpControl) (toJournal : Bool) (acc : SitState × Int)
    (segno : Nat) : Option (SitState × Int) :=
  let (s, entryCnt) := acc
  if segno ∉ s.info.dirtySentriesBitmap then some acc
  else
    let dcc :=
      if cpc.reason.discard then s.dcc
      else (addDiscardAddrs sm cpc false s.info s.dcc segno).2
    (storeSitEntry sm toJournal s.store segno (segInfoToRaw (s.info.sentries segno))).map
      fun st => ({ s with info := s.info.cleanSentry segno, store := st, dcc := dcc },
        entryCnt - 1)

/-- One iteration of the set loop; `ses` is the head of the list. -/
def flushSitEntrySet (sm : SmInfo) (cpc : CpControl) (acc : Bool × SitState)
    (ses : SitEntrySet) : Option (Bool × SitState) :=
  let (toJournal, s) := acc
  let start := ses.startSegno
  let stop := min (start + sitEntryPerBlock) sm.mainSegments
  let toJournal := toJournal && hasCursumSpace s.store.journal ses.entryCnt
  let s := if toJournal then s else getNextSitPage sm s start
  ((List.range' start (stop - start)).foldlM (flushSitEntry sm cpc toJournal)
    (s, ses.entryCnt)).bind fun (s, entryCnt) =>
      if entryCnt ≠ 0 then none
      else some (toJournal, { s with sitEntrySet := s.sitEntrySet.tail })

/-- The discards `flush_sit_entries` collects for a trim. -/
def addTrimDiscards (sm : SmInfo) (cpc : CpControl) (s : SitState) : SitState :=
  if cpc.reason.discard then
    { s with
      dcc := (List.range' cpc.trimStart (cpc.trimEnd + 1 - cpc.trimStart)).foldl
        (fun dcc segno => (addDiscardAddrs sm cpc false s.info dcc segno).2) s.dcc }
  else s

/-- The part of `flush_sit_entries` between adding the sets and its last assertions. -/
def flushSitSets (sm : SmInfo) (cpc : CpControl) (s : SitState) : Option SitState :=
  let s := addSitsInSet sm s
  let s :=
    if hasCursumSpace s.store.journal s.info.dirtySentries then s else removeSitsInJournal s
  (s.sitEntrySet.foldlM (flushSitEntrySet sm cpc) (true, s)).bind fun (_, s) =>
    if s.sitEntrySet ≠ [] ∨ s.info.dirtySentries ≠ 0 then none else some s

/-- `flush_sit_entries`, up to `set_prefree_as_free_segments`. -/
def flushSitEntries (sm : SmInfo) (cpc : CpControl) (s : SitState) : Option SitState :=
  (if s.info.dirtySentries = 0 then some s else flushSitSets sm cpc s).map
    (addTrimDiscards sm cpc)

end F2fs.Segment

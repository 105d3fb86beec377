/-
  `nr_discards` against the small discards on `entry_list`.

  `add_discard_addrs` raises the counter by the length of every run that it records.
  `clear_prefree_segments` lowers it by the lengths of the runs that it issues, and drops
  every entry; `release_discard_addrs` drops every entry and leaves the counter alone.  A
  run that is dropped without being issued stays in the counter.

  `dropped_counted` says when a step drops such a run; `counted_iff` carries it over a run
  of the three functions.
-/
import F2fs.Segment.Prefree

namespace F2fs.Segment

open Loop (Turn)

/-! ## The counter and the list -/

/-- The bits set in the entries. -/
def recordedBlocks (l : List DiscardEntry) : Nat := (l.map fun entry => entry.discardMap.card).sum

/-- `nr_discards`: "# of discards in the list". -/
def DiscardCmdControl.Counted (dcc : DiscardCmdControl) : Prop :=
  dcc.nrDiscards = recordedBlocks dcc.entryList

/-- `release_discard_addrs`. -/
def releaseDiscardAddrs (dcc : DiscardCmdControl) : DiscardCmdControl :=
  { dcc with entryList := [] }

/-- A maximal run of recorded blocks. -/
structure MapRun (m : BlockMap) (start stop : Nat) : Prop where
  lt : start < stop
  le : stop ≤ blocksPerSeg
  bits : ∀ i, start ≤ i → i < stop → testBit m i = true
  before : 0 < start → testBit m (start - 1) = false
  after : stop < blocksPerSeg → testBit m stop = false

/-- `clear_prefree_segments` issues a run of this length. -/
def Issues (cpc : CpControl) (blkzoned : Bool) (len : Nat) : Prop :=
  blkzoned = false ∧ (cpc.reason.discard = true → cpc.trimMinlen ≤ len)

/-- It issues every run of the map. -/
def IssuesMap (cpc : CpControl) (blkzoned : Bool) (m : BlockMap) : Prop :=
  ∀ start stop, MapRun m start stop → Issues cpc blkzoned (stop - start)

/-! ## Counting bits -/

/-- The bits below a position. -/
def bitsBelow (m : BlockMap) (pos : Nat) : Nat := (m.filter fun i => i.val < pos).card

variable {m : BlockMap}

theorem bitsBelow_zero : bitsBelow m 0 = 0 :=
  Finset.card_eq_zero.mpr (Finset.filter_false_of_mem fun _ _ => Nat.not_lt_zero _)

theorem bitsBelow_size : bitsBelow m blocksPerSeg = m.card :=
  congrArg Finset.card (Finset.filter_true_of_mem fun i _ => i.isLt)

theorem testBit_val (i : Fin blocksPerSeg) : testBit m i.val = decide (i ∈ m) := by
  rw [testBit, Fin.ofNat_val_eq_self]

theorem bitsBelow_succ {pos : Nat} (hpos : pos < blocksPerSeg) :
    bitsBelow m (pos + 1) = bitsBelow m pos + if testBit m pos = true then 1 else 0 := by
  obtain ⟨i, rfl⟩ : ∃ i : Fin blocksPerSeg, i.val = pos := ⟨⟨pos, hpos⟩, rfl⟩
  have hout : i ∉ m.filter fun j => j.val < i.val := by simp
  rw [testBit_val]
  by_cases hi : i ∈ m
  · have hinsert : (m.filter fun j => j.val < i.val + 1) =
        insert i (m.filter fun j => j.val < i.val) := by
      ext j
      simp only [Finset.mem_filter, Finset.mem_insert]
      constructor
      · rintro ⟨hj, hlt⟩
        rcases Nat.lt_succ_iff_lt_or_eq.mp hlt with h | h
        · exact .inr ⟨hj, h⟩
        · exact .inl (Fin.ext h)
      · rintro (rfl | ⟨hj, hlt⟩)
        · exact ⟨hi, Nat.lt_succ_self _⟩
        · exact ⟨hj, by omega⟩
    rw [bitsBelow, hinsert, Finset.card_insert_of_notMem hout, decide_eq_true hi, if_pos rfl]
    rfl
  · rw [decide_eq_false hi, if_neg Bool.false_ne_true]
    apply congrArg Finset.card
    apply Finset.filter_congr
    intro j hj
    have hne : j.val ≠ i.val := fun h => hi (Fin.ext h ▸ hj)
    exact ⟨fun h => by omega, fun h => by omega⟩

/-- Over a run the count goes up by its length. -/
theorem bitsBelow_run {a b : Nat} (hab : a ≤ b) (hb : b ≤ blocksPerSeg)
    (h : ∀ i, a ≤ i → i < b → testBit m i = true) : bitsBelow m b = bitsBelow m a + (b - a) := by
  induction b, hab using Nat.le_induction with
  | base => rw [Nat.sub_self, Nat.add_zero]
  | succ b hab ih =>
    rw [bitsBelow_succ (by omega), if_pos (h b hab (Nat.lt_succ_self b)),
      ih (by omega) fun i h1 h2 => h i h1 (by omega)]
    omega

/-- Over a gap it stays. -/
theorem bitsBelow_gap {a b : Nat} (hab : a ≤ b) (hb : b ≤ blocksPerSeg)
    (h : ∀ i, a ≤ i → i < b → testBit m i = false) : bitsBelow m b = bitsBelow m a := by
  induction b, hab using Nat.le_induction with
  | base => rfl
  | succ b hab ih =>
    rw [bitsBelow_succ (by omega), h b hab (Nat.lt_succ_self b), if_neg Bool.false_ne_true,
      ih (by omega) fun i h1 h2 => h i h1 (by omega), Nat.add_zero]

theorem card_bitRun {start stop : Nat} (h : stop ≤ blocksPerSeg) :
    (bitRun start stop).card = stop - start := by
  have hmap : (bitRun start stop).map Fin.valEmbedding = Finset.Ico start stop := by
    ext i
    simp only [bitRun, Finset.mem_map, Finset.mem_filter, Finset.mem_univ, true_and,
      Fin.valEmbedding_apply, Finset.mem_Ico]
    constructor
    · rintro ⟨j, hj, rfl⟩
      exact hj
    · intro hi
      exact ⟨⟨i, by omega⟩, hi, rfl⟩
  rw [← Finset.card_map Fin.valEmbedding, hmap, Nat.card_Ico]

/-- A run ends where the scan over it ends. -/
theorem MapRun.eq_of_scan {a b : Nat} (pos stop : Nat) (h : MapRun m a b) (hpos : pos < b)
    (hle : b ≤ stop) (hbits : ∀ i, pos ≤ i → i < stop → testBit m i = true)
    (hedge : 0 < pos → testBit m (pos - 1) = false) (hstop : stop ≤ blocksPerSeg) :
    a = pos ∧ b = stop := by
  constructor
  · rcases Nat.lt_trichotomy a pos with hlt | heq | hgt
    · have hin := h.bits (pos - 1) (by omega) (by omega)
      rw [hedge (by omega)] at hin
      cases hin
    · exact heq
    · have hlt := h.lt
      have hin := hbits (a - 1) (by omega) (by omega)
      rw [h.before (by omega)] at hin
      cases hin
  · rcases hle.eq_or_lt with heq | hlt
    · exact heq
    · have hin := hbits b (by omega) hlt
      rw [h.after (by omega)] at hin
      cases hin

/-! ## Recording runs -/

/-- Every run is recorded behind the bits of the entry so far. -/
theorem addDiscardRuns_counts (cpc : CpControl) (checkOnly : Bool) (maxDiscards : Int)
    (dmap : BlockMap) (rounds pos : Nat) (de : Option BlockMap) (nr : Int)
    (hde : ∀ i ∈ de.getD ∅, i.val < pos) :
    (addDiscardRuns cpc checkOnly maxDiscards dmap rounds pos de nr).2.2 =
      nr - (de.getD ∅).card +
        ((addDiscardRuns cpc checkOnly maxDiscards dmap rounds pos de nr).2.1.getD ∅).card := by
  induction rounds generalizing pos de nr with
  | zero => exact (sub_add_cancel nr _).symm
  | succ rounds ih =>
    unfold addDiscardRuns
    split
    · exact (sub_add_cancel nr _).symm
    · dsimp only
      set start := BitScan.next (testBit dmap) blocksPerSeg pos with hstart
      set stop := BitScan.next (fun i => !testBit dmap i) blocksPerSeg (start + 1) with hstop
      split
      · exact (sub_add_cancel nr _).symm
      · rename_i hlt
        have hlt : start < blocksPerSeg := Nat.lt_of_not_le hlt
        have hpos : pos ≤ start := (BitScan.next_spec hlt).1
        have hle : stop ≤ blocksPerSeg := BitScan.next_le _ _ _
        have hgt : start < stop := by
          rcases hle.eq_or_lt with heq | hstopLt
          · omega
          · exact (BitScan.next_spec hstopLt).1
        split
        · exact ih _ _ _ fun i hi => (hde i hi).trans_le (by omega)
        · split
          · exact (sub_add_cancel nr _).symm
          · have hdisj : Disjoint (de.getD ∅) (bitRun start stop) := by
              rw [Finset.disjoint_left]
              intro i hi hrun
              have h1 := hde i hi
              have h2 := (Finset.mem_filter.mp hrun).2.1
              omega
            have hcard : (de.getD ∅ ∪ bitRun start stop).card =
                (de.getD ∅).card + (stop - start) := by
              rw [Finset.card_union_of_disjoint hdisj, card_bitRun hle]
            have hbelow : ∀ i ∈ de.getD ∅ ∪ bitRun start stop, i.val < stop + 1 := by
              intro i hi
              rcases Finset.mem_union.mp hi with hi | hi
              · have := hde i hi
                omega
              · have := (Finset.mem_filter.mp hi).2.2
                omega
            rw [ih (stop + 1) (some (de.getD ∅ ∪ bitRun start stop)) (nr + (stop - start)) hbelow,
              Option.getD_some, hcard]
            push_cast [Nat.cast_sub hgt.le]
            ring

theorem addDiscardAddrs_counted (sm : SmInfo) (cpc : CpControl) (checkOnly : Bool)
    (sit : SitInfo) {dcc : DiscardCmdControl} (trimStart : Nat) (h : dcc.Counted) :
    (addDiscardAddrs sm cpc checkOnly sit dcc trimStart).2.Counted := by
  unfold addDiscardAddrs
  dsimp only
  split
  · exact h
  · split
    · exact h
    · have hruns := addDiscardRuns_counts cpc checkOnly dcc.maxDiscards
        (discardCandidates cpc.reason.discard (sit.sentries trimStart)) blocksPerSeg 0 none
        dcc.nrDiscards fun i hi => absurd hi (Finset.notMem_empty i)
      generalize addDiscardRuns cpc checkOnly dcc.maxDiscards
        (discardCandidates cpc.reason.discard (sit.sentries trimStart)) blocksPerSeg 0 none
        dcc.nrDiscards = r at hruns ⊢
      obtain ⟨found, de, nr⟩ := r
      dsimp only at hruns ⊢
      rw [DiscardCmdControl.Counted] at h ⊢
      rw [hruns, h]
      cases de with
      | none => simp [recordedBlocks]
      | some map => simp [recordedBlocks]

/-! ## Issuing runs -/

section

variable (cpc : CpControl) (blkzoned : Bool)

/-- The blocks issued so far are the recorded ones below the position, unless a run was
    skipped. -/
structure SentInv (entry : DiscardEntry) (s : SmallScan) : Prop where
  lt : s.curPos < blocksPerSeg
  bit : testBit entry.discardMap s.curPos = s.isValid
  edge : 0 < s.curPos → testBit entry.discardMap (s.curPos - 1) = !s.isValid
  sent : ((∀ a b, MapRun entry.discardMap a b → b ≤ s.curPos → Issues cpc blkzoned (b - a)) ∧
      (s.discards.map Prod.snd).sum = bitsBelow entry.discardMap s.curPos) ∨
    ¬IssuesMap cpc blkzoned entry.discardMap ∧
      (s.discards.map Prod.snd).sum < bitsBelow entry.discardMap s.curPos

/-- What is left to say of one entry when its scan is over. -/
def SentAll (entry : DiscardEntry) (l : List (Nat × Nat)) : Prop :=
  (IssuesMap cpc blkzoned entry.discardMap ∧ (l.map Prod.snd).sum = entry.discardMap.card) ∨
    ¬IssuesMap cpc blkzoned entry.discardMap ∧ (l.map Prod.snd).sum < entry.discardMap.card

end

variable {cpc : CpControl} {blkzoned : Bool}

theorem smallTurn_next {entry : DiscardEntry} {s : SmallScan} {next : Nat}
    {l : List (Nat × Nat)} (h : SentInv cpc blkzoned entry s) (hlt : s.curPos < next)
    (hnext : next ≤ blocksPerSeg)
    (hsame : ∀ i, s.curPos ≤ i → i < next → testBit entry.discardMap i = s.isValid)
    (hafter : next < blocksPerSeg → testBit entry.discardMap next = !s.isValid)
    (hl : l = if !s.isValid || blkzoned ||
        (cpc.reason.discard && decide (next - s.curPos < cpc.trimMinlen)) then s.discards
      else s.discards ++ [(entry.startBlkaddr + s.curPos, next - s.curPos)]) :
    ((∀ a b, MapRun entry.discardMap a b → b ≤ next → Issues cpc blkzoned (b - a)) ∧
      (l.map Prod.snd).sum = bitsBelow entry.discardMap next) ∨
    ¬IssuesMap cpc blkzoned entry.discardMap ∧
      (l.map Prod.snd).sum < bitsBelow entry.discardMap next := by
  cases hv : s.isValid with
  | false =>
    rw [hv] at hsame hl
    rw [Bool.not_false, Bool.true_or, Bool.true_or, if_pos rfl] at hl
    rw [hl, bitsBelow_gap hlt.le hnext hsame]
    rcases h.sent with ⟨hall, hsum⟩ | hskip
    · refine .inl ⟨fun a b hrun hb => hall a b hrun ?_, hsum⟩
      -- a run that ends behind the position would end in the gap
      by_contra hgt
      have := hrun.lt
      have hin := hrun.bits (b - 1) (by omega) (by omega)
      rw [hsame (b - 1) (by omega) (by omega)] at hin
      cases hin
    · exact .inr hskip
  | true =>
    have hedge := h.edge
    rw [hv] at hsame hl hafter hedge
    have hrun : MapRun entry.discardMap s.curPos next :=
      { lt := hlt, le := hnext, bits := hsame, before := hedge, after := hafter }
    rw [bitsBelow_run hlt.le hnext hsame]
    by_cases hissue : Issues cpc blkzoned (next - s.curPos)
    · have hgo : ¬((!true || blkzoned ||
          (cpc.reason.discard && decide (next - s.curPos < cpc.trimMinlen))) = true) := by
        obtain ⟨hzone, hlen⟩ := hissue
        rw [hzone]
        cases hforce : cpc.reason.discard with
        | false => simp
        | true =>
          have := hlen hforce
          simp only [Bool.not_true, Bool.or_false, Bool.true_and, Bool.false_or,
            decide_eq_true_eq]
          omega
      rw [if_neg hgo] at hl
      rw [hl, List.map_append, List.sum_append, List.map_cons, List.map_nil, List.sum_singleton]
      rcases h.sent with ⟨hall, hsum⟩ | ⟨hskip, hsum⟩
      · refine .inl ⟨fun a b hab hb => ?_, by rw [hsum]⟩
        rcases Nat.lt_or_ge s.curPos b with hgt | hle
        · obtain ⟨rfl, rfl⟩ := hab.eq_of_scan s.curPos next hgt hb hsame hedge hnext
          exact hissue
        · exact hall a b hab hle
      · exact .inr ⟨hskip, by omega⟩
    · have hsum : (l.map Prod.snd).sum ≤ bitsBelow entry.discardMap s.curPos := by
        have hstay : (!true || blkzoned ||
            (cpc.reason.discard && decide (next - s.curPos < cpc.trimMinlen))) = true := by
          by_contra hgo
          apply hissue
          simp only [Bool.not_true, Bool.false_or, Bool.or_eq_true, Bool.and_eq_true,
            decide_eq_true_eq, not_or, not_and, not_lt] at hgo
          exact ⟨Bool.eq_false_iff.mpr hgo.1, hgo.2⟩
        rw [hl, if_pos hstay]
        rcases h.sent with ⟨-, hsum⟩ | ⟨-, hsum⟩
        · exact hsum.le
        · exact hsum.le
      exact .inr ⟨fun hall => hissue (hall _ _ hrun), by omega⟩

theorem smallTurn_sent {entry : DiscardEntry} (s : SmallScan)
    (h : SentInv cpc blkzoned entry s) :
    (∃ s', smallTurn cpc blkzoned entry s = .next s' ∧ SentInv cpc blkzoned entry s' ∧
      blocksPerSeg - s'.curPos < blocksPerSeg - s.curPos) ∨
    ∃ l, smallTurn cpc blkzoned entry s = .done l ∧ SentAll cpc blkzoned entry l := by
  set next := BitScan.next (fun i => testBit entry.discardMap i != s.isValid) blocksPerSeg
    s.curPos with hnext
  have hle : next ≤ blocksPerSeg := BitScan.next_le _ _ _
  have hsame : ∀ i, s.curPos ≤ i → i < next → testBit entry.discardMap i = s.isValid := by
    intro i h1 h2
    have hno : (testBit entry.discardMap i != s.isValid) = false := by
      rcases hle.eq_or_lt with heq | hlt
      · exact BitScan.next_eq_size heq i h1 (by omega)
      · exact (BitScan.next_spec hlt).2.2 i h1 h2
    simpa using hno
  have hafter : next < blocksPerSeg → testBit entry.discardMap next = !s.isValid := by
    intro hlt
    have := (BitScan.next_spec hlt).2.1
    cases hv : s.isValid <;> simp_all
  have hgt : s.curPos < next := by
    rcases hle.eq_or_lt with heq | hlt
    · exact heq ▸ h.lt
    · refine lt_of_le_of_ne (BitScan.next_spec hlt).1 fun heq => ?_
      have hbit := h.bit
      rw [heq, hafter hlt] at hbit
      exact Bool.not_ne_self _ hbit
  have hsent := smallTurn_next h hgt hle hsame hafter rfl
  set l := (if !s.isValid || blkzoned ||
      (cpc.reason.discard && decide (next - s.curPos < cpc.trimMinlen)) then s.discards
    else s.discards ++ [(entry.startBlkaddr + s.curPos, next - s.curPos)]) with hl
  by_cases hlt : next < blocksPerSeg
  · refine .inl ⟨⟨next, !s.isValid, l⟩, ?_, ⟨hlt, hafter hlt, fun _ => ?_, hsent⟩,
      by dsimp only; omega⟩
    · simp only [smallTurn, ← hnext, if_pos hlt, ← hl]
    · rw [Bool.not_not]
      exact hsame (next - 1) (by omega) (by omega)
  · have hend : next = blocksPerSeg := by omega
    refine .inr ⟨l, by simp only [smallTurn, ← hnext, if_neg hlt, ← hl], ?_⟩
    rw [hend, bitsBelow_size] at hsent
    rcases hsent with ⟨hall, hsum⟩ | hskip
    · exact .inl ⟨fun a b hab => hall a b hab hab.le, hsum⟩
    · exact .inr hskip

variable (cpc blkzoned) in
theorem smallDiscards_sent (entry : DiscardEntry) :
    ∃ l, smallDiscards cpc blkzoned entry = some l ∧ SentAll cpc blkzoned entry l := by
  refine Loop.run_total (m := fun s : SmallScan => blocksPerSeg - s.curPos) smallTurn_sent
    ⟨Nat.lt_of_sub_eq_succ rfl, rfl, fun h => absurd h (lt_irrefl 0), ?_⟩
    (Nat.lt_succ_of_le (Nat.sub_le _ _))
  refine .inl ⟨fun a b hrun hb => ?_, bitsBelow_zero.symm⟩
  have := hrun.lt
  dsimp only at hb
  omega

/-- What the entries take off the counter: all they record exactly if every run is issued. -/
theorem sendEntries_counts (entries : List DiscardEntry)
    {acc r : DiscardCmdControl × List (Nat × Nat)}
    (h : entries.foldlM (sendEntry cpc blkzoned) acc = some r) :
    r.1.nrDiscards ≥ acc.1.nrDiscards - recordedBlocks entries ∧
      (r.1.nrDiscards = acc.1.nrDiscards - recordedBlocks entries ↔
        ∀ entry ∈ entries, IssuesMap cpc blkzoned entry.discardMap) := by
  induction entries generalizing acc with
  | nil =>
    obtain rfl : acc = r := Option.some.inj h
    simp [recordedBlocks]
  | cons entry entries ih =>
    obtain ⟨l, hl, hsent⟩ := smallDiscards_sent cpc blkzoned entry
    rw [List.foldlM_cons, sendEntry, hl] at h
    obtain ⟨hge, hiff⟩ := ih h
    have hsum : recordedBlocks (entry :: entries) =
        entry.discardMap.card + recordedBlocks entries := List.sum_cons
    rw [hsum, List.forall_mem_cons]
    push_cast
    dsimp only at hge hiff
    rcases hsent with ⟨hall, hlen⟩ | ⟨hskip, hlen⟩
    · refine ⟨by omega, ?_⟩
      rw [and_iff_right hall, ← hiff]
      omega
    · refine ⟨by omega, iff_of_false (by omega) fun h => hskip h.1⟩

/-! ## Steps -/

/-- One call of the three functions, with everything it reads. -/
inductive SmallDiscardOp where
  | add (sm : SmInfo) (cpc : CpControl) (checkOnly : Bool) (sit : SitInfo) (trimStart : Nat)
  | clear (sm : SmInfo) (sit : SitInfo) (curseg : CursegType → Nat) (cpc : CpControl)
      (blkzoned : Bool) (prefreeMap : Finset Nat) (nrDirty : Int)
  | release

/-- What the call does to the small discards. -/
def SmallDiscardOp.Step (dcc dcc' : DiscardCmdControl) : SmallDiscardOp → Prop
  | .add sm cpc checkOnly sit trimStart =>
    dcc' = (addDiscardAddrs sm cpc checkOnly sit dcc trimStart).2
  | .clear sm sit curseg cpc blkzoned prefreeMap nrDirty => ∃ fuel r,
    clearPrefreeSegments sm sit curseg cpc blkzoned dcc fuel prefreeMap nrDirty = some r ∧
      dcc' = r.dcc
  | .release => dcc' = releaseDiscardAddrs dcc

/-- The call empties the list. -/
def SmallDiscardOp.drops : SmallDiscardOp → Bool
  | .add .. => false
  | .clear .. | .release => true

/-- No run is dropped that is not issued. -/
def SmallDiscardOp.DropsNone (dcc : DiscardCmdControl) : SmallDiscardOp → Prop
  | .add .. => True
  | .clear _ _ _ cpc blkzoned _ _ =>
    ∀ entry ∈ dcc.entryList, IssuesMap cpc blkzoned entry.discardMap
  | .release => ∀ entry ∈ dcc.entryList, entry.discardMap = ∅

theorem recordedBlocks_eq_zero {l : List DiscardEntry} :
    recordedBlocks l = 0 ↔ ∀ entry ∈ l, entry.discardMap = ∅ := by
  rw [recordedBlocks, List.sum_eq_zero_iff, List.forall_mem_map]
  exact forall₂_congr fun _ _ => Finset.card_eq_zero

variable {op : SmallDiscardOp} {dcc dcc' : DiscardCmdControl}

/-- A call that empties the list leaves the counter right, which is 0, exactly if it drops
    no run unissued. -/
theorem dropped_counted (h : dcc.Counted) (hstep : op.Step dcc dcc') (hop : op.drops = true) :
    (dcc'.Counted ↔ dcc'.nrDiscards = 0) ∧ (dcc'.nrDiscards = 0 ↔ op.DropsNone dcc) := by
  rw [DiscardCmdControl.Counted] at h
  cases op with
  | add => cases hop
  | clear sm sit curseg cpc blkzoned prefreeMap nrDirty =>
    obtain ⟨fuel, r, hrun, rfl⟩ := hstep
    obtain ⟨d, -, hr⟩ := Option.bind_eq_some_iff.mp hrun
    obtain ⟨q, hq, rfl⟩ := Option.map_eq_some_iff.mp hr
    obtain ⟨q', hq', -, hlist⟩ := sendEntries_spec cpc blkzoned dcc.entryList dcc []
      dcc.entryList (List.Subset.refl _) fun _ he => absurd he List.not_mem_nil
    obtain rfl : q' = q := Option.some.inj (hq'.symm.trans hq)
    obtain ⟨-, hiff⟩ := sendEntries_counts dcc.entryList hq
    refine ⟨?_, ?_⟩
    · rw [DiscardCmdControl.Counted, hlist, List.drop_length]
      rfl
    · rw [SmallDiscardOp.DropsNone, ← hiff, h, sub_self]
  | release =>
    obtain rfl := hstep
    refine ⟨Iff.rfl, ?_⟩
    rw [SmallDiscardOp.DropsNone, ← recordedBlocks_eq_zero, ← Nat.cast_eq_zero (R := Int), ← h]
    rfl

theorem step_counted (h : dcc.Counted) (hstep : op.Step dcc dcc') :
    dcc'.Counted ↔ op.DropsNone dcc := by
  cases hop : op.drops with
  | true =>
    obtain ⟨hzero, hnone⟩ := dropped_counted h hstep hop
    exact hzero.trans hnone
  | false =>
    cases op with
    | add sm cpc checkOnly sit trimStart =>
      obtain rfl := hstep
      exact iff_of_true (addDiscardAddrs_counted sm cpc checkOnly sit trimStart h) trivial
    | clear => cases hop
    | release => cases hop

/-! ## Runs -/

/-- In a run from an empty list the counter is right in every state, and 0 whenever the list
    has been emptied, exactly if no step drops a run that is not issued. -/
theorem counted_iff (ops : Nat → SmallDiscardOp) (s : Nat → DiscardCmdControl) (n : Nat)
    (hlist : (s 0).entryList = []) (hnr : (s 0).nrDiscards = 0)
    (hstep : ∀ i < n, (ops i).Step (s i) (s (i + 1))) :
    ((∀ i ≤ n, (s i).Counted) ∧ ∀ i < n, (ops i).drops = true → (s (i + 1)).nrDiscards = 0) ↔
      ∀ i < n, (ops i).DropsNone (s i) := by
  constructor
  · rintro ⟨hall, -⟩ i hi
    exact (step_counted (hall i hi.le) (hstep i hi)).mp (hall (i + 1) hi)
  · intro hnone
    have hall : ∀ i ≤ n, (s i).Counted := by
      intro i
      induction i with
      | zero =>
        intro _
        rw [DiscardCmdControl.Counted, hlist, hnr]
        rfl
      | succ i ih =>
        intro hi
        exact (step_counted (ih (by omega)) (hstep i hi)).mpr (hnone i hi)
    refine ⟨hall, fun i hi hop => ?_⟩
    exact (dropped_counted (hall i hi.le) (hstep i hi) hop).2.mpr (hnone i hi)

/-! ## Two runs -/

/-- `smallSm` on a device that discards. -/
def discardSm : SmInfo := { smallSm with discardEn := true, discardOpt := true }

/-- Every segment has 510 valid blocks; the first two are free. -/
def twoFree : SitInfo :=
  { zeroSitInfo with
    sentries := fun _ =>
      { zeroSegEntry with validBlocks := 510, curValidMap := {0, 1}ᶜ, ckptValidMap := {0, 1}ᶜ } }

/-- A trim of the segment 0 that asks for runs of `minlen` blocks. -/
def trimOf (minlen : Nat) : CpControl := ⟨{ discard := true }, 0, 0, minlen⟩

/-- A trim: the runs of the segment 0 are recorded, then they are issued. -/
def trimRun (minlen i : Nat) : SmallDiscardOp :=
  if i = 0 then .add discardSm (trimOf minlen) false twoFree 0
  else .clear discardSm twoFree sectionCurseg (trimOf minlen) false ∅ 0

/-- The two free blocks of the segment 0. -/
def twoRecorded : DiscardCmdControl :=
  ⟨[{ startBlkaddr := startBlock discardSm 0, discardMap := {0, 1} }], 2, 4096⟩

theorem discardCandidates_twoFree : discardCandidates true (twoFree.sentries 0) = {0, 1} := by
  have hempty : (twoFree.sentries 0).discardMap = ∅ := rfl
  rw [discardCandidates, if_pos rfl, hempty, Finset.compl_empty, Finset.inter_univ]
  exact compl_compl _

/-- The run starts at block 0, so its length does not matter. -/
theorem add_twoFree {minlen : Nat} (h : addDiscardRuns (trimOf minlen) false 4096 {0, 1}
      blocksPerSeg 0 none 0 = (false, some {0, 1}, 2)) :
    (addDiscardAddrs discardSm (trimOf minlen) false twoFree ⟨[], 0, 4096⟩ 0).2 = twoRecorded := by
  have hforce : (trimOf minlen).reason.discard = true := rfl
  unfold addDiscardAddrs
  rw [if_neg (by decide), if_neg fun hc => hc.1 hforce, hforce, discardCandidates_twoFree, h]
  rfl

theorem exists_trimRun (minlen : Nat) (h : addDiscardRuns (trimOf minlen) false 4096 {0, 1}
      blocksPerSeg 0 none 0 = (false, some {0, 1}, 2)) :
    ∃ s : Nat → DiscardCmdControl, s 0 = ⟨[], 0, 4096⟩ ∧ s 1 = twoRecorded ∧
      ∀ i < 2, (trimRun minlen i).Step (s i) (s (i + 1)) := by
  obtain ⟨fuel, r, hrun, -⟩ : ∃ fuel r, clearPrefreeSegments discardSm twoFree sectionCurseg
      (trimOf minlen) false twoRecorded fuel ∅ (∅ : Finset Nat).card = some r ∧ _ :=
    clearPrefreeSegments_total twoFree sectionCurseg (trimOf minlen) false twoRecorded
      fun i hi => absurd hi (Finset.notMem_empty i)
  refine ⟨fun i => if i = 0 then ⟨[], 0, 4096⟩ else if i = 1 then twoRecorded else r.dcc, rfl, rfl,
    fun i hi => ?_⟩
  rcases (by omega : i = 0 ∨ i = 1) with rfl | rfl
  · exact (add_twoFree h).symm
  · exact ⟨fuel, r, hrun, rfl⟩

theorem testBit_two {i : Nat} (hi : i < blocksPerSeg) : testBit {0, 1} i = decide (i < 2) := by
  rw [testBit]
  congr 1
  rw [Finset.mem_insert, Finset.mem_singleton, Fin.ext_iff, Fin.ext_iff, Fin.val_ofNat,
    Nat.mod_eq_of_lt hi]
  show (i = 0 ∨ i = 1) = (i < 2)
  exact propext (by omega)

theorem mapRun_two : MapRun {0, 1} 0 2 where
  lt := by decide
  le := by decide
  bits i _ hi := by
    rw [testBit_two (hi.trans (by decide)), decide_eq_true hi]
  before h := absurd h (lt_irrefl 0)
  after h := testBit_two h

/-- A trim that asks for runs of two blocks leaves the counter right. -/
theorem trimOf_two_counted : ∃ s : Nat → DiscardCmdControl,
    (∀ i < 2, (trimRun 2 i).Step (s i) (s (i + 1))) ∧ s 1 = twoRecorded ∧
      (s 2).nrDiscards = 0 := by
  obtain ⟨s, h0, h1, hstep⟩ := exists_trimRun 2 (by decide +kernel)
  refine ⟨s, hstep, h1, ((counted_iff (trimRun 2) s 2 (by rw [h0]) (by rw [h0]) hstep).mpr
    fun i hi => ?_).2 1 (by decide) rfl⟩
  rcases (by omega : i = 0 ∨ i = 1) with rfl | rfl
  · trivial
  · rw [h1]
    intro entry hentry a b hrun
    obtain rfl := List.mem_singleton.mp hentry
    have hb := hrun.lt
    have hlast := hrun.bits (b - 1) (by omega) (by omega)
    rw [testBit_two (by have := hrun.le; omega), decide_eq_true_eq] at hlast
    obtain ⟨rfl, rfl⟩ := hrun.eq_of_scan 0 2 (by omega) (by omega)
      (fun i _ hi => mapRun_two.bits i (Nat.zero_le i) hi) (fun h => absurd h (lt_irrefl 0))
      (by decide)
    exact ⟨rfl, fun _ => le_refl 2⟩

/-- One that asks for runs of 16 blocks records the two and issues none: they stay in the
    counter when the list is empty. -/
theorem trimOf_sixteen_leaks : ∃ s : Nat → DiscardCmdControl, s 0 = ⟨[], 0, 4096⟩ ∧
    (∀ i < 2, (trimRun 16 i).Step (s i) (s (i + 1))) ∧ ¬(s 2).Counted ∧
      (s 2).nrDiscards ≠ 0 := by
  obtain ⟨s, h0, h1, hstep⟩ := exists_trimRun 16 (by decide +kernel)
  have hcounted : (s 1).Counted := by
    rw [h1]
    rfl
  obtain ⟨hzero, hnone⟩ := dropped_counted hcounted (hstep 1 (by decide)) rfl
  have hleak : ¬(s 2).nrDiscards = 0 := by
    intro h
    have hissues := hnone.mp h
    rw [h1] at hissues
    have hlen : 16 ≤ 2 := (hissues _ List.mem_cons_self 0 2 mapRun_two).2 rfl
    omega
  exact ⟨s, h0, hstep, fun h => hleak (hzero.mp h), hleak⟩

end F2fs.Segment

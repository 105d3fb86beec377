/-
  Where the blocks of a checkpoint pack end up, and that the readers look for
  them there.

  `packWrites_eq` says that everything `do_checkpoint` writes after the cache
  flush is one contiguous run from the start of the pack: head, payload, orphan
  pages, data summaries, node summaries, tail.  The readers' addresses are then
  positions in that run.

  The run fits its segment exactly when the super block leaves room for it:
  `cp_payload` is never checked at mount, and `max_orphans` is computed from it
  in unsigned arithmetic, so a payload above 504 both underflows `max_orphans`
  and makes the largest pack longer than a segment.
-/
import F2fs.Checkpoint.Pack

namespace F2fs.Checkpoint

open Placement

/-! ## Contiguous runs of blocks -/

/-- Blocks at consecutive `block_t` addresses. -/
def blocksAt (start : Nat) (bs : List PackBlock) : List (Nat × PackBlock) :=
  placed (2 ^ 32) start bs

@[simp] theorem blocksAt_nil (start : Nat) : blocksAt start [] = [] := rfl

theorem blocksAt_cons (start : Nat) (b : PackBlock) (bs : List PackBlock) :
    blocksAt start (b :: bs) = (u32 start, b) :: blocksAt (start + 1) bs := by
  unfold blocksAt
  rw [placed_cons, u32]

theorem blocksAt_append (start : Nat) (bs cs : List PackBlock) :
    blocksAt start (bs ++ cs) = blocksAt start bs ++ blocksAt (start + bs.length) cs :=
  placed_append start bs cs

theorem blocksAt_snoc (start : Nat) (bs : List PackBlock) (b : PackBlock) :
    blocksAt start (bs ++ [b]) = blocksAt start bs ++ [(u32 (start + bs.length), b)] := by
  rw [blocksAt_append, blocksAt_cons, blocksAt_nil]

@[simp] theorem length_blocksAt (start : Nat) (bs : List PackBlock) :
    (blocksAt start bs).length = bs.length :=
  length_placed start bs

theorem map_fst_blocksAt (start : Nat) (bs : List PackBlock) :
    (blocksAt start bs).map Prod.fst = (List.range bs.length).map fun k => u32 (start + k) := by
  unfold blocksAt u32
  exact map_fst_placed start bs

theorem mem_blocksAt (start : Nat) {bs : List PackBlock} {k : Nat} {b : PackBlock}
    (h : bs[k]? = some b) : (u32 (start + k), b) ∈ blocksAt start bs := by
  unfold blocksAt u32
  exact mem_placed start h

/-! ## The payload loop -/

theorem payloadBlks_eq {p : Nat} (h : p < 2 ^ 31 - 1) : payloadBlks p = p := by
  unfold payloadBlks i32
  omega

/-- The payload region. -/
def payloadRegion (n : Nat) : List PackBlock := (List.range n).map fun i => .payload (i + 1)

@[simp] theorem length_payloadRegion (n : Nat) : (payloadRegion n).length = n := by
  simp [payloadRegion]

theorem writePayload_eq (p start : Nat) :
    writePayload p start = blocksAt start (payloadRegion (payloadBlks p)) := by
  unfold writePayload blocksAt u32
  exact map_range_eq_placed start _ _

/-! ## Orphan pages -/

/-- The inos an orphan page holds. -/
def PackBlock.orphanInos : PackBlock → List Nat
  | .orphan b => b.ino
  | _ => []

/-- What the orphan loop has done after the inos `done`. -/
structure OrphanInv (start : Nat) (done : List Nat) (w : OrphanWriter) : Prop where
  written : ∃ bs : List PackBlock, w.out = blocksAt start bs ∧
    bs.length = done.length / f2fsOrphansPerBlock ∧ (∀ b ∈ bs, b.IsOrphan) ∧
    bs.flatMap PackBlock.orphanInos ++ ((w.page.map Prod.snd).getD []) = done
  page : ∀ addr inos, w.page = some (addr, inos) →
    inos.length = done.length % f2fsOrphansPerBlock ∧ inos ≠ [] ∧
      addr = u32 (start + done.length / f2fsOrphansPerBlock) ∧
      w.startBlk = u32 (start + done.length / f2fsOrphansPerBlock + 1)
  noPage : w.page = none → done.length % f2fsOrphansPerBlock = 0 ∧
    w.startBlk = u32 (start + done.length / f2fsOrphansPerBlock)

theorem orphanInv_init (start : Nat) :
    OrphanInv start [] { startBlk := u32 start, page := none, index := 1, out := [] } where
  written := ⟨[], rfl, rfl, by simp, rfl⟩
  page := fun _ _ h => by cases h
  noPage := fun _ => ⟨rfl, by simp⟩

theorem orphanStep_inv {start : Nat} (n ino : Nat) {done : List Nat} {w : OrphanWriter}
    (h : OrphanInv start done w) : OrphanInv start (done ++ [ino]) (orphanStep n w ino) := by
  obtain ⟨bs, hout, hlen, hall, hdone⟩ := h.written
  cases hp : w.page with
  | none =>
      obtain ⟨hmod, hstart⟩ := h.noPage hp
      have hstep : orphanStep n w ino =
          { w with page := some (w.startBlk, [ino]), startBlk := u32 (w.startBlk + 1) } := by
        simp [orphanStep, hp, f2fsOrphansPerBlock]
      rw [hstep]
      simp only [hp, Option.map_none, Option.getD_none, List.append_nil] at hdone
      refine ⟨⟨bs, hout, ?_, hall, ?_⟩, ?_, ?_⟩
      · simp only [List.length_append, List.length_singleton, f2fsOrphansPerBlock] at *
        omega
      · simp [hdone]
      · intro addr inos heq
        cases heq
        simp only [List.length_append, List.length_singleton, f2fsOrphansPerBlock] at *
        refine ⟨by omega, by simp, ?_, ?_⟩
        · rw [hstart]
          congr 2
          omega
        · rw [hstart, u32_u32_add]
          congr 2
          omega
      · intro heq
        cases heq
  | some pg =>
      obtain ⟨addr, inos⟩ := pg
      obtain ⟨hinos, -, haddr, hstart⟩ := h.page addr inos hp
      simp only [hp, Option.map_some, Option.getD_some] at hdone
      by_cases hfull : (inos ++ [ino]).length = f2fsOrphansPerBlock
      · -- the page is full: it is put, and the next iteration grabs a new one
        have hstep : orphanStep n w ino =
            { w with page := none, index := (w.index + 1) % 2 ^ 16,
                     out := w.out ++ [(addr, w.block n (inos ++ [ino]))] } := by
          simp only [orphanStep, hp]
          rw [if_pos hfull]
        rw [hstep]
        simp only [List.length_append, List.length_singleton, f2fsOrphansPerBlock] at *
        refine ⟨⟨bs ++ [w.block n (inos ++ [ino])], ?_, ?_, ?_, ?_⟩, ?_, ?_⟩
        · rw [blocksAt_snoc, hout, hlen, haddr]
        · simp only [List.length_append, List.length_singleton, f2fsOrphansPerBlock]
          omega
        · intro b hb
          rcases List.mem_append.mp hb with hb | hb
          · exact hall b hb
          · rw [List.mem_singleton.mp hb]
            trivial
        · simp [← hdone, OrphanWriter.block, PackBlock.orphanInos]
        · intro addr' inos' heq
          cases heq
        · intro _
          simp only [List.length_append, List.length_singleton, f2fsOrphansPerBlock]
          refine ⟨by omega, ?_⟩
          rw [hstart]
          congr 1
          omega
      · have hstep : orphanStep n w ino = { w with page := some (addr, inos ++ [ino]) } := by
          simp only [orphanStep, hp]
          rw [if_neg hfull]
        rw [hstep]
        have hlt := Nat.mod_lt done.length (show 0 < 1020 by decide)
        simp only [List.length_append, List.length_singleton, f2fsOrphansPerBlock] at *
        refine ⟨⟨bs, hout, ?_, hall, ?_⟩, ?_, ?_⟩
        · simp only [List.length_append, List.length_singleton, f2fsOrphansPerBlock]
          omega
        · simp [← hdone]
        · intro addr' inos' heq
          cases heq
          simp only [List.length_append, List.length_singleton, f2fsOrphansPerBlock]
          refine ⟨by omega, by simp, ?_, ?_⟩
          · rw [haddr]
            congr 2
            omega
          · rw [hstart]
            congr 2
            omega
        · intro heq
          cases heq

theorem orphanLoop_inv {start n : Nat} (inos : List Nat) :
    ∀ {done : List Nat} {w : OrphanWriter}, OrphanInv start done w →
      OrphanInv start (done ++ inos) (inos.foldl (orphanStep n) w) := by
  induction inos with
  | nil => intro done w h; simpa using h
  | cons i is ih =>
      intro done w h
      have hstep := orphanStep_inv n i h
      have hrest := ih hstep
      rwa [List.append_assoc, List.singleton_append] at hrest

theorem orphanFinish_eq {start n : Nat} {done : List Nat} {w : OrphanWriter}
    (h : OrphanInv start done w) :
    ∃ bs : List PackBlock, w.finish n = blocksAt start bs ∧
      bs.length = getOrphanBlocks done.length ∧ (∀ b ∈ bs, b.IsOrphan) ∧
      bs.flatMap PackBlock.orphanInos = done := by
  obtain ⟨bs, hout, hlen, hall, hdone⟩ := h.written
  cases hp : w.page with
  | none =>
      obtain ⟨hmod, -⟩ := h.noPage hp
      refine ⟨bs, by simp [OrphanWriter.finish, hp, hout], ?_, hall, by simpa [hp] using hdone⟩
      rw [hlen]
      unfold getOrphanBlocks f2fsOrphansPerBlock at *
      omega
  | some pg =>
      obtain ⟨addr, inos⟩ := pg
      obtain ⟨hinos, hne, haddr, -⟩ := h.page addr inos hp
      have hpos : 0 < inos.length := List.length_pos_of_ne_nil hne
      refine ⟨bs ++ [w.block n inos], ?_, ?_, ?_, ?_⟩
      · simp only [OrphanWriter.finish, hp]
        rw [blocksAt_snoc, hout, hlen, haddr]
      · rw [List.length_append, List.length_singleton, hlen]
        unfold getOrphanBlocks f2fsOrphansPerBlock at *
        omega
      · intro b hb
        rcases List.mem_append.mp hb with hb | hb
        · exact hall b hb
        · rw [List.mem_singleton.mp hb]
          trivial
      · simpa [hp, OrphanWriter.block, PackBlock.orphanInos] using hdone

/-- `write_orphan_inodes` writes `GET_ORPHAN_BLOCKS` pages from its start block, and
    the pages hold the orphan list in order. -/
theorem writeOrphanInodes_eq (start : Nat) (orphans : List Nat) :
    ∃ bs : List PackBlock, writeOrphanInodes start orphans = blocksAt start bs ∧
      bs.length = getOrphanBlocks orphans.length ∧ (∀ b ∈ bs, b.IsOrphan) ∧
      bs.flatMap PackBlock.orphanInos = orphans :=
  orphanFinish_eq (orphanLoop_inv orphans (orphanInv_init start))

/-! ## Compacted summaries -/

/-- The entries a compacted page holds. -/
def PackBlock.compacted : PackBlock → List (CursegType × Nat)
  | .compactSum es => es
  | _ => []

theorem length_compactEntries (ckpt : Ckpt) (blkoff : CursegType → Nat) :
    (compactEntries ckpt blkoff).length = validSumCount ckpt blkoff := by
  simp [compactEntries, validSumCount, CursegType.dataTypes]

/-- Pages put after `n` entries: 439 entries fill the page with the journals, 584
    more fill the second one. -/
def closedPages (n : Nat) : Nat := if n < 439 then 0 else if n < 1023 then 1 else 2

/-- `written_size` after `n` entries when a page is open. -/
def openSize (n : Nat) : Nat := if n < 439 then 1014 + 7 * n else 7 * (n - 439)

/-- What the copy loop has done after the entries `done`. -/
structure CompactInv (start : Nat) (done : List (CursegType × Nat)) (w : CompactWriter) :
    Prop where
  written : ∃ bs : List PackBlock, w.out = blocksAt start bs ∧
    bs.length = closedPages done.length ∧ (∀ b ∈ bs, b.IsDataSum) ∧
    bs.flatMap PackBlock.compacted ++ ((w.page.map Prod.snd).getD []) = done
  page : ∀ addr es, w.page = some (addr, es) →
    done.length ≠ 439 ∧ done.length ≠ 1023 ∧
      addr = u32 (start + closedPages done.length) ∧
      w.blkaddr = u32 (start + closedPages done.length + 1) ∧
      w.writtenSize = openSize done.length
  noPage : w.page = none → (done.length = 439 ∨ done.length = 1023) ∧
    w.blkaddr = u32 (start + closedPages done.length)

theorem compactInv_init (start : Nat) :
    CompactInv start [] { blkaddr := u32 (start + 1), page := some (u32 start, []),
                          writtenSize := 2 * sumJournalSize, out := [] } where
  written := ⟨[], rfl, rfl, by simp, rfl⟩
  page := by
    intro addr es h
    cases h
    exact ⟨by decide, by decide, rfl, rfl, rfl⟩
  noPage := fun h => by cases h

theorem compactStep_open {w : CompactWriter} {e : CursegType × Nat} {addr : Nat}
    {es : List (CursegType × Nat)} (hp : w.page = some (addr, es)) :
    compactStep w e =
      if w.writtenSize + 14 ≤ 4091 then
        { w with page := some (addr, es ++ [e]), writtenSize := w.writtenSize + 7 }
      else
        { w with page := none, writtenSize := w.writtenSize + 7,
                 out := w.out ++ [(addr, .compactSum (es ++ [e]))] } := by
  simp only [compactStep, hp, summarySize, pageSize, sumFooterSize, Nat.add_assoc]

theorem compactStep_closed {w : CompactWriter} {e : CursegType × Nat} (hp : w.page = none) :
    compactStep w e = { w with page := some (w.blkaddr, [e]), writtenSize := 7,
                               blkaddr := u32 (w.blkaddr + 1) } := by
  simp [compactStep, hp, summarySize, pageSize, sumFooterSize]

theorem compactStep_inv {start : Nat} {done : List (CursegType × Nat)} {w : CompactWriter}
    {e : CursegType × Nat} (hlt : done.length < 1023) (h : CompactInv start done w) :
    CompactInv start (done ++ [e]) (compactStep w e) := by
  obtain ⟨bs, hout, hlen, hall, hdone⟩ := h.written
  have hsucc : (done ++ [e]).length = done.length + 1 := by simp
  cases hp : w.page with
  | none =>
      obtain ⟨hm, hblk⟩ := h.noPage hp
      have hm' : done.length = 439 := by omega
      rw [compactStep_closed hp]
      rw [hm'] at hlen hblk hsucc
      simp only [hp, Option.map_none, Option.getD_none, List.append_nil] at hdone
      refine ⟨⟨bs, hout, by rw [hlen, hsucc]; rfl, hall, by simp [hdone]⟩, ?_, ?_⟩
      · intro addr es heq
        cases heq
        rw [hsucc]
        exact ⟨by decide, by decide, hblk, by rw [hblk, u32_u32_add]; rfl, rfl⟩
      · intro heq
        cases heq
  | some pg =>
      obtain ⟨addr, es⟩ := pg
      obtain ⟨hne, -, haddr, hblk, hsize⟩ := h.page addr es hp
      simp only [hp, Option.map_some, Option.getD_some] at hdone
      rw [compactStep_open hp]
      split
      · -- room for another entry after this one
        rename_i hroom
        rw [hsize] at hroom
        have hclosed : closedPages (done.length + 1) = closedPages done.length := by
          unfold openSize at hroom
          unfold closedPages
          split_ifs at * <;> omega
        refine ⟨⟨bs, hout, by rw [hlen, hsucc, hclosed], hall, by simp [← hdone]⟩, ?_, ?_⟩
        · intro addr' es' heq
          cases heq
          rw [hsucc, hclosed]
          unfold openSize at *
          refine ⟨?_, ?_, haddr, hblk, ?_⟩
          · split_ifs at hroom <;> omega
          · split_ifs at hroom <;> omega
          · simp only [hsize]
            split_ifs at * <;> omega
        · intro heq
          cases heq
      · -- this entry was the last of its page
        rename_i hfull
        rw [hsize] at hfull
        have hend : done.length + 1 = 439 ∨ done.length + 1 = 1023 := by
          unfold openSize at hfull
          split_ifs at hfull <;> omega
        have hclosed : closedPages (done.length + 1) = closedPages done.length + 1 := by
          unfold closedPages
          rcases hend with hend | hend
          · rw [if_neg (by omega), if_pos (by omega), if_pos (by omega)]
          · rw [if_neg (by omega), if_neg (by omega), if_neg (by omega), if_pos (by omega)]
        refine ⟨⟨bs ++ [.compactSum (es ++ [e])], ?_, ?_, ?_, ?_⟩, ?_, ?_⟩
        · rw [blocksAt_snoc, hout, hlen, haddr]
        · rw [List.length_append, List.length_singleton, hlen, hsucc, hclosed]
        · intro b hb
          rcases List.mem_append.mp hb with hb | hb
          · exact hall b hb
          · rw [List.mem_singleton.mp hb]
            trivial
        · simp [← hdone, PackBlock.compacted]
        · intro addr' es' heq
          cases heq
        · intro _
          rw [hsucc]
          refine ⟨hend, ?_⟩
          rw [hclosed]
          exact hblk

theorem compactLoop_inv {start : Nat} (es : List (CursegType × Nat)) :
    ∀ {done : List (CursegType × Nat)} {w : CompactWriter}, (done ++ es).length ≤ 1023 →
      CompactInv start done w → CompactInv start (done ++ es) (es.foldl compactStep w) := by
  induction es with
  | nil => intro done w _ h; simpa using h
  | cons e es ih =>
      intro done w hle h
      rw [List.length_append, List.length_cons] at hle
      have hstep := compactStep_inv (e := e) (by omega) h
      have hrest := ih (by simp only [List.length_append, List.length_singleton]; omega) hstep
      rwa [List.append_assoc, List.singleton_append] at hrest

theorem compactFinish_eq {start : Nat} {done : List (CursegType × Nat)} {w : CompactWriter}
    (hle : done.length ≤ 1023) (h : CompactInv start done w) :
    ∃ bs : List PackBlock, w.finish = blocksAt start bs ∧
      bs.length = (if done.length ≤ 439 then 1 else 2) ∧ (∀ b ∈ bs, b.IsDataSum) ∧
      bs.flatMap PackBlock.compacted = done := by
  obtain ⟨bs, hout, hlen, hall, hdone⟩ := h.written
  unfold closedPages at hlen
  cases hp : w.page with
  | none =>
      obtain ⟨hm, -⟩ := h.noPage hp
      refine ⟨bs, by simp [CompactWriter.finish, hp, hout], ?_, hall, by simpa [hp] using hdone⟩
      split_ifs at * <;> omega
  | some pg =>
      obtain ⟨addr, es⟩ := pg
      obtain ⟨hne, hne', haddr, -⟩ := h.page addr es hp
      refine ⟨bs ++ [.compactSum es], ?_, ?_, ?_, ?_⟩
      · simp only [CompactWriter.finish, hp]
        rw [blocksAt_snoc, hout, haddr, hlen, closedPages]
      · rw [List.length_append, List.length_singleton]
        split_ifs at * <;> omega
      · intro b hb
        rcases List.mem_append.mp hb with hb | hb
        · exact hall b hb
        · rw [List.mem_singleton.mp hb]
          trivial
      · simpa [hp, PackBlock.compacted] using hdone

/-! ## Data summaries -/

theorem npages_lt_three {ckpt : Ckpt} {blkoff : CursegType → Nat}
    (h : npagesForSummaryFlush ckpt blkoff < nrCursegDataType) :
    validSumCount ckpt blkoff ≤ 1023 ∧
      npagesForSummaryFlush ckpt blkoff = if validSumCount ckpt blkoff ≤ 439 then 1 else 2 := by
  unfold npagesForSummaryFlush at *
  rw [show sumInPage = 439 from rfl, show sumInNextPage = 584 from rfl] at *
  rw [show nrCursegDataType = 3 from rfl] at h
  split_ifs at * <;> omega

theorem writeNormalSummaries_eq (types : List CursegType) (start : Nat) :
    writeNormalSummaries types start = blocksAt start (types.map PackBlock.curSum) := by
  unfold writeNormalSummaries
  induction types generalizing start with
  | nil => rfl
  | cons t ts ih =>
      rw [List.mapIdx_cons, List.map_cons, blocksAt_cons, ← ih (start + 1)]
      refine congrArg₂ List.cons rfl (congrArg (fun f => ts.mapIdx f) ?_)
      funext i t
      rw [show start + (i + 1) = start + 1 + i by omega]

/-- The data summaries fill exactly the `npages_for_summary_flush` pages that the
    counts of the checkpoint block reserve for them. -/
theorem writeDataSummaries_eq {ckpt : Ckpt} {blkoff : CursegType → Nat}
    (hflag : ckpt.flags.compactSum =
      decide (npagesForSummaryFlush ckpt blkoff < nrCursegDataType)) (start : Nat) :
    ∃ bs : List PackBlock, writeDataSummaries ckpt blkoff start = blocksAt start bs ∧
      bs.length = npagesForSummaryFlush ckpt blkoff ∧ (∀ b ∈ bs, b.IsDataSum) ∧
      (ckpt.flags.compactSum = false → bs = CursegType.dataTypes.map PackBlock.curSum) := by
  unfold writeDataSummaries
  by_cases hc : npagesForSummaryFlush ckpt blkoff < nrCursegDataType
  · obtain ⟨hcount, hpages⟩ := npages_lt_three hc
    rw [decide_eq_true hc] at hflag
    rw [if_pos hflag]
    have hle : (compactEntries ckpt blkoff).length ≤ 1023 := by
      rw [length_compactEntries]; exact hcount
    have hinv := compactLoop_inv (compactEntries ckpt blkoff) (by simpa using hle)
      (compactInv_init start)
    obtain ⟨bs, hbs, hlen, hall, -⟩ := compactFinish_eq (by simpa using hle) hinv
    refine ⟨bs, hbs, ?_, hall, fun hf => ?_⟩
    · rw [hlen, hpages, List.nil_append, length_compactEntries]
    · rw [hflag] at hf
      cases hf
  · rw [decide_eq_false hc] at hflag
    rw [hflag, if_neg Bool.false_ne_true, writeNormalSummaries_eq]
    refine ⟨_, rfl, ?_, ?_, fun _ => rfl⟩
    · have hle := npagesForSummaryFlush_le ckpt blkoff
      have h3 : nrCursegDataType = 3 := rfl
      simp only [CursegType.dataTypes, List.map_cons, List.map_nil, List.length_cons,
        List.length_nil]
      omega
    · intro b hb
      obtain ⟨t, ht, rfl⟩ := List.mem_map.mp hb
      simp only [CursegType.dataTypes, List.mem_cons, List.not_mem_nil, or_false] at ht
      rcases ht with rfl | rfl | rfl <;> rfl

/-! ## The whole pack -/

section Pack

variable (sbi : SbInfo) (c : CpInput)

/-- Pages of node summaries the pack carries. -/
def nodeRegion (reason : CpReason) : List PackBlock :=
  if remainNodeSummaries reason then CursegType.nodeTypes.map .curSum else []

/-- The pages of a pack in address order, given its orphan and data-summary pages. -/
def packRegions (payloads : Nat) (orph sums : List PackBlock) : List PackBlock :=
  .head :: (payloadRegion payloads ++ orph ++ sums ++ nodeRegion c.reason ++ [.tail])

theorem filled_compactSum : (c.filled sbi).flags.compactSum =
    decide (npagesForSummaryFlush (c.filled sbi) c.blkoff < nrCursegDataType) := rfl

theorem filled_startSum : (c.filled sbi).cpPackStartSum =
    u32 (1 + sbi.cpPayload + getOrphanBlocks c.orphans.length) := rfl

theorem filled_total : (c.filled sbi).cpPackTotalBlockCount =
    u32 (f2fsCpPacks + sbi.cpPayload + npagesForSummaryFlush (c.filled sbi) c.blkoff +
      getOrphanBlocks c.orphans.length + (nodeRegion c.reason).length) := by
  unfold nodeRegion
  simp only [CpInput.filled, fillCkpt, updateCkptFlags, setPackCounts]
  split <;> rfl

/-- `update_ckpt_flags` keeps the NAT bits when the pack stays below them. -/
theorem filled_natBits : (c.filled sbi).flags.natBits =
    (c.ckpt.flags.natBits && !(c.reason.umount &&
      decide (u32Sub blocksPerSeg (natBitsBlocks sbi) <
        (c.filled sbi).cpPackTotalBlockCount))) := rfl

theorem existNodeSummaries_filled :
    existNodeSummaries (c.filled sbi) = remainNodeSummaries c.reason := rfl

theorem blocksAt_regions (start : Nat) (b : PackBlock) (p o s n : List PackBlock) :
    blocksAt start (b :: (p ++ o ++ s ++ n)) =
      (u32 start, b) :: blocksAt (start + 1) p ++ blocksAt (start + 1 + p.length) o ++
        blocksAt (start + 1 + p.length + o.length) s ++
        blocksAt (start + 1 + p.length + o.length + s.length) n := by
  rw [blocksAt_cons]
  simp only [List.append_assoc, List.cons_append]
  simp only [blocksAt_append]

/-- One contiguous run: the addresses `do_checkpoint` advances through and the number
    of blocks its region writers write agree for every input. -/
theorem packWrites_eq (start : Nat) : ∃ orph sums : List PackBlock,
    packWrites sbi c start =
      blocksAt start (packRegions c (payloadBlks sbi.cpPayload) orph sums) ∧
    orph.length = getOrphanBlocks c.orphans.length ∧ (∀ b ∈ orph, b.IsOrphan) ∧
    sums.length = npagesForSummaryFlush (c.filled sbi) c.blkoff ∧ (∀ b ∈ sums, b.IsDataSum) ∧
    ((c.filled sbi).flags.compactSum = false →
      sums = CursegType.dataTypes.map PackBlock.curSum) := by
  obtain ⟨orph, horph, hlen, hall⟩ : ∃ orph : List PackBlock,
      (if c.orphans = [] then [] else
        writeOrphanInodes (start + 1 + payloadBlks sbi.cpPayload) c.orphans) =
        blocksAt (start + 1 + payloadBlks sbi.cpPayload) orph ∧
      orph.length = getOrphanBlocks c.orphans.length ∧ ∀ b ∈ orph, b.IsOrphan := by
    split
    · rename_i hnil
      exact ⟨[], rfl, by rw [hnil]; rfl, by simp⟩
    · obtain ⟨bs, h, hl, ha, -⟩ :=
        writeOrphanInodes_eq (start + 1 + payloadBlks sbi.cpPayload) c.orphans
      exact ⟨bs, h, hl, ha⟩
  have hblocks : (if c.orphans = [] then 0 else getOrphanBlocks c.orphans.length) =
      orph.length := by
    rw [hlen]
    split
    · rename_i hnil
      rw [hnil]; rfl
    · rfl
  obtain ⟨sums, hsums, hslen, hsall, hnormal⟩ :=
    writeDataSummaries_eq (filled_compactSum sbi c)
      (start + 1 + payloadBlks sbi.cpPayload + orph.length)
  refine ⟨orph, sums, ?_, hlen, hall, hslen, hsall, hnormal⟩
  have hnode : (if remainNodeSummaries c.reason then
      writeNodeSummaries (start + 1 + payloadBlks sbi.cpPayload + orph.length + sums.length) ++
        [(u32 (start + 1 + payloadBlks sbi.cpPayload + orph.length + sums.length +
          nrCursegNodeType), PackBlock.tail)]
      else [(u32 (start + 1 + payloadBlks sbi.cpPayload + orph.length + sums.length), .tail)]) =
      blocksAt (start + 1 + payloadBlks sbi.cpPayload + orph.length + sums.length)
        (nodeRegion c.reason ++ [.tail]) := by
    unfold nodeRegion
    split
    · rw [writeNodeSummaries, writeNormalSummaries_eq, blocksAt_append, blocksAt_cons,
        blocksAt_nil, List.length_map,
        show CursegType.nodeTypes.length = nrCursegNodeType from rfl]
    · rw [List.nil_append, blocksAt_cons, blocksAt_nil]
  have hlenp := length_payloadRegion (payloadBlks sbi.cpPayload)
  have hrun := blocksAt_regions start .head (payloadRegion (payloadBlks sbi.cpPayload)) orph sums
    (nodeRegion c.reason ++ [.tail])
  rw [hlenp, ← hnode, ← hsums, ← horph, ← writePayload_eq, hslen, ← hblocks,
    ← List.append_assoc] at hrun
  rw [packRegions, hrun]
  unfold packWrites
  dsimp only

/-- The pages of one kind, when they form one region of the run. -/
theorem filter_blocksAt (P : PackBlock → Prop) [DecidablePred P] (start : Nat)
    (xs ys zs : List PackBlock) (hx : ∀ x ∈ xs, ¬ P x) (hy : ∀ y ∈ ys, P y)
    (hz : ∀ z ∈ zs, ¬ P z) :
    (blocksAt start (xs ++ ys ++ zs)).filter (fun w => decide (P w.2)) =
      blocksAt (start + xs.length) ys :=
  filter_placed_middle P start hx hy hz

theorem not_isOrphan_of_isDataSum {b : PackBlock} (h : b.IsDataSum) : ¬ b.IsOrphan := by
  cases b <;> simp_all [PackBlock.IsDataSum, PackBlock.IsOrphan]

theorem not_isOrphan_payloadRegion {n : Nat} {b : PackBlock} (h : b ∈ payloadRegion n) :
    ¬ b.IsOrphan ∧ ¬ b.IsDataSum := by
  obtain ⟨i, -, rfl⟩ := List.mem_map.mp h
  exact ⟨id, id⟩

theorem not_isOrphan_nodeRegion {reason : CpReason} {b : PackBlock}
    (h : b ∈ nodeRegion reason) : ¬ b.IsOrphan ∧ ¬ b.IsDataSum := by
  unfold nodeRegion at h
  split at h
  · obtain ⟨t, ht, rfl⟩ := List.mem_map.mp h
    simp only [CursegType.nodeTypes, List.mem_cons, List.not_mem_nil, or_false] at ht
    refine ⟨id, ?_⟩
    rcases ht with rfl | rfl | rfl <;> decide
  · cases h

theorem length_nodeRegion (reason : CpReason) :
    (nodeRegion reason).length = if remainNodeSummaries reason then 3 else 0 := by
  unfold nodeRegion
  split <;> rfl

/-! ## Layout and readers -/

/-- Writer and readers of the pack written by one call of `do_checkpoint` agree.  The
    writer starts at `__start_cp_next_addr`; the readers find the pack at
    `__start_cp_addr` once it is the current one, and compute everything else from the
    checkpoint block in it. -/
structure PackLayoutOk (pack : CpPack) : Prop where
  /-- Disjoint and contiguous: the regions follow each other from the pack's start. -/
  regions : ∃ orph sums : List PackBlock,
    packWrites sbi c (startCpNextAddr sbi pack) =
      blocksAt (startCpNextAddr sbi pack) (packRegions c sbi.cpPayload orph sums) ∧
    orph.length = getOrphanBlocks c.orphans.length ∧ (∀ b ∈ orph, b.IsOrphan) ∧
    sums.length = npagesForSummaryFlush (c.filled sbi) c.blkoff ∧ (∀ b ∈ sums, b.IsDataSum)
  /-- The pack lies within its segment. -/
  inSegment : (packWrites sbi c (startCpNextAddr sbi pack)).length ≤ blocksPerSeg
  /-- No two blocks of the pack share an address. -/
  nodup : ((packWrites sbi c (startCpNextAddr sbi pack)).map Prod.fst).Nodup
  /-- NAT-bits blocks lie in the same segment and beside the pack. -/
  natBits : ∀ w ∈ natBitsWrites sbi c (startCpNextAddr sbi pack),
    (∃ k < blocksPerSeg, w.1 = u32 (startCpNextAddr sbi pack + k)) ∧
      w.1 ∉ (packWrites sbi c (startCpNextAddr sbi pack)).map Prod.fst
  /-- `validate_checkpoint` reads the tail. -/
  tail : (tailAddr (startCpAddr sbi pack.next) (c.filled sbi), PackBlock.tail) ∈
    packWrites sbi c (startCpNextAddr sbi pack)
  /-- `recover_orphan_inodes` reads the orphan pages, in order. -/
  orphans : orphanReads sbi (startCpAddr sbi pack.next) (c.filled sbi) =
    ((packWrites sbi c (startCpNextAddr sbi pack)).filter fun w => decide w.2.IsOrphan).map
      Prod.fst
  /-- The data summaries start at `start_sum_block`. -/
  dataSums : ((packWrites sbi c (startCpNextAddr sbi pack)).filter fun w =>
      decide w.2.IsDataSum).map Prod.fst =
    (List.range (npagesForSummaryFlush (c.filled sbi) c.blkoff)).map fun i =>
      u32 (startSumBlock (startCpAddr sbi pack.next) (c.filled sbi) + i)
  /-- `read_normal_summaries` reads the page of its own log. -/
  normalSums : ∀ t ∈ normalTypes (c.filled sbi), sumInPack (c.filled sbi) t = true →
    (normalSumAddr sbi (startCpAddr sbi pack.next) (c.filled sbi) t, PackBlock.curSum t) ∈
      packWrites sbi c (startCpNextAddr sbi pack)

/-! ### A pack that fits -/

theorem maxOrphans_eq (h : sbi.cpPayload ≤ 504) :
    maxOrphans sbi = (504 - sbi.cpPayload) * 1020 := by
  unfold maxOrphans blocksPerSeg f2fsCpPacks nrCursegType f2fsOrphansPerBlock
  rw [u32Sub_of_le (by omega) (by decide), u32_of_lt (by omega)]

/-- The bound `acquire_orphan_inode` keeps is a bound on the orphan pages. -/
theorem getOrphanBlocks_le (hp : sbi.cpPayload ≤ 504) {n : Nat} (h : n ≤ maxOrphans sbi) :
    getOrphanBlocks n ≤ 504 - sbi.cpPayload := by
  rw [maxOrphans_eq sbi hp] at h
  unfold getOrphanBlocks f2fsOrphansPerBlock
  omega

/-- The payload is one that leaves room for everything else. -/
structure Fits : Prop where
  payload : sbi.cpPayload ≤ 504
  orphans : c.orphans.length ≤ maxOrphans sbi

variable {sbi c}

theorem Fits.orphanBlocks (h : Fits sbi c) :
    getOrphanBlocks c.orphans.length ≤ 504 - sbi.cpPayload :=
  getOrphanBlocks_le sbi h.payload h.orphans

theorem Fits.nodes (c : CpInput) : (nodeRegion c.reason).length ≤ 3 := by
  rw [length_nodeRegion]
  split <;> omega

/-- No wrap: the stored block count is the number of blocks written. -/
theorem Fits.total (h : Fits sbi c) : (c.filled sbi).cpPackTotalBlockCount =
    2 + sbi.cpPayload + npagesForSummaryFlush (c.filled sbi) c.blkoff +
      getOrphanBlocks c.orphans.length + (nodeRegion c.reason).length := by
  have hp := h.payload
  have ho := h.orphanBlocks
  have hn := Fits.nodes c
  have hd := npagesForSummaryFlush_le (c.filled sbi) c.blkoff
  unfold nrCursegDataType at hd
  rw [filled_total, f2fsCpPacks, u32_of_lt (by omega)]

theorem Fits.startSum (h : Fits sbi c) : (c.filled sbi).cpPackStartSum =
    1 + sbi.cpPayload + getOrphanBlocks c.orphans.length := by
  have hp := h.payload
  have ho := h.orphanBlocks
  rw [filled_startSum, u32_of_lt (by omega)]

theorem Fits.packWrites (h : Fits sbi c) (start : Nat) : ∃ orph sums : List PackBlock,
    packWrites sbi c start = blocksAt start (packRegions c sbi.cpPayload orph sums) ∧
    orph.length = getOrphanBlocks c.orphans.length ∧ (∀ b ∈ orph, b.IsOrphan) ∧
    sums.length = npagesForSummaryFlush (c.filled sbi) c.blkoff ∧ (∀ b ∈ sums, b.IsDataSum) ∧
    ((c.filled sbi).flags.compactSum = false →
      sums = CursegType.dataTypes.map PackBlock.curSum) := by
  have hp := h.payload
  have hrun := packWrites_eq sbi c start
  rwa [payloadBlks_eq (by omega)] at hrun

theorem length_packRegions (p : Nat) (orph sums : List PackBlock) :
    (packRegions c p orph sums).length =
      2 + p + sums.length + orph.length + (nodeRegion c.reason).length := by
  simp only [packRegions, List.length_cons, List.length_append, length_payloadRegion,
    List.length_nil]
  omega

theorem Fits.length (h : Fits sbi c) (start : Nat) :
    (F2fs.Checkpoint.packWrites sbi c start).length =
      (c.filled sbi).cpPackTotalBlockCount := by
  obtain ⟨orph, sums, hrun, ho, -, hs, -, -⟩ := h.packWrites start
  rw [hrun, length_blocksAt, length_packRegions, h.total, ho, hs]

theorem Fits.length_le (h : Fits sbi c) (start : Nat) :
    (F2fs.Checkpoint.packWrites sbi c start).length ≤ blocksPerSeg := by
  have hp := h.payload
  have ho := h.orphanBlocks
  have hn := Fits.nodes c
  have hd := npagesForSummaryFlush_le (c.filled sbi) c.blkoff
  unfold nrCursegDataType at hd
  rw [h.length, h.total, blocksPerSeg]
  omega

/-! ### The readers' addresses -/

theorem getElem?_middle {α : Type} (xs ys zs : List α) {i : Nat} (h : i < ys.length) :
    (xs ++ ys ++ zs)[xs.length + i]? = ys[i]? := by
  rw [List.append_assoc, List.getElem?_append_right (by omega), Nat.add_sub_cancel_left,
    List.getElem?_append_left h]

/-- `sum_blk_addr` counts back from the tail. -/
theorem sumBlkAddr_eq {start base type k : Nat} {ckpt : Ckpt}
    (h : ckpt.cpPackTotalBlockCount + type = k + (base + 1)) :
    sumBlkAddr start ckpt base type = u32 (start + k) := by
  unfold sumBlkAddr u32 u32Sub
  omega

theorem u32_sub_add_eq {start n i : Nat} (hn : n ≤ blocksPerSeg) :
    u32 (u32Sub (start + blocksPerSeg) n + i) = u32 (start + (blocksPerSeg - n + i)) := by
  unfold u32 u32Sub blocksPerSeg at *
  omega

section Readers

variable (h : Fits sbi c) (start : Nat)
include h

theorem Fits.tail_mem : (tailAddr start (c.filled sbi), PackBlock.tail) ∈
    F2fs.Checkpoint.packWrites sbi c start := by
  obtain ⟨orph, sums, hrun, ho, -, hs, -, -⟩ := h.packWrites start
  have htotal := h.total
  have hle := h.length_le start
  rw [h.length, blocksPerSeg] at hle
  rw [hrun, tailAddr, u32Sub_of_le (by omega) (by omega)]
  refine mem_blocksAt start ?_
  have htail := getElem?_middle
    (PackBlock.head :: (payloadRegion sbi.cpPayload ++ orph ++ sums ++ nodeRegion c.reason))
    [PackBlock.tail] [] (i := 0) (by simp)
  rw [List.append_nil, List.cons_append] at htail
  refine Eq.trans (congrArg _ ?_) htail
  simp only [List.length_cons, List.length_append, length_payloadRegion]
  omega

theorem Fits.orphan_reads : orphanReads sbi start (c.filled sbi) =
    ((F2fs.Checkpoint.packWrites sbi c start).filter fun w => decide w.2.IsOrphan).map
      Prod.fst := by
  obtain ⟨orph, sums, hrun, ho, hoall, hs, hsall, -⟩ := h.packWrites start
  have hfilter : ((F2fs.Checkpoint.packWrites sbi c start).filter fun w =>
      decide w.2.IsOrphan) = blocksAt (start + (1 + sbi.cpPayload)) orph := by
    rw [hrun]
    have hmid := filter_blocksAt PackBlock.IsOrphan start
      (.head :: payloadRegion sbi.cpPayload) orph
      (sums ++ nodeRegion c.reason ++ [.tail]) ?_ hoall ?_
    · rw [List.length_cons, length_payloadRegion, Nat.add_comm sbi.cpPayload] at hmid
      rw [← hmid]
      unfold packRegions
      simp only [List.append_assoc, List.cons_append]
    · intro b hb
      rcases List.mem_cons.mp hb with rfl | hb
      · exact id
      · exact (not_isOrphan_payloadRegion hb).1
    · intro b hb
      rcases List.mem_append.mp hb with hb | hb
      · rcases List.mem_append.mp hb with hb | hb
        · exact not_isOrphan_of_isDataSum (hsall b hb)
        · exact (not_isOrphan_nodeRegion hb).1
      · rw [List.mem_singleton.mp hb]
        exact id
  have hp := h.payload
  have hob := h.orphanBlocks
  have hcount : u32Sub (u32Sub (1 + sbi.cpPayload + getOrphanBlocks c.orphans.length) 1)
      sbi.cpPayload = getOrphanBlocks c.orphans.length := by
    unfold u32Sub
    omega
  have hflag : (c.filled sbi).flags.orphanPresent = decide (c.orphans.length ≠ 0) := rfl
  rw [hfilter, map_fst_blocksAt, ho, orphanReads, h.startSum, hcount, hflag]
  by_cases hz : c.orphans.length = 0
  · rw [hz]
    rfl
  · rw [if_pos (by simpa using hz)]
    refine List.map_congr_left fun i _ => ?_
    rw [u32_u32_add, Nat.add_assoc start]

theorem Fits.data_reads : ((F2fs.Checkpoint.packWrites sbi c start).filter fun w =>
      decide w.2.IsDataSum).map Prod.fst =
    (List.range (npagesForSummaryFlush (c.filled sbi) c.blkoff)).map fun i =>
      u32 (startSumBlock start (c.filled sbi) + i) := by
  obtain ⟨orph, sums, hrun, ho, hoall, hs, hsall, -⟩ := h.packWrites start
  have hmid := filter_blocksAt PackBlock.IsDataSum start
    (.head :: (payloadRegion sbi.cpPayload ++ orph)) sums (nodeRegion c.reason ++ [.tail])
    ?_ hsall ?_
  · have hregions : packRegions c sbi.cpPayload orph sums =
        .head :: (payloadRegion sbi.cpPayload ++ orph) ++ sums ++
          (nodeRegion c.reason ++ [.tail]) := by
      unfold packRegions
      simp only [List.append_assoc, List.cons_append]
    rw [hrun, hregions, hmid, map_fst_blocksAt, hs]
    refine List.map_congr_left fun i _ => ?_
    rw [startSumBlock, u32_u32_add, h.startSum, List.length_cons, List.length_append,
      length_payloadRegion, ho]
    congr 1
    omega
  · intro b hb
    rcases List.mem_cons.mp hb with rfl | hb
    · exact id
    · rcases List.mem_append.mp hb with hb | hb
      · exact (not_isOrphan_payloadRegion hb).2
      · exact fun hd => not_isOrphan_of_isDataSum hd (hoall b hb)
  · intro b hb
    rcases List.mem_append.mp hb with hb | hb
    · exact (not_isOrphan_nodeRegion hb).2
    · rw [List.mem_singleton.mp hb]
      exact id

/-- The page of a data log, when the pack holds normal data summaries. -/
theorem Fits.normal_data_mem (hc : (c.filled sbi).flags.compactSum = false) {t : CursegType}
    (ht : t ∈ CursegType.dataTypes) :
    (normalSumAddr sbi start (c.filled sbi) t, PackBlock.curSum t) ∈
      F2fs.Checkpoint.packWrites sbi c start := by
  obtain ⟨orph, sums, hrun, ho, -, hs, -, hnormal⟩ := h.packWrites start
  have hsums := hnormal hc
  have hdata : t.isDataSeg = true ∧ t.idx < 3 ∧ sums[t.idx]? = some (PackBlock.curSum t) := by
    rw [hsums]
    simp only [CursegType.dataTypes, List.mem_cons, List.not_mem_nil, or_false] at ht
    rcases ht with rfl | rfl | rfl <;> decide
  have hs3 : sums.length = 3 := by rw [hsums]; rfl
  obtain ⟨hseg, hidx, hget⟩ := hdata
  have htotal := h.total
  rw [length_nodeRegion, ← hs, hs3] at htotal
  have haddr : normalSumAddr sbi start (c.filled sbi) t =
      u32 (start + (1 + sbi.cpPayload + getOrphanBlocks c.orphans.length + t.idx)) := by
    unfold normalSumAddr
    rw [if_pos hseg, existNodeSummaries_filled]
    split
    · rename_i hn
      rw [if_pos hn] at htotal
      refine sumBlkAddr_eq ?_
      unfold nrCursegType
      omega
    · rename_i hn
      rw [if_neg hn] at htotal
      refine sumBlkAddr_eq ?_
      unfold nrCursegDataType
      omega
  rw [haddr, hrun]
  refine mem_blocksAt start ?_
  have hmid := getElem?_middle (PackBlock.head :: (payloadRegion sbi.cpPayload ++ orph)) sums
    (nodeRegion c.reason ++ [PackBlock.tail]) (i := t.idx) (by omega)
  rw [hget] at hmid
  rw [← hmid]
  unfold packRegions
  simp only [List.append_assoc, List.cons_append, List.length_cons, List.length_append,
    length_payloadRegion, ho]
  congr 1
  omega

/-- The page of a node log, when the pack holds node summaries. -/
theorem Fits.normal_node_mem (hn : remainNodeSummaries c.reason = true) {t : CursegType}
    (ht : t ∈ CursegType.nodeTypes) :
    (normalSumAddr sbi start (c.filled sbi) t, PackBlock.curSum t) ∈
      F2fs.Checkpoint.packWrites sbi c start := by
  obtain ⟨orph, sums, hrun, ho, -, hs, -, -⟩ := h.packWrites start
  have hnode : t.isDataSeg = false ∧ t.idx - CursegType.hotNode.idx < 3 ∧
      (nodeRegion c.reason)[t.idx - CursegType.hotNode.idx]? = some (PackBlock.curSum t) := by
    unfold nodeRegion
    rw [if_pos hn]
    simp only [CursegType.nodeTypes, List.mem_cons, List.not_mem_nil, or_false] at ht
    rcases ht with rfl | rfl | rfl <;> decide
  obtain ⟨hseg, hidx, hget⟩ := hnode
  have htotal := h.total
  have hn3 : (nodeRegion c.reason).length = 3 := by rw [length_nodeRegion, if_pos hn]
  rw [hn3, ← hs] at htotal
  have haddr : normalSumAddr sbi start (c.filled sbi) t =
      u32 (start + (1 + sbi.cpPayload + getOrphanBlocks c.orphans.length + sums.length +
        (t.idx - CursegType.hotNode.idx))) := by
    unfold normalSumAddr
    rw [hseg, if_neg Bool.false_ne_true, existNodeSummaries_filled, if_pos hn]
    refine sumBlkAddr_eq ?_
    unfold nrCursegNodeType
    omega
  rw [haddr, hrun]
  refine mem_blocksAt start ?_
  have hmid := getElem?_middle (PackBlock.head :: (payloadRegion sbi.cpPayload ++ orph ++ sums))
    (nodeRegion c.reason) [PackBlock.tail] (i := t.idx - CursegType.hotNode.idx) (by omega)
  rw [hget] at hmid
  rw [← hmid]
  unfold packRegions
  simp only [List.append_assoc, List.cons_append, List.length_cons, List.length_append,
    length_payloadRegion, ho]
  congr 1
  omega

theorem Fits.normal_reads (t : CursegType) (ht : t ∈ normalTypes (c.filled sbi))
    (hin : sumInPack (c.filled sbi) t = true) :
    (normalSumAddr sbi start (c.filled sbi) t, PackBlock.curSum t) ∈
      F2fs.Checkpoint.packWrites sbi c start := by
  unfold sumInPack at hin
  rw [existNodeSummaries_filled] at hin
  by_cases hdata : t ∈ CursegType.dataTypes
  · refine h.normal_data_mem start ?_ hdata
    cases hc : (c.filled sbi).flags.compactSum with
    | false => rfl
    | true =>
        rw [normalTypes, if_pos hc] at ht
        simp only [CursegType.dataTypes, CursegType.nodeTypes, List.mem_cons, List.not_mem_nil,
          or_false] at hdata ht
        rcases hdata with rfl | rfl | rfl <;> simp at ht
  · have hnode : t ∈ CursegType.nodeTypes ∧ t.isDataSeg = false := by
      revert hdata
      cases t <;> decide
    rw [hnode.2, Bool.false_or] at hin
    exact h.normal_node_mem start hin hnode.1

/-- The NAT bits are only kept when the pack ends before them. -/
theorem Fits.natBits_beside (hnat : natBitsBlocks sbi ≤ blocksPerSeg) :
    ∀ w ∈ natBitsWrites sbi c start, (∃ k < blocksPerSeg, w.1 = u32 (start + k)) ∧
      w.1 ∉ (F2fs.Checkpoint.packWrites sbi c start).map Prod.fst := by
  intro w hw
  unfold natBitsWrites at hw
  split at hw
  · rename_i hen
    obtain ⟨i, hi, rfl⟩ := List.mem_map.mp hw
    rw [List.mem_range] at hi
    have hroom : (c.filled sbi).cpPackTotalBlockCount ≤ blocksPerSeg - natBitsBlocks sbi := by
      simp only [enabledNatBits, Bool.and_eq_true] at hen
      obtain ⟨hum, hflag⟩ := hen
      simp only [filled_natBits, hum, Bool.true_and, Bool.and_eq_true, Bool.not_eq_true',
        decide_eq_false_iff_not, Nat.not_lt] at hflag
      have hsub := hflag.2
      rwa [u32Sub_of_le hnat (by decide)] at hsub
    rw [u32_sub_add_eq hnat]
    unfold blocksPerSeg at *
    refine ⟨⟨512 - natBitsBlocks sbi + i, by omega, rfl⟩, fun hmem => ?_⟩
    obtain ⟨orph, sums, hrun, -⟩ := h.packWrites start
    have hlen := h.length start
    rw [hrun, length_blocksAt] at hlen
    rw [hrun, map_fst_blocksAt] at hmem
    obtain ⟨k, hk, heq⟩ := List.mem_map.mp hmem
    rw [List.mem_range] at hk
    have hki := u32_inj_of_lt (by omega) (by omega) heq
    omega
  · cases hw

end Readers

theorem nodup_blocksAt (start : Nat) {bs : List PackBlock} (h : bs.length ≤ blocksPerSeg) :
    ((blocksAt start bs).map Prod.fst).Nodup :=
  nodup_placed start (h.trans (by decide))

/-- A pack that fits is laid out as its readers expect. -/
theorem packLayoutOk_of_fits (h : Fits sbi c) (hnat : natBitsBlocks sbi ≤ blocksPerSeg)
    (pack : CpPack) : PackLayoutOk sbi c pack where
  regions := by
    obtain ⟨orph, sums, hrun, ho, hoall, hs, hsall, -⟩ := h.packWrites (startCpNextAddr sbi pack)
    exact ⟨orph, sums, hrun, ho, hoall, hs, hsall⟩
  inSegment := h.length_le _
  nodup := by
    obtain ⟨orph, sums, hrun, -⟩ := h.packWrites (startCpNextAddr sbi pack)
    have hle := h.length_le (startCpNextAddr sbi pack)
    rw [hrun] at hle ⊢
    exact nodup_blocksAt _ (by simpa using hle)
  natBits := h.natBits_beside _ hnat
  tail := by rw [startCpAddr_next]; exact h.tail_mem _
  orphans := by rw [startCpAddr_next]; exact h.orphan_reads _
  dataSums := by rw [startCpAddr_next]; exact h.data_reads _
  normalSums := by rw [startCpAddr_next]; exact h.normal_reads _

end Pack

/-! ### Which mounts leave room -/

/-- The largest pack without orphans: three full data summaries, node summaries, and
    the NAT-bits flag set. -/
def fullPack : CpInput where
  ckpt := { flags := { natBits := true } }
  logs := fun _ => { segno := 0, nextBlkoff := 0, allocType := .SSR }
  orphans := []
  reason := { umount := true }
  needFsck := false

theorem fullPack_npages (sbi : SbInfo) :
    npagesForSummaryFlush (fullPack.filled sbi) fullPack.blkoff = 3 := by
  have hssr : ∀ t, (fullPack.filled sbi).allocType t = .SSR := fun _ => rfl
  have hcount : validSumCount (fullPack.filled sbi) fullPack.blkoff = 1536 := by
    simp [validSumCount, CursegType.dataTypes, sumCount, hssr, blocksPerSeg]
  rw [npagesForSummaryFlush, hcount, if_neg (by decide), if_neg (by decide)]

theorem fullPack_total (sbi : SbInfo) :
    (fullPack.filled sbi).cpPackTotalBlockCount = u32 (2 + sbi.cpPayload + 3 + 0 + 3) := by
  rw [filled_total, fullPack_npages]
  rfl

theorem payload_le_of_layoutOk {sbi : SbInfo} {pack : CpPack}
    (h : PackLayoutOk sbi fullPack pack) : sbi.cpPayload ≤ 504 := by
  obtain ⟨orph, sums, hrun, -, -, hs, -⟩ := h.regions
  have hseg := h.inSegment
  have hn : (nodeRegion fullPack.reason).length = 3 := rfl
  rw [hrun, length_blocksAt, length_packRegions, hs, fullPack_npages, hn, blocksPerSeg] at hseg
  omega

theorem natBits_le_of_layoutOk {sbi : SbInfo} {pack : CpPack}
    (h : PackLayoutOk sbi fullPack pack) : natBitsBlocks sbi ≤ blocksPerSeg := by
  by_contra hgt
  have hp := payload_le_of_layoutOk h
  have hlt := natBitsBlocks_lt sbi
  unfold blocksPerSeg at hgt
  -- the room left for the pack underflows, so the flag survives
  have hroom : ¬ u32Sub blocksPerSeg (natBitsBlocks sbi) < u32 (2 + sbi.cpPayload + 3 + 0 + 3) := by
    unfold u32Sub blocksPerSeg u32
    omega
  have hflag := filled_natBits sbi fullPack
  rw [fullPack_total, decide_eq_false hroom] at hflag
  have hfirst : (u32 (u32Sub (startCpNextAddr sbi pack + blocksPerSeg) (natBitsBlocks sbi) + 0),
      PackBlock.natBits 0) ∈ natBitsWrites sbi fullPack (startCpNextAddr sbi pack) := by
    unfold natBitsWrites
    rw [if_pos (by rw [enabledNatBits, hflag]; rfl)]
    exact List.mem_map.mpr ⟨0, List.mem_range.mpr (by omega), rfl⟩
  obtain ⟨⟨k, hk, heq⟩, -⟩ := h.natBits _ hfirst
  unfold u32 u32Sub blocksPerSeg at *
  omega

/-- Every checkpoint of a mounted file system, whatever its orphans (up to
    `max_orphans`), logs, reason and flags, has a well laid out pack exactly when
    `cp_payload` is at most 504 and the NAT bits fit a segment. -/
theorem packLayoutOk_iff (sbi : SbInfo) :
    (∀ (pack : CpPack) (c : CpInput), c.orphans.length ≤ maxOrphans sbi →
      PackLayoutOk sbi c pack) ↔
    sbi.cpPayload ≤ 504 ∧ natBitsBlocks sbi ≤ blocksPerSeg := by
  constructor
  · intro h
    have hfull := h .one fullPack (Nat.zero_le _)
    exact ⟨payload_le_of_layoutOk hfull, natBits_le_of_layoutOk hfull⟩
  · intro ⟨hp, hnat⟩ pack c ho
    exact packLayoutOk_of_fits ⟨hp, ho⟩ hnat pack

/-- A super block every mount check accepts, with one payload block too many. -/
def payload505 : SbInfo := { smallSbi with cpPayload := 505, cpPayload_lt := by decide }

theorem payload505_not_layoutOk :
    fullPack.orphans.length ≤ maxOrphans payload505 ∧
      ¬ PackLayoutOk payload505 fullPack .one := by
  refine ⟨Nat.zero_le _, fun h => ?_⟩
  have hp := payload_le_of_layoutOk h
  exact absurd hp (by decide)

end F2fs.Checkpoint

/-
  `write_compacted_summaries` and `read_compacted_summaries` (`segment.c`), byte by byte.

  The writer grabs a page only when it has an entry to put there; the reader fetches the
  next page as soon as the last one is used up, so it may fetch one page more than was
  written.  Both step through the same positions (`Lib.PagedRecords`): `WriterAt` and
  `ReaderAt` say where a loop stands on that walk.

  The writer's page addresses and its `written_size` are those of the writer in
  `Checkpoint.Pack`, which labels pages and leaves their bytes out (`Tracks`).
-/
import F2fs.Checkpoint.Layout
import F2fs.Lib.PagedRecords

namespace F2fs.Checkpoint.CompactSum

open PagedRecords

/-! ## Bytes -/

/-- `struct f2fs_summary`: the structure is packed, and only copied here. -/
abbrev Summary := Fin summarySize → UInt8

/-- `struct f2fs_journal`, as the two loops copy it. -/
abbrev Journal := Fin sumJournalSize → UInt8

/-- The meta page cache. -/
abbrev MetaPages := Pages Nat UInt8 pageSize

/-- What the two loops use of `struct curseg_info`; `pos.segno` is `next_segno`. -/
structure CursegInfo where
  pos : CursegPos
  journal : Journal
  /-- `sum_blk->entries` -/
  entries : Fin blocksPerSeg → Summary

/-- `sum_blk->entries[j]`. -/
def CursegInfo.entry (seg : CursegInfo) (j : Nat) : Option Summary :=
  if h : j < blocksPerSeg then some (seg.entries ⟨j, h⟩) else none

/-- `sum_blk->entries[j] = s`. -/
def CursegInfo.setEntry (seg : CursegInfo) (j : Nat) (s : Summary) : Option CursegInfo :=
  if h : j < blocksPerSeg then
    some { seg with entries := Function.update seg.entries ⟨j, h⟩ s }
  else none

/-- The logs while the file system runs: `next_blkoff` stays within the segment. -/
structure Logs where
  curseg : CursegType → CursegInfo
  blkoff_le : ∀ t, (curseg t).pos.nextBlkoff ≤ blocksPerSeg

/-! ## The writer -/

/-- The local variables of `write_compacted_summaries`; `grabbed` counts the pages. -/
structure Writer where
  pages : MetaPages
  blkaddr : Nat
  page : Option Nat
  writtenSize : Nat
  grabbed : Nat

/-- `grab_meta_page(sbi, blkaddr++)` with `written_size` reset, when no page is open. -/
def Writer.grab (w : Writer) : Writer × Nat :=
  match w.page with
  | some addr => (w, addr)
  | none => ({ w with page := some w.blkaddr, blkaddr := u32 (w.blkaddr + 1),
                      writtenSize := 0, grabbed := w.grabbed + 1 }, w.blkaddr)

/-- One iteration of the inner loop. -/
def Writer.copy (w : Writer) (s : Summary) : Option Writer := do
  let (w, addr) := w.grab
  let pages ← store w.pages addr w.writtenSize s
  let written := w.writtenSize + summarySize
  return { w with
    pages := pages
    writtenSize := written
    page := if written + summarySize ≤ pageSize - sumFooterSize then w.page else none }

/-- The inner loop for log `i`: `blkoff` entries. -/
def Writer.copyLog (ckpt : Ckpt) (logs : CursegType → CursegInfo) (w : Writer)
    (i : CursegType) : Option Writer :=
  (List.range (sumCount (ckpt.allocType i) (logs i).pos.nextBlkoff)).foldlM (fun w j => do
    let s ← (logs i).entry j
    w.copy s) w

/-- The writer after step 2, when both journals are in the first page. -/
def Writer.begin (pages : MetaPages) (blkaddr : Nat) : Writer where
  pages := pages
  blkaddr := u32 (blkaddr + 1)
  page := some (u32 blkaddr)
  writtenSize := sumJournalSize + sumJournalSize
  grabbed := 1

/-- `write_compacted_summaries`. -/
def writeCompactedSummaries (ckpt : Ckpt) (logs : CursegType → CursegInfo)
    (pages : MetaPages) (blkaddr : Nat) : Option Writer := do
  let pages ← store pages (u32 blkaddr) 0 (logs .hotData).journal
  let pages ← store pages (u32 blkaddr) sumJournalSize (logs .coldData).journal
  CursegType.dataTypes.foldlM (Writer.copyLog ckpt logs) (Writer.begin pages blkaddr)

/-! ## The reader -/

/-- The local variables of `read_compacted_summaries` and the logs it fills. -/
structure Reader where
  start : Nat
  page : Nat
  offset : Nat
  logs : CursegType → CursegInfo

/-- `seg_i->... = ...` for log `i`. -/
def Reader.setLog (r : Reader) (i : CursegType) (seg : CursegInfo) : Reader :=
  { r with logs := Function.update r.logs i seg }

/-- One iteration of the inner loop. -/
def Reader.copy (pages : MetaPages) (i : CursegType) (r : Reader) (j : Nat) :
    Option Reader := do
  let s ← load summarySize pages r.page r.offset
  let seg ← (r.logs i).setEntry j s
  let r := r.setLog i seg
  let offset := r.offset + summarySize
  if offset + summarySize ≤ pageSize - sumFooterSize then
    return { r with offset := offset }
  else
    return { r with page := r.start, start := u32 (r.start + 1), offset := 0 }

/-- The body of the outer loop: where the log goes on, and its entries. -/
def Reader.copyLog (ckpt : Ckpt) (pages : MetaPages) (r : Reader) (i : CursegType) :
    Option Reader :=
  let blkOff := ckpt.curBlkoff i
  let r := r.setLog i { r.logs i with pos := ⟨ckpt.curSegno i, blkOff, ckpt.allocType i⟩ }
  (List.range (sumCount (ckpt.allocType i) blkOff)).foldlM (Reader.copy pages i) r

/-- `memcpy(seg_i->journal, ..)`. -/
def Reader.setJournal (r : Reader) (i : CursegType) (j : Journal) : Reader :=
  r.setLog i { r.logs i with journal := j }

/-- `read_compacted_summaries`, with `start` the value of `start_sum_block`. -/
def readCompactedSummaries (ckpt : Ckpt) (pages : MetaPages) (start : Nat)
    (logs : CursegType → CursegInfo) : Option Reader := do
  let r : Reader := { start := u32 (start + 1), page := u32 start, offset := 0, logs := logs }
  let nat ← load sumJournalSize pages r.page r.offset
  let r := r.setJournal .hotData nat
  let sit ← load sumJournalSize pages r.page sumJournalSize
  let r := r.setJournal .coldData sit
  CursegType.dataTypes.foldlM (Reader.copyLog ckpt pages)
    { r with offset := 2 * sumJournalSize }

/-! ## The writer on the walk -/

/-- Where a page ends for the two loops. -/
abbrev pageLimit : Nat := pageSize - sumFooterSize

/-- The entry after an entry. -/
abbrev nextPos (c : Cursor) : Cursor := c.next summarySize pageLimit

/-- The entry after `j` entries. -/
abbrev posAfter (c : Cursor) (j : Nat) : Cursor := c.after summarySize pageLimit j

/-- The entries start behind the two journals. -/
def firstPos : Cursor := ⟨0, 2 * sumJournalSize⟩

/-- The writer's next entry goes to `c`; a page that is not open yet is the next one. -/
structure WriterAt (start : Nat) (c : Cursor) (w : Writer) : Prop where
  opened : ∀ a, w.page = some a → a = u32 (start + c.page) ∧
    w.blkaddr = u32 (start + c.page + 1) ∧ w.writtenSize = c.off ∧ w.grabbed = c.page + 1
  closed : w.page = none → c.off = 0 ∧ w.blkaddr = u32 (start + c.page) ∧ w.grabbed = c.page

theorem WriterAt.grab {start : Nat} {c : Cursor} {w : Writer} (h : WriterAt start c w) :
    w.grab.2 = u32 (start + c.page) ∧ w.grab.1.pages = w.pages ∧
      w.grab.1.page = some (u32 (start + c.page)) ∧
      w.grab.1.blkaddr = u32 (start + c.page + 1) ∧ w.grab.1.writtenSize = c.off ∧
      w.grab.1.grabbed = c.page + 1 := by
  unfold Writer.grab
  cases hp : w.page with
  | some a =>
      obtain ⟨rfl, hblk, hsize, hgrab⟩ := h.opened a hp
      exact ⟨rfl, rfl, hp, hblk, hsize, hgrab⟩
  | none =>
      obtain ⟨hoff, hblk, hgrab⟩ := h.closed hp
      simp only [hblk, hoff, hgrab, u32_u32_add, and_self]

theorem Writer.copy_spec {start : Nat} {c : Cursor} {w : Writer} {s : Summary}
    {m : MetaPages} (h : WriterAt start c w)
    (hm : store w.pages (u32 (start + c.page)) c.off s = some m) :
    ∃ w', w.copy s = some w' ∧ w'.pages = m ∧ WriterAt start (nextPos c) w' ∧
      w'.grabbed = c.page + 1 := by
  obtain ⟨haddr, hpages, hpage, hblk, hsize, hgrab⟩ := h.grab
  refine ⟨{ w.grab.1 with
    pages := m
    writtenSize := c.off + summarySize
    page := if c.off + summarySize + summarySize ≤ pageLimit then
      some (u32 (start + c.page)) else none }, ?_, rfl, ⟨?_, ?_⟩, hgrab⟩
  · unfold Writer.copy
    simp only [haddr, hpages, hsize, hm, hpage]
    rfl
  · intro a ha
    unfold nextPos Cursor.next
    split_ifs at ha ⊢ with hfit
    exact ⟨(Option.some.inj ha).symm, hblk, rfl, hgrab⟩
  · intro hnone
    unfold nextPos Cursor.next
    split_ifs at hnone ⊢ with hfit
    exact ⟨rfl, hblk, hgrab⟩

theorem WriterAt.grabbed_le {start : Nat} {c : Cursor} {w : Writer} (h : WriterAt start c w) :
    w.grabbed ≤ c.page + 1 := by
  cases hp : w.page with
  | some a => exact (h.opened a hp).2.2.2.le
  | none => exact (h.closed hp).2.2.le.trans (Nat.le_succ _)

/-- Every page the writer changed is one it grabbed. -/
def Touched (start : Nat) (pages : MetaPages) (w : Writer) : Prop :=
  ∀ a, w.pages a ≠ pages a → ∃ p < w.grabbed, a = u32 (start + p)

theorem Touched.store {start : Nat} {pages m : MetaPages} {c : Cursor} {w w' : Writer}
    {n off : Nat} {x : Fin n → UInt8} (h : Touched start pages w)
    (hm : store w.pages (u32 (start + c.page)) off x = some m) (hw' : w'.pages = m)
    (hle : w.grabbed ≤ w'.grabbed) (hpage : c.page < w'.grabbed) : Touched start pages w' := by
  intro a ha
  by_cases hc : a = u32 (start + c.page)
  · exact ⟨c.page, hpage, hc⟩
  · rw [hw', store_page hm hc] at ha
    obtain ⟨p, hp, hap⟩ := h a ha
    exact ⟨p, Nat.lt_of_lt_of_le hp hle, hap⟩

theorem Writer.copyAll_spec {start : Nat} {pages : MetaPages} (xs : List Summary) :
    ∀ {c : Cursor} {w : Writer} {m : MetaPages}, WriterAt start c w →
      Touched start pages w →
      storeAll (fun p => u32 (start + p)) pageLimit w.pages c xs = some m →
      ∃ w', xs.foldlM Writer.copy w = some w' ∧ w'.pages = m ∧ Touched start pages w' := by
  induction xs with
  | nil =>
      intro c w m _ ht hm
      exact ⟨w, rfl, Option.some.inj hm, ht⟩
  | cons x xs ih =>
      intro c w m h ht hm
      rw [storeAll] at hm
      obtain ⟨m₁, hm₁, hrest⟩ := Option.bind_eq_some_iff.mp hm
      obtain ⟨w₁, hw₁, rfl, hat, hgrab⟩ := Writer.copy_spec h hm₁
      have hle := h.grabbed_le
      have ht₁ : Touched start pages w₁ := ht.store hm₁ rfl (by omega) (by omega)
      obtain ⟨w₂, hw₂, hm₂, ht₂⟩ := ih hat ht₁ hrest
      refine ⟨w₂, ?_, hm₂, ht₂⟩
      rw [List.foldlM_cons, hw₁]
      exact hw₂

/-! ## The entries of a log -/

/-- The entries a log contributes to the compacted pages. -/
def logRecords (ckpt : Ckpt) (seg : CursegInfo) (i : CursegType) : List Summary :=
  (List.ofFn seg.entries).take (sumCount (ckpt.allocType i) seg.pos.nextBlkoff)

theorem sumCount_le (mode : AllocMode) {blkoff : Nat} (h : blkoff ≤ blocksPerSeg) :
    sumCount mode blkoff ≤ blocksPerSeg := by
  cases mode
  · exact h
  · exact le_rfl

theorem length_logRecords (ckpt : Ckpt) {seg : CursegInfo} (i : CursegType)
    (h : seg.pos.nextBlkoff ≤ blocksPerSeg) :
    (logRecords ckpt seg i).length = sumCount (ckpt.allocType i) seg.pos.nextBlkoff := by
  rw [logRecords, List.length_take, List.length_ofFn, Nat.min_eq_left (sumCount_le _ h)]

theorem logRecords_getElem? {ckpt : Ckpt} {seg : CursegInfo} {i : CursegType} {j : Nat}
    (h : j < sumCount (ckpt.allocType i) seg.pos.nextBlkoff) :
    (logRecords ckpt seg i)[j]? = seg.entry j := by
  rw [logRecords, List.getElem?_take_of_lt h, CursegInfo.entry, List.getElem?_ofFn]

/-- The inner loop of the writer copies the first entries of the log in order. -/
theorem foldlM_entry (seg : CursegInfo) {n : Nat} (hn : n ≤ blocksPerSeg) (w : Writer) :
    ((List.range n).foldlM (fun w j => do
      let s ← seg.entry j
      w.copy s) w) = ((List.ofFn seg.entries).take n).foldlM Writer.copy w := by
  induction n with
  | zero => rfl
  | succ n ih =>
      have hget : (List.ofFn seg.entries)[n]? = some (seg.entries ⟨n, hn⟩) := by
        rw [List.getElem?_ofFn]
        exact dif_pos (Nat.lt_of_succ_le hn)
      rw [List.range_succ, List.foldlM_append, ih (by omega), List.take_add_one, hget,
        List.foldlM_append]
      simp [CursegInfo.entry, Nat.lt_of_succ_le hn]

theorem copyLogs_eq (ckpt : Ckpt) (logs : Logs) (ts : List CursegType) :
    ∀ w : Writer, ts.foldlM (Writer.copyLog ckpt logs.curseg) w =
      (ts.flatMap fun t => logRecords ckpt (logs.curseg t) t).foldlM Writer.copy w := by
  induction ts with
  | nil => intro w; rfl
  | cons t ts ih =>
      intro w
      rw [List.foldlM_cons, List.flatMap_cons, List.foldlM_append, Writer.copyLog,
        foldlM_entry _ (sumCount_le _ (logs.blkoff_le t))]
      refine congrArg _ (funext ih)

/-! ## The number of pages -/

/-- The writer stands where the one of `Checkpoint.Pack` does. -/
structure Tracks (w : Writer) (cw : CompactWriter) : Prop where
  blkaddr : w.blkaddr = cw.blkaddr
  page : w.page = cw.page.map Prod.fst
  writtenSize : w.writtenSize = cw.writtenSize
  grabbed : w.grabbed = cw.out.length + cw.page.toList.length

theorem Tracks.copy {w w' : Writer} {cw : CompactWriter} {s : Summary} (h : Tracks w cw)
    (hw : w.copy s = some w') (e : CursegType × Nat) : Tracks w' (compactStep cw e) := by
  obtain ⟨pages, blkaddr, page, written, grabbed⟩ := w
  obtain ⟨cblk, cpage, csize, cout⟩ := cw
  obtain ⟨h1, h2, h3, h4⟩ := h
  dsimp only at h1 h2 h3 h4
  subst h1 h2 h3 h4
  cases cpage with
  | none =>
      simp only [Writer.copy, Writer.grab, Option.map_none] at hw
      obtain ⟨m, -, hw⟩ := Option.bind_eq_some_iff.mp hw
      cases hw
      rw [compactStep_closed rfl]
      exact ⟨rfl, rfl, rfl, rfl⟩
  | some pg =>
      obtain ⟨addr, es⟩ := pg
      simp only [Writer.copy, Writer.grab, Option.map_some] at hw
      obtain ⟨m, -, hw⟩ := Option.bind_eq_some_iff.mp hw
      cases hw
      rw [compactStep_open rfl]
      simp only [summarySize, pageSize, sumFooterSize, Nat.add_assoc]
      by_cases hfit : written + 14 ≤ 4091
      · rw [if_pos hfit, if_pos hfit]
        exact ⟨rfl, rfl, rfl, rfl⟩
      · rw [if_neg hfit, if_neg hfit]
        exact ⟨rfl, rfl, rfl, by simp⟩

theorem Tracks.copyAll (xs : List Summary) : ∀ {es : List (CursegType × Nat)} {w w' : Writer}
    {cw : CompactWriter}, xs.length = es.length → Tracks w cw →
      xs.foldlM Writer.copy w = some w' → Tracks w' (es.foldl compactStep cw) := by
  induction xs with
  | nil =>
      intro es w w' cw hlen h hw
      rw [List.length_nil] at hlen
      rw [List.eq_nil_of_length_eq_zero hlen.symm]
      cases hw
      exact h
  | cons x xs ih =>
      intro es w w' cw hlen h hw
      cases es with
      | nil => cases hlen
      | cons e es =>
          obtain ⟨w₁, hw₁, hrest⟩ := Option.bind_eq_some_iff.mp hw
          rw [List.length_cons, List.length_cons] at hlen
          rw [List.foldl_cons]
          exact ih (Nat.succ.inj hlen) (h.copy hw₁ e) hrest

theorem Tracks.finish {w : Writer} {cw : CompactWriter} (h : Tracks w cw) :
    w.grabbed = cw.finish.length := by
  rw [h.grabbed, CompactWriter.finish]
  cases cw.page with
  | none => simp
  | some pg => simp

/-! ## The reader on the walk -/

/-- The reader's next entry is at `c`, whose page it has. -/
structure ReaderAt (start : Nat) (c : Cursor) (r : Reader) : Prop where
  page : r.page = u32 (start + c.page)
  start : r.start = u32 (start + c.page + 1)
  offset : r.offset = c.off

theorem ReaderAt.setLog {start : Nat} {c : Cursor} {r : Reader} (h : ReaderAt start c r)
    (i : CursegType) (seg : CursegInfo) : ReaderAt start c (r.setLog i seg) :=
  ⟨h.page, h.start, h.offset⟩

@[simp] theorem setLog_logs_self (r : Reader) (i : CursegType) (seg : CursegInfo) :
    (r.setLog i seg).logs i = seg := by
  simp [Reader.setLog]

@[simp] theorem setLog_page (r : Reader) (i : CursegType) (seg : CursegInfo) :
    (r.setLog i seg).page = r.page := rfl

@[simp] theorem setLog_start (r : Reader) (i : CursegType) (seg : CursegInfo) :
    (r.setLog i seg).start = r.start := rfl

@[simp] theorem setLog_offset (r : Reader) (i : CursegType) (seg : CursegInfo) :
    (r.setLog i seg).offset = r.offset := rfl

theorem setLog_logs_of_ne (r : Reader) {i t : CursegType} (seg : CursegInfo) (h : t ≠ i) :
    (r.setLog i seg).logs t = r.logs t := by
  simp [Reader.setLog, h]

/-- `seg'` is `seg` with the entries `xs` from `j` on. -/
structure Filled (j : Nat) (xs : List Summary) (seg seg' : CursegInfo) : Prop where
  pos : seg'.pos = seg.pos
  journal : seg'.journal = seg.journal
  before : ∀ k < j, seg'.entry k = seg.entry k
  filled : ∀ k, j ≤ k → k < j + xs.length → seg'.entry k = xs[k - j]?

theorem setEntry_spec (seg : CursegInfo) {j : Nat} (s : Summary) (hj : j < blocksPerSeg) :
    ∃ seg', seg.setEntry j s = some seg' ∧ Filled j [s] seg seg' := by
  unfold CursegInfo.setEntry
  rw [dif_pos hj]
  refine ⟨_, rfl, rfl, rfl, ?_, ?_⟩
  · intro k hk
    unfold CursegInfo.entry
    have hne : ∀ hkb : k < blocksPerSeg, (⟨k, hkb⟩ : Fin blocksPerSeg) ≠ ⟨j, hj⟩ :=
      fun _ heq => hk.ne (congrArg Fin.val heq)
    split_ifs with hkb
    · exact congrArg some (Function.update_of_ne (hne hkb) _ _)
    · rfl
  · intro k hk hlt
    have hkj : k = j := by
      rw [List.length_singleton] at hlt
      omega
    subst hkj
    rw [CursegInfo.entry, dif_pos hj, Nat.sub_self]
    exact congrArg some (Function.update_self _ _ _)

theorem Filled.trans {j : Nat} {s : Summary} {xs : List Summary} {a b c : CursegInfo}
    (h : Filled j [s] a b) (h' : Filled (j + 1) xs b c) : Filled j (s :: xs) a c where
  pos := h'.pos.trans h.pos
  journal := h'.journal.trans h.journal
  before k hk := (h'.before k (by omega)).trans (h.before k hk)
  filled k hk hlt := by
    rw [List.length_cons] at hlt
    rcases Nat.eq_or_lt_of_le hk with rfl | hk'
    · rw [h'.before j (Nat.lt_succ_self j), h.filled j le_rfl (by simp), Nat.sub_self]
      rfl
    · rw [h'.filled k hk' (by omega), show k - j = k - (j + 1) + 1 by omega]
      rfl

theorem Reader.copy_spec {start : Nat} {pages : MetaPages} {c : Cursor} {r : Reader}
    {i : CursegType} {s : Summary} {j : Nat} (h : ReaderAt start c r) (hj : j < blocksPerSeg)
    (hs : load summarySize pages (u32 (start + c.page)) c.off = some s) :
    ∃ r', r.copy pages i j = some r' ∧ ReaderAt start (nextPos c) r' ∧
      Filled j [s] (r.logs i) (r'.logs i) ∧ ∀ t, t ≠ i → r'.logs t = r.logs t := by
  obtain ⟨seg, hseg, hfill⟩ := setEntry_spec (r.logs i) s hj
  unfold Reader.copy
  rw [h.page, h.offset, hs]
  simp only [Option.bind_eq_bind, Option.bind_some, hseg, setLog_start, setLog_offset, h.offset,
    h.start]
  unfold nextPos Cursor.next
  split_ifs with hfit
  · exact ⟨_, rfl, ⟨h.page, rfl, rfl⟩, by simpa using hfill,
      fun t ht => setLog_logs_of_ne r seg ht⟩
  · exact ⟨_, rfl, ⟨rfl, u32_u32_add _ _, rfl⟩, by simpa using hfill,
      fun t ht => setLog_logs_of_ne r seg ht⟩

theorem Reader.copyAll_spec {start : Nat} {pages : MetaPages} {i : CursegType}
    (xs : List Summary) : ∀ {c : Cursor} {r : Reader} {j : Nat}, ReaderAt start c r →
      j + xs.length ≤ blocksPerSeg →
      loadAll (fun p => u32 (start + p)) summarySize pageLimit pages c xs.length = some xs →
      ∃ r', (List.range' j xs.length).foldlM (Reader.copy pages i) r = some r' ∧
        ReaderAt start (posAfter c xs.length) r' ∧ Filled j xs (r.logs i) (r'.logs i) ∧
        ∀ t, t ≠ i → r'.logs t = r.logs t := by
  induction xs with
  | nil =>
      intro c r j h _ _
      refine ⟨r, rfl, h, ⟨rfl, rfl, fun _ _ => rfl, fun k hk hlt => ?_⟩, fun _ _ => rfl⟩
      rw [List.length_nil] at hlt
      omega
  | cons x xs ih =>
      intro c r j h hj hload
      obtain ⟨hx, hxs⟩ := (loadAll_cons _).mp hload
      rw [List.length_cons] at hj
      obtain ⟨r₁, hr₁, hat₁, hfill₁, hother₁⟩ :=
        Reader.copy_spec (i := i) (j := j) h (by omega) hx
      obtain ⟨r₂, hr₂, hat₂, hfill₂, hother₂⟩ := ih (j := j + 1) hat₁ (by omega) hxs
      refine ⟨r₂, ?_, hat₂, hfill₁.trans hfill₂,
        fun t ht => (hother₂ t ht).trans (hother₁ t ht)⟩
      rw [List.length_cons, List.range'_succ, List.foldlM_cons, hr₁]
      exact hr₂

/-- What `seg` holds of the log `seg₀` that was written. -/
structure Restored (ckpt : Ckpt) (i : CursegType) (seg₀ seg : CursegInfo) : Prop where
  pos : seg.pos = ⟨ckpt.curSegno i, ckpt.curBlkoff i, ckpt.allocType i⟩
  entries : ∀ j < sumCount (ckpt.allocType i) (ckpt.curBlkoff i), seg.entry j = seg₀.entry j

theorem Reader.copyLog_spec {start : Nat} {pages : MetaPages} {ckpt : Ckpt} {logs : Logs}
    {i : CursegType} {c : Cursor} {r : Reader} (h : ReaderAt start c r)
    (hblk : ckpt.curBlkoff i = (logs.curseg i).pos.nextBlkoff)
    (hload : loadAll (fun p => u32 (start + p)) summarySize pageLimit pages c
      (logRecords ckpt (logs.curseg i) i).length = some (logRecords ckpt (logs.curseg i) i)) :
    ∃ r', r.copyLog ckpt pages i = some r' ∧
      ReaderAt start (posAfter c (logRecords ckpt (logs.curseg i) i).length) r' ∧
      Restored ckpt i (logs.curseg i) (r'.logs i) ∧
      (r'.logs i).journal = (r.logs i).journal ∧ ∀ t, t ≠ i → r'.logs t = r.logs t := by
  have hlen := length_logRecords ckpt i (logs.blkoff_le i)
  have hle := sumCount_le (ckpt.allocType i) (logs.blkoff_le i)
  obtain ⟨r', hr', hat, hfill, hother⟩ := Reader.copyAll_spec (i := i) (j := 0)
    (logRecords ckpt (logs.curseg i) i)
    (h.setLog i { r.logs i with pos := ⟨ckpt.curSegno i, ckpt.curBlkoff i, ckpt.allocType i⟩ })
    (by omega) hload
  refine ⟨r', ?_, hat, ⟨by simpa using hfill.pos, fun j hj => ?_⟩, by simpa using hfill.journal,
    fun t ht => (hother t ht).trans (setLog_logs_of_ne r _ ht)⟩
  · rw [Reader.copyLog, hblk, ← hlen, List.range_eq_range', ← hblk]
    exact hr'
  · rw [hblk] at hj
    rw [hfill.filled j (Nat.zero_le j) (by omega), Nat.sub_zero, logRecords_getElem? hj]

theorem Reader.copyLogs_spec {start : Nat} {pages : MetaPages} {ckpt : Ckpt} (logs : Logs)
    (hblk : ∀ t, ckpt.curBlkoff t = (logs.curseg t).pos.nextBlkoff) (ts : List CursegType) :
    ∀ {c : Cursor} {r : Reader}, ts.Nodup → ReaderAt start c r →
      loadAll (fun p => u32 (start + p)) summarySize pageLimit pages c
        (ts.flatMap fun t => logRecords ckpt (logs.curseg t) t).length =
          some (ts.flatMap fun t => logRecords ckpt (logs.curseg t) t) →
      ∃ r', ts.foldlM (Reader.copyLog ckpt pages) r = some r' ∧
        (∀ t ∈ ts, Restored ckpt t (logs.curseg t) (r'.logs t)) ∧
        (∀ t, (r'.logs t).journal = (r.logs t).journal) ∧
        ∀ t, t ∉ ts → r'.logs t = r.logs t := by
  induction ts with
  | nil =>
      intro c r _ _ _
      exact ⟨r, rfl, fun t ht => absurd ht List.not_mem_nil, fun _ => rfl, fun _ _ => rfl⟩
  | cons i ts ih =>
      intro c r hnd h hload
      obtain ⟨hi, hnd'⟩ := List.nodup_cons.mp hnd
      rw [List.flatMap_cons] at hload
      obtain ⟨hfirst, hrest⟩ := (loadAll_append _).mp hload
      obtain ⟨r₁, hr₁, hat₁, hres₁, hj₁, hother₁⟩ := Reader.copyLog_spec h (hblk i) hfirst
      obtain ⟨r₂, hr₂, hres₂, hj₂, hother₂⟩ := ih hnd' hat₁ hrest
      refine ⟨r₂, ?_, ?_, ?_, ?_⟩
      · rw [List.foldlM_cons, hr₁]
        exact hr₂
      · intro t ht
        rcases List.mem_cons.mp ht with rfl | ht
        · rw [hother₂ t hi]
          exact hres₁
        · exact hres₂ t ht
      · intro t
        rw [hj₂ t]
        by_cases hti : t = i
        · rw [hti, hj₁]
        · rw [hother₁ t hti]
      · intro t ht
        rw [List.mem_cons, not_or] at ht
        rw [hother₂ t ht.2, hother₁ t ht.1]

/-! ## The round trip -/

theorem u32_injOn (start : Nat) {k : Nat} (hk : k < 2 ^ 32) :
    Set.InjOn (fun p => u32 (start + p)) (Set.Iic k) := by
  intro p hp q hq heq
  exact u32_inj_of_lt (Nat.lt_of_le_of_lt hp hk) (Nat.lt_of_le_of_lt hq hk) heq

/-- All entries `write_compacted_summaries` copies. -/
def allRecords (ckpt : Ckpt) (logs : Logs) : List Summary :=
  CursegType.dataTypes.flatMap fun t => logRecords ckpt (logs.curseg t) t

theorem length_allRecords (ckpt : Ckpt) (logs : Logs) :
    (allRecords ckpt logs).length =
      validSumCount ckpt fun t => (logs.curseg t).pos.nextBlkoff := by
  simp only [allRecords, validSumCount, List.length_flatMap]
  refine congrArg List.sum (List.map_congr_left fun t _ => ?_)
  exact length_logRecords _ _ (logs.blkoff_le t)

theorem validSumCount_le (ckpt : Ckpt) (logs : Logs) :
    validSumCount ckpt (fun t => (logs.curseg t).pos.nextBlkoff) ≤ 3 * blocksPerSeg := by
  have h := fun t => sumCount_le (ckpt.allocType t) (logs.blkoff_le t)
  have h0 := h .hotData
  have h1 := h .warmData
  have h2 := h .coldData
  simp only [validSumCount, CursegType.dataTypes, List.map_cons, List.map_nil, List.sum_cons,
    List.sum_nil]
  omega

/-- What the writer leaves in the pages: the journals, and the entries along the walk. -/
theorem writeCompactedSummaries_spec (ckpt : Ckpt) (logs : Logs) (pages : MetaPages)
    (start : Nat) :
    ∃ w, writeCompactedSummaries ckpt logs.curseg pages start = some w ∧
      Touched start pages w ∧
      load sumJournalSize w.pages (u32 start) 0 = some (logs.curseg .hotData).journal ∧
      load sumJournalSize w.pages (u32 start) sumJournalSize =
        some (logs.curseg .coldData).journal ∧
      loadAll (fun p => u32 (start + p)) summarySize pageLimit w.pages firstPos
        (allRecords ckpt logs).length = some (allRecords ckpt logs) ∧
      ∀ {es : List (CursegType × Nat)}, es.length = (allRecords ckpt logs).length →
        w.grabbed = (es.foldl compactStep
          { blkaddr := u32 (start + 1), page := some (u32 start, []),
            writtenSize := 2 * sumJournalSize, out := [] }).finish.length := by
  obtain ⟨m₁, hm₁⟩ := store_isSome pages (u32 start)
    (logs.curseg .hotData).journal (show 0 + sumJournalSize ≤ pageSize by decide)
  obtain ⟨m₂, hm₂⟩ := store_isSome m₁ (u32 start)
    (logs.curseg .coldData).journal (show sumJournalSize + sumJournalSize ≤ pageSize by decide)
  have hlen : (allRecords ckpt logs).length ≤ 3 * blocksPerSeg :=
    (length_allRecords ckpt logs).le.trans (validSumCount_le ckpt logs)
  obtain ⟨m₃, hm₃, hload, hframe⟩ := loadAll_storeAll
    (fun p => u32 (start + p)) (show pageLimit ≤ pageSize by decide)
    (show summarySize ≤ pageLimit by decide) (allRecords ckpt logs) m₂ firstPos
    (show firstPos.off + summarySize ≤ pageLimit by decide)
    (u32_injOn start (by rw [show blocksPerSeg = 512 from rfl] at hlen
                         rw [show firstPos.page = 0 from rfl]; omega))
  have hat : WriterAt start firstPos (Writer.begin m₂ start) :=
    { opened := fun a ha => ⟨(Option.some.inj ha).symm, rfl, rfl, rfl⟩
      closed := fun h => by cases h }
  have htouched₀ : Touched start pages (Writer.begin m₂ start) := by
    intro a ha
    refine ⟨0, Nat.one_pos, ?_⟩
    by_contra hne
    exact ha ((store_page hm₂ hne).trans (store_page hm₁ hne))
  obtain ⟨w, hw, rfl, htouched⟩ := Writer.copyAll_spec (allRecords ckpt logs) hat htouched₀ hm₃
  refine ⟨w, ?_, htouched, ?_, ?_, hload, ?_⟩
  · unfold writeCompactedSummaries
    rw [hm₁]
    simp only [Option.bind_eq_bind, Option.bind_some, hm₂]
    rw [copyLogs_eq]
    exact hw
  · have h := hframe 0 sumJournalSize 0 le_rfl fun _ => by decide
    rw [Nat.add_zero] at h
    rw [h, load_store_other hm₂ (Or.inr (by decide))]
    exact load_store_same hm₁
  · have h := hframe 0 sumJournalSize sumJournalSize le_rfl fun _ => by decide
    rw [Nat.add_zero] at h
    rw [h]
    exact load_store_same hm₂
  · intro es hes
    exact (Tracks.copyAll (allRecords ckpt logs) hes.symm ⟨rfl, rfl, rfl, rfl⟩ hw).finish

/-- What the reader finds in pages that hold the journals and the entries. -/
theorem readCompactedSummaries_spec {ckpt : Ckpt} {logs : Logs} {pages : MetaPages}
    {start : Nat} {nat sit : Journal}
    (hblk : ∀ t, ckpt.curBlkoff t = (logs.curseg t).pos.nextBlkoff)
    (hnat : load sumJournalSize pages (u32 start) 0 = some nat)
    (hsit : load sumJournalSize pages (u32 start) sumJournalSize = some sit)
    (hload : loadAll (fun p => u32 (start + p)) summarySize pageLimit pages firstPos
      (allRecords ckpt logs).length = some (allRecords ckpt logs))
    (before : CursegType → CursegInfo) :
    ∃ r, readCompactedSummaries ckpt pages start before = some r ∧
      (r.logs .hotData).journal = nat ∧ (r.logs .coldData).journal = sit ∧
      ∀ t ∈ CursegType.dataTypes, Restored ckpt t (logs.curseg t) (r.logs t) := by
  have hat : ReaderAt start firstPos
      { ((Reader.mk (u32 (start + 1)) (u32 start) 0 before).setJournal .hotData nat).setJournal
          .coldData sit with offset := 2 * sumJournalSize } := ⟨rfl, rfl, rfl⟩
  obtain ⟨r, hr, hres, hjournal, -⟩ := Reader.copyLogs_spec logs hblk
    CursegType.dataTypes (by decide) hat hload
  refine ⟨r, ?_, ?_, ?_, hres⟩
  · unfold readCompactedSummaries
    simp only [Reader.setJournal, setLog_page, hnat, hsit, Option.bind_eq_bind, Option.bind_some]
    exact hr
  · rw [hjournal]
    simp [Reader.setJournal, Reader.setLog]
  · rw [hjournal]
    simp [Reader.setJournal, Reader.setLog]

/-- What `do_checkpoint` is called with, for logs that carry their summaries. -/
def cpInput (ckpt : Ckpt) (logs : Logs) (orphans : List Nat) (reason : CpReason)
    (needFsck : Bool) : CpInput where
  ckpt := ckpt
  logs t := (logs.curseg t).pos
  orphans := orphans
  reason := reason
  needFsck := needFsck

/-- A checkpoint that sets `CP_COMPACT_SUM_FLAG` writes the number of pages it reserved,
    and a mount reads the journals and the logs' entries back from them. -/
theorem compacted_roundTrip (sbi : SbInfo) (ckpt₀ : Ckpt) (logs : Logs) (orphans : List Nat)
    (reason : CpReason) (needFsck : Bool) (pages : MetaPages) (start : Nat)
    (before : CursegType → CursegInfo)
    (hflag : ((cpInput ckpt₀ logs orphans reason needFsck).filled sbi).flags.compactSum = true) :
    let c := cpInput ckpt₀ logs orphans reason needFsck
    let ckpt := c.filled sbi
    ∃ w r, writeCompactedSummaries ckpt logs.curseg pages start = some w ∧
      w.grabbed = npagesForSummaryFlush ckpt c.blkoff ∧
      (∀ a, w.pages a ≠ pages a → ∃ p < w.grabbed, a = u32 (start + p)) ∧
      readCompactedSummaries ckpt w.pages start before = some r ∧
      (r.logs .hotData).journal = (logs.curseg .hotData).journal ∧
      (r.logs .coldData).journal = (logs.curseg .coldData).journal ∧
      ∀ t ∈ CursegType.dataTypes, (r.logs t).pos = (logs.curseg t).pos ∧
        ∀ j : Fin blocksPerSeg,
          j < sumCount (logs.curseg t).pos.allocType (logs.curseg t).pos.nextBlkoff →
            (r.logs t).entries j = (logs.curseg t).entries j := by
  intro c ckpt
  obtain ⟨w, hw, htouched, hnat, hsit, hload, hgrab⟩ :=
    writeCompactedSummaries_spec ckpt logs pages start
  obtain ⟨r, hr, hrnat, hrsit, hres⟩ :=
    readCompactedSummaries_spec (fun t => (rfl : ckpt.curBlkoff t = _)) hnat hsit hload before
  refine ⟨w, r, hw, ?_, htouched, hr, hrnat, hrsit, fun t ht => ⟨(hres t ht).pos, ?_⟩⟩
  · have hpages : (Checkpoint.writeCompactedSummaries ckpt c.blkoff start).length =
        npagesForSummaryFlush ckpt c.blkoff := by
      obtain ⟨bs, hbs, hlen, -, -⟩ :=
        writeDataSummaries_eq (filled_compactSum sbi c) start
      rw [writeDataSummaries, if_pos hflag] at hbs
      rw [hbs, ← hlen, length_blocksAt]
    rw [hgrab ((length_compactEntries ckpt c.blkoff).trans (length_allRecords ckpt logs).symm)]
    exact hpages
  · intro j hj
    have h := (hres t ht).entries j hj
    rw [CursegInfo.entry, CursegInfo.entry, dif_pos j.isLt, dif_pos j.isLt] at h
    exact Option.some.inj h

/-- Logs before anything was read into them. -/
def emptyLogs (_ : CursegType) : CursegInfo where
  pos := ⟨0, 0, .LFS⟩
  journal _ := 0
  entries _ _ := 0

/-- A hot log that reuses a segment and a warm log with 300 blocks: two pages. -/
def twoPageLogs : Logs where
  curseg t :=
    { pos := ⟨0, if t = .warmData then 300 else 0, if t = .hotData then .SSR else .LFS⟩
      journal := fun _ => UInt8.ofNat t.idx
      entries := fun j _ => UInt8.ofNat j }
  blkoff_le t := by cases t <;> decide

theorem twoPageLogs_roundTrip :
    let ckpt := (cpInput {} twoPageLogs [] {} false).filled smallSbi
    ∃ w r, writeCompactedSummaries ckpt twoPageLogs.curseg (fun _ _ => 0) 513 = some w ∧
      w.grabbed = 2 ∧
      readCompactedSummaries ckpt w.pages 513 emptyLogs = some r ∧
      ∀ j, (r.logs .hotData).entries j = (twoPageLogs.curseg .hotData).entries j := by
  obtain ⟨w, r, hw, hgrab, -, hr, -, -, hlogs⟩ :=
    compacted_roundTrip smallSbi {} twoPageLogs [] {} false (fun _ _ => 0) 513 emptyLogs
      (by decide)
  exact ⟨w, r, hw, hgrab.trans (by decide), hr,
    fun j => (hlogs .hotData (by decide)).2 j j.isLt⟩

end F2fs.Checkpoint.CompactSum

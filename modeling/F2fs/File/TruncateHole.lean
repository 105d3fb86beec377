/-
  `truncate_hole`, and what `get_next_page_offset` skips.

  A lookup that ends with `-ENOENT` names the node that is missing.  The offset that
  `get_next_page_offset` returns is the first one behind `pgofs` whose path does not lead
  through that node.  `truncate_hole` goes from such offsets to the pages that are there,
  and clears what lies in them of `[pg_start, pg_end)`.

  The node pages are read again in each round; `reads` says which reads of a round fail.
-/
import F2fs.File.DnodeLookup
import F2fs.Lib.Loop
import F2fs.Truncate.Truncated

namespace F2fs.File

open F2fs.Node F2fs.Truncate
open Loop (Turn)

/-! ## `truncate_hole` -/

namespace MappedFile

/-- The file after `truncate_data_blocks_range`. -/
def truncateRange (file : MappedFile) (page : DataPage) (ofs count : Nat) : MappedFile where
  ino := file.ino
  layout := file.layout
  index := truncateDataBlocksRange file.layout file.index page ofs count
  inlineData := file.inlineData
  addr_lt := by
    intro page' j
    rw [(truncateDataBlocksRange_spec file.layout file.index page ofs count).2.2]
    split
    · exact Nat.two_pow_pos 32
    · exact file.addr_lt page' j
  reserved := by
    intro hinline
    obtain ⟨hapi, hnull⟩ := file.reserved hinline
    refine ⟨hapi, ?_⟩
    rw [(truncateDataBlocksRange_spec file.layout file.index page ofs count).2.2]
    split
    · rfl
    · exact hnull

end MappedFile

/-- The variables of the loop, with the number of the round. -/
structure HoleState where
  turn : Nat
  pgStart : Nat
  file : MappedFile

/-- One round of `truncate_hole`; it leaves with an error or none, and the file. -/
def truncateHoleRound (reads : Nat → NodeReads) (pgEnd : Nat) (st : HoleState) :
    Turn HoleState (Option Errno × MappedFile) :=
  if st.pgStart < pgEnd then
    match getDnodeOfData st.file (reads st.turn) st.pgStart with
    | .error e =>
      if e.err = .enoent then
        .next ⟨st.turn + 1, getNextPageOffset st.file.layout.addrsPerInode e st.pgStart, st.file⟩
      else .done (some e.err, st.file)
    | .ok (page, ofs) =>
      let endOffset := addrsPerPage st.file.layout page
      let count := min (endOffset - ofs) (pgEnd - st.pgStart)
      -- f2fs_bug_on
      if count = 0 ∨ count > endOffset then .done (some .bug, st.file)
      else .next ⟨st.turn + 1, st.pgStart + count, st.file.truncateRange page ofs count⟩
  else .done (none, st.file)

/-- `truncate_hole`. -/
def truncateHole (reads : Nat → NodeReads) (file : MappedFile) (pgStart pgEnd fuel : Nat) :
    Option (Option Errno × MappedFile) :=
  Loop.run (truncateHoleRound reads pgEnd) fuel ⟨0, pgStart, file⟩

/-! ## The blocks below a node -/

/-- The paths to the blocks `b` and `c` lead through the same node at depth `depth`. -/
def SharesNode (layout : InodeLayout) (b c depth : Nat) : Prop :=
  ∃ p p', getNodePath layout.addrsPerInode b = some p ∧
    getNodePath layout.addrsPerInode c = some p' ∧ depth ≤ p.level ∧ depth ≤ p'.level ∧
    ∀ i, i < depth → offsetOf p' i = offsetOf p i

section

variable {layout : InodeLayout} {p p' : NodePath} {k k' r r' o o' depth : Nat}

/-- Paths through one node are paths to direct nodes of one tree and one unit of it. -/
theorem unit_of_offsetOf_eq (hp : PathTo p k r o) (hp' : PathTo p' k' r' o') (hpos : 0 < depth)
    (hdepth : depth ≤ topLevel k + 1) (h : ∀ i, i < depth → offsetOf p' i = offsetOf p i) :
    k' = k ∧ r' / span (topLevel k + 1 - depth) = r / span (topLevel k + 1 - depth) := by
  have htop := h 0 hpos
  rw [hp.top, hp'.top, Nat.add_left_cancel_iff] at htop
  subst htop
  refine ⟨rfl, ?_⟩
  have hr := hp.r_lt
  have hr' := hp'.r_lt
  have hzero : span 0 = 1 := rfl
  have hone : span 1 = nidsPerBlock := Nat.pow_one _
  rcases (by omega : depth = 1 ∨ depth = 2 ∨ depth = 3 ∨ 3 < depth) with rfl | rfl | rfl | hlarge
  · rw [Nat.add_sub_cancel, Nat.div_eq_of_lt hr, Nat.div_eq_of_lt hr']
  · have h₁ := h 1 (by decide)
    rcases topLevel_cases k' with hl | hl | hl
    · omega
    · rw [hp.one hl, hp'.one hl] at h₁
      rw [h₁]
    · rw [(hp.two hl).1, (hp'.two hl).1] at h₁
      rw [hl, hone]
      exact h₁
  · have h₁ := h 1 (by decide)
    have h₂ := h 2 (by decide)
    rcases topLevel_cases k' with hl | hl | hl
    · omega
    · omega
    · rw [(hp.two hl).1, (hp'.two hl).1] at h₁
      rw [(hp.two hl).2, (hp'.two hl).2] at h₂
      have heq : r' = r := by
        rw [← Nat.div_add_mod r nidsPerBlock, ← Nat.div_add_mod r' nidsPerBlock, h₁, h₂]
      rw [heq]
  · rcases topLevel_cases k' with hl | hl | hl <;> omega

/-- The offset behind the skip does not lead through the missing node. -/
theorem not_sharesNode_next {b : Nat} {err : Errno}
    (h : getNodePath layout.addrsPerInode b = some p) (hpos : 0 < depth)
    (hdepth : depth ≤ p.level) :
    ¬SharesNode layout b (getNextPageOffset layout.addrsPerInode ⟨err, depth, p.level⟩ b)
      depth := by
  have hge : layout.addrsPerInode ≤ b := by
    by_contra hlt
    obtain ⟨q, hq, hlevel, -⟩ := getNodePath_inode (Nat.not_le.mp hlt)
    obtain rfl : q = p := Option.some.inj (hq.symm.trans h)
    omega
  have hmax := (getNodePath_some layout.api_le h).2.2
  obtain ⟨q, k, r, o, hq, hp, rfl⟩ := getNodePath_node hge hmax
  obtain rfl : q = p := Option.some.inj (hq.symm.trans h)
  rw [hp.level] at hdepth
  rw [hp.level, getNextPageOffset_blockOf hp.k_lt hp.o_lt hpos hdepth]
  generalize hd : topLevel k + 1 - depth = d
  rintro ⟨p₁, p', hp₁, hp', -, -, hofs⟩
  obtain rfl : q = p₁ := Option.some.inj (h.symm.trans hp₁)
  -- the offset is that of a direct node
  have hge' : layout.addrsPerInode ≤ blockOf layout k ((r / span d + 1) * span d) 0 := by
    unfold blockOf
    omega
  have hmax' := (getNodePath_some layout.api_le hp').2.2
  obtain ⟨q', k', r', o', hq', hpath', hb'⟩ := getNodePath_node hge' hmax'
  obtain rfl : q' = p' := Option.some.inj (hq'.symm.trans hp')
  obtain ⟨rfl, hunit⟩ := unit_of_offsetOf_eq hp hpath' hpos hdepth hofs
  have hr' : (r / span d + 1) * span d = r' := by
    have ho' := hpath'.o_lt
    generalize (r / span d + 1) * span d = n at hb'
    unfold blockOf addrsPerBlock at hb'
    unfold addrsPerBlock at ho'
    omega
  rw [hd, ← hr', Nat.mul_div_cancel _ (span_pos d)] at hunit
  omega

end

/-! ## What is skipped -/

section

variable {file : MappedFile} {read : NodeReads} {b : Nat}

/-- `get_next_page_offset` returns the first offset that is not below the missing node. -/
theorem getNextPageOffset_least {e : LookupError} (h : getDnodeOfData file read b = .error e)
    (he : e.err = .enoent) (hlt : b < 2 ^ 63)
    (hino : readNodePage file read file.ino ≠ .error .enoent) (hinline : file.inlineData = false) :
    ∃ p depth, getNodePath file.layout.addrsPerInode b = some p ∧ 0 < depth ∧ depth ≤ p.level ∧
      readNodePage file read (pathNid file.index (offsetOf p) (depth - 1)) = .error .enoent ∧
      IsLeast {c | b < c ∧ ¬SharesNode file.layout b c depth}
        (getNextPageOffset file.layout.addrsPerInode e b) := by
  have hahead := lt_getNextPageOffset h he hlt
  obtain ⟨p, hpath, ⟨-, hnone⟩ | ⟨-, hin, -⟩ | ⟨i, hi, rfl, hnode⟩⟩ := getDnodeOfData_enoent h he
  · exact absurd hnone hino
  · rw [hinline] at hin
    cases hin
  rw [toLong_of_lt hlt] at hpath
  refine ⟨p, i + 1, hpath, Nat.succ_pos i, hi, hnode, ?_, ?_⟩
  · exact ⟨hahead, not_sharesNode_next hpath (Nat.succ_pos i) hi⟩
  · intro c hc
    obtain ⟨hbc, hnot⟩ := hc
    by_contra hless
    obtain ⟨p', hp', hlevel, hofs, -⟩ := getNodePath_skipped hpath (Nat.succ_pos i) hi
      (Nat.le_of_lt hbc) (Nat.not_le.mp hless)
    exact hnot ⟨p, p', hpath, hp', hi, hlevel ▸ hi, hofs⟩

/-! ## The lookup of a truncation -/

theorem lookupError_err (err : Errno) (cur level : Nat) :
    (lookupError err cur level).err = err := by
  unfold lookupError
  split <;> rfl

theorem readPath_succ (file : MappedFile) (read : NodeReads) (offset : Nat → Nat)
    (level i : Nat) : readPath file read offset level (i + 1) =
      match readPath file read offset level i with
      | .error e => .error e
      | .ok _ =>
        match readNodePage file read (pathNid file.index offset i) with
        | .error e => .error (lookupError e (i + 1) level)
        | .ok _ => .ok () := rfl

theorem getPathPages_eq (file : MappedFile) (read : NodeReads) (offset : Nat → Nat) (level : Nat)
    (i : Nat) : getPathPages { node := read } file.index offset i =
      (readPath file read offset level (i + 1)).mapError (·.err) := by
  induction i with
  | zero =>
    rw [getPathPages, readPath, readPath, readNodePage]
    cases getNodePage { node := read } file.index (pathNid file.index offset 0) with
    | error e => simp only [Except.mapError, lookupError_err]
    | ok u => rfl
  | succ i ih =>
    rw [getPathPages, ih, readPath_succ file read offset level (i + 1)]
    cases readPath file read offset level (i + 1) with
    | error e => rfl
    | ok u =>
      simp only [Except.mapError, readNodePage]
      cases getNodePage { node := read } file.index (pathNid file.index offset (i + 1)) with
      | error e => simp only [lookupError_err]
      | ok u => rfl

/-- On a file without inline data whose inode is read, the lookup is that of
    `truncate_blocks`. -/
theorem getDnodeOfData_index (hino : readNodePage file read file.ino = .ok ())
    (hinline : file.inlineData = false) (b : Nat) :
    Truncate.getDnodeOfData file.layout { node := read } file.index b =
      (getDnodeOfData file read b).mapError (·.err) := by
  unfold getDnodeOfData Truncate.getDnodeOfData
  cases getNodePath file.layout.addrsPerInode (toLong b) with
  | none => rfl
  | some p =>
    have hno : ¬(file.inlineData = true ∧ b ≠ 0) := by simp [hinline]
    simp only [lookupPath, lookupPage, hino, if_neg hno, dnodeOfPath]
    by_cases h0 : p.level = 0
    · rw [if_pos h0, h0, readPath, if_pos rfl]
      rfl
    · obtain ⟨n, hn⟩ : ∃ n, p.level = n + 1 := ⟨p.level - 1, by omega⟩
      rw [if_neg h0, getPathPages_eq file read (offsetOf p) p.level, hn, Nat.add_sub_cancel]
      cases readPath file read (offsetOf p) (n + 1) (n + 1) with
      | error e => rfl
      | ok u => rfl

/-- The addresses of the two models are the same. -/
theorem blockAddr_index (hino : readNodePage file noFailure file.ino = .ok ())
    (hinline : file.inlineData = false) (b : Nat) :
    Truncate.blockAddr file.layout file.index b = file.blockAddr b := by
  have h := getDnodeOfData_index hino hinline b
  unfold Truncate.blockAddr MappedFile.blockAddr
  have henv : ({} : TruncEnv) = { node := noFailure } := rfl
  rw [henv, h]
  cases getDnodeOfData file noFailure b with
  | error e => rfl
  | ok r => rfl

theorem inode_of_found {r : DataPage × Nat} (h : getDnodeOfData file read b = .ok r) :
    readNodePage file read file.ino = .ok () := by
  rw [getDnodeOfData] at h
  cases hpath : getNodePath file.layout.addrsPerInode (toLong b) with
  | none =>
    rw [hpath] at h
    cases h
  | some p =>
    rw [hpath] at h
    simp only [lookupPath, lookupPage] at h
    split at h
    · cases h
    · assumption

/-- `get_dnode_of_data` fails with an error code. -/
theorem getDnodeOfData_ne_bug {e : LookupError} (h : getDnodeOfData file read b = .error e) :
    e.err ≠ .bug := by
  have hpage : ∀ {nid : Nat} {err : Errno}, readNodePage file read nid = .error err →
      err ≠ .bug := by
    intro nid err hread
    rcases getNodePage_error hread with ⟨rfl, -⟩ | ⟨r, rfl, -⟩ <;> exact Errno.noConfusion
  rw [getDnodeOfData] at h
  cases hpath : getNodePath file.layout.addrsPerInode (toLong b) with
  | none =>
    rw [hpath] at h
    cases h
    exact Errno.noConfusion
  | some p =>
    rw [hpath] at h
    simp only [lookupPath, lookupPage] at h
    split at h
    · rename_i hino
      cases h
      exact hpage hino
    split at h
    · cases h
      exact Errno.noConfusion
    split at h
    · rename_i hread
      cases h
      obtain ⟨i, err, -, rfl, hnode⟩ := readPath_error hread
      rw [lookupError_err]
      exact hpage hnode
    · split at h <;> cases h

end

/-! ## Rounds of `truncate_hole` -/

section

variable {file : MappedFile} {reads : Nat → NodeReads} {pgStart pgEnd : Nat}

/-- What a round keeps: of `[pgStart, pgEnd)` the blocks before the current one are cleared. -/
structure HoleInv (file : MappedFile) (pgStart pgEnd : Nat) (st : HoleState) : Prop where
  le : pgStart ≤ st.pgStart
  layout : st.file.layout = file.layout
  ino : st.file.ino = file.ino
  inlineData : st.file.inlineData = file.inlineData
  range : RangeFreed file.layout file.index st.file.index pgStart
    (min st.pgStart pgEnd - pgStart)

/-- The inode page is read as before. -/
theorem HoleInv.inode {st : HoleState} (h : HoleInv file pgStart pgEnd st) (read : NodeReads) :
    readNodePage st.file read st.file.ino = readNodePage file read file.ino := by
  have hnat : st.file.index.nat file.ino = file.index.nat file.ino := by
    rw [h.range.freed.nat, if_neg List.not_mem_nil]
  unfold readNodePage getNodePage
  rw [h.ino, hnat]

/-- A hole that is skipped. -/
theorem HoleInv.skip {st : HoleState} (h : HoleInv file pgStart pgEnd st)
    (hino : readNodePage file noFailure file.ino = .ok ()) (hinline : file.inlineData = false)
    (hpg : st.pgStart < pgEnd) (hend : pgEnd < 2 ^ 63) {e : LookupError}
    (hget : getDnodeOfData st.file (reads st.turn) st.pgStart = .error e) (he : e.err = .enoent) :
    HoleInv file pgStart pgEnd
      ⟨st.turn + 1, getNextPageOffset st.file.layout.addrsPerInode e st.pgStart, st.file⟩ := by
  have hahead := lt_getNextPageOffset hget he (by omega)
  have hholes := fun c => hole_before_next hget he (by omega : st.pgStart < 2 ^ 63) (c := c)
  generalize getNextPageOffset st.file.layout.addrsPerInode e st.pgStart = next at *
  have hle := h.le
  refine ⟨Nat.le_trans hle (Nat.le_of_lt hahead), h.layout, h.ino, h.inlineData, ?_⟩
  have hsplit : min next pgEnd - pgStart =
      min st.pgStart pgEnd - pgStart + (min next pgEnd - st.pgStart) := by
    omega
  have hstart : pgStart + (min st.pgStart pgEnd - pgStart) = st.pgStart := by
    omega
  simp only [hsplit]
  refine h.range.trans (RangeFreed.holes h.range.tree fun c hc hlt => ?_) (by omega)
  rw [hstart] at hc hlt
  rw [← h.layout, blockAddr_index ((h.inode noFailure).trans hino) (h.inlineData.trans hinline)]
  exact hholes c hc (by omega)

/-- What is cleared in the page that was found. -/
theorem HoleInv.clear {st : HoleState} (h : HoleInv file pgStart pgEnd st)
    (hinline : file.inlineData = false) (hpg : st.pgStart < pgEnd) (hend : pgEnd < 2 ^ 63)
    {page : DataPage} {ofs : Nat}
    (hget : getDnodeOfData st.file (reads st.turn) st.pgStart = .ok (page, ofs)) :
    let count := min (addrsPerPage st.file.layout page - ofs) (pgEnd - st.pgStart)
    HoleInv file pgStart pgEnd
      ⟨st.turn + 1, st.pgStart + count, st.file.truncateRange page ofs count⟩ := by
  intro count
  have hcount : count = min (addrsPerPage st.file.layout page - ofs) (pgEnd - st.pgStart) := rfl
  have hofs := ofs_lt_addrsPerPage hget (by omega)
  have hle := h.le
  refine ⟨Nat.le_add_right_of_le hle, h.layout, h.ino, h.inlineData, ?_⟩
  have hsplit : min (st.pgStart + count) pgEnd - pgStart =
      min st.pgStart pgEnd - pgStart + count := by
    omega
  have hstart : pgStart + (min st.pgStart pgEnd - pgStart) = st.pgStart := by
    omega
  have hfound := getDnodeOfData_index (inode_of_found hget) (h.inlineData.trans hinline) st.pgStart
  rw [hget] at hfound
  have hrange := rangeFreed_found h.range.tree (b := st.pgStart) (n := count) (by omega) hfound
    (by omega)
  rw [h.layout] at hrange
  rw [← hstart] at hrange
  simp only [hsplit]
  refine h.range.trans ?_ (by omega)
  show RangeFreed file.layout st.file.index
    (truncateDataBlocksRange st.file.layout st.file.index page ofs count) _ count
  rw [h.layout]
  exact hrange

/-- A round goes on with a block behind, or leaves. -/
theorem truncateHoleRound_cases (reads : Nat → NodeReads) {st : HoleState}
    (h : HoleInv file pgStart pgEnd st)
    (hino : readNodePage file noFailure file.ino = .ok ()) (hinline : file.inlineData = false)
    (hend : pgEnd < 2 ^ 63) :
    (∃ st', truncateHoleRound reads pgEnd st = .next st' ∧ HoleInv file pgStart pgEnd st' ∧
      pgEnd - st'.pgStart < pgEnd - st.pgStart) ∨
    ∃ err, truncateHoleRound reads pgEnd st = .done (err, st.file) ∧ err ≠ some .bug ∧
      (err = none → pgEnd ≤ st.pgStart) := by
  unfold truncateHoleRound
  by_cases hpg : st.pgStart < pgEnd
  swap
  · rw [if_neg hpg]
    exact Or.inr ⟨none, rfl, by simp, fun _ => Nat.not_lt.mp hpg⟩
  rw [if_pos hpg]
  cases hget : getDnodeOfData st.file (reads st.turn) st.pgStart with
  | error e =>
    by_cases he : e.err = .enoent
    · have hahead := lt_getNextPageOffset hget he (by omega)
      refine Or.inl ⟨_, if_pos he, h.skip hino hinline hpg hend hget he, ?_⟩
      simp only
      omega
    · refine Or.inr ⟨some e.err, if_neg he, fun hbug => ?_, fun hnone => by cases hnone⟩
      exact getDnodeOfData_ne_bug hget (Option.some.inj hbug)
  | ok r =>
    obtain ⟨page, ofs⟩ := r
    have hofs := ofs_lt_addrsPerPage hget (by omega)
    have hclear := h.clear hinline hpg hend hget
    refine Or.inl ⟨_, if_neg (by omega), hclear, ?_⟩
    simp only
    omega

/-- The addresses after a call. -/
theorem HoleInv.blockAddr {st : HoleState} (h : HoleInv file pgStart pgEnd st)
    (hino : readNodePage file noFailure file.ino = .ok ()) (hinline : file.inlineData = false)
    {c : Nat} (hc : c < 2 ^ 63) : st.file.blockAddr c =
      if pgStart ≤ c ∧ c < pgStart + (min st.pgStart pgEnd - pgStart) then nullAddr
      else file.blockAddr c := by
  rw [← blockAddr_index ((h.inode noFailure).trans hino) (h.inlineData.trans hinline),
    ← blockAddr_index hino hinline, h.layout]
  exact h.range.addr c hc

/-- What `truncate_hole` leaves: an initial part of the range is cleared, all of it if there
    was no error. -/
structure HolePunched (file : MappedFile) (pgStart pgEnd : Nat) (r : Option Errno × MappedFile) :
    Prop where
  no_bug : r.1 ≠ some .bug
  cleared : ∃ n, n ≤ pgEnd - pgStart ∧ (r.1 = none → n = pgEnd - pgStart) ∧
    RangeFreed file.layout file.index r.2.index pgStart n ∧
    ∀ c, c < 2 ^ 63 → r.2.blockAddr c =
      if pgStart ≤ c ∧ c < pgStart + n then nullAddr else file.blockAddr c

theorem truncateHole_punches (hino : readNodePage file noFailure file.ino = .ok ())
    (hinline : file.inlineData = false) (ht : IndexTree file.index) (hend : pgEnd < 2 ^ 63)
    {fuel : Nat} (hfuel : pgEnd - pgStart < fuel) :
    ∃ r, truncateHole reads file pgStart pgEnd fuel = some r ∧
      HolePunched file pgStart pgEnd r := by
  have hstart : HoleInv file pgStart pgEnd ⟨0, pgStart, file⟩ := by
    refine ⟨Nat.le_refl _, rfl, rfl, rfl, ?_⟩
    have hzero : min pgStart pgEnd - pgStart = 0 := by omega
    simp only [hzero]
    exact RangeFreed.none ht pgStart
  refine Loop.run_total (P := HoleInv file pgStart pgEnd) (m := fun st => pgEnd - st.pgStart)
    (fun st hst => ?_) hstart hfuel
  rcases truncateHoleRound_cases reads hst hino hinline hend with
    hnext | ⟨err, hdone, hbug, hall⟩
  · exact Or.inl hnext
  · refine Or.inr ⟨_, hdone, hbug, min st.pgStart pgEnd - pgStart, by omega, fun hnone => ?_,
      hst.range, fun c hc => hst.blockAddr hino hinline hc⟩
    have := hall hnone
    omega

end

/-- Skips are exact, and `truncate_hole` ends and punches what it is asked to. -/
theorem truncateHole_exact (file : MappedFile)
    (hino : readNodePage file noFailure file.ino = .ok ()) (hinline : file.inlineData = false) :
    (∀ (read : NodeReads) (b : Nat) (e : LookupError), b < 2 ^ 63 →
      getDnodeOfData file read b = .error e → e.err = .enoent →
      (∃ p depth, getNodePath file.layout.addrsPerInode b = some p ∧ 0 < depth ∧
        depth ≤ p.level ∧
        readNodePage file read (pathNid file.index (offsetOf p) (depth - 1)) = .error .enoent ∧
        IsLeast {c | b < c ∧ ¬SharesNode file.layout b c depth}
          (getNextPageOffset file.layout.addrsPerInode e b)) ∧
      ∀ c, b ≤ c → c < getNextPageOffset file.layout.addrsPerInode e b → file.Hole c) ∧
    ∀ (reads : Nat → NodeReads) (pgStart pgEnd fuel : Nat), IndexTree file.index →
      pgStart < pgEnd → pgEnd < 2 ^ 63 → pgEnd - pgStart < fuel →
      ∃ r, truncateHole reads file pgStart pgEnd fuel = some r ∧
        HolePunched file pgStart pgEnd r := by
  refine ⟨fun read b e hlt h he => ⟨?_, fun c hb hc => hole_before_next h he hlt hb hc⟩, ?_⟩
  · have hinode : readNodePage file read file.ino ≠ .error .enoent := by
      intro hnone
      rw [readNodePage_enoent hnone] at hino
      cases hino
    exact getNextPageOffset_least h he hlt hinode hinline
  · intro reads pgStart pgEnd fuel ht _ hend hfuel
    exact truncateHole_punches hino hinline ht hend hfuel

/-- Three blocks in the inode. -/
def threeBlocks : MappedFile :=
  smallFile (fun i => if i < 3 then 100 + i else 0) fun i => by
    split
    · omega
    · decide

/-- The middle one is punched, and the first missing direct node is skipped. -/
theorem threeBlocks_exact :
    (∃ r, truncateHole (fun _ => noFailure) threeBlocks 1 2 2 = some r ∧
      HolePunched threeBlocks 1 2 r) ∧
    ∀ c, 923 ≤ c → c < 1941 → threeBlocks.Hole c := by
  have hexact := truncateHole_exact threeBlocks (by decide) rfl
  have htree : IndexTree threeBlocks.index := ⟨by decide, by decide⟩
  have hget : getDnodeOfData threeBlocks noFailure 923 = .error ⟨.enoent, 1, 1⟩ := by
    rfl
  exact ⟨hexact.2 (fun _ => noFailure) 1 2 2 htree (by decide) (by decide) (by decide),
    (hexact.1 noFailure 923 _ (by decide) hget rfl).2⟩

end F2fs.File

/-
  `f2fs_map_blocks` on behalf of a reader (`create` = 0).

  The walk goes through the blocks of the request one by one and looks a direct node up
  when it has used the last one up; block `m_lblk + i` is the one at `m_pblk + i` as long
  as `i < m_len`.  `mapRest n` is the walk with `n` blocks of the request to go, so it ends
  at `end`.

  `f2fs_update_extent_cache_range` is recorded, not executed (`F2FS_GET_BLOCK_PRECACHE`).
  `F2FS_GET_BLOCK_PRE_DIO` and `F2FS_GET_BLOCK_PRE_AIO` come with `create` = 1 only.
-/
import F2fs.File.DnodeLookup
import F2fs.Extent.ExtentUpdate

namespace F2fs.File

open F2fs.Node F2fs.Truncate F2fs.Extent

/-! ## Arguments and result -/

/-- The flags of reading calls. -/
inductive GetBlock where
  | default | fiemap | bmap | precache
  deriving DecidableEq

/-- `m_flags`. -/
structure MapFlags where
  new : Bool := false
  mapped : Bool := false
  unwritten : Bool := false
  deriving DecidableEq

/-- `struct f2fs_map_blocks`; the two pointers with what they point to. -/
structure MapRequest where
  mPblk : Nat
  mLblk : Nat
  mLen : Nat
  mFlags : MapFlags
  mNextPgofs : Option Nat
  mNextExtent : Option Nat
  deriving DecidableEq

namespace MapRequest

/-- `*map->m_next_pgofs = pgofs`. -/
def setNextPgofs (map : MapRequest) (pgofs : Nat) : MapRequest :=
  { map with mNextPgofs := map.mNextPgofs.map fun _ => pgofs }

/-- `*map->m_next_extent = pgofs`. -/
def setNextExtent (map : MapRequest) (pgofs : Nat) : MapRequest :=
  { map with mNextExtent := map.mNextExtent.map fun _ => pgofs }

end MapRequest

/-- What `f2fs_map_blocks` returns, and the ranges it puts into the extent cache. -/
structure MapResult where
  map : MapRequest
  err : Option Errno
  updates : List (Nat × Nat × Nat)

/-- The local variables of the walk; `page` and `ofsInNode` are those of `dn`, which has no
    page before the first lookup. -/
structure MapWalk where
  map : MapRequest
  pgofs : Nat
  startPgofs : Nat
  ofs : Nat
  page : Option DataPage
  ofsInNode : Nat
  updates : List (Nat × Nat × Nat)

/-! ## The walk -/

section

variable (file : MappedFile) (read : Nat → NodeReads) (flag : GetBlock)

/-- `f2fs_update_extent_cache_range` of what the direct node has added to the run. -/
def precacheRange (st : MapWalk) : MapWalk :=
  if flag = .precache ∧ st.map.mFlags.mapped = true then
    let ofs := u32Sub st.startPgofs st.map.mLblk
    { st with updates :=
        st.updates ++ [(st.startPgofs, u32 (st.map.mPblk + ofs), u32Sub st.map.mLen ofs)] }
  else st

/-- `sync_out`. -/
def syncOut (st : MapWalk) : MapResult :=
  let st := precacheRange flag st
  let map := if flag = .precache then st.map.setNextExtent (st.pgofs + 1) else st.map
  ⟨map, none, st.updates⟩

/-- The way out after a lookup that failed. -/
def lookupFailed (st : MapWalk) (dn : LookupError) : MapResult :=
  let map := if flag = .bmap then { st.map with mPblk := 0 } else st.map
  if dn.err = .enoent then
    let next := getNextPageOffset file.layout.addrsPerInode dn st.pgofs
    ⟨(map.setNextPgofs next).setNextExtent next, none, st.updates⟩
  else ⟨map, some dn.err, st.updates⟩

/-- The direct node that `get_dnode_of_data` has found. -/
def enterDnode (st : MapWalk) :
    Except LookupError (DataPage × Nat) → MapWalk × Except LookupError DataPage
  | .error dn => (st, .error dn)
  | .ok (page, ofsInNode) =>
    ({ st with page := some page, ofsInNode := ofsInNode, startPgofs := u32 st.pgofs }, .ok page)

/-- Where the walk goes on: in the direct node it is in, or from `next_dnode`. -/
def nextDnode (st : MapWalk) : MapWalk × Except LookupError DataPage :=
  match st.page.filter fun page => st.ofsInNode < addrsPerPage file.layout page with
  | some page => (st, .ok page)
  | none =>
    let st := if st.page.isSome then precacheRange flag st else st
    enterDnode st (getDnodeOfData file (read st.pgofs) st.pgofs)

/-- What the walk makes of the address of a block; `false` is `sync_out`. -/
def mapBlock (st : MapWalk) (blkaddr : Nat) : MapWalk × Bool :=
  if (blkaddr = newAddr ∨ blkaddr = nullAddr) ∧ flag = .bmap then
    ({ st with map := { st.map with mPblk := 0 } }, false)
  else if (blkaddr = newAddr ∨ blkaddr = nullAddr) ∧ flag = .precache then (st, false)
  -- a preallocated block goes on for fiemap only
  else if (blkaddr = newAddr ∨ blkaddr = nullAddr) ∧ (flag ≠ .fiemap ∨ blkaddr = nullAddr) then
    ({ st with map := st.map.setNextPgofs (st.pgofs + 1) }, false)
  else if st.map.mLen = 0 then
    ({ st with map := { st.map with
        mFlags := { st.map.mFlags with
          mapped := true, unwritten := st.map.mFlags.unwritten || decide (blkaddr = newAddr) }
        mPblk := blkaddr
        mLen := 1 } }, true)
  else if (st.map.mPblk ≠ newAddr ∧ blkaddr = u32 (st.map.mPblk + st.ofs)) ∨
      (st.map.mPblk = newAddr ∧ blkaddr = newAddr) then
    ({ st with map := { st.map with mLen := st.map.mLen + 1 }, ofs := st.ofs + 1 }, true)
  else (st, false)

/-- `skip`. -/
def skipBlock (st : MapWalk) : MapWalk :=
  { st with ofsInNode := st.ofsInNode + 1, pgofs := st.pgofs + 1 }

/-- The walk with `n` blocks to go. -/
def mapRest : Nat → MapWalk → MapResult
  | 0, st => syncOut flag st
  | n + 1, st =>
    match nextDnode file read flag st with
    | (st, .error dn) => lookupFailed file flag st dn
    | (st, .ok page) =>
      match mapBlock flag st (dataAddr file.layout file.index page st.ofsInNode) with
      | (st, false) => syncOut flag st
      | (st, true) => mapRest n (skipBlock st)

/-- The part of `f2fs_map_blocks` behind the extent cache. -/
def mapDnodes (map : MapRequest) (maxblocks : Nat) : MapResult :=
  mapRest file read flag maxblocks
    { map := map
      pgofs := map.mLblk
      startPgofs := map.mLblk
      ofs := 1
      page := none
      ofsInNode := 0
      updates := [] }

/-- The answer of the extent cache. -/
def mapExtent (map : MapRequest) (maxblocks : Nat) (ei : ExtentInfo) : MapResult :=
  let pgofs := map.mLblk
  let mLen := min maxblocks (ei.fofs + ei.len - pgofs)
  let map := { map with
    mPblk := u32 (ei.blk + pgofs - ei.fofs)
    mLen := mLen
    mFlags := { mapped := true } }
  ⟨map.setNextExtent (pgofs + mLen), none, []⟩

/-- `f2fs_lookup_extent_cache`; `mayExtentTree` is `f2fs_may_extent_tree`. -/
def lookupExtentCache (mayExtentTree : Bool) (w : LockedTree) (pgofs : Nat) :
    LockedTree × Option ExtentInfo :=
  if mayExtentTree then lookupExtentTree w pgofs else (w, none)

/-- `f2fs_map_blocks` with `create` = 0. -/
def f2fsMapBlocks (mayExtentTree : Bool) (w : LockedTree) (map : MapRequest) :
    MapResult × LockedTree :=
  let maxblocks := map.mLen
  if maxblocks = 0 then (⟨map, none, []⟩, w)
  else
    let map := { map with mLen := 0, mFlags := {} }
    match lookupExtentCache mayExtentTree w map.mLblk with
    | (w, some ei) => (mapExtent map maxblocks ei, w)
    | (w, none) => (mapDnodes file read flag map maxblocks, w)

end

/-! ## What is preserved -/

/-- What `n` blocks before the end is known of the blocks that the walk has seen. -/
structure Walked (file : MappedFile) (map : MapRequest) (n : Nat) (st : MapWalk) : Prop where
  lblk : st.map.mLblk = map.mLblk
  pgofs : st.pgofs = map.mLblk + st.map.mLen
  left : st.map.mLen + n = map.mLen
  ofs : st.ofs = max 1 st.map.mLen
  flags : st.map.mFlags.mapped = decide (0 < st.map.mLen)
  stored : ∀ i, i < st.map.mLen → file.StoredAt (map.mLblk + i) (st.map.mPblk + i)
  next : st.map.mNextPgofs = map.mNextPgofs

/-- The page of the walk holds the addresses of the blocks to come. -/
def InPage (file : MappedFile) (st : MapWalk) (page : DataPage) : Prop :=
  ∀ j, st.ofsInNode + j < addrsPerPage file.layout page →
    file.blockAddr (st.pgofs + j) = dataAddr file.layout file.index page (st.ofsInNode + j)

/-- The result of a walk. -/
structure WalkResult (file : MappedFile) (read : Nat → NodeReads) (map : MapRequest)
    (r : MapResult) : Prop where
  len_le : r.map.mLen ≤ map.mLen
  flags : r.map.mFlags.mapped = decide (0 < r.map.mLen)
  stored : ∀ i, i < r.map.mLen → file.StoredAt (map.mLblk + i) (r.map.mPblk + i)
  /-- the walk does not stop before it has to -/
  maximal : (∀ b, read b = noFailure) → r.map.mLen < map.mLen →
    ∀ a, file.StoredAt (map.mLblk + r.map.mLen) a →
      0 < r.map.mLen ∧ a ≠ r.map.mPblk + r.map.mLen
  skipped : r.map.mLen = 0 → 0 < map.mLen → r.err = none →
    ∃ s, r.map.mNextPgofs = map.mNextPgofs.map (fun _ => s) ∧ map.mLblk < s ∧
      ∀ b, map.mLblk ≤ b → b < s →
        file.Hole b ∨ b = map.mLblk ∧ file.blockAddr b = newAddr
  failed : r.err ≠ none → r.map.mNextPgofs = map.mNextPgofs

section

variable {file : MappedFile} {read : Nat → NodeReads} {map : MapRequest} {n : Nat}
  {st st' : MapWalk} {page : DataPage}

theorem precacheRange_default (st : MapWalk) : precacheRange .default st = st :=
  if_neg fun h => by cases h.1

theorem Walked.len_le (h : Walked file map n st) : st.map.mLen ≤ map.mLen := by
  have hl := h.left
  omega

theorem Walked.pgofs_lt (h : Walked file map (n + 1) st) (hlblk : map.mLblk < 2 ^ 32)
    (hlen : map.mLen < 2 ^ 32) : st.pgofs < 2 ^ 63 := by
  have hp := h.pgofs
  have hl := h.left
  omega

@[simp] theorem precacheRange_map (flag : GetBlock) (st : MapWalk) :
    (precacheRange flag st).map = st.map := by
  unfold precacheRange
  split <;> rfl

@[simp] theorem precacheRange_pgofs (flag : GetBlock) (st : MapWalk) :
    (precacheRange flag st).pgofs = st.pgofs := by
  unfold precacheRange
  split <;> rfl

@[simp] theorem precacheRange_ofs (flag : GetBlock) (st : MapWalk) :
    (precacheRange flag st).ofs = st.ofs := by
  unfold precacheRange
  split <;> rfl

/-- What the walk takes along from the direct node it has used up. -/
def leaveDnode (flag : GetBlock) (st : MapWalk) : MapWalk :=
  if st.page.isSome then precacheRange flag st else st

@[simp] theorem leaveDnode_map (flag : GetBlock) (st : MapWalk) :
    (leaveDnode flag st).map = st.map := by
  unfold leaveDnode
  split
  · exact precacheRange_map flag st
  · rfl

@[simp] theorem leaveDnode_pgofs (flag : GetBlock) (st : MapWalk) :
    (leaveDnode flag st).pgofs = st.pgofs := by
  unfold leaveDnode
  split
  · exact precacheRange_pgofs flag st
  · rfl

@[simp] theorem leaveDnode_ofs (flag : GetBlock) (st : MapWalk) :
    (leaveDnode flag st).ofs = st.ofs := by
  unfold leaveDnode
  split
  · exact precacheRange_ofs flag st
  · rfl

theorem leaveDnode_default (st : MapWalk) : leaveDnode .default st = st := by
  unfold leaveDnode
  rw [precacheRange_default, ite_self]

/-- The walk stays in its direct node, or has used it up. -/
theorem nextDnode_cases (file : MappedFile) (read : Nat → NodeReads) (flag : GetBlock)
    (st : MapWalk) :
    (∃ page, st.page = some page ∧ st.ofsInNode < addrsPerPage file.layout page ∧
      nextDnode file read flag st = (st, .ok page)) ∨
    ((∀ page, st.page = some page → addrsPerPage file.layout page ≤ st.ofsInNode) ∧
      nextDnode file read flag st =
        enterDnode (leaveDnode flag st) (getDnodeOfData file (read st.pgofs) st.pgofs)) := by
  rw [nextDnode]
  cases hfilter : st.page.filter fun page => st.ofsInNode < addrsPerPage file.layout page with
  | some page =>
    obtain ⟨hsome, hlt⟩ := Option.filter_eq_some_iff.mp hfilter
    exact Or.inl ⟨page, hsome, of_decide_eq_true hlt, rfl⟩
  | none =>
    refine Or.inr ⟨fun page hsome => ?_, ?_⟩
    · have hge := Option.filter_eq_none_iff.mp hfilter page hsome
      exact Nat.not_lt.mp fun hlt => hge (decide_eq_true hlt)
    · show enterDnode (leaveDnode flag st) (getDnodeOfData file
        (read (leaveDnode flag st).pgofs) (leaveDnode flag st).pgofs) = _
      rw [leaveDnode_pgofs]

/-- A lookup that succeeds leaves the walk where it was, with a page in which its next block
    is. -/
theorem nextDnode_ok {flag : GetBlock} (hlt : st.pgofs < 2 ^ 63)
    (hpage : ∀ page, st.page = some page → InPage file st page)
    (hnext : nextDnode file read flag st = (st', .ok page)) :
    st'.map = st.map ∧ st'.pgofs = st.pgofs ∧ st'.ofs = st.ofs ∧ st'.page = some page ∧
      file.blockAddr st'.pgofs = dataAddr file.layout file.index page st'.ofsInNode ∧
      (file.inlineData = false → InPage file st' page) := by
  rcases nextDnode_cases file read flag st with ⟨page', hsome, hofs, heq⟩ | ⟨-, heq⟩
  · rw [heq] at hnext
    cases hnext
    have hin := hpage page hsome
    exact ⟨rfl, rfl, rfl, hsome, hin 0 hofs, fun _ => hin⟩
  · rw [heq] at hnext
    cases hget : getDnodeOfData file (read st.pgofs) st.pgofs with
    | error dn =>
      rw [hget] at hnext
      cases hnext
    | ok r =>
      rw [hget] at hnext
      cases hnext
      refine ⟨leaveDnode_map flag st, leaveDnode_pgofs flag st, leaveDnode_ofs flag st, rfl, ?_,
        fun hinline j hj => ?_⟩
      · rw [leaveDnode_pgofs]
        exact blockAddr_of_ok hget
      · show file.blockAddr ((leaveDnode flag st).pgofs + j) = _
        rw [leaveDnode_pgofs]
        exact blockAddr_in_page hget hinline hlt hj

theorem nextDnode_error {flag : GetBlock} {dn : LookupError}
    (hnext : nextDnode file read flag st = (st', .error dn)) :
    st' = leaveDnode flag st ∧ getDnodeOfData file (read st.pgofs) st.pgofs = .error dn := by
  rcases nextDnode_cases file read flag st with ⟨page', -, -, heq⟩ | ⟨-, heq⟩
  · rw [heq] at hnext
    cases hnext
  · rw [heq] at hnext
    cases hget : getDnodeOfData file (read st.pgofs) st.pgofs with
    | error dn' =>
      rw [hget] at hnext
      cases hnext
      exact ⟨rfl, rfl⟩
    | ok r =>
      rw [hget] at hnext
      cases hnext

/-- What is known of the blocks that were seen does not depend on the page. -/
theorem Walked.congr (h : Walked file map n st) (hmap : st'.map = st.map)
    (hpgofs : st'.pgofs = st.pgofs) (hofs : st'.ofs = st.ofs) : Walked file map n st' := by
  obtain ⟨hlblk, hp, hleft, ho, hflags, hstored, hnext⟩ := h
  rw [← hmap] at hlblk hp hleft ho hflags hstored hnext
  exact ⟨hlblk, hpgofs ▸ hp, hleft, hofs ▸ ho, hflags, hstored, hnext⟩

/-- The address of a block changes nothing but the run. -/
theorem mapBlock_keeps (flag : GetBlock) (st : MapWalk) (a : Nat) :
    (mapBlock flag st a).1.page = st.page ∧ (mapBlock flag st a).1.pgofs = st.pgofs ∧
      (mapBlock flag st a).1.ofsInNode = st.ofsInNode ∧
      (mapBlock flag st a).1.startPgofs = st.startPgofs ∧
      (mapBlock flag st a).1.updates = st.updates := by
  unfold mapBlock
  split_ifs <;> exact ⟨rfl, rfl, rfl, rfl, rfl⟩

/-- What the walk makes of the address of a stored block. -/
theorem mapBlock_stored (flag : GetBlock) (st : MapWalk) {a : Nat} (hnew : a ≠ newAddr)
    (hnull : a ≠ nullAddr) :
    (st.map.mLen = 0 ∧ mapBlock flag st a = ({ st with map := { st.map with
        mFlags := { st.map.mFlags with mapped := true }, mPblk := a, mLen := 1 } }, true)) ∨
    (0 < st.map.mLen ∧ a = u32 (st.map.mPblk + st.ofs) ∧ st.map.mPblk ≠ newAddr ∧
      mapBlock flag st a =
        ({ st with map := { st.map with mLen := st.map.mLen + 1 }, ofs := st.ofs + 1 }, true)) ∨
    (0 < st.map.mLen ∧ (st.map.mPblk = newAddr ∨ a ≠ u32 (st.map.mPblk + st.ofs)) ∧
      mapBlock flag st a = (st, false)) := by
  have hhole : ¬(a = newAddr ∨ a = nullAddr) := not_or.mpr ⟨hnew, hnull⟩
  rcases Nat.eq_zero_or_pos st.map.mLen with h0 | hpos
  · refine Or.inl ⟨h0, ?_⟩
    simp [mapBlock, hnew, hnull, h0]
  · have h0 : st.map.mLen ≠ 0 := Nat.pos_iff_ne_zero.mp hpos
    by_cases hrun : st.map.mPblk ≠ newAddr ∧ a = u32 (st.map.mPblk + st.ofs)
    · refine Or.inr (Or.inl ⟨hpos, hrun.2, hrun.1, ?_⟩)
      simp only [mapBlock, hhole, false_and, if_false, if_neg h0, if_pos (Or.inl hrun)]
    · refine Or.inr (Or.inr ⟨hpos, ?_, ?_⟩)
      · exact (not_and_or.mp hrun).imp_left not_not.mp
      · have hstop : ¬((st.map.mPblk ≠ newAddr ∧ a = u32 (st.map.mPblk + st.ofs)) ∨
            st.map.mPblk = newAddr ∧ a = newAddr) := by
          rintro (hc | hc)
          · exact hrun hc
          · exact hnew hc.2
        simp only [mapBlock, hhole, false_and, if_false, if_neg h0, if_neg hstop]

theorem mapBlock_hole {a : Nat} (st : MapWalk) (h : a = newAddr ∨ a = nullAddr) :
    mapBlock .default st a = ({ st with map := st.map.setNextPgofs (st.pgofs + 1) }, false) := by
  simp only [mapBlock, reduceCtorEq, and_false, if_false, ne_eq, not_false_eq_true, true_or,
    and_true, if_pos h]

theorem syncOut_default (st : MapWalk) : syncOut .default st = ⟨st.map, none, st.updates⟩ := by
  simp only [syncOut, precacheRange_default]
  rfl

/-- A run does not reach the reserved address, so the next address in it does not wrap. -/
theorem Walked.run_lt (h : Walked file map n st) (hpos : 0 < st.map.mLen) :
    st.map.mPblk ≠ newAddr ∧ u32 (st.map.mPblk + st.ofs) = st.map.mPblk + st.map.mLen := by
  obtain ⟨-, -, hfirst⟩ := h.stored 0 hpos
  obtain ⟨haddr, -, hlast⟩ := h.stored (st.map.mLen - 1) (Nat.sub_lt hpos Nat.one_pos)
  have hlt := blockAddr_lt file (map.mLblk + (st.map.mLen - 1))
  rw [haddr] at hlt
  unfold newAddr at hlast
  refine ⟨hfirst, ?_⟩
  rw [h.ofs, Nat.max_eq_right hpos]
  exact u32_of_lt (by omega)

/-- The next block. -/
theorem skipBlock_mapBlock {flag : GetBlock} {a : Nat} {goOn : Bool}
    (hblock : mapBlock flag st a = (st', goOn)) :
    (skipBlock st').page = st.page ∧ (skipBlock st').pgofs = st.pgofs + 1 ∧
      (skipBlock st').ofsInNode = st.ofsInNode + 1 := by
  obtain ⟨hpage, hpgofs, hofs, -, -⟩ := mapBlock_keeps flag st a
  rw [hblock] at hpage hpgofs hofs
  exact ⟨hpage, congrArg (· + 1) hpgofs, congrArg (· + 1) hofs⟩

/-- A file with inline data has no addresses. -/
theorem inlineData_of_address {b a : Nat} (ha : file.blockAddr b = a) (hnull : a ≠ nullAddr) :
    file.inlineData = false := by
  by_contra hc
  rw [← ha] at hnull
  exact hnull (blockAddr_inlineData (Bool.not_eq_false _ ▸ hc) b)

/-- The page of the walk holds the addresses of the blocks behind the next one, too. -/
theorem inPage_next {flag : GetBlock} {a : Nat} {goOn : Bool}
    (hblock : mapBlock flag st a = (st', goOn)) (hin : InPage file st page) :
    InPage file (skipBlock st') page := by
  obtain ⟨-, hpgofs, hofs⟩ := skipBlock_mapBlock hblock
  intro j hj
  rw [hofs] at hj ⊢
  rw [hpgofs]
  have hshift : st.pgofs + 1 + j = st.pgofs + (j + 1) := by omega
  have hshift' : st.ofsInNode + 1 + j = st.ofsInNode + (j + 1) := by omega
  rw [hshift'] at hj ⊢
  rw [hshift]
  exact hin (j + 1) hj

/-- A stored block that the walk takes in. -/
theorem Walked.extend {flag : GetBlock} {a : Nat} (h : Walked file map (n + 1) st)
    (ha : file.blockAddr st.pgofs = a) (hnew : a ≠ newAddr) (hnull : a ≠ nullAddr)
    (hblock : mapBlock flag st a = (st', true)) : Walked file map n (skipBlock st') := by
  have hleft := h.left
  have hpgofs := h.pgofs
  rcases mapBlock_stored flag st hnew hnull with ⟨h0, heq⟩ | ⟨hpos, hrun, -, heq⟩ | ⟨-, -, heq⟩
  · rw [heq] at hblock
    cases hblock
    rw [h0, Nat.add_zero] at hpgofs
    refine ⟨h.lblk, ?_, ?_, ?_, rfl, fun i hi => ?_, h.next⟩
    · exact congrArg (· + 1) hpgofs
    · show 1 + n = map.mLen
      omega
    · exact h.ofs.trans (by rw [h0]; rfl)
    · obtain rfl : i = 0 := Nat.lt_one_iff.mp hi
      rw [hpgofs] at ha
      exact ⟨ha, hnull, hnew⟩
  · rw [heq] at hblock
    cases hblock
    obtain ⟨-, hnowrap⟩ := h.run_lt hpos
    rw [hnowrap] at hrun
    refine ⟨h.lblk, ?_, ?_, ?_, ?_, fun i hi => ?_, h.next⟩
    · show st.pgofs + 1 = map.mLblk + (st.map.mLen + 1)
      omega
    · show st.map.mLen + 1 + n = map.mLen
      omega
    · have hofs := h.ofs
      show st.ofs + 1 = max 1 (st.map.mLen + 1)
      omega
    · show st.map.mFlags.mapped = decide (0 < st.map.mLen + 1)
      rw [h.flags, decide_eq_true hpos, decide_eq_true (Nat.succ_pos _)]
    · rcases Nat.lt_succ_iff_lt_or_eq.mp hi with hlt | rfl
      · exact h.stored i hlt
      · rw [hpgofs] at ha
        exact ⟨ha.trans hrun, hrun ▸ hnull, hrun ▸ hnew⟩
  · rw [heq] at hblock
    cases hblock

/-- A stored block at which the run breaks off. -/
theorem Walked.breaks {flag : GetBlock} {a : Nat} (h : Walked file map (n + 1) st)
    (hnew : a ≠ newAddr) (hnull : a ≠ nullAddr) (hblock : mapBlock flag st a = (st', false)) :
    st' = st ∧ 0 < st.map.mLen ∧ a ≠ st.map.mPblk + st.map.mLen := by
  rcases mapBlock_stored flag st hnew hnull with ⟨-, heq⟩ | ⟨-, -, -, heq⟩ | ⟨hpos, hrun, heq⟩
  · rw [heq] at hblock
    cases hblock
  · rw [heq] at hblock
    cases hblock
  · rw [heq] at hblock
    cases hblock
    obtain ⟨hfirst, hnowrap⟩ := h.run_lt hpos
    rw [← hnowrap]
    exact ⟨rfl, hpos, hrun.resolve_left hfirst⟩

/-- The walk stops at a block that it does not take in. -/
theorem Walked.stop {a : Nat} (h : Walked file map (n + 1) st) (ha : file.blockAddr st.pgofs = a)
    (hblock : mapBlock .default st a = (st', false)) :
    WalkResult file read map (syncOut .default st') := by
  have hleft := h.left
  have hpgofs := h.pgofs
  rw [syncOut_default]
  by_cases hhole : a = newAddr ∨ a = nullAddr
  · rw [mapBlock_hole st hhole] at hblock
    cases hblock
    refine ⟨h.len_le, h.flags, h.stored, fun _ _ a' ha' => ?_,
      fun h0 _ _ => ⟨st.pgofs + 1, congrArg (Option.map fun _ => st.pgofs + 1) h.next, ?_,
        fun b hb hlt => ?_⟩, fun hc => absurd rfl hc⟩
    · obtain ⟨haddr, hnull', hnew'⟩ := ha'
      rw [hpgofs, show file.blockAddr (map.mLblk + st.map.mLen) = a' from haddr] at ha
      subst ha
      rcases hhole with rfl | rfl
      · exact absurd rfl hnew'
      · exact absurd rfl hnull'
    · have h0' : st.map.mLen = 0 := h0
      omega
    · have h0' : st.map.mLen = 0 := h0
      obtain rfl : b = map.mLblk := by omega
      rw [hpgofs, h0', Nat.add_zero] at ha
      rcases hhole with rfl | rfl
      · exact Or.inr ⟨rfl, ha⟩
      · exact Or.inl ha
  · obtain ⟨hnew, hnull⟩ := not_or.mp hhole
    obtain ⟨rfl, hpos, hne⟩ := h.breaks hnew hnull hblock
    refine ⟨h.len_le, h.flags, h.stored, fun _ _ a' ha' => ⟨hpos, ?_⟩,
      fun h0 _ _ => absurd h0 (Nat.pos_iff_ne_zero.mp hpos), fun hc => absurd rfl hc⟩
    have haddr : a = a' := by
      rw [← ha, hpgofs]
      exact ha'.1
    rw [← haddr]
    exact hne

/-- The walk stops at a direct node that cannot be read. -/
theorem Walked.failed {dn : LookupError} (h : Walked file map (n + 1) st)
    (hlt : st.pgofs < 2 ^ 63)
    (hget : getDnodeOfData file (read st.pgofs) st.pgofs = .error dn) :
    WalkResult file read map (lookupFailed file .default st dn) := by
  have hleft := h.left
  have hpgofs := h.pgofs
  have hmaximal : (∀ b, read b = noFailure) → ∀ a, ¬file.StoredAt (map.mLblk + st.map.mLen) a := by
    intro hread a ha
    rw [hread] at hget
    obtain ⟨haddr, hnull, -⟩ := ha
    rw [← hpgofs, hole_of_error hget] at haddr
    exact hnull haddr.symm
  have hdefault : (if (GetBlock.default = .bmap) then { st.map with mPblk := 0 } else st.map) =
      st.map := if_neg fun hc => by cases hc
  rw [lookupFailed]
  simp only [hdefault]
  by_cases he : dn.err = .enoent
  · rw [if_pos he]
    obtain ⟨s, hs⟩ : ∃ s, s = getNextPageOffset file.layout.addrsPerInode dn st.pgofs := ⟨_, rfl⟩
    rw [← hs]
    refine ⟨h.len_le, h.flags, h.stored,
      fun hread _ a ha => absurd ha (hmaximal hread a),
      fun h0 _ _ => ⟨s, congrArg (Option.map fun _ => s) h.next, ?_,
        fun b hb hlt' => Or.inl ?_⟩, fun hc => absurd rfl hc⟩
    · have h0' : st.map.mLen = 0 := h0
      rw [h0', Nat.add_zero] at hpgofs
      rw [← hpgofs, hs]
      exact lt_getNextPageOffset hget he hlt
    · have h0' : st.map.mLen = 0 := h0
      rw [h0', Nat.add_zero] at hpgofs
      rw [← hpgofs] at hb
      rw [hs] at hlt'
      exact hole_before_next hget he hlt hb hlt'
  · rw [if_neg he]
    exact ⟨h.len_le, h.flags, h.stored,
      fun hread _ a ha => absurd ha (hmaximal hread a), 
      fun _ _ hc => absurd hc (Option.some_ne_none _), fun _ => h.next⟩

/-- The walk, from any of its blocks on. -/
theorem mapRest_result (hlblk : map.mLblk < 2 ^ 32) (hlen : map.mLen < 2 ^ 32) :
    ∀ n st, Walked file map n st →
      (∀ page, st.page = some page → InPage file st page) →
      WalkResult file read map (mapRest file read .default n st) := by
  intro n
  induction n with
  | zero =>
    intro st h _
    have hleft : st.map.mLen = map.mLen := h.left
    rw [mapRest, syncOut_default]
    refine ⟨Nat.le_of_eq hleft, h.flags, h.stored, fun _ hlt => ?_, fun h0 hpos => ?_,
      fun hc => absurd rfl hc⟩
    · have hlt' : st.map.mLen < map.mLen := hlt
      omega
    · have h0' : st.map.mLen = 0 := h0
      omega
  | succ n ih =>
    intro st h hpage
    have hlt := h.pgofs_lt hlblk hlen
    rw [mapRest]
    cases hnext : nextDnode file read .default st with
    | mk st₁ res =>
      cases res with
      | error dn =>
        obtain ⟨rfl, hget⟩ := nextDnode_error hnext
        rw [leaveDnode_default]
        exact h.failed hlt hget
      | ok page =>
        obtain ⟨hmap, hpgofs, hofs, hsome, haddr, hin⟩ := nextDnode_ok hlt hpage hnext
        have h₁ := h.congr hmap hpgofs hofs
        cases hblock : mapBlock .default st₁
            (dataAddr file.layout file.index page st₁.ofsInNode) with
        | mk st₂ goOn =>
          cases goOn with
          | false =>
            simp only [hblock]
            exact h₁.stop haddr hblock
          | true =>
            simp only [hblock]
            have hstored : ¬(file.blockAddr st₁.pgofs = newAddr ∨
                file.blockAddr st₁.pgofs = nullAddr) := fun hhole => by
              rw [← haddr, mapBlock_hole st₁ hhole] at hblock
              cases hblock
            rw [haddr] at hstored
            obtain ⟨hnew, hnull⟩ := not_or.mp hstored
            refine ih (skipBlock st₂) (h₁.extend haddr hnew hnull hblock) fun page' hpage' => ?_
            rw [(skipBlock_mapBlock hblock).1, hsome] at hpage'
            cases hpage'
            exact inPage_next hblock (hin (inlineData_of_address haddr hnull))

/-- The walk, from `m_lblk` on. -/
theorem mapDnodes_result (hlblk : map.mLblk < 2 ^ 32) (hlen : map.mLen < 2 ^ 32) :
    WalkResult file read map
      (mapDnodes file read .default { map with mLen := 0, mFlags := {} } map.mLen) := by
  refine mapRest_result hlblk hlen map.mLen _ ⟨rfl, rfl, Nat.zero_add _, rfl, rfl, ?_, rfl⟩ ?_
  · exact fun i hi => absurd hi (Nat.not_lt_zero i)
  · exact fun page hpage => by cases hpage

end

/-! ## The extent cache -/

/-- Block `fofs + i` of the extent is stored at `blk + i`. -/
def SoundExtent (file : MappedFile) (ei : ExtentInfo) : Prop :=
  ∀ i, i < ei.len → file.StoredAt (ei.fofs + i) (ei.blk + i)

/-- The extents of the cache say where their blocks are. -/
structure SoundCache (file : MappedFile) (w : LockedTree) : Prop where
  largest : SoundExtent file w.et.largest
  nodes : ∀ n ∈ w.nodes, SoundExtent file n.ei

section

variable {file : MappedFile} {read read' : Nat → NodeReads} {map : MapRequest} {w w' : LockedTree}
  {ei : ExtentInfo} {mayExtentTree : Bool}

/-- A hit is an extent of the cache around the block. -/
theorem SoundCache.lookup (h : SoundCache file w) {pgofs : Nat}
    (hit : lookupExtentCache mayExtentTree w pgofs = (w', some ei)) :
    SoundExtent file ei ∧ ei.fofs ≤ pgofs ∧ pgofs < ei.fofs + ei.len := by
  cases mayExtentTree with
  | false => cases hit
  | true =>
    have hit : lookupExtentTree w pgofs = (w', some ei) := hit
    simp only [lookupExtentTree] at hit
    by_cases hlargest : w.et.largest.fofs ≤ pgofs ∧ pgofs < w.et.largest.fofs + w.et.largest.len
    · rw [if_pos hlargest] at hit
      cases hit
      exact ⟨h.largest, hlargest⟩
    · rw [if_neg hlargest] at hit
      cases hlook : w.et.root.lookupEntry ExtentNode.fofs ExtentNode.len
          (w.et.cachedEn.bind w.get) pgofs with
      | none =>
        simp only [hlook] at hit
        cases hit
      | some n =>
        simp only [hlook] at hit
        cases hit
        obtain ⟨hn, hin⟩ := IntervalTree.lookupEntry_some (cached_mem w) hlook
        exact ⟨h.nodes n hn, hin⟩

/-- The extent cache answers for the blocks that are left of the extent. -/
theorem mapExtent_spec (h : SoundExtent file ei) (hlo : ei.fofs ≤ map.mLblk)
    (hhi : map.mLblk < ei.fofs + ei.len) (hpos : 0 < map.mLen) {r : MapResult}
    (hr : r = mapExtent { map with mLen := 0, mFlags := {} } map.mLen ei) :
    r.map.mFlags.mapped = true ∧ 1 ≤ r.map.mLen ∧ r.map.mLen ≤ map.mLen ∧
      ∀ i, i < r.map.mLen → file.StoredAt (map.mLblk + i) (r.map.mPblk + i) := by
  obtain ⟨d, hd⟩ := Nat.exists_eq_add_of_le hlo
  have hlen : r.map.mLen = min map.mLen (ei.fofs + ei.len - map.mLblk) := by rw [hr]; rfl
  have hpblk : r.map.mPblk = ei.blk + d := by
    have hfirst := (h d (by omega)).1
    have hlt := blockAddr_lt file (ei.fofs + d)
    have heq : ei.blk + map.mLblk - ei.fofs = ei.blk + d := by omega
    rw [hfirst] at hlt
    rw [hr]
    show u32 (ei.blk + map.mLblk - ei.fofs) = ei.blk + d
    rw [heq, u32_of_lt hlt]
  refine ⟨by rw [hr]; rfl, by omega, by omega, fun i hi => ?_⟩
  have hstored := h (d + i) (by omega)
  rw [hd, hpblk, Nat.add_assoc, Nat.add_assoc]
  exact hstored

/-! ## `f2fs_map_blocks` -/

/-- What a reading call for at least one block is to answer. -/
structure MapAgrees (file : MappedFile) (map : MapRequest) (r : MapResult) : Prop where
  len : r.map.mFlags.mapped = true → 1 ≤ r.map.mLen ∧ r.map.mLen ≤ map.mLen
  stored : r.map.mFlags.mapped = true →
    ∀ i, i < r.map.mLen → file.StoredAt (map.mLblk + i) (r.map.mPblk + i)
  /-- the block that was asked for may be preallocated, the others are holes -/
  skipped : r.map.mFlags.mapped = false → r.err = none → ∀ s, r.map.mNextPgofs = some s →
    map.mLblk < s ∧ ∀ b, map.mLblk ≤ b → b < s →
      file.Hole b ∨ b = map.mLblk ∧ file.blockAddr b = newAddr
  failed : r.err ≠ none → r.map.mNextPgofs = map.mNextPgofs

theorem WalkResult.agrees {r : MapResult} (h : WalkResult file read map r)
    (hpos : 0 < map.mLen) : MapAgrees file map r := by
  have hflags := h.flags
  refine ⟨fun hm => ⟨?_, h.len_le⟩, fun _ => h.stored, fun hm herr s hs => ?_, h.failed⟩
  · rw [hflags] at hm
    exact of_decide_eq_true hm
  · rw [hflags] at hm
    have h0 : r.map.mLen = 0 := Nat.eq_zero_of_not_pos (of_decide_eq_false hm)
    obtain ⟨s', hs', hlt, hskip⟩ := h.skipped h0 hpos herr
    rw [hs] at hs'
    obtain ⟨-, -, rfl⟩ := Option.map_eq_some_iff.mp hs'.symm
    exact ⟨hlt, hskip⟩

theorem f2fsMapBlocks_none (flag : GetBlock) (mayExtentTree : Bool) (w : LockedTree)
    (h0 : map.mLen = 0) :
    f2fsMapBlocks file read flag mayExtentTree w map = (⟨map, none, []⟩, w) := by
  rw [f2fsMapBlocks]
  exact if_pos h0

/-- From the dnodes alone. -/
theorem f2fsMapBlocks_dnodes (w : LockedTree) (hpos : 0 < map.mLen) :
    (f2fsMapBlocks file read .default false w map).1 =
      mapDnodes file read .default { map with mLen := 0, mFlags := {} } map.mLen := by
  simp only [f2fsMapBlocks, if_neg (Nat.pos_iff_ne_zero.mp hpos)]
  rfl

/-- An answer comes from an extent around the block, or from the dnodes. -/
theorem f2fsMapBlocks_cases (h : SoundCache file w) (hpos : 0 < map.mLen) {flag : GetBlock}
    {r : MapResult} (hr : r = (f2fsMapBlocks file read flag mayExtentTree w map).1) :
    (∃ ei, SoundExtent file ei ∧ ei.fofs ≤ map.mLblk ∧ map.mLblk < ei.fofs + ei.len ∧
      r = mapExtent { map with mLen := 0, mFlags := {} } map.mLen ei) ∨
    r = mapDnodes file read flag { map with mLen := 0, mFlags := {} } map.mLen := by
  simp only [f2fsMapBlocks, if_neg (Nat.pos_iff_ne_zero.mp hpos)] at hr
  cases hlook : lookupExtentCache mayExtentTree w map.mLblk with
  | mk w' hit =>
    cases hit with
    | none =>
      rw [hlook] at hr
      exact Or.inr hr
    | some ei =>
      rw [hlook] at hr
      obtain ⟨hsound, hlo, hhi⟩ := h.lookup hlook
      exact Or.inl ⟨ei, hsound, hlo, hhi, hr⟩

/-- Reading calls agree with lookups of single blocks.  The answers of the extent cache and
    of the dnodes name the same blocks; if every node can be read, the dnodes answer for no
    fewer of them. -/
theorem map_blocks_agree (h : SoundCache file w) (hlblk : map.mLblk < 2 ^ 32)
    (hlen : map.mLen < 2 ^ 32) {r d : MapResult}
    (hr : r = (f2fsMapBlocks file read .default mayExtentTree w map).1)
    (hd : d = (f2fsMapBlocks file read' .default false w' map).1) :
    (map.mLen = 0 → r = ⟨map, none, []⟩) ∧
    (0 < map.mLen → MapAgrees file map r ∧
      (r.map.mFlags.mapped = true → d.map.mFlags.mapped = true →
        d.map.mPblk = r.map.mPblk) ∧
      ((∀ b, read' b = noFailure) → r.map.mFlags.mapped = true →
        d.map.mFlags.mapped = true ∧ r.map.mLen ≤ d.map.mLen)) := by
  refine ⟨fun h0 => by rw [hr, f2fsMapBlocks_none _ _ _ h0], fun hpos => ?_⟩
  rw [f2fsMapBlocks_dnodes w' hpos] at hd
  have hwalk : WalkResult file read' map d := by
    rw [hd]
    exact mapDnodes_result hlblk hlen
  have hagrees : MapAgrees file map r := by
    rcases f2fsMapBlocks_cases h hpos hr with ⟨ei, hsound, hlo, hhi, hext⟩ | hdnodes
    · obtain ⟨hmapped, hone, hle, hstored⟩ := mapExtent_spec hsound hlo hhi hpos hext
      refine ⟨fun _ => ⟨hone, hle⟩, fun _ => hstored, fun hm => ?_, fun herr => ?_⟩
      · rw [hmapped] at hm
        cases hm
      · rw [hext] at herr
        exact absurd rfl herr
    · rw [hdnodes]
      exact (mapDnodes_result hlblk hlen).agrees hpos
  -- both name the address of the first block
  have hfirst : r.map.mFlags.mapped = true → 0 < d.map.mLen → d.map.mPblk = r.map.mPblk := by
    intro hm hlen'
    have hr₀ := (hagrees.stored hm 0 (hagrees.len hm).1).1
    have hd₀ := (hwalk.stored 0 hlen').1
    rw [Nat.add_zero] at hr₀ hd₀
    exact hd₀.symm.trans hr₀
  refine ⟨hagrees, fun hm hm' => hfirst hm ?_, fun hread hm => ?_⟩
  · exact ((hwalk.agrees hpos).len hm').1
  · obtain ⟨hone, hle⟩ := hagrees.len hm
    have hno : ¬d.map.mLen < r.map.mLen := by
      intro hlt
      obtain ⟨hdpos, hne⟩ :=
        hwalk.maximal hread (Nat.lt_of_lt_of_le hlt hle) _ (hagrees.stored hm d.map.mLen hlt)
      exact hne (by rw [hfirst hm hdpos])
    refine ⟨?_, Nat.not_lt.mp hno⟩
    rw [hwalk.flags]
    exact decide_eq_true (by omega)

end

/-! ## Two files -/

/-- A request for the blocks from the first on, with `m_next_pgofs`. -/
def firstBlocks (n : Nat) : MapRequest := ⟨0, 0, n, {}, some 0, none⟩

/-- Nothing is cached but the largest extent. -/
def onlyLargest (ei : ExtentInfo) : LockedTree := ⟨⟨4, .leaf, none, ei, 0⟩, 0, [], 0⟩

/-- Two blocks in a row and a third one elsewhere. -/
def twoRuns : MappedFile :=
  smallFile (fun i => if i < 2 then 100 + i else if i = 2 then 300 else 0) fun i => by
    split
    · omega
    · split <;> decide

theorem twoRuns_agree :
    SoundCache twoRuns (onlyLargest ⟨0, 2, 100⟩) ∧
    ((f2fsMapBlocks twoRuns (fun _ => noFailure) .default true (onlyLargest ⟨0, 2, 100⟩)
      (firstBlocks 5)).1.map.mFlags.mapped = true) ∧
    MapAgrees twoRuns (firstBlocks 5)
      (f2fsMapBlocks twoRuns (fun _ => noFailure) .default true (onlyLargest ⟨0, 2, 100⟩)
        (firstBlocks 5)).1 := by
  have hsound : SoundCache twoRuns (onlyLargest ⟨0, 2, 100⟩) := by
    refine ⟨fun i hi => ?_, fun n hn => absurd hn List.not_mem_nil⟩
    have hi : i < 2 := hi
    rcases (by omega : i = 0 ∨ i = 1) with rfl | rfl
    · exact ⟨by decide +kernel, by decide, by decide⟩
    · exact ⟨by decide +kernel, by decide, by decide⟩
  exact ⟨hsound, by decide +kernel,
    ((map_blocks_agree hsound (by decide) (by decide) rfl
      (rfl : _ = (f2fsMapBlocks twoRuns (fun _ => noFailure) .default false
        (onlyLargest ⟨0, 2, 100⟩) (firstBlocks 5)).1)).2 (by decide)).1⟩

/-- A file whose first block is preallocated. -/
def preallocated : MappedFile :=
  smallFile (fun i => if i = 0 then newAddr else 0) fun i => by split <;> decide

/-- `m_next_pgofs` skips a preallocated block, which is not a hole. -/
theorem preallocated_skipped :
    ∃ r, r = (f2fsMapBlocks preallocated (fun _ => noFailure) .default false
        (onlyLargest ⟨0, 0, 0⟩) (firstBlocks 1)).1 ∧
      r.map.mFlags.mapped = false ∧ r.err = none ∧ r.map.mNextPgofs = some 1 ∧
      ¬preallocated.Hole 0 := by
  refine ⟨_, rfl, by decide +kernel, by decide +kernel, by decide +kernel, ?_⟩
  have haddr : preallocated.blockAddr 0 = newAddr := by decide +kernel
  unfold MappedFile.Hole
  rw [haddr]
  decide

end F2fs.File

/-
  `commit_inmem_pages`: the pages of an atomic file are written one after the other, and
  when a write fails the pages written before are mapped back.

  The file is atomic during the commit, so its pages are never written in place
  (`should_update_outplace`).  An attempt that ends with `-ENOMEM` changes nothing and is
  made again; what is modelled is the last attempt.

  `__revoke_inmem_pages` keeps one error variable, which each page sets anew: the error of
  a page is lost when a later page is mapped back.  The address a page is mapped back to
  is `fio.old_blkaddr` after the write, which `do_write_page` overwrites when it has to
  allocate again; and it is not set at all for a page that was not written.
  `commit_allOrNothing_iff` says when the commit is all or nothing all the same.
-/
import F2fs.Blocks.BlockMap

namespace F2fs.Blocks

open F2fs.Node

variable {β : Type}

/-! ## Pages and their writes -/

/-- `struct inmem_pages`, with `page->index` and whether `page->mapping` is the file's.
    `id` is its pointer.  `register_inmem_page` does not set `old_addr`. -/
structure InmemPage where
  id : Nat
  index : Nat
  mapped : Bool
  oldAddr : Option Nat := none
  deriving DecidableEq, Repr

/-- `fi->inmem_pages`: the page cache has one page for an index. -/
structure InmemPages where
  pages : List InmemPage
  unset : ∀ p ∈ pages, p.oldAddr = none
  onePage : pages.Pairwise fun p q => p.mapped = true → q.mapped = true → p.index ≠ q.index

/-- What the last attempt may end with. -/
abbrev Fault := { e : Errno // e ≠ .enomem }

/-- What the write of a page meets: the errors of the lookup and of the encryption, the
    block it is given, and those it is given when `f2fs_submit_page_write` returns
    `-EAGAIN`. -/
structure PageWrite where
  lookup : Option Fault := none
  encrypt : Option Fault := none
  block : { a : Nat // IsBlock a }
  again : List { a : Nat // IsBlock a } := []

/-- What a commit meets, by the pointer of the page. -/
structure CommitEnv where
  write : Nat → PageWrite
  revoke : Nat → Option Fault

namespace Volume

variable (v : Volume β) (ino p : Nat)

/-- The SIT entries `allocate_data_block` changes. -/
def allocateDataBlock (oldBlkaddr newBlkaddr : Nat) : Volume β :=
  let v := { v with curValid := Function.update v.curValid newBlkaddr true }
  if IsBlock oldBlkaddr then v.sitInvalidate oldBlkaddr else v

/-- `do_write_page`: `fio->old_blkaddr` and `fio->new_blkaddr` after it. -/
def doWritePage (v : Volume β) (oldBlkaddr : Nat) (block : { a : Nat // IsBlock a }) :
    List { a : Nat // IsBlock a } → Volume β × Nat × Nat
  | [] => (v.allocateDataBlock oldBlkaddr block, oldBlkaddr, block)
  | next :: again => (v.allocateDataBlock oldBlkaddr block).doWritePage block next again

/-- `do_write_data_page` of an atomic file; it leaves `fio->old_blkaddr`. -/
def doWriteDataPage (w : PageWrite) : Except Errno (Volume β × Nat) :=
  match v.getDnodeOfData (w.lookup.map Subtype.val) ino p with
  | .failed e => .error e
  | .absent => .error .enoent
  | .found =>
    if v.blockAddr ino p = nullAddr then .ok (v, nullAddr)
    else
      match w.encrypt with
      | some e => .error e
      | none =>
        let (v', oldBlkaddr, newBlkaddr) := v.doWritePage (v.blockAddr ino p) w.block w.again
        .ok (v'.updateDataBlkaddr ino p newBlkaddr, oldBlkaddr)

end Volume

/-! ## The commit -/

section Commit

variable (env : CommitEnv) (ino : Nat)

/-- The end of `__commit_inmem_pages`. -/
structure Committed (β : Type) where
  vol : Volume β
  err : Option Errno
  revokeList : List InmemPage
  inmemPages : List InmemPage

/-- The loop of `__commit_inmem_pages`. -/
def commitLoop : List InmemPage → Volume β → List InmemPage → Committed β
  | [], v, revokeList => ⟨v, none, revokeList, []⟩
  | cur :: rest, v, revokeList =>
    if cur.mapped then
      match v.doWriteDataPage ino cur.index (env.write cur.id) with
      | .error e => ⟨v, some e, revokeList, cur :: rest⟩
      | .ok (v', oldAddr) =>
        commitLoop rest v' (revokeList ++ [{ cur with oldAddr := some oldAddr }])
    else commitLoop rest v (revokeList ++ [cur])

/-- The variables of `__revoke_inmem_pages`; `failed` says that some page could not be
    mapped back. -/
structure Revoked (β : Type) where
  vol : Volume β
  err : Option Errno := none
  failed : Bool := false

/-- One page is mapped back.  `none` when its `old_addr` was never set, or is `NULL_ADDR`,
    whose segment number `f2fs_replace_block` takes for one in the SIT. -/
def revokePage (v : Volume β) (cur : InmemPage) : Option (Volume β × Option Errno) :=
  match v.getDnodeOfData ((env.revoke cur.id).map Subtype.val) ino cur.index with
  | .found =>
    match cur.oldAddr with
    | none => none
    | some oldAddr =>
      if oldAddr = newAddr then
        some ((v.invalidateBlocks (v.blockAddr ino cur.index)).updateDataBlkaddr ino cur.index
          newAddr, none)
      else if oldAddr = nullAddr then none
      else some (v.replaceBlock ino cur.index (v.blockAddr ino cur.index) oldAddr true true, none)
  | _ => some (v, some .eagain)

/-- `__revoke_inmem_pages`; without `recover` it only lets the pages go. -/
def revokeInmemPages (recover : Bool) : List InmemPage → Revoked β → Option (Revoked β)
  | [], r => some r
  | cur :: rest, r =>
    if recover then
      (revokePage env ino r.vol cur).bind fun (v, err) =>
        revokeInmemPages recover rest ⟨v, err, r.failed || err.isSome⟩
    else revokeInmemPages recover rest r

/-- `commit_inmem_pages`, with the error it returns. -/
def commitInmemPages (v : Volume β) (pages : List InmemPage) : Option (Revoked β) :=
  let c := commitLoop env ino pages v []
  match c.err with
  | none => revokeInmemPages env ino false c.revokeList ⟨c.vol, none, false⟩
  | some e =>
    (revokeInmemPages env ino true c.revokeList ⟨c.vol, none, false⟩).bind fun r =>
      revokeInmemPages env ino false c.inmemPages { r with err := some (r.err.getD e) }

/-- An error other than `-EAGAIN` leaves every block where it was, and a page that could not
    be mapped back is told by `-EAGAIN`. -/
def AllOrNothing (v : Volume β) (out : Option (Revoked β)) : Prop :=
  ∃ r, out = some r ∧
    (∀ e, r.err = some e → e ≠ .eagain → ∀ i q, r.vol.blockAddr i q = v.blockAddr i q) ∧
    (r.failed = true → r.err = some .eagain)

end Commit

/-! ## When it is all or nothing -/

section Condition

variable (env : CommitEnv) (ino : Nat) (v : Volume β)

/-- The error of the write of a page. -/
def pageError (cur : InmemPage) : Option Errno :=
  if cur.mapped then
    match v.getDnodeOfData ((env.write cur.id).lookup.map Subtype.val) ino cur.index with
    | .failed e => some e
    | .absent => some .enoent
    | .found =>
      if v.blockAddr ino cur.index = nullAddr then none
      else (env.write cur.id).encrypt.map Subtype.val
  else none

/-- `fio->old_blkaddr` after `do_write_page`. -/
def lastOld (oldBlkaddr : Nat) (block : { a : Nat // IsBlock a }) :
    List { a : Nat // IsBlock a } → Nat
  | [] => oldBlkaddr
  | next :: again => lastOld block next again

/-- `cur->old_addr` after the write. -/
def recordedAddr (cur : InmemPage) : Nat :=
  if v.blockAddr ino cur.index = nullAddr then nullAddr
  else lastOld (v.blockAddr ino cur.index) (env.write cur.id).block (env.write cur.id).again

/-- The pages before the first one whose write fails. -/
def written (pages : List InmemPage) : List InmemPage :=
  pages.takeWhile fun cur => (pageError env ino v cur).isNone

/-- The error of that one. -/
def commitError (pages : List InmemPage) : Option Errno :=
  (pages.dropWhile fun cur => (pageError env ino v cur).isNone).head?.bind (pageError env ino v)

/-- The lookup of the page for its revocation succeeds. -/
def Revocable (cur : InmemPage) : Prop :=
  v.getDnodeOfData ((env.revoke cur.id).map Subtype.val) ino cur.index = .found

instance (cur : InmemPage) : Decidable (Revocable env ino v cur) :=
  inferInstanceAs (Decidable (_ = _))

/-- If a write fails: the pages to be mapped back were written and had a block, and either
    all of them can be mapped back, to the address they had, or the error is `-EAGAIN`
    anyhow, from the write or from the last page. -/
def RevertsWell (pages : List InmemPage) : Prop :=
  ∀ e, commitError env ino v pages = some e →
    (∀ cur ∈ written env ino v pages, Revocable env ino v cur →
      cur.mapped = true ∧ v.blockAddr ino cur.index ≠ nullAddr) ∧
    (e = .eagain ∨
      (∃ cur, (written env ino v pages).getLast? = some cur ∧ ¬ Revocable env ino v cur) ∨
      ∀ cur ∈ written env ino v pages, Revocable env ino v cur ∧
        recordedAddr env ino v cur = v.blockAddr ino cur.index)

end Condition

/-! ## The writes -/

section Write

variable {env : CommitEnv} {ino p : Nat} {v v' : Volume β}

/-- The block maps are the same but for some pages. -/
structure SameMaps (v v' : Volume β) (changed : Nat → Nat → Prop) : Prop where
  hasDnode : v'.hasDnode = v.hasDnode
  blockAddr : ∀ i q, ¬ changed i q → v'.blockAddr i q = v.blockAddr i q

theorem SameMaps.trans {v'' : Volume β} {changed changed' : Nat → Nat → Prop}
    (h : SameMaps v v' changed) (h' : SameMaps v' v'' changed') :
    SameMaps v v'' fun i q => changed i q ∨ changed' i q where
  hasDnode := h'.hasDnode.trans h.hasDnode
  blockAddr i q hn :=
    (h'.blockAddr i q fun hc => hn (Or.inr hc)).trans (h.blockAddr i q fun hc => hn (Or.inl hc))

theorem SameMaps.update (v : Volume β) (ino p a : Nat) :
    SameMaps v (v.updateDataBlkaddr ino p a) fun i q => (i, q) = (ino, p) where
  hasDnode := rfl
  blockAddr _ _ hn := Volume.blockAddr_update_ne hn

theorem allocateDataBlock_maps (oldBlkaddr newBlkaddr : Nat) :
    SameMaps v (v.allocateDataBlock oldBlkaddr newBlkaddr) fun _ _ => False := by
  unfold Volume.allocateDataBlock
  constructor
  · dsimp only
    split <;> rfl
  · intro i q _
    dsimp only
    split <;> rfl

theorem doWritePage_spec (again : List { a : Nat // IsBlock a }) : ∀ (v : Volume β)
    (oldBlkaddr : Nat) (block : { a : Nat // IsBlock a }),
    SameMaps v (v.doWritePage oldBlkaddr block again).1 (fun _ _ => False) ∧
      (v.doWritePage oldBlkaddr block again).2.1 = lastOld oldBlkaddr block again := by
  induction again with
  | nil => exact fun v oldBlkaddr block => ⟨allocateDataBlock_maps oldBlkaddr block, rfl⟩
  | cons next again ih =>
      intro v oldBlkaddr block
      obtain ⟨hmaps, hold⟩ := ih (v.allocateDataBlock oldBlkaddr block) block next
      have hboth := (allocateDataBlock_maps (v := v) oldBlkaddr block).trans hmaps
      refine ⟨⟨hboth.hasDnode, fun i q _ => hboth.blockAddr i q ?_⟩, hold⟩
      exact fun hc => hc.elim id id

variable (env ino) in
/-- The write of a page that belongs to the file, on maps that are as `v` at that page. -/
theorem doWriteDataPage_spec {cur : InmemPage} (hmapped : cur.mapped = true)
    (hdnode : v'.hasDnode = v.hasDnode)
    (haddr : v'.blockAddr ino cur.index = v.blockAddr ino cur.index) :
    (∃ e, pageError env ino v cur = some e ∧
        v'.doWriteDataPage ino cur.index (env.write cur.id) = .error e) ∨
      pageError env ino v cur = none ∧ ∃ v'',
        v'.doWriteDataPage ino cur.index (env.write cur.id) =
          .ok (v'', recordedAddr env ino v cur) ∧
        SameMaps v' v'' fun i q => (i, q) = (ino, cur.index) := by
  have hlook : v'.getDnodeOfData ((env.write cur.id).lookup.map Subtype.val) ino cur.index =
      v.getDnodeOfData ((env.write cur.id).lookup.map Subtype.val) ino cur.index := by
    unfold Volume.getDnodeOfData
    rw [hdnode]
  unfold pageError Volume.doWriteDataPage recordedAddr
  rw [hlook, haddr, if_pos hmapped]
  cases v.getDnodeOfData ((env.write cur.id).lookup.map Subtype.val) ino cur.index with
  | failed e => exact Or.inl ⟨e, rfl, rfl⟩
  | absent => exact Or.inl ⟨.enoent, rfl, rfl⟩
  | found =>
      simp only
      by_cases hnull : v.blockAddr ino cur.index = nullAddr
      · rw [if_pos hnull, if_pos hnull, if_pos hnull]
        exact Or.inr ⟨rfl, v', rfl, ⟨rfl, fun _ _ _ => rfl⟩⟩
      · rw [if_neg hnull, if_neg hnull, if_neg hnull]
        cases (env.write cur.id).encrypt with
        | some e => exact Or.inl ⟨e, rfl, rfl⟩
        | none =>
            obtain ⟨hmaps, hold⟩ := doWritePage_spec (env.write cur.id).again v'
              (v.blockAddr ino cur.index) (env.write cur.id).block
            refine Or.inr ⟨rfl, _, by rw [← hold], ?_⟩
            have hboth := hmaps.trans (SameMaps.update _ ino cur.index
              (v'.doWritePage (v.blockAddr ino cur.index) (env.write cur.id).block
                (env.write cur.id).again).2.2)
            exact ⟨hboth.hasDnode, fun i q hn => hboth.blockAddr i q fun hc => hc.elim id hn⟩

/-- The page with the address it is to be mapped back to. -/
def recorded (env : CommitEnv) (ino : Nat) (v : Volume β) (cur : InmemPage) : InmemPage :=
  if cur.mapped then { cur with oldAddr := some (recordedAddr env ino v cur) } else cur

variable (env ino) in
/-- The loop of the commit, the induction being on the pages left; `v` is the volume at its
    start. -/
theorem commitLoop_spec (pages : List InmemPage) : ∀ (v' : Volume β) (revokeList : List InmemPage),
    pages.Pairwise (fun p q => p.mapped = true → q.mapped = true → p.index ≠ q.index) →
    v'.hasDnode = v.hasDnode →
    (∀ cur ∈ pages, cur.mapped = true → v'.blockAddr ino cur.index = v.blockAddr ino cur.index) →
    SameMaps v' (commitLoop env ino pages v' revokeList).vol
        (fun i q => ∃ cur ∈ written env ino v pages, cur.mapped = true ∧ (i, q) =
          (ino, cur.index)) ∧
      (commitLoop env ino pages v' revokeList).err = commitError env ino v pages ∧
      (commitLoop env ino pages v' revokeList).revokeList =
        revokeList ++ (written env ino v pages).map (recorded env ino v) := by
  induction pages with
  | nil =>
      intro v' revokeList _ _ _
      exact ⟨⟨rfl, fun _ _ _ => rfl⟩, rfl, (List.append_nil _).symm⟩
  | cons cur rest ih =>
      intro v' revokeList hone hdnode haddr
      obtain ⟨hcur, hrest⟩ := List.pairwise_cons.mp hone
      unfold written commitError
      by_cases hmapped : cur.mapped = true
      · rcases doWriteDataPage_spec env ino hmapped hdnode (haddr cur List.mem_cons_self hmapped)
          with ⟨e, herr, hwrite⟩ | ⟨herr, v'', hwrite, hmaps⟩
        · have hloop : commitLoop env ino (cur :: rest) v' revokeList =
              ⟨v', some e, revokeList, cur :: rest⟩ := by
            rw [commitLoop, if_pos hmapped, hwrite]
          rw [hloop, List.takeWhile_cons_of_neg (by rw [herr]; exact Bool.false_ne_true),
            List.dropWhile_cons_of_neg (by rw [herr]; exact Bool.false_ne_true)]
          exact ⟨⟨rfl, fun _ _ _ => rfl⟩, herr.symm, (List.append_nil _).symm⟩
        · have hrecorded : { cur with oldAddr := some (recordedAddr env ino v cur) } =
              recorded env ino v cur := (if_pos hmapped).symm
          have hloop : commitLoop env ino (cur :: rest) v' revokeList =
              commitLoop env ino rest v'' (revokeList ++ [recorded env ino v cur]) := by
            rw [commitLoop, if_pos hmapped, hwrite, ← hrecorded]
          obtain ⟨hsame, hcerr, hlist⟩ := ih v'' (revokeList ++ [recorded env ino v cur]) hrest
            (hmaps.hasDnode.trans hdnode) fun q hq hqm => by
              rw [hmaps.blockAddr ino q.index fun heq =>
                hcur q hq hmapped hqm (Prod.mk.inj heq).2.symm]
              exact haddr q (List.mem_cons_of_mem _ hq) hqm
          rw [hloop, List.takeWhile_cons_of_pos (by rw [herr]; rfl),
            List.dropWhile_cons_of_pos (by rw [herr]; rfl)]
          refine ⟨?_, hcerr, hlist.trans (by rw [List.append_assoc]; rfl)⟩
          have hboth := hmaps.trans hsame
          refine ⟨hboth.hasDnode, fun i q hn => hboth.blockAddr i q fun hc => hn ?_⟩
          rcases hc with heq | ⟨c, hc, hrest⟩
          · exact ⟨cur, List.mem_cons_self, hmapped, heq⟩
          · exact ⟨c, List.mem_cons_of_mem _ hc, hrest⟩
      · have herr : pageError env ino v cur = none := if_neg hmapped
        have hrecorded : recorded env ino v cur = cur := if_neg hmapped
        have hloop : commitLoop env ino (cur :: rest) v' revokeList =
            commitLoop env ino rest v' (revokeList ++ [cur]) := by
          rw [commitLoop, if_neg hmapped]
        obtain ⟨hsame, hcerr, hlist⟩ := ih v' (revokeList ++ [cur]) hrest hdnode
          fun q hq => haddr q (List.mem_cons_of_mem _ hq)
        rw [hloop, List.takeWhile_cons_of_pos (by rw [herr]; rfl),
          List.dropWhile_cons_of_pos (by rw [herr]; rfl)]
        refine ⟨⟨hsame.hasDnode, fun i q hn => hsame.blockAddr i q fun hc => hn ?_⟩, hcerr, ?_⟩
        · obtain ⟨c, hc, hrest⟩ := hc
          exact ⟨c, List.mem_cons_of_mem _ hc, hrest⟩
        · rw [hlist, List.map_cons, hrecorded, List.append_assoc]
          rfl

end Write

/-! ## The revocation -/

section Revoke

variable {env : CommitEnv} {ino : Nat} {v : Volume β}

theorem replaceBlock_maps (v : Volume β) (ino p oldAddr newAddr : Nat) (b b' : Bool) :
    SameMaps v (v.replaceBlock ino p oldAddr newAddr b b') fun i q => (i, q) = (ino, p) := by
  unfold Volume.replaceBlock
  constructor
  · dsimp only
    split <;> split <;> rfl
  · intro i q hn
    refine (Volume.blockAddr_update_ne hn).trans ?_
    split <;> split <;> rfl

variable (env ino) in
/-- One page, from a volume with the nodes of `v`. -/
theorem revokePage_spec {u : Volume β} (hdnode : u.hasDnode = v.hasDnode) (cur : InmemPage) :
    (¬ Revocable env ino v cur ∧ revokePage env ino u cur = some (u, some .eagain)) ∨
      (Revocable env ino v cur ∧ (cur.oldAddr = none ∨ cur.oldAddr = some nullAddr) ∧
        revokePage env ino u cur = none) ∨
      Revocable env ino v cur ∧ ∃ oldAddr u', cur.oldAddr = some oldAddr ∧ oldAddr ≠ nullAddr ∧
        revokePage env ino u cur = some (u', none) ∧
        SameMaps u u' (fun i q => (i, q) = (ino, cur.index)) ∧
        u'.blockAddr ino cur.index = oldAddr := by
  have hlook : u.getDnodeOfData ((env.revoke cur.id).map Subtype.val) ino cur.index =
      v.getDnodeOfData ((env.revoke cur.id).map Subtype.val) ino cur.index := by
    unfold Volume.getDnodeOfData
    rw [hdnode]
  unfold Revocable revokePage
  rw [hlook]
  cases hv : v.getDnodeOfData ((env.revoke cur.id).map Subtype.val) ino cur.index with
  | failed e => exact Or.inl ⟨nofun, rfl⟩
  | absent => exact Or.inl ⟨nofun, rfl⟩
  | found =>
      right
      have hpage : u.hasDnode ino cur.index = true := by
        rw [hdnode]
        unfold Volume.getDnodeOfData at hv
        split at hv
        · cases hv
        · split at hv
          · assumption
          · cases hv
      cases hold : cur.oldAddr with
      | none => exact Or.inl ⟨rfl, Or.inl rfl, rfl⟩
      | some oldAddr =>
          simp only
          by_cases hnew : oldAddr = newAddr
          · -- the block goes, and the page is in front of a reserved one again
            subst hnew
            rw [if_pos rfl]
            refine Or.inr ⟨trivial, newAddr, _, rfl, by decide, rfl, ⟨?_, fun i q hn => ?_⟩, ?_⟩
            · exact Volume.hasDnode_invalidateBlocks
            · rw [Volume.blockAddr_update_ne hn, Volume.blockAddr_invalidateBlocks]
            · apply Volume.blockAddr_update_self
              rw [Volume.hasDnode_invalidateBlocks]
              exact hpage
          · rw [if_neg hnew]
            by_cases hnull : oldAddr = nullAddr
            · subst hnull
              exact Or.inl ⟨trivial, Or.inr rfl, if_pos rfl⟩
            · rw [if_neg hnull]
              refine Or.inr ⟨trivial, oldAddr, _, rfl, hnull, rfl,
                replaceBlock_maps u ino cur.index _ oldAddr true true, ?_⟩
              apply Volume.blockAddr_update_self
              split <;> split <;> exact hpage

/-- What the revocation of the pages `l` does: `r` before, `r'` after. -/
structure MappedBack (env : CommitEnv) (ino : Nat) (v : Volume β) (l : List InmemPage)
    (r r' : Revoked β) : Prop where
  maps : SameMaps r.vol r'.vol
    (fun i q => ∃ cur ∈ l, Revocable env ino v cur ∧ (i, q) = (ino, cur.index))
  back : ∀ cur ∈ l, Revocable env ino v cur → some (r'.vol.blockAddr ino cur.index) = cur.oldAddr
  err : r'.err = l.foldl (fun _ cur => if Revocable env ino v cur then none else some .eagain) r.err
  failed : r'.failed = true ↔ r.failed = true ∨ ∃ cur ∈ l, ¬ Revocable env ino v cur

/-- The loop, the induction being on the pages. -/
theorem revokeInmemPages_spec (l : List InmemPage) : ∀ r : Revoked β, r.vol.hasDnode = v.hasDnode →
    ((∃ cur ∈ l, Revocable env ino v cur ∧ (cur.oldAddr = none ∨ cur.oldAddr = some nullAddr)) ∧
        revokeInmemPages env ino true l r = none) ∨
      (∀ cur ∈ l, Revocable env ino v cur → cur.oldAddr ≠ none ∧ cur.oldAddr ≠ some nullAddr) ∧
        ∃ r', revokeInmemPages env ino true l r = some r' ∧
          (l.Pairwise (fun p q => Revocable env ino v p → Revocable env ino v q →
            p.index ≠ q.index) → MappedBack env ino v l r r') := by
  induction l with
  | nil =>
      intro r _
      refine Or.inr ⟨fun _ h => absurd h List.not_mem_nil, r, rfl, fun _ => ?_⟩
      exact ⟨⟨rfl, fun _ _ _ => rfl⟩, fun _ h => absurd h List.not_mem_nil, rfl, by simp⟩
  | cons cur l ih =>
      intro r hdnode
      have hstep : revokeInmemPages env ino true (cur :: l) r =
          (revokePage env ino r.vol cur).bind fun x =>
            revokeInmemPages env ino true l ⟨x.1, x.2, r.failed || x.2.isSome⟩ := by
        rw [revokeInmemPages, if_pos rfl]
      rw [hstep]
      rcases revokePage_spec env ino hdnode cur with
        ⟨hnot, hpage⟩ | ⟨hfound, hbad, hpage⟩ |
          ⟨hfound, oldAddr, u, hold, hnull, hpage, hmaps, hback⟩
      · -- the page stays where it is
        rw [hpage, Option.bind_some]
        rcases ih ⟨r.vol, some .eagain, true⟩ hdnode with ⟨⟨c, hc, hrest⟩, hrun⟩ |
          ⟨hok, r', hrun, hspec⟩
        · exact Or.inl ⟨⟨c, List.mem_cons_of_mem _ hc, hrest⟩, by simpa using hrun⟩
        · refine Or.inr ⟨fun c hc hf => ?_, r', by simpa using hrun, fun hone => ?_⟩
          · rcases List.mem_cons.mp hc with rfl | hc
            · exact absurd hf hnot
            · exact hok c hc hf
          · have h := hspec (List.pairwise_cons.mp hone).2
            refine ⟨⟨h.maps.hasDnode, fun i q hn => h.maps.blockAddr i q fun hc => hn ?_⟩,
              fun c hc hf => ?_, ?_, ?_⟩
            · obtain ⟨c, hc, hrest⟩ := hc
              exact ⟨c, List.mem_cons_of_mem _ hc, hrest⟩
            · rcases List.mem_cons.mp hc with rfl | hc
              · exact absurd hf hnot
              · exact h.back c hc hf
            · rw [h.err, List.foldl_cons, if_neg hnot]
            · rw [h.failed]
              exact ⟨fun _ => Or.inr ⟨cur, List.mem_cons_self, hnot⟩, fun _ => Or.inl rfl⟩
      · rw [hpage]
        exact Or.inl ⟨⟨cur, List.mem_cons_self, hfound, hbad⟩, rfl⟩
      · rw [hpage, Option.bind_some]
        rcases ih ⟨u, none, r.failed⟩ (hmaps.hasDnode.trans hdnode) with
          ⟨⟨c, hc, hrest⟩, hrun⟩ | ⟨hok, r', hrun, hspec⟩
        · exact Or.inl ⟨⟨c, List.mem_cons_of_mem _ hc, hrest⟩, by simpa using hrun⟩
        · refine Or.inr ⟨fun c hc hf => ?_, r', by simpa using hrun, fun hone => ?_⟩
          · rcases List.mem_cons.mp hc with rfl | hc
            · rw [hold]
              exact ⟨nofun, fun heq => hnull (Option.some.inj heq)⟩
            · exact hok c hc hf
          · obtain ⟨hother, hone'⟩ := List.pairwise_cons.mp hone
            have h := hspec hone'
            have hboth := hmaps.trans h.maps
            refine ⟨⟨hboth.hasDnode, fun i q hn => hboth.blockAddr i q fun hc => hn ?_⟩,
              fun c hc hf => ?_, ?_, ?_⟩
            · rcases hc with heq | ⟨c, hc, hrest⟩
              · exact ⟨cur, List.mem_cons_self, hfound, heq⟩
              · exact ⟨c, List.mem_cons_of_mem _ hc, hrest⟩
            · rcases List.mem_cons.mp hc with rfl | hc
              · -- no later page has the index
                have hstays := h.maps.blockAddr ino c.index fun hc' => by
                  obtain ⟨d, hd, hdf, heq⟩ := hc'
                  exact hother d hd hf hdf (Prod.mk.inj heq).2
                rw [hstays, hold]
                exact congrArg some hback
              · exact h.back c hc hf
            · rw [h.err, List.foldl_cons, if_pos hfound]
            · rw [h.failed]
              constructor
              · rintro (hf | ⟨c, hc, hn⟩)
                · exact Or.inl hf
                · exact Or.inr ⟨c, List.mem_cons_of_mem _ hc, hn⟩
              · rintro (hf | ⟨c, hc, hn⟩)
                · exact Or.inl hf
                · rcases List.mem_cons.mp hc with rfl | hc
                  · exact absurd hfound hn
                  · exact Or.inr ⟨c, hc, hn⟩

/-- Without `recover` the pages are only let go. -/
theorem revokeInmemPages_drop (l : List InmemPage) (r : Revoked β) :
    revokeInmemPages env ino false l r = some r := by
  induction l with
  | nil => rfl
  | cons cur l ih => exact ih

end Revoke

/-! ## All or nothing -/

theorem lastOld_ne_null (again : List { a : Nat // IsBlock a }) : ∀ {oldBlkaddr : Nat}
    (block : { a : Nat // IsBlock a }), oldBlkaddr ≠ nullAddr →
      lastOld oldBlkaddr block again ≠ nullAddr := by
  induction again with
  | nil => exact fun _ h => h
  | cons next again ih => exact fun block _ => ih next block.2.1

/-- A variable set anew for each element keeps what the last one set. -/
theorem foldl_last {α γ : Type} (g : α → γ) (c : γ) (l : List α) :
    l.foldl (fun _ x => g x) c = (l.getLast?.map g).getD c := by
  induction l using List.reverseRecOn with
  | nil => rfl
  | append_singleton l x _ =>
      rw [List.foldl_append, List.getLast?_concat]
      rfl

section Main

variable {env : CommitEnv} {ino : Nat} {v : Volume β} {l : InmemPages}

theorem written_subset {cur : InmemPage} (h : cur ∈ written env ino v l.pages) : cur ∈ l.pages :=
  (List.takeWhile_sublist _).subset h

/-- What is recorded for a page that was not written is nothing. -/
theorem recorded_defined {cur : InmemPage} (h : cur ∈ written env ino v l.pages) :
    ((recorded env ino v cur).oldAddr ≠ none ∧ (recorded env ino v cur).oldAddr ≠ some nullAddr) ↔
      cur.mapped = true ∧ v.blockAddr ino cur.index ≠ nullAddr := by
  unfold recorded
  by_cases hmapped : cur.mapped = true
  · rw [if_pos hmapped]
    unfold recordedAddr
    by_cases hnull : v.blockAddr ino cur.index = nullAddr
    · simp [hnull]
    · rw [if_neg hnull]
      have := lastOld_ne_null (env.write cur.id).again (env.write cur.id).block hnull
      simpa [hmapped, hnull] using this
  · rw [if_neg hmapped, l.unset cur (written_subset h)]
    simp [hmapped]

theorem revocable_recorded (cur : InmemPage) :
    Revocable env ino v (recorded env ino v cur) ↔ Revocable env ino v cur := by
  unfold recorded
  split <;> exact Iff.rfl

variable (env ino v) in
theorem index_recorded (cur : InmemPage) : (recorded env ino v cur).index = cur.index := by
  unfold recorded
  split <;> rfl

/-- The error the revocation leaves is that of the last page. -/
theorem MappedBack.err_eq {W : List InmemPage} {u : Volume β} {r' : Revoked β}
    (h : MappedBack env ino v (W.map (recorded env ino v)) ⟨u, none, false⟩ r') :
    (r'.err = some .eagain ∧ ∃ cur, W.getLast? = some cur ∧ ¬ Revocable env ino v cur) ∨
      r'.err = none ∧ ∀ cur, W.getLast? = some cur → Revocable env ino v cur := by
  have herr := h.err
  rw [foldl_last, List.getLast?_map] at herr
  cases hlast : W.getLast? with
  | none =>
      rw [hlast] at herr
      exact Or.inr ⟨herr, nofun⟩
  | some cur =>
      rw [hlast, Option.map_some, Option.map_some, Option.getD_some] at herr
      by_cases hrev : Revocable env ino v cur
      · rw [if_pos ((revocable_recorded cur).mpr hrev)] at herr
        exact Or.inr ⟨herr, fun c hc => Option.some.inj hc ▸ hrev⟩
      · rw [if_neg (mt (revocable_recorded cur).mp hrev)] at herr
        exact Or.inl ⟨herr, cur, rfl, hrev⟩

/-- A commit is all or nothing exactly if what it revokes is mapped back well. -/
theorem commit_allOrNothing_iff (env : CommitEnv) (ino : Nat) (v : Volume β) (l : InmemPages) :
    AllOrNothing v (commitInmemPages env ino v l.pages) ↔ RevertsWell env ino v l.pages := by
  obtain ⟨hmaps, herr, hlist⟩ := commitLoop_spec env ino l.pages v [] l.onePage
    rfl fun _ _ _ => rfl
  rw [List.nil_append] at hlist
  set c := commitLoop env ino l.pages v [] with hc
  set W := written env ino v l.pages with hW
  cases he : commitError env ino v l.pages with
  | none =>
      have hout : commitInmemPages env ino v l.pages = some ⟨c.vol, none, false⟩ := by
        unfold commitInmemPages
        rw [← hc]
        simp only [herr, he]
        exact revokeInmemPages_drop _ _
      rw [hout]
      refine ⟨fun _ e h => ?_, fun _ => ⟨_, rfl, nofun, nofun⟩⟩
      rw [he] at h
      cases h
  | some e =>
      have hout : commitInmemPages env ino v l.pages =
          (revokeInmemPages env ino true (W.map (recorded env ino v)) ⟨c.vol, none, false⟩).map
            fun r => { r with err := some (r.err.getD e) } := by
        unfold commitInmemPages
        rw [← hc]
        simp only [herr, he, hlist, revokeInmemPages_drop]
        exact Option.map_eq_bind.symm
      have hiff : RevertsWell env ino v l.pages ↔
          (∀ cur ∈ W, Revocable env ino v cur →
            cur.mapped = true ∧ v.blockAddr ino cur.index ≠ nullAddr) ∧
          (e = .eagain ∨ (∃ cur, W.getLast? = some cur ∧ ¬ Revocable env ino v cur) ∨
            ∀ cur ∈ W, Revocable env ino v cur ∧
              recordedAddr env ino v cur = v.blockAddr ino cur.index) := by
        unfold RevertsWell
        rw [he]
        exact ⟨fun h => h e rfl, fun h e' he' => Option.some.inj he' ▸ h⟩
      rw [hout, hiff]
      rcases revokeInmemPages_spec (v := v) (W.map (recorded env ino v)) ⟨c.vol, none, false⟩
          hmaps.hasDnode with ⟨⟨cur', hcur', hrev, hbad⟩, hrun⟩ | ⟨hok, r', hrun, hspec⟩
      · -- an address that was never recorded
        rw [hrun]
        obtain ⟨cur, hcur, rfl⟩ := List.mem_map.mp hcur'
        constructor
        · intro h
          obtain ⟨r, hr, -⟩ := h
          cases hr
        · intro h
          have hdef := (recorded_defined hcur).mpr (h.1 cur hcur ((revocable_recorded cur).mp hrev))
          exact hbad.elim (fun hb => absurd hb hdef.1) fun hb => absurd hb hdef.2
      · have hgood : ∀ cur ∈ W, Revocable env ino v cur →
            cur.mapped = true ∧ v.blockAddr ino cur.index ≠ nullAddr := fun cur hcur hrev =>
          (recorded_defined hcur).mp
            (hok _ (List.mem_map_of_mem hcur) ((revocable_recorded cur).mpr hrev))
        have hone : (W.map (recorded env ino v)).Pairwise fun p q =>
            Revocable env ino v p → Revocable env ino v q → p.index ≠ q.index := by
          rw [List.pairwise_map]
          have hsub : (written env ino v l.pages).Sublist l.pages := List.takeWhile_sublist _
          refine (l.onePage.sublist hsub).imp_of_mem fun hp hq hpq hrp hrq => ?_
          rw [index_recorded, index_recorded]
          exact hpq (hgood _ hp ((revocable_recorded _).mp hrp)).1
            (hgood _ hq ((revocable_recorded _).mp hrq)).1
        have h := hspec hone
        have hback : ∀ cur ∈ W, Revocable env ino v cur →
            r'.vol.blockAddr ino cur.index = recordedAddr env ino v cur := by
          intro cur hcur hrev
          have hb := h.back _ (List.mem_map_of_mem hcur) ((revocable_recorded cur).mpr hrev)
          rw [index_recorded env ino v cur, recorded, if_pos (hgood cur hcur hrev).1] at hb
          exact Option.some.inj hb
        have hfailed : r'.failed = true ↔ ∃ cur ∈ W, ¬ Revocable env ino v cur := by
          rw [h.failed]
          constructor
          · rintro (hf | ⟨d, hd, hn⟩)
            · cases hf
            · obtain ⟨cur, hcur, rfl⟩ := List.mem_map.mp hd
              exact ⟨cur, hcur, mt (revocable_recorded cur).mpr hn⟩
          · rintro ⟨cur, hcur, hn⟩
            exact Or.inr ⟨_, List.mem_map_of_mem hcur, mt (revocable_recorded cur).mp hn⟩
        rw [hrun, Option.map_some]
        constructor
        · intro hall
          obtain ⟨r, hr, hsame, htold⟩ := hall
          obtain rfl := Option.some.inj hr
          refine ⟨hgood, ?_⟩
          by_cases hagain : e = .eagain
          · exact Or.inl hagain
          rcases h.err_eq with ⟨-, hlast⟩ | ⟨hnone, -⟩
          · exact Or.inr (Or.inl hlast)
          have hret : some (r'.err.getD e) = some e := by rw [hnone]; rfl
          have hnofail : ¬ ∃ cur ∈ W, ¬ Revocable env ino v cur := fun hf => by
            have := htold (hfailed.mpr hf)
            exact hagain (Option.some.inj (hret.symm.trans this))
          refine Or.inr (Or.inr fun cur hcur => ?_)
          have hrev : Revocable env ino v cur := by
            by_contra hn
            exact hnofail ⟨cur, hcur, hn⟩
          refine ⟨hrev, ?_⟩
          rw [← hback cur hcur hrev]
          exact hsame e hret hagain ino cur.index
        · intro hcond
          obtain ⟨-, hagain | ⟨cur, hlast, hn⟩ | hall⟩ := hcond
          · -- the write itself returned `-EAGAIN`
            have hret : r'.err.getD e = .eagain := by
              rcases h.err_eq with ⟨herr', -⟩ | ⟨herr', -⟩ <;> rw [herr']
              · rfl
              · exact hagain
            exact ⟨_, rfl, fun e' he' hne => absurd ((Option.some.inj he').symm.trans hret) hne,
              fun _ => congrArg some hret⟩
          · have hret : r'.err.getD e = .eagain := by
              rcases h.err_eq with ⟨herr', -⟩ | ⟨-, hrev⟩
              · rw [herr']
                rfl
              · exact absurd (hrev cur hlast) hn
            exact ⟨_, rfl, fun e' he' hne => absurd ((Option.some.inj he').symm.trans hret) hne,
              fun _ => congrArg some hret⟩
          · -- every page is back where it was
            refine ⟨_, rfl, fun _ _ _ i q => ?_, fun hf => ?_⟩
            · by_cases hpage : ∃ cur ∈ W, (i, q) = (ino, cur.index)
              · obtain ⟨cur, hcur, heq⟩ := hpage
                obtain ⟨rfl, rfl⟩ := Prod.mk.inj heq
                exact (hback cur hcur (hall cur hcur).1).trans (hall cur hcur).2
              · have hrevoked : r'.vol.blockAddr i q = c.vol.blockAddr i q :=
                  h.maps.blockAddr i q fun hd => hpage (by
                    obtain ⟨d, hd, -, heq⟩ := hd
                    obtain ⟨cur, hcur, rfl⟩ := List.mem_map.mp hd
                    exact ⟨cur, hcur, index_recorded env ino v cur ▸ heq⟩)
                have hcommitted : c.vol.blockAddr i q = v.blockAddr i q :=
                  hmaps.blockAddr i q fun hd => hpage (by
                    obtain ⟨cur, hcur, -, heq⟩ := hd
                    exact ⟨cur, hcur, heq⟩)
                exact hrevoked.trans hcommitted
            · obtain ⟨cur, hcur, hn⟩ := hfailed.mp hf
              exact absurd (hall cur hcur).1 hn

end Main

/-! ### A lost error -/

/-- File 1 with blocks 100, 101 and 102. -/
def threeBlocks : Volume Nat where
  addrsPerInode _ := defAddrsPerInode
  dnodes _ _ := false
  addr ino p := if ino = 1 ∧ p < 3 then 100 + p else nullAddr
  curValid a := decide (100 ≤ a ∧ a < 103)
  ckptValid a := decide (100 ≤ a ∧ a < 103)
  invalidated := []
  disk a := a
  zero := 0
  dirty _ _ := none
  counts :=
    { sbi :=
        { userBlockCount := 1000
          totalValidBlockCount := 3
          allocValidBlockCount := 0
          reservedBlocks := 0
          currentReservedBlocks := 0
          rootReservedBlocks := 0
          reserveRoot := false
          totalNodeCount := 100
          totalValidNodeCount := 1 }
      inodes := fun _ => { iBlocks := 3, quotaReserved := 0, quotaUsed := 3 } }
  isize ino := if ino = 1 then 3 * pageSize else 0
  lfs := false

/-- Its pages, all written by the transaction. -/
def threePages : InmemPages where
  pages := [⟨0, 0, true, none⟩, ⟨1, 1, true, none⟩, ⟨2, 2, true, none⟩]
  unset := by decide
  onePage := by decide

/-- The last page cannot be encrypted, and the node of the first cannot be read again. -/
def lostError : CommitEnv where
  write id :=
    { encrypt := if id = 2 then some ⟨.eio, by decide⟩ else none
      block := if id = 0 then ⟨200, by decide⟩ else ⟨201, by decide⟩ }
  revoke id := if id = 0 then some ⟨.eio, by decide⟩ else none

/-- The commit returns `-EIO`, and the first page has its new block. -/
theorem commit_half_done : ¬ ∀ (env : CommitEnv) (ino : Nat) (v : Volume Nat) (l : InmemPages),
    AllOrNothing v (commitInmemPages env ino v l.pages) := by
  intro hall
  have hend : (commitInmemPages lostError 1 threeBlocks threePages.pages).map
      (fun r => (r.err, r.vol.blockAddr 1 0)) = some (some .eio, 200) := by decide +kernel
  obtain ⟨r, hr, hvals⟩ := Option.map_eq_some_iff.mp hend
  obtain ⟨herr, haddr⟩ := Prod.mk.inj hvals
  obtain ⟨r', hr', hsame, -⟩ := hall lostError 1 threeBlocks threePages
  obtain rfl : r = r' := Option.some.inj (hr.symm.trans hr')
  have hkept := hsame .eio herr (by decide) 1 0
  rw [haddr] at hkept
  exact absurd hkept (by decide)

end F2fs.Blocks

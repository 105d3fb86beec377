/-
  Reading a directory (`f2fs_readdir`, `f2fs_read_inline_dir`).

  A call walks on from the position the one before has left.  `Listed` says what the walk
  finds in an area: live entries, and slots that are taken but have no name.  A position is
  a block and a slot, and what is left to emit from it is `restFrom`.  A call emits the
  first entries of the rest and leaves a position whose rest is the others, so that nothing
  is emitted twice and nothing is left out.

  Positions are computed in 32 bits.  A directory with more blocks than fit there has its
  positions wrap, and a walk over it goes wrong.
-/
import F2fs.Dir.DentryMap

namespace F2fs.Dir

open SlotRuns

/-! ## The walk -/

/-- What readdir reads of a directory that is not encrypted.  A block that is missing is
    `-ENOENT` for `get_lock_data_page`. -/
structure DirPages where
  inlineArea : Option DentryArea
  npages : Nat
  block : Nat → Option DentryArea

/-- What a call meets: whether the caller takes one more entry after those of this call, and
    what may disturb it. -/
structure CallEnv where
  accept : List Emitted → Emitted → Bool
  fatalSignal : Nat → Bool
  inodePageError : Option Nat
  /-- an error of `get_lock_data_page` other than `-ENOENT` -/
  readError : Nat → Option Nat

/-- Something cuts the call short. -/
def CallEnv.Disturbed (env : CallEnv) : Prop :=
  (∃ n, env.fatalSignal n = true) ∨ env.inodePageError ≠ none ∨ ∃ n, env.readError n ≠ none

/-- How a call ends, and the position it leaves. -/
structure ReaddirResult where
  ret : FillEnd
  ctx : DirContext
  deriving DecidableEq, Repr

/-- `err < 0 ? err : 0`, without the sign. -/
def ReaddirResult.err (r : ReaddirResult) : Nat :=
  match r.ret with
  | .failed err => err
  | _ => 0

/-- `ERESTARTSYS`. -/
def eRestartSys : Nat := 512

/-- The name of an entry that is not encrypted. -/
def plainName : UInt32 → Name → Except Nat Name := fun _ name => .ok name

/-- `ctx->pos = n * NR_DENTRY_IN_BLOCK` after `n++`. -/
def DirContext.nextBlock (ctx : DirContext) (n : Nat) : DirContext :=
  { ctx with pos := u32 (u32 (n + 1) * nrDentryInBlock) }

/-- The loop of `f2fs_readdir`; `none` if it takes more than the given rounds. -/
def readBlocks (dir : DirPages) (env : CallEnv) : Nat → Nat → DirContext → Option ReaddirResult
  | 0, _, _ => none
  | rounds + 1, n, ctx =>
    if n < dir.npages then
      if env.fatalSignal n then some ⟨.failed eRestartSys, ctx⟩
      else
        match env.readError n with
        | some err => some ⟨.failed err, ctx⟩
        | none =>
          match dir.block n with
          | none => readBlocks dir env rounds (u32 (n + 1)) (ctx.nextBlock n)
          | some d =>
            match fillDentries d plainName env.accept (u32 (n * nrDentryInBlock)) ctx with
            | none => none
            | some r =>
              match r.ret with
              | .done => readBlocks dir env rounds (u32 (n + 1)) (r.ctx.nextBlock n)
              | ret => some ⟨ret, r.ctx⟩
    else some ⟨.done, ctx⟩

/-- `f2fs_read_inline_dir`. -/
def f2fsReadInlineDir (d : DentryArea) (env : CallEnv) (ctx : DirContext) : Option ReaddirResult :=
  if ctx.pos = d.max then some ⟨.done, ctx⟩
  else
    match env.inodePageError with
    | some err => some ⟨.failed err, ctx⟩
    | none =>
      match fillDentries d plainName env.accept 0 ctx with
      | none => none
      | some r =>
        match r.ret with
        | .done => some ⟨.done, { r.ctx with pos := d.max }⟩
        | ret => some ⟨ret, r.ctx⟩

/-- `f2fs_readdir` from a position. -/
def f2fsReaddir (dir : DirPages) (env : CallEnv) (pos : Nat) : Option ReaddirResult :=
  let ctx : DirContext := ⟨pos, []⟩
  match dir.inlineArea with
  | some d => f2fsReadInlineDir d env ctx
  | none => readBlocks dir env (dir.npages + 1) (u32 (pos / nrDentryInBlock)) ctx

/-- Calls one after the other, each from where the one before has stopped: what they emit,
    and the position at the end. -/
def readCalls (dir : DirPages) : List CallEnv → Nat → Option (List Emitted × Nat)
  | [], pos => some ([], pos)
  | env :: envs, pos => do
    let r ← f2fsReaddir dir env pos
    let (emitted, pos') ← readCalls dir envs r.ctx.pos
    return (r.ctx.emitted ++ emitted, pos')

/-! ## What an area lists -/

/-- What `dir_emit` is to be called with for a live entry. -/
def LiveEntry.emitted (e : LiveEntry) : Emitted :=
  ⟨e.name.name, e.ino, getDeType
    ⟨e.hash, e.ino, UInt16.ofNat e.name.name.length, setDeType e.mode⟩⟩

/-- What takes slots: a live entry, or one slot that has no name. -/
inductive Taken where
  | entry (e : LiveEntry)
  | blank (pos : Nat)

def Taken.pos : Taken → Nat
  | .entry e => e.pos
  | .blank pos => pos

def Taken.slots : Taken → Nat
  | .entry e => e.slots
  | .blank _ => 1

def Taken.emitted : Taken → List Emitted
  | .entry e => [e.emitted]
  | .blank _ => []

/-- The area holds these, in the order of their slots. -/
structure Listed (d : DentryArea) (ts : List Taken) : Prop where
  tiled : Tiled d.bitmap d.max Taken.pos Taken.slots ts
  sorted : ts.Pairwise (Taken.pos · < Taken.pos ·)
  record : ∀ e, .entry e ∈ ts → d.dentry e.pos =
    ⟨e.hash, e.ino, UInt16.ofNat e.name.name.length, setDeType e.mode⟩
  name : ∀ e, .entry e ∈ ts → d.nameAt e.pos e.name.name.length = e.name.name
  blank : ∀ pos, .blank pos ∈ ts → (d.dentry pos).nameLen = 0

/-- What is emitted from a slot on. -/
def emittedFrom (ts : List Taken) (bitPos : Nat) : List Emitted :=
  (behind Taken.pos ts bitPos).flatMap Taken.emitted

/-- How a walk ends, by what it has emitted and what is left. -/
inductive Ends (accept : List Emitted → Emitted → Bool) (emitted : List Emitted)
    (disturbed : Prop) : FillEnd → List Emitted → Prop where
  | done : Ends accept emitted disturbed .done []
  | stopped (e : Emitted) (rest : List Emitted) (h : accept emitted e = false) :
      Ends accept emitted disturbed .stopped (e :: rest)
  | failed (err : Nat) (rest : List Emitted) (h : disturbed) :
      Ends accept emitted disturbed (.failed err) rest

section

variable {d : DentryArea} {ts : List Taken} {accept : List Emitted → Emitted → Bool}
  {startPos bitPos rounds : Nat} {ctx : DirContext}

theorem emittedFrom_zero : emittedFrom ts 0 = ts.flatMap Taken.emitted := by
  rw [emittedFrom, behind_zero]

theorem Listed.emittedFrom_size (h : Listed d ts) {b : Nat} (hb : d.max ≤ b) :
    emittedFrom ts b = [] := by
  rw [emittedFrom, behind_size h.tiled hb]
  rfl

theorem Listed.emittedFrom_thing (h : Listed d ts) {t : Taken} (ht : t ∈ ts) :
    emittedFrom ts t.pos = t.emitted ++ emittedFrom ts (t.pos + t.slots) := by
  rw [emittedFrom, behind_thing h.tiled h.sorted ht, List.flatMap_cons, ← emittedFrom]

/-- An area that is a map lists its live entries, in their order. -/
theorem Recorded.listed {live inOrder : List LiveEntry} (h : Recorded d live)
    (hperm : inOrder.Perm live) (hsorted : inOrder.Pairwise (LiveEntry.pos · < LiveEntry.pos ·)) :
    Listed d (inOrder.map Taken.entry) where
  tiled := {
    pos := List.forall_mem_map.mpr fun e he => h.tiled.pos e (hperm.subset he)
    inside := List.forall_mem_map.mpr fun e he => h.tiled.inside e (hperm.subset he)
    apart := List.pairwise_map.mpr ((hperm.pairwise_iff Or.symm).mpr h.tiled.apart)
    covered := fun i hi => by
      rw [h.tiled.covered i hi]
      simp only [List.mem_map, exists_exists_and_eq_and, hperm.mem_iff]
      rfl }
  sorted := List.pairwise_map.mpr hsorted
  record := fun e he => h.record e (hperm.subset (by simpa using he))
  name := fun e he => h.name e (hperm.subset (by simpa using he))
  blank := fun pos hpos => by simp at hpos

/-- What the walk over an area leaves: it has emitted the first of what there was, and the
    position is where the others begin. -/
def FillLeaves (ts : List Taken) (accept : List Emitted → Emitted → Bool)
    (startPos bitPos : Nat) (ctx : DirContext) (r : FillResult) : Prop :=
  ∃ b out, Boundary Taken.pos Taken.slots ts b ∧ r.ctx.pos = startPos + b ∧
    r.ctx.emitted = ctx.emitted ++ out ∧ emittedFrom ts bitPos = out ++ emittedFrom ts b ∧
    Ends accept r.ctx.emitted False r.ret (emittedFrom ts b)

theorem fillDentriesFrom_listed (h : Listed d ts) (hfit : startPos + d.max < 2 ^ 32)
    (hb : Boundary Taken.pos Taken.slots ts bitPos) (hpos : ctx.pos = startPos + bitPos)
    (hle : bitPos ≤ d.max) (hrounds : d.max < bitPos + rounds) :
    ∃ r, fillDentriesFrom d plainName accept startPos rounds bitPos ctx = some r ∧
      FillLeaves ts accept startPos bitPos ctx r := by
  induction rounds generalizing bitPos ctx with
  | zero => omega
  | succ rounds ih =>
    rw [fillDentriesFrom]
    have hend : emittedFrom ts bitPos = [] → FillLeaves ts accept startPos bitPos ctx
        ⟨.done, ctx, []⟩ := fun hnil =>
      ⟨bitPos, [], hb, hpos, (List.append_nil _).symm, rfl, hnil ▸ .done⟩
    by_cases hlt : bitPos < d.max
    · rw [if_pos hlt]
      generalize hz : BitScan.next d.bitmap d.max bitPos = z
      have hzle : z ≤ d.max := hz ▸ BitScan.next_le _ _ _
      have hfree : ∀ i, bitPos ≤ i → i < z → d.bitmap i = false := by
        intro i hlo hhi
        by_contra hset
        have hnext := BitScan.next_le_of_match (p := d.bitmap) hlo (Nat.lt_of_lt_of_le hhi hzle)
          (by simpa using hset)
        omega
      have hskip : bitPos ≤ z → emittedFrom ts bitPos = emittedFrom ts z := fun hge => by
        rw [emittedFrom, behind_skip h.tiled hge hfree, ← emittedFrom]
      by_cases hzend : z ≥ d.max
      · rw [if_pos hzend]
        exact ⟨_, rfl, hend ((hskip (by omega)).trans (h.emittedFrom_size hzend))⟩
      · rw [if_neg hzend]
        have hzlt := Nat.not_le.mp hzend
        obtain ⟨hge, hset, -⟩ := BitScan.next_spec (hz ▸ hzlt)
        rw [hz] at hge hset
        obtain ⟨t, ht, hstart, hbt⟩ := (hb.skip h.tiled hge hfree).thing h.tiled hzlt hset
        have hin := h.tiled.inside t ht
        have hslots := h.tiled.pos t ht
        have hrest : emittedFrom ts bitPos = t.emitted ++ emittedFrom ts (z + t.slots) := by
          rw [hskip hge, ← hstart, h.emittedFrom_thing ht]
        rw [hstart] at hin
        -- the walk goes on behind what it has found
        have hgo : ∀ ctx' : DirContext, ctx'.pos = u32 (startPos + (z + t.slots)) →
            ctx'.emitted = ctx.emitted ++ t.emitted → ∃ r,
              fillDentriesFrom d plainName accept startPos rounds (z + t.slots) ctx' = some r ∧
              FillLeaves ts accept startPos bitPos ctx r := by
          intro ctx' hpos' hem
          have hpos'' : ctx'.pos = startPos + (z + t.slots) :=
            hpos'.trans (u32_of_lt (by omega))
          obtain ⟨r, hr, b, out, hbd, hrpos, hrem, hout, hends⟩ := ih hbt hpos'' hin (by omega)
          refine ⟨r, hr, b, t.emitted ++ out, hbd, hrpos, ?_, ?_, hends⟩
          · rw [hrem, hem, List.append_assoc]
          · rw [hrest, hout, List.append_assoc]
        cases t with
        | blank p =>
          obtain rfl : p = z := hstart
          obtain ⟨r, hr, hleaves⟩ := hgo { ctx with pos := u32 (startPos + (p + 1)) } rfl
            (List.append_nil _).symm
          rw [if_pos (h.blank p ht)]
          exact ⟨r.after _, congrArg (Option.map _) hr, hleaves⟩
        | entry e =>
          obtain rfl : e.pos = z := hstart
          have hlen : (d.dentry e.pos).nameLen.toNat = e.name.name.length := by
            rw [h.record e ht]
            exact e.name.toNat_length
          have hne : (d.dentry e.pos).nameLen ≠ 0 := by
            intro hzero
            rw [hzero] at hlen
            exact absurd hlen (Nat.ne_of_lt e.name.length_pos)
          have hem : d.emittedAt e.pos e.name.name = e.emitted := by
            rw [DentryArea.emittedAt, h.record e ht, LiveEntry.emitted]
          have hsl : d.slotsAt e.pos = e.slots := by
            rw [DentryArea.slotsAt, DentryArea.nameLenAt, hlen, LiveEntry.slots]
          simp only [if_neg hne, plainName, hlen, h.name e ht, hem, hsl]
          by_cases hacc : accept ctx.emitted e.emitted
          · rw [if_pos hacc]
            obtain ⟨r, hr, hleaves⟩ := hgo ⟨u32 (startPos + (e.pos + e.slots)),
              ctx.emitted ++ [e.emitted]⟩ rfl rfl
            exact ⟨r.after _, congrArg (Option.map _) hr, hleaves⟩
          · rw [if_neg hacc]
            refine ⟨_, rfl, bitPos, [], hb, hpos, (List.append_nil _).symm, rfl, ?_⟩
            rw [hrest]
            exact .stopped e.emitted _ (Bool.not_eq_true _ ▸ hacc)
    · rw [if_neg hlt]
      exact ⟨_, rfl, hend (h.emittedFrom_size (Nat.not_lt.mp hlt))⟩

/-- `f2fs_fill_dentries` at a position of the area. -/
theorem fillDentries_listed (accept : List Emitted → Emitted → Bool) (startPos : Nat)
    (h : Listed d ts) (hmax : 0 < d.max) (hfit : startPos + d.max < 2 ^ 32)
    (hb : Boundary Taken.pos Taken.slots ts bitPos) (hlt : bitPos < d.max)
    (hpos : ctx.pos = startPos + bitPos) (hdvd : d.max ∣ startPos) :
    ∃ r, fillDentries d plainName accept startPos ctx = some r ∧
      FillLeaves ts accept startPos bitPos ctx r := by
  have hmod : ctx.pos % d.max = bitPos := by
    obtain ⟨q, rfl⟩ := hdvd
    rw [hpos, Nat.mul_add_mod, Nat.mod_eq_of_lt hlt]
  rw [fillDentries, if_neg (Nat.pos_iff_ne_zero.mp hmax), hmod]
  exact fillDentriesFrom_listed h hfit hb hpos hlt.le (by omega)

end

/-! ## What a directory lists -/

/-- What the blocks from `n` on list, `k` of them. -/
def blocksFrom (ts : Nat → List Taken) : Nat → Nat → List Taken
  | 0, _ => []
  | k + 1, n => ts n ++ blocksFrom ts k (n + 1)

/-- A data page lists these; one that is missing lists nothing. -/
def BlockListed (block : Option DentryArea) (ts : List Taken) : Prop :=
  match block with
  | none => ts = []
  | some d => d.max = nrDentryInBlock ∧ Listed d ts

/-- A well-formed directory, with what it is to emit. -/
inductive DirPages.Lists (dir : DirPages) : List Emitted → Prop where
  | inline (d : DentryArea) (ts : List Taken) (hdir : dir.inlineArea = some d)
      (hpos : 0 < d.max) (hmax : d.max < 2 ^ 32) (h : Listed d ts) :
      Lists dir (ts.flatMap Taken.emitted)
  | blocks (ts : Nat → List Taken) (hdir : dir.inlineArea = none)
      (h : ∀ n, n < dir.npages → BlockListed (dir.block n) (ts n)) :
      Lists dir ((blocksFrom ts dir.npages 0).flatMap Taken.emitted)

/-- What is left to emit from slot `b` of block `n`, with `k` blocks left. -/
def restFrom (ts : Nat → List Taken) : Nat → Nat → Nat → List Emitted
  | 0, _, _ => []
  | k + 1, n, b => emittedFrom (ts n) b ++ (blocksFrom ts k (n + 1)).flatMap Taken.emitted

theorem restFrom_zero (ts : Nat → List Taken) (k n : Nat) :
    restFrom ts k n 0 = (blocksFrom ts k n).flatMap Taken.emitted := by
  cases k with
  | zero => rfl
  | succ k => rw [restFrom, blocksFrom, emittedFrom_zero, List.flatMap_append]

/-- A position in a directory of blocks, and what is left to emit from there. -/
def AtBlock (dir : DirPages) (ts : Nat → List Taken) (pos : Nat) (rest : List Emitted) : Prop :=
  ∃ n b, pos = n * nrDentryInBlock + b ∧ b < nrDentryInBlock ∧ n ≤ dir.npages ∧
    Boundary Taken.pos Taken.slots (ts n) b ∧ rest = restFrom ts (dir.npages - n) n b

/-- A position in an inline directory. -/
def AtInline (d : DentryArea) (ts : List Taken) (pos : Nat) (rest : List Emitted) : Prop :=
  pos = d.max ∧ rest = [] ∨
    pos < d.max ∧ Boundary Taken.pos Taken.slots ts pos ∧ rest = emittedFrom ts pos

/-- What a walk does where `rest` is left: it emits the first of them, ends as it should, and
    leaves a position where the others are left. -/
def WalkLeaves (at_ : Nat → List Emitted → Prop) (env : CallEnv) (rest : List Emitted)
    (ctx : DirContext) (r : ReaddirResult) : Prop :=
  ∃ out rest', r.ctx.emitted = ctx.emitted ++ out ∧ rest = out ++ rest' ∧
    at_ r.ctx.pos rest' ∧ Ends env.accept r.ctx.emitted env.Disturbed r.ret rest'

section

variable {dir : DirPages} {env : CallEnv} {ts : Nat → List Taken}

/-- The loop over the blocks, from slot `b` of block `n`. -/
theorem readBlocks_listed (hdir : ∀ n, n < dir.npages → BlockListed (dir.block n) (ts n))
    (hfit : dir.npages * nrDentryInBlock < 2 ^ 32) {rounds n b k : Nat} {ctx : DirContext}
    (hn : n + k = dir.npages) (hb : b < nrDentryInBlock)
    (hbd : Boundary Taken.pos Taken.slots (ts n) b) (hpos : ctx.pos = n * nrDentryInBlock + b)
    (hrounds : k < rounds) :
    ∃ r, readBlocks dir env rounds n ctx = some r ∧
      WalkLeaves (AtBlock dir ts) env (restFrom ts k n b) ctx r := by
  induction rounds generalizing n b k ctx with
  | zero => omega
  | succ rounds ih =>
    have hat : AtBlock dir ts ctx.pos (restFrom ts k n b) :=
      ⟨n, b, hpos, hb, by omega, hbd, by rw [← hn, Nat.add_sub_cancel_left]⟩
    -- the walk may end where it is
    have hend : ∀ ret, Ends env.accept ctx.emitted env.Disturbed ret (restFrom ts k n b) →
        WalkLeaves (AtBlock dir ts) env (restFrom ts k n b) ctx ⟨ret, ctx⟩ := fun ret hret =>
      ⟨[], _, (List.append_nil _).symm, rfl, hat, hret⟩
    rw [readBlocks]
    by_cases hlt : n < dir.npages
    · rw [if_pos hlt]
      obtain ⟨k, rfl⟩ : ∃ k', k = k' + 1 := ⟨k - 1, by omega⟩
      simp only [nrDentryInBlock] at hfit hpos hb
      have hnext : u32 (n + 1) = n + 1 := u32_of_lt (by omega)
      -- the next block, once this one has emitted `out`
      have hgo : ∀ (out : List Emitted) (ctx' : DirContext), emittedFrom (ts n) b = out →
          ctx'.emitted = ctx.emitted ++ out → ∃ r,
            readBlocks dir env rounds (u32 (n + 1)) (ctx'.nextBlock n) = some r ∧
            WalkLeaves (AtBlock dir ts) env (restFrom ts (k + 1) n b) ctx r := by
        intro out ctx' hout hem
        have hpos' : (ctx'.nextBlock n).pos = (n + 1) * nrDentryInBlock + 0 := by
          rw [DirContext.nextBlock, hnext]
          exact u32_of_lt (by simp only [nrDentryInBlock]; omega)
        have hn' : n + 1 + k = dir.npages := by omega
        obtain ⟨r, hr, out', rest', hem', hrest, hat', hends⟩ := ih hn' (by decide) boundary_zero
          hpos' (by omega)
        rw [hnext]
        refine ⟨r, hr, out ++ out', rest', ?_, ?_, hat', hends⟩
        · rw [hem', DirContext.nextBlock, hem, List.append_assoc]
        · rw [restFrom, hout, ← restFrom_zero, hrest, List.append_assoc]
      by_cases hsig : env.fatalSignal n
      · rw [if_pos hsig]
        exact ⟨_, rfl, hend _ (.failed _ _ (Or.inl ⟨n, hsig⟩))⟩
      · rw [if_neg hsig]
        cases herr : env.readError n with
        | some err =>
          exact ⟨_, rfl, hend _ (.failed _ _ (Or.inr (Or.inr ⟨n, by rw [herr]; nofun⟩)))⟩
        | none =>
          have hblock := hdir n hlt
          cases hd : dir.block n with
          | none =>
            rw [hd] at hblock
            exact hgo [] ctx (by rw [hblock]; rfl) (List.append_nil _).symm
          | some d =>
            rw [hd] at hblock
            obtain ⟨hmax, hlist⟩ := hblock
            simp only [nrDentryInBlock] at hmax
            have hstart : u32 (n * nrDentryInBlock) = n * 214 :=
              u32_of_lt (by simp only [nrDentryInBlock]; omega)
            obtain ⟨r, hr, b', out, hbd', hpos', hem, hrest, hends⟩ := fillDentries_listed
              env.accept (n * 214) hlist (by omega) (by omega) hbd (hmax.symm ▸ hb) hpos
              (hmax.symm ▸ Nat.dvd_mul_left _ _)
            simp only [hstart, hr]
            generalize hret : r.ret = ret at hends
            generalize hleft : emittedFrom (ts n) b' = left at hends hrest
            cases hends with
            | done => exact hgo out r.ctx (by rw [hrest, List.append_nil]) hem
            | stopped e rest hacc =>
              have hb' : b' < 214 := by
                by_contra hno
                rw [hlist.emittedFrom_size (by omega)] at hleft
                cases hleft
              refine ⟨_, rfl, out, e :: (rest ++ (blocksFrom ts k (n + 1)).flatMap Taken.emitted),
                hem, ?_, ⟨n, b', hpos', hb', by omega, hbd', ?_⟩, .stopped e _ hacc⟩
              · rw [restFrom, hrest, List.append_assoc, List.cons_append]
              · rw [show dir.npages - n = k + 1 by omega, restFrom, hleft, List.cons_append]
            | failed err rest hno => exact hno.elim
    · rw [if_neg hlt]
      obtain rfl : k = 0 := by omega
      exact ⟨_, rfl, hend _ .done⟩

/-- `f2fs_read_inline_dir` at a position. -/
theorem f2fsReadInlineDir_listed {d : DentryArea} {ts : List Taken} (h : Listed d ts)
    (hmax : 0 < d.max) (hfit : d.max < 2 ^ 32) {ctx : DirContext} {rest : List Emitted}
    (hat : AtInline d ts ctx.pos rest) :
    ∃ r, f2fsReadInlineDir d env ctx = some r ∧ WalkLeaves (AtInline d ts) env rest ctx r := by
  have hnil : ctx.emitted = ctx.emitted ++ [] := (List.append_nil _).symm
  rw [f2fsReadInlineDir]
  by_cases hend : ctx.pos = d.max
  · rw [if_pos hend]
    have hrest : rest = [] := by
      rcases hat with ⟨-, hrest⟩ | ⟨hlt, -⟩
      · exact hrest
      · omega
    subst hrest
    exact ⟨_, rfl, [], [], hnil, rfl, hat, .done⟩
  · rw [if_neg hend]
    cases herr : env.inodePageError with
    | some err =>
      exact ⟨_, rfl, [], rest, hnil, rfl, hat,
        .failed _ _ (Or.inr (Or.inl (by rw [herr]; nofun)))⟩
    | none =>
      obtain ⟨hlt, hbd, rfl⟩ := hat.resolve_left fun hat => hend hat.1
      obtain ⟨r, hr, b', out, hbd', hpos', hem, hrest, hends⟩ := fillDentries_listed
        env.accept 0 h hmax (by omega) hbd hlt (Nat.zero_add _).symm (Nat.dvd_zero _)
      rw [Nat.zero_add] at hpos'
      simp only [hr]
      generalize hret : r.ret = ret at hends
      generalize hleft : emittedFrom ts b' = left at hends hrest
      cases hends with
      | done => exact ⟨_, rfl, out, [], hem, hrest, Or.inl ⟨rfl, rfl⟩, .done⟩
      | stopped e rest hacc =>
        have hb' : b' < d.max := by
          by_contra hno
          rw [h.emittedFrom_size (Nat.not_lt.mp hno)] at hleft
          cases hleft
        refine ⟨_, rfl, out, _, hem, hrest, Or.inr ⟨?_, ?_, ?_⟩, .stopped e rest hacc⟩
        · exact hpos' ▸ hb'
        · exact hpos' ▸ hbd'
        · exact hpos' ▸ hleft.symm
      | failed err rest hno => exact hno.elim

end

/-! ## Resuming -/

/-- The caller takes an entry if there is one. -/
def CallEnv.TakesOne (env : CallEnv) : Prop := ¬env.Disturbed ∧ ∀ e, env.accept [] e = true

/-- Calls from position 0 on, each from where the one before has stopped, emit what the
    directory lists, one after the other. -/
structure ResumesExactly (dir : DirPages) (listing : List Emitted) : Prop where
  /-- What calls have emitted is the first part of the listing, and one more call emits what
      comes next: all that is left, or up to the first entry it does not take. -/
  resumes : ∀ calls, ∃ emitted pos rest, readCalls dir calls 0 = some (emitted, pos) ∧
    listing = emitted ++ rest ∧ ∀ env, ∃ r rest', f2fsReaddir dir env pos = some r ∧
      rest = r.ctx.emitted ++ rest' ∧ Ends env.accept r.ctx.emitted env.Disturbed r.ret rest'
  /-- Calls that each take an entry come to the end, and a call after that emits nothing. -/
  finishes : ∀ calls, (∀ env ∈ calls, env.TakesOne) → listing.length ≤ calls.length →
    ∃ pos, readCalls dir calls 0 = some (listing, pos) ∧ ∀ env, ¬env.Disturbed →
      ∃ pos', f2fsReaddir dir env pos = some ⟨.done, pos', []⟩

/-- Every position of the directory is below 2^32. -/
def DirPages.PositionsFit (dir : DirPages) : Prop :=
  dir.inlineArea = none → dir.npages * nrDentryInBlock < 2 ^ 32

section

variable {dir : DirPages} {left : Nat → List Emitted → Prop}

/-- A call keeps track of what is left. -/
def CallKeeps (dir : DirPages) (left : Nat → List Emitted → Prop) : Prop :=
  ∀ env pos rest, left pos rest →
    ∃ r, f2fsReaddir dir env pos = some r ∧ WalkLeaves left env rest ⟨pos, []⟩ r

theorem callKeeps_inline {d : DentryArea} {ts : List Taken} (hdir : dir.inlineArea = some d)
    (hpos : 0 < d.max) (hmax : d.max < 2 ^ 32) (h : Listed d ts) :
    CallKeeps dir (AtInline d ts) := by
  intro env pos rest hat
  simp only [f2fsReaddir, hdir]
  exact f2fsReadInlineDir_listed h hpos hmax hat

theorem callKeeps_blocks {ts : Nat → List Taken} (hdir : dir.inlineArea = none)
    (h : ∀ n, n < dir.npages → BlockListed (dir.block n) (ts n))
    (hfit : dir.npages * nrDentryInBlock < 2 ^ 32) : CallKeeps dir (AtBlock dir ts) := by
  rintro env pos rest ⟨n, b, rfl, hb, hn, hbd, rfl⟩
  have hdiv : u32 ((n * nrDentryInBlock + b) / nrDentryInBlock) = n := by
    simp only [nrDentryInBlock] at *
    rw [show (n * 214 + b) / 214 = n by omega]
    exact u32_of_lt (by omega)
  simp only [f2fsReaddir, hdir, hdiv]
  exact readBlocks_listed h hfit (by omega) hb hbd rfl (by omega)

/-- An undisturbed call that takes an entry emits one, unless nothing is left. -/
theorem Ends.emits {env : CallEnv} {emitted rest : List Emitted} {ret : FillEnd}
    (henv : env.TakesOne) (h : Ends env.accept emitted env.Disturbed ret rest) :
    rest = [] ∨ 0 < emitted.length := by
  cases h with
  | done => exact Or.inl rfl
  | stopped e rest hacc =>
    refine Or.inr (List.length_pos_iff.mpr fun hnil => ?_)
    rw [hnil, henv.2 e] at hacc
    cases hacc
  | failed err rest hdis => exact absurd hdis henv.1

/-- Any number of calls. -/
theorem readCalls_keeps (hcall : CallKeeps dir left) (calls : List CallEnv) {pos : Nat}
    {rest : List Emitted} (h : left pos rest) :
    ∃ emitted pos' rest', readCalls dir calls pos = some (emitted, pos') ∧
      rest = emitted ++ rest' ∧ left pos' rest' ∧
      ((∀ env ∈ calls, env.TakesOne) → rest' = [] ∨ calls.length ≤ emitted.length) := by
  induction calls generalizing pos rest with
  | nil => exact ⟨[], pos, rest, rfl, rfl, h, fun _ => Or.inr (Nat.le_refl _)⟩
  | cons env calls ih =>
    obtain ⟨r, hr, out, rest', hem, hrest, hleft, hends⟩ := hcall env pos rest h
    obtain ⟨emitted, pos', rest'', hrun, hrest', hleft', htakes⟩ := ih hleft
    rw [List.nil_append] at hem
    refine ⟨out ++ emitted, pos', rest'', ?_, ?_, hleft', fun hall => ?_⟩
    · rw [readCalls, hr, Option.bind_eq_bind, Option.bind_some, hrun, hem]
      rfl
    · rw [hrest, hrest', List.append_assoc]
    · obtain ⟨henv, hall⟩ := List.forall_mem_cons.mp hall
      rcases hends.emits henv with hnil | hpos
      · rw [hnil] at hrest'
        exact Or.inl (List.append_eq_nil_iff.mp hrest'.symm).2
      · refine (htakes hall).imp_right fun hlen => ?_
        rw [hem] at hpos
        rw [List.length_append, List.length_cons]
        omega

theorem resumesExactly_of_keeps (hcall : CallKeeps dir left) {listing : List Emitted}
    (h : left 0 listing) : ResumesExactly dir listing where
  resumes := fun calls => by
    obtain ⟨emitted, pos, rest, hrun, hlist, hleft, -⟩ := readCalls_keeps hcall calls h
    refine ⟨emitted, pos, rest, hrun, hlist, fun env => ?_⟩
    obtain ⟨r, hr, out, rest', hem, hrest, -, hends⟩ := hcall env pos rest hleft
    exact ⟨r, rest', hr, by rw [hem]; exact hrest, hends⟩
  finishes := fun calls htakes hlen => by
    obtain ⟨emitted, pos, rest, hrun, hlist, hleft, hend⟩ := readCalls_keeps hcall calls h
    have hrest : rest = [] := by
      rcases hend htakes with hnil | hle
      · exact hnil
      · rw [hlist, List.length_append] at hlen
        exact List.length_eq_zero_iff.mp (by omega)
    subst hrest
    rw [List.append_nil] at hlist
    refine ⟨pos, hlist ▸ hrun, fun env hquiet => ?_⟩
    obtain ⟨⟨ret, pos', out⟩, hr, out', rest', hem, hrest, -, hends⟩ := hcall env pos [] hleft
    obtain ⟨rfl, rfl⟩ := List.append_eq_nil_iff.mp hrest.symm
    obtain rfl : out = [] := hem
    cases hends with
    | done => exact ⟨pos', hr⟩
    | failed err rest hdis => exact absurd hdis hquiet

/-- Repeated calls of `f2fs_readdir` on a well-formed directory whose positions fit. -/
theorem readdir_resumes (dir : DirPages) (listing : List Emitted) (h : dir.Lists listing)
    (hfit : dir.PositionsFit) : ResumesExactly dir listing := by
  cases h with
  | inline d ts hdir hpos hmax h =>
    refine resumesExactly_of_keeps (callKeeps_inline hdir hpos hmax h) (Or.inr ⟨hpos, ?_, ?_⟩)
    · exact boundary_zero
    · exact emittedFrom_zero.symm
  | blocks ts hdir h =>
    refine resumesExactly_of_keeps (callKeeps_blocks hdir h (hfit hdir))
      ⟨0, 0, rfl, by decide, Nat.zero_le _, boundary_zero, (restFrom_zero ts _ 0).symm⟩

end

/-! ## Positions that wrap -/

/-- An entry at the first slot of a block. -/
def firstEntry : LiveEntry := ⟨0, shortName, 5, 4, 0x81a4⟩

def emptyBlock : DentryArea where
  max := nrDentryInBlock
  bitmap := fun _ => false
  dentry := fun _ => ⟨0, 0, 0, 0⟩
  filename := fun _ => 0

def oneEntryBlock : DentryArea :=
  updateDentry firstEntry.ino firstEntry.mode emptyBlock firstEntry.name.name firstEntry.hash
    firstEntry.pos

/-- Only the last block of the directory is there, with one entry. -/
def lastBlockDir (last : Nat) : DirPages where
  inlineArea := none
  npages := last + 1
  block := fun n => if n = last then some oneEntryBlock else none

/-- A call that nothing disturbs, with room for every entry. -/
def takeAll : CallEnv where
  accept := fun _ _ => true
  fatalSignal := fun _ => false
  inodePageError := none
  readError := fun _ => none

theorem takeAll_takesOne : takeAll.TakesOne :=
  ⟨by rintro (⟨n, hn⟩ | hn | ⟨n, hn⟩) <;> simp [takeAll] at hn, fun _ => rfl⟩

theorem oneEntryBlock_listed : Listed oneEntryBlock [.entry firstEntry] :=
  ((recorded_empty fun _ _ => rfl).update (d := emptyBlock) (e := firstEntry)
    ⟨by decide, fun _ _ _ => rfl⟩).listed (List.Perm.refl _) (List.pairwise_singleton _ _)

theorem blocksFrom_last {ts : Nat → List Taken} {k n : Nat}
    (h : ∀ i, n ≤ i → i < n + k → ts i = []) : blocksFrom ts (k + 1) n = ts (n + k) := by
  induction k generalizing n with
  | zero => exact List.append_nil _
  | succ k ih =>
    rw [blocksFrom, h n (Nat.le_refl n) (by omega), ih fun i hlo hhi => h i (by omega) (by omega),
      List.nil_append, Nat.add_assoc, Nat.add_comm 1 k]

theorem lastBlockDir_lists (last : Nat) : (lastBlockDir last).Lists [firstEntry.emitted] := by
  let ts : Nat → List Taken := fun n => if n = last then [.entry firstEntry] else []
  have hblocks : ∀ n, n < (lastBlockDir last).npages →
      BlockListed ((lastBlockDir last).block n) (ts n) := fun n _ => by
    by_cases hn : n = last
    · simp only [lastBlockDir, ts, if_pos hn]
      exact ⟨rfl, oneEntryBlock_listed⟩
    · simp only [lastBlockDir, ts, if_neg hn]
      rfl
  have hts : blocksFrom ts (last + 1) 0 = [.entry firstEntry] :=
    (blocksFrom_last fun i _ hi => if_neg (by omega)).trans (if_pos (Nat.zero_add last))
  have hlist := DirPages.Lists.blocks ts rfl hblocks
  rw [show (lastBlockDir last).npages = last + 1 from rfl, hts] at hlist
  exact hlist

theorem lastBlock_resumes : ResumesExactly (lastBlockDir 1) [firstEntry.emitted] :=
  readdir_resumes (lastBlockDir 1) _ (lastBlockDir_lists 1) fun _ => by decide

/-- Past a block that is missing. -/
theorem readBlocks_step {dir : DirPages} {n rounds : Nat} {ctx : DirContext}
    (hlt : n < dir.npages) (hnone : dir.block n = none) (hfit : n + 1 < 2 ^ 32) :
    readBlocks dir takeAll (rounds + 1) n ctx = readBlocks dir takeAll rounds (n + 1)
      { ctx with pos := u32 ((n + 1) * nrDentryInBlock) } := by
  rw [readBlocks, if_pos hlt, hnone, DirContext.nextBlock, u32_of_lt hfit]
  rfl

theorem readBlocks_missing {dir : DirPages} (rounds : Nat) (ctx : DirContext) {k n : Nat}
    (hmissing : ∀ i, n ≤ i → i < n + (k + 1) → i < dir.npages ∧ dir.block i = none)
    (hfit : n + (k + 1) < 2 ^ 32) :
    readBlocks dir takeAll (rounds + (k + 1)) n ctx = readBlocks dir takeAll rounds (n + (k + 1))
      { ctx with pos := u32 ((n + (k + 1)) * nrDentryInBlock) } := by
  obtain ⟨hlt, hnone⟩ := hmissing n (Nat.le_refl n) (by omega)
  induction k generalizing n ctx with
  | zero => exact readBlocks_step hlt hnone hfit
  | succ k ih =>
    obtain ⟨hlt', hnone'⟩ := hmissing (n + 1) (by omega) (by omega)
    rw [← Nat.add_assoc rounds, readBlocks_step hlt hnone (by omega),
      ih _ (fun i hlo hhi => hmissing i (by omega) (by omega)) (by omega) hlt' hnone',
      show n + 1 + (k + 1) = n + (k + 1 + 1) by omega]

/-- The first slot of the block is behind the walk. -/
theorem oneEntryBlock_passed (startPos : Nat) {pos : Nat} (h : pos % nrDentryInBlock ≠ 0) :
    fillDentries oneEntryBlock plainName takeAll.accept startPos ⟨pos, []⟩ =
      some ⟨.done, ⟨pos, []⟩, []⟩ := by
  have hlt : pos % nrDentryInBlock < nrDentryInBlock := Nat.mod_lt _ (by decide)
  have hmax : oneEntryBlock.max = nrDentryInBlock := rfl
  have hnext : nrDentryInBlock ≤
      BitScan.next oneEntryBlock.bitmap nrDentryInBlock (pos % nrDentryInBlock) := by
    by_contra hno
    obtain ⟨hge, hset, -⟩ := BitScan.next_spec (Nat.not_le.mp hno)
    obtain ⟨t, ht, -, hhi⟩ := (oneEntryBlock_listed.tiled.covered _ (Nat.not_le.mp hno)).mp hset
    rw [List.mem_singleton.mp ht] at hhi
    have hone : Taken.pos (.entry firstEntry) + Taken.slots (.entry firstEntry) = 1 := by decide
    omega
  rw [fillDentries, if_neg (by decide), fillDentriesFrom, hmax, if_pos hlt]
  exact if_pos hnext

/-- Where the position of the last block wraps, its entry is left out. -/
theorem lastBlock_lost (last : Nat) (hpos : 0 < last) (hfit : last + 1 < 2 ^ 32)
    (hwrap : u32 (last * nrDentryInBlock) % nrDentryInBlock ≠ 0) :
    f2fsReaddir (lastBlockDir last) takeAll 0 =
      some ⟨.done, u32 ((last + 1) * nrDentryInBlock), []⟩ := by
  obtain ⟨k, rfl⟩ : ∃ k, last = k + 1 := ⟨last - 1, by omega⟩
  have hmissing : ∀ i, 0 ≤ i → i < 0 + (k + 1) →
      i < (lastBlockDir (k + 1)).npages ∧ (lastBlockDir (k + 1)).block i = none := fun i _ hi => by
    simp only [lastBlockDir]
    exact ⟨by omega, if_neg (by omega)⟩
  have hend : readBlocks (lastBlockDir (k + 1)) takeAll 2 (k + 1)
      ⟨u32 ((k + 1) * nrDentryInBlock), []⟩ =
        some ⟨.done, u32 ((k + 1 + 1) * nrDentryInBlock), []⟩ := by
    have hblock : (lastBlockDir (k + 1)).block (k + 1) = some oneEntryBlock := if_pos rfl
    have hin : k + 1 < (lastBlockDir (k + 1)).npages := Nat.lt_succ_self (k + 1)
    have hsig : takeAll.fatalSignal (k + 1) = false := rfl
    have hread : takeAll.readError (k + 1) = none := rfl
    have hfill := oneEntryBlock_passed (u32 ((k + 1) * nrDentryInBlock)) hwrap
    simp only [readBlocks, if_pos hin, hsig, hread, hblock, hfill, DirContext.nextBlock,
      u32_of_lt hfit]
    exact if_neg (Nat.lt_irrefl _)
  have hrun := readBlocks_missing 2 ⟨0, []⟩ hmissing (by omega)
  rw [Nat.zero_add, hend, show 2 + (k + 1) = k + 1 + 1 + 1 by omega] at hrun
  have hzero : u32 (0 / nrDentryInBlock) = 0 := u32_of_lt (by decide)
  rw [f2fsReaddir, hzero]
  exact hrun

/-- Block 20069941 begins at position 78 for the walk. -/
theorem wrappedDir_not_resumes :
    (lastBlockDir 20069941).Lists [firstEntry.emitted] ∧
      ¬ResumesExactly (lastBlockDir 20069941) [firstEntry.emitted] := by
  refine ⟨lastBlockDir_lists _, fun h => ?_⟩
  have hlost := lastBlock_lost 20069941 (by decide) (by decide) (by norm_num [u32])
  obtain ⟨pos, hrun, -⟩ := h.finishes [takeAll]
    (List.forall_mem_singleton.mpr takeAll_takesOne) (Nat.le_refl 1)
  rw [readCalls, hlost] at hrun
  cases hrun

end F2fs.Dir

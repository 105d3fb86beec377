/-
  What `find_target_dentry` and `f2fs_fill_dentries` touch in an area with any content.

  Both walks end, because every round moves on by a slot or more, and both look at entries
  of the area only.  The names are another matter: `name_len` is taken from the entry, and
  no walk compares it with the slots that are left.  Reading a directory may begin at any
  slot, so the walks stay inside the area if and only if no set bit belongs to an entry
  whose name runs over the end.
-/
import F2fs.Dir.Dentry

namespace F2fs.Dir

/-- An access inside the area. -/
def DirAccess.Inside (d : DentryArea) : DirAccess → Prop
  | .entry i => i < d.max
  | .name bitPos len => f2fsSlotLen * bitPos + len ≤ f2fsSlotLen * d.max

/-- The walks over the area end, and touch nothing outside it. -/
structure AreaContained (d : DentryArea) : Prop where
  find : ∀ namehash matchName, ∃ r, findTargetDentry d namehash matchName = some r ∧
    ∀ a ∈ r.trace, a.Inside d
  fill : ∀ toUsr accept startPos ctx, ∃ r, fillDentries d toUsr accept startPos ctx = some r ∧
    ∀ a ∈ r.trace, a.Inside d

/-- No entry whose bit is set has a name that runs over the end of the area. -/
def NamesFit (d : DentryArea) : Prop :=
  ∀ bitPos, bitPos < d.max → d.bitmap bitPos = true →
    f2fsSlotLen * bitPos + d.nameLenAt bitPos ≤ f2fsSlotLen * d.max

section

variable {d : DentryArea} {bitPos rounds : Nat}

theorem nameLenAt_ne_zero (h : (d.dentry bitPos).nameLen ≠ 0) : d.nameLenAt bitPos ≠ 0 :=
  fun hzero => h (UInt16.toNat_inj.mp hzero)

/-- An entry with a name takes a slot. -/
theorem slotsAt_pos (h : (d.dentry bitPos).nameLen ≠ 0) : 0 < d.slotsAt bitPos := by
  have hlen := nameLenAt_ne_zero h
  unfold DentryArea.slotsAt getDentrySlots f2fsSlotLen
  omega

theorem findResult_after {r : FindResult} {accesses : List DirAccess}
    (hacc : ∀ a ∈ accesses, a.Inside d) (hr : ∀ a ∈ r.trace, a.Inside d) :
    ∀ a ∈ (r.after accesses).trace, a.Inside d :=
  List.forall_mem_append.mpr ⟨hacc, hr⟩

theorem fillResult_after {r : FillResult} {accesses : List DirAccess}
    (hacc : ∀ a ∈ accesses, a.Inside d) (hr : ∀ a ∈ r.trace, a.Inside d) :
    ∀ a ∈ (r.after accesses).trace, a.Inside d :=
  List.forall_mem_append.mpr ⟨hacc, hr⟩

/-- An entry of the area and its name. -/
theorem accesses_inside (hfit : NamesFit d) (hlt : bitPos < d.max) (hbit : d.bitmap bitPos = true) :
    ∀ a ∈ [DirAccess.entry bitPos, .name bitPos (d.dentry bitPos).nameLen.toNat], a.Inside d := by
  intro a ha
  rcases List.mem_cons.mp ha with rfl | ha
  · exact hlt
  · obtain rfl := List.mem_singleton.mp ha
    exact hfit bitPos hlt hbit

theorem entry_inside (hlt : bitPos < d.max) : ∀ a ∈ [DirAccess.entry bitPos], a.Inside d := by
  intro a ha
  obtain rfl := List.mem_singleton.mp ha
  exact hlt

/-- As many rounds as there are slots left are enough. -/
theorem findTargetFrom_inside (hfit : NamesFit d) (namehash : UInt32) (matchName : Name → Bool)
    (maxLen maxSlots : Nat) (hpos : 0 < rounds) (hrounds : d.max < bitPos + rounds) :
    ∃ r, findTargetFrom d namehash matchName rounds bitPos maxLen maxSlots = some r ∧
      ∀ a ∈ r.trace, a.Inside d := by
  induction rounds generalizing bitPos maxLen maxSlots with
  | zero => exact absurd hpos (Nat.lt_irrefl 0)
  | succ rounds ih =>
    rw [findTargetFrom]
    by_cases hlt : bitPos < d.max
    · rw [if_pos hlt]
      by_cases hbit : d.bitmap bitPos = false
      · rw [if_pos hbit]
        exact ih _ _ (by omega) (by omega)
      · rw [if_neg hbit]
        have hset : d.bitmap bitPos = true := by simpa using hbit
        by_cases hname : (d.dentry bitPos).nameLen = 0
        · simp only [if_pos hname]
          obtain ⟨r, hr, hin⟩ :=
            ih maxLen maxSlots (by omega) (show d.max < bitPos + 1 + rounds by omega)
          exact ⟨_, by rw [hr]; rfl, findResult_after (entry_inside hlt) hin⟩
        · have hpos := slotsAt_pos hname
          obtain ⟨r, hr, hin⟩ := ih 0 (max maxSlots maxLen) (by omega)
            (show d.max < bitPos + d.slotsAt bitPos + rounds by omega)
          simp only [if_neg hname]
          by_cases hhash : (d.dentry bitPos).hashCode = namehash
          · rw [if_pos hhash]
            by_cases hmatch : matchName (d.nameAt bitPos (d.dentry bitPos).nameLen.toNat) = true
            · rw [if_pos hmatch]
              exact ⟨_, rfl, accesses_inside hfit hlt hset⟩
            · rw [if_neg hmatch]
              exact ⟨_, by rw [hr]; rfl, findResult_after (accesses_inside hfit hlt hset) hin⟩
          · rw [if_neg hhash]
            exact ⟨_, by rw [hr]; rfl, findResult_after (entry_inside hlt) hin⟩
    · rw [if_neg hlt]
      exact ⟨_, rfl, fun a ha => absurd ha List.not_mem_nil⟩

theorem fillDentriesFrom_inside (hfit : NamesFit d) (toUsr : UInt32 → Name → Except Nat Name)
    (accept : List Emitted → Emitted → Bool) (startPos : Nat) (ctx : DirContext)
    (hpos : 0 < rounds) (hrounds : d.max < bitPos + rounds) :
    ∃ r, fillDentriesFrom d toUsr accept startPos rounds bitPos ctx = some r ∧
      ∀ a ∈ r.trace, a.Inside d := by
  induction rounds generalizing bitPos ctx with
  | zero => exact absurd hpos (Nat.lt_irrefl 0)
  | succ rounds ih =>
    rw [fillDentriesFrom]
    by_cases hlt : bitPos < d.max
    · rw [if_pos hlt]
      generalize hnext : BitScan.next d.bitmap d.max bitPos = p
      simp only
      by_cases hend : p ≥ d.max
      · rw [if_pos hend]
        exact ⟨_, rfl, fun a ha => absurd ha List.not_mem_nil⟩
      · rw [if_neg hend]
        have hp : p < d.max := Nat.not_le.mp hend
        obtain ⟨hle, hset, -⟩ := BitScan.next_spec (hnext ▸ hp)
        rw [hnext] at hle hset
        by_cases hname : (d.dentry p).nameLen = 0
        · simp only [if_pos hname]
          obtain ⟨r, hr, hin⟩ := ih { ctx with pos := u32 (startPos + (p + 1)) } (by omega)
            (show d.max < p + 1 + rounds by omega)
          exact ⟨_, by rw [hr]; rfl, fillResult_after (entry_inside hp) hin⟩
        · have hslots := slotsAt_pos hname
          simp only [if_neg hname]
          cases toUsr (d.dentry p).hashCode (d.nameAt p (d.dentry p).nameLen.toNat) with
          | error err => exact ⟨_, rfl, accesses_inside hfit hp hset⟩
          | ok name =>
            by_cases haccept : accept ctx.emitted (d.emittedAt p name) = true
            · obtain ⟨r, hr, hin⟩ := ih ⟨u32 (startPos + (p + d.slotsAt p)),
                ctx.emitted ++ [d.emittedAt p name]⟩ (by omega)
                (show d.max < p + d.slotsAt p + rounds by omega)
              simp only [if_pos haccept]
              exact ⟨_, by rw [hr]; rfl, fillResult_after (accesses_inside hfit hp hset) hin⟩
            · simp only [if_neg haccept]
              exact ⟨_, rfl, accesses_inside hfit hp hset⟩
    · rw [if_neg hlt]
      exact ⟨_, rfl, fun a ha => absurd ha List.not_mem_nil⟩

/-- A call that begins at an entry hands its name on, whatever its length is. -/
theorem fillDentries_first {toUsr : UInt32 → Name → Except Nat Name}
    {accept : List Emitted → Emitted → Bool} {startPos : Nat} {ctx : DirContext} {r : FillResult}
    (hlt : bitPos < d.max) (hbit : d.bitmap bitPos = true) (hname : (d.dentry bitPos).nameLen ≠ 0)
    (hctx : ctx.pos = bitPos) (h : fillDentries d toUsr accept startPos ctx = some r) :
    .name bitPos (d.nameLenAt bitPos) ∈ r.trace := by
  have hmax : d.max ≠ 0 := by omega
  have hnext : BitScan.next d.bitmap d.max bitPos = bitPos := by
    have hle := BitScan.next_le_of_match (Nat.le_refl bitPos) hlt hbit
    exact Nat.le_antisymm hle (BitScan.next_spec (Nat.lt_of_le_of_lt hle hlt)).1
  rw [fillDentries, if_neg hmax, hctx, Nat.mod_eq_of_lt hlt, fillDentriesFrom, if_pos hlt, hnext,
    if_neg (Nat.not_le.mpr hlt)] at h
  simp only [if_neg hname] at h
  cases htoUsr : toUsr (d.dentry bitPos).hashCode
      (d.nameAt bitPos (d.dentry bitPos).nameLen.toNat) with
  | error err =>
    simp only [htoUsr] at h
    cases h
    exact List.mem_cons_of_mem _ List.mem_cons_self
  | ok name =>
    simp only [htoUsr] at h
    split_ifs at h with haccept
    · obtain ⟨r', -, rfl⟩ := Option.map_eq_some_iff.mp h
      exact List.mem_cons_of_mem _ List.mem_cons_self
    · cases h
      exact List.mem_cons_of_mem _ List.mem_cons_self

end

/-- The walks stay inside an area if and only if it has a slot and its names fit. -/
theorem areaContained_iff (d : DentryArea) : AreaContained d ↔ 0 < d.max ∧ NamesFit d := by
  constructor
  · intro h
    refine ⟨Nat.pos_of_ne_zero fun hmax => ?_, fun bitPos hlt hbit => ?_⟩
    · obtain ⟨r, hr, -⟩ := h.fill (fun _ name => .ok name) (fun _ _ => true) 0 ⟨0, []⟩
      rw [fillDentries, if_pos hmax] at hr
      cases hr
    · by_cases hname : (d.dentry bitPos).nameLen = 0
      · have hzero : d.nameLenAt bitPos = 0 := by rw [DentryArea.nameLenAt, hname]; rfl
        rw [hzero, Nat.add_zero]
        exact Nat.mul_le_mul_left _ hlt.le
      · obtain ⟨r, hr, hin⟩ := h.fill (fun _ name => .ok name) (fun _ _ => true) 0 ⟨bitPos, []⟩
        exact hin _ (fillDentries_first hlt hbit hname rfl hr)
  · rintro ⟨hmax, hfit⟩
    refine ⟨fun namehash matchName => ?_, fun toUsr accept startPos ctx => ?_⟩
    · exact findTargetFrom_inside hfit namehash matchName 0 0 (Nat.succ_pos _) (by omega)
    · rw [fillDentries, if_neg (Nat.ne_of_gt hmax)]
      exact fillDentriesFrom_inside hfit toUsr accept startPos ctx (Nat.succ_pos _) (by omega)

/-- A block whose last slot holds an entry with a name of 255 bytes. -/
def overlongBlock : DentryArea where
  max := nrDentryInBlock
  bitmap := fun i => decide (i = 213)
  dentry := fun _ => ⟨0, 4, 255, 1⟩
  filename := fun _ => 97

theorem overlongBlock_overread : ¬AreaContained overlongBlock := by
  intro h
  obtain ⟨r, hr, hin⟩ := h.fill (fun _ name => .ok name) (fun _ _ => true) 0 ⟨213, []⟩
  have hname : DirAccess.name 213 255 ∈ r.trace :=
    fillDentries_first (by decide) (by decide) (by decide) rfl hr
  exact absurd (hin _ hname) (by unfold DirAccess.Inside; decide)

end F2fs.Dir

/-
  A dentry area is a small map from hashes and names to entries.

  `live` lists what has been added and not been deleted.  `Recorded` says that the area
  holds just that: the runs of the live entries are the set bits, and each entry has its
  record and its name.  Adding keeps it because the new run is free, deleting because
  only the bits of one run are cleared, so stale records and names stay behind in slots
  whose bits are clear, where no walk looks.

  Names are not empty and fit `name_len`; the VFS sees to both.
-/
import F2fs.Dir.Dentry
import F2fs.Lib.SlotRuns

namespace F2fs.Dir

open SlotRuns

/-! ## Live entries -/

/-- A name of a directory entry. -/
structure FileName where
  name : Name
  nonempty : name ≠ []
  length_lt : name.length < 2 ^ 16
  deriving DecidableEq

/-- An entry that has been added at a slot. -/
structure LiveEntry where
  pos : Nat
  name : FileName
  hash : UInt32
  ino : UInt32
  mode : UInt16
  deriving DecidableEq

/-- The slots of the entry. -/
def LiveEntry.slots (e : LiveEntry) : Nat := getDentrySlots e.name.name.length

/-- The area holds the live entries, and no others. -/
structure Recorded (d : DentryArea) (live : List LiveEntry) : Prop where
  tiled : Tiled d.bitmap d.max LiveEntry.pos LiveEntry.slots live
  record : ∀ e ∈ live, d.dentry e.pos =
    ⟨e.hash, e.ino, UInt16.ofNat e.name.name.length, setDeType e.mode⟩
  name : ∀ e ∈ live, d.nameAt e.pos e.name.name.length = e.name.name

section

variable {d : DentryArea} {live : List LiveEntry} {e : LiveEntry}

theorem FileName.length_pos (n : FileName) : 0 < n.name.length :=
  List.length_pos_iff.mpr n.nonempty

theorem FileName.toNat_length (n : FileName) : (UInt16.ofNat n.name.length).toNat = n.name.length :=
  UInt16.toNat_ofNat_of_lt' n.length_lt

theorem LiveEntry.slots_pos (e : LiveEntry) : 0 < e.slots := by
  have hlen := e.name.length_pos
  unfold LiveEntry.slots getDentrySlots f2fsSlotLen
  omega

theorem le_slots (len : Nat) : len ≤ f2fsSlotLen * getDentrySlots len := by
  unfold getDentrySlots f2fsSlotLen
  omega

theorem Recorded.nameLenAt (h : Recorded d live) (he : e ∈ live) :
    d.nameLenAt e.pos = e.name.name.length := by
  rw [DentryArea.nameLenAt, h.record e he]
  exact e.name.toNat_length

theorem Recorded.slotsAt (h : Recorded d live) (he : e ∈ live) : d.slotsAt e.pos = e.slots := by
  rw [DentryArea.slotsAt, h.nameLenAt he, LiveEntry.slots]

theorem Recorded.nameLen_ne_zero (h : Recorded d live) (he : e ∈ live) :
    (d.dentry e.pos).nameLen ≠ 0 := by
  intro hzero
  have hlen := h.nameLenAt he
  rw [DentryArea.nameLenAt, hzero] at hlen
  exact absurd hlen (Nat.ne_of_lt e.name.length_pos)

theorem recorded_empty (h : ∀ i, i < d.max → d.bitmap i = false) : Recorded d [] where
  tiled := Tiled.nil h
  record := fun _ he => absurd he List.not_mem_nil
  name := fun _ he => absurd he List.not_mem_nil

/-! ## Adding and deleting -/

theorem nameAt_congr {d' : DentryArea} {bitPos len : Nat}
    (h : ∀ i, i < len → d.filename (f2fsSlotLen * bitPos + i) =
      d'.filename (f2fsSlotLen * bitPos + i)) : d.nameAt bitPos len = d'.nameAt bitPos len :=
  List.map_congr_left fun i hi => h i (List.mem_range.mp hi)

theorem nameAt_updateDentry (ino : UInt32) (mode : UInt16) (d : DentryArea) (name : Name)
    (nameHash : UInt32) (bitPos : Nat) :
    (updateDentry ino mode d name nameHash bitPos).nameAt bitPos name.length = name := by
  refine List.ext_getElem (by simp [DentryArea.nameAt]) fun i hi hi' => ?_
  have hin : f2fsSlotLen * bitPos ≤ f2fsSlotLen * bitPos + i ∧
      f2fsSlotLen * bitPos + i < f2fsSlotLen * bitPos + name.length := by omega
  simp only [DentryArea.nameAt, List.getElem_map, List.getElem_range, updateDentry, if_pos hin,
    Nat.add_sub_cancel_left]
  exact (List.getElem_eq_getD 0).symm

/-- The record of an added entry does not touch the others. -/
theorem updateDentry_apart {ino : UInt32} {mode : UInt16} {name : Name} {nameHash : UInt32}
    {bitPos pos len : Nat} (h : pos + getDentrySlots len ≤ bitPos ∨
      bitPos + getDentrySlots name.length ≤ pos) (hpos : 0 < getDentrySlots len)
    (hname : 0 < getDentrySlots name.length) :
    (updateDentry ino mode d name nameHash bitPos).dentry pos = d.dentry pos ∧
      (updateDentry ino mode d name nameHash bitPos).nameAt pos len = d.nameAt pos len := by
  constructor
  · show (if pos = bitPos then _ else if bitPos < pos ∧ _ then _ else d.dentry pos) = d.dentry pos
    rw [if_neg (by omega), if_neg (by omega)]
  · refine nameAt_congr fun i hi => ?_
    have hlen := le_slots len
    have hname' := le_slots name.length
    exact if_neg (by simp only [f2fsSlotLen] at *; omega)

/-- Adding an entry in a free run leaves the live ones as they are. -/
theorem Recorded.update_other (h : Recorded d live) (he : Fits d.bitmap d.max e.slots e.pos)
    {e' : LiveEntry} (he' : e' ∈ live) :
    (updateDentry e.ino e.mode d e.name.name e.hash e.pos).dentry e'.pos = d.dentry e'.pos ∧
      (updateDentry e.ino e.mode d e.name.name e.hash e.pos).nameAt e'.pos e'.name.name.length =
        d.nameAt e'.pos e'.name.name.length := by
  have hap : e'.pos + e'.slots ≤ e.pos ∨ e.pos + e.slots ≤ e'.pos := by
    have hfree := h.tiled.apart_free he' he.2
    have hpos := e.slots_pos
    omega
  exact updateDentry_apart hap.symm.symm e'.slots_pos e.slots_pos

/-- An entry added in a free run. -/
theorem Recorded.update (h : Recorded d live) (he : Fits d.bitmap d.max e.slots e.pos) :
    Recorded (updateDentry e.ino e.mode d e.name.name e.hash e.pos) (e :: live) where
  tiled := h.tiled.insert e.slots_pos he.1 he.2
  record := List.forall_mem_cons.mpr ⟨if_pos rfl, fun e' he' => by
    rw [(h.update_other he he').1]
    exact h.record e' he'⟩
  name := List.forall_mem_cons.mpr ⟨nameAt_updateDentry _ _ d _ _ _, fun e' he' => by
    rw [(h.update_other he he').2]
    exact h.name e' he'⟩

/-- A live entry deleted. -/
theorem Recorded.delete (h : Recorded d live) (he : e ∈ live) :
    Recorded (deleteEntry d e.pos) (live.filter (· ≠ e)) where
  tiled := by
    have hbits : (deleteEntry d e.pos).bitmap = fun i =>
        !decide (e.pos ≤ i ∧ i < e.pos + e.slots) && d.bitmap i := by
      unfold deleteEntry
      rw [h.slotsAt he]
    have herase := h.tiled.erase he
    rw [← hbits] at herase
    exact herase
  record := fun e' he' => h.record e' (List.mem_of_mem_filter he')
  name := fun e' he' => h.name e' (List.mem_of_mem_filter he')

/-! ## Finding -/

/-- What the walk for a hash and a name should say: an entry with both that is live, or that
    there is none, and then the longest free run. -/
def FindsLive (d : DentryArea) (live : List LiveEntry) (hash : UInt32) (name : Name) :
    Option Nat → Nat → Prop
  | some bitPos, _ => ∃ e ∈ live, e.pos = bitPos ∧ e.hash = hash ∧ e.name.name = name
  | none, maxSlots => (∀ e ∈ live, ¬(e.hash = hash ∧ e.name.name = name)) ∧
      Longest d.bitmap d.max maxSlots

variable {hash : UInt32} {name : Name} {bitPos maxLen maxSlots rounds : Nat}

/-- The walk from a boundary, with no wanted entry behind it. -/
theorem findTargetFrom_live (h : Recorded d live)
    (hb : Boundary LiveEntry.pos LiveEntry.slots live bitPos) (hle : bitPos ≤ d.max)
    (hscan : Scanned d.bitmap bitPos maxLen maxSlots)
    (hpast : ∀ e ∈ live, e.pos < bitPos → ¬(e.hash = hash ∧ e.name.name = name))
    (hpos : 0 < rounds) (hrounds : d.max < bitPos + rounds) :
    ∃ r, findTargetFrom d hash (plainMatch name) rounds bitPos maxLen maxSlots = some r ∧
      FindsLive d live hash name r.found r.maxSlots := by
  induction rounds generalizing bitPos maxLen maxSlots with
  | zero => exact absurd hpos (Nat.lt_irrefl 0)
  | succ rounds ih =>
    rw [findTargetFrom]
    by_cases hlt : bitPos < d.max
    · rw [if_pos hlt]
      by_cases hbit : d.bitmap bitPos = false
      · rw [if_pos hbit]
        refine ih (hb.next h.tiled hbit) hlt (hscan.free_slot hbit) (fun e he hlt' => ?_) (by omega)
          (by omega)
        refine hpast e he (Nat.lt_of_le_of_ne (Nat.le_of_lt_succ hlt') fun heq => ?_)
        have hset := h.tiled.taken he (Nat.le_refl e.pos) (Nat.lt_add_of_pos_right e.slots_pos)
        rw [heq, hbit] at hset
        cases hset
      · rw [if_neg hbit]
        obtain ⟨e, he, rfl, hnext⟩ := hb.thing h.tiled hlt (by simpa using hbit)
        have hpos' := e.slots_pos
        have hin := h.tiled.inside e he
        have hname := h.nameLen_ne_zero he
        have hscan' := hscan.taken e.slots_pos fun i hlo hhi => h.tiled.taken he hlo hhi
        -- the walk goes on behind the entry unless it is the wanted one
        have hgo : ¬(e.hash = hash ∧ e.name.name = name) →
            ∃ r, findTargetFrom d hash (plainMatch name) rounds (e.pos + e.slots) 0
                (max maxSlots maxLen) = some r ∧
              FindsLive d live hash name r.found r.maxSlots := by
          intro hno
          refine ih hnext hin hscan' (fun e' he' hlt' => ?_) (by omega) (by omega)
          rcases Nat.lt_or_ge e'.pos e.pos with hlt'' | hge
          · exact hpast e' he' hlt''
          · have hsame := h.tiled.eq_of_mem he he' ⟨hge, hlt'⟩
              ⟨Nat.le_refl _, Nat.lt_add_of_pos_right e'.slots_pos⟩
            exact hsame ▸ hno
        have hlen : (d.dentry e.pos).nameLen.toNat = e.name.name.length := h.nameLenAt he
        have hhash : (d.dentry e.pos).hashCode = e.hash := by rw [h.record e he]
        simp only [if_neg hname, h.slotsAt he, hlen, h.name e he, hhash]
        by_cases heq : e.hash = hash
        · rw [if_pos heq]
          by_cases hmatch : e.name.name = name
          · rw [if_pos (plainMatch_iff.mpr hmatch)]
            exact ⟨_, rfl, e, he, rfl, heq, hmatch⟩
          · obtain ⟨r, hr, hfinds⟩ := hgo fun hboth => hmatch hboth.2
            rw [if_neg (mt plainMatch_iff.mp hmatch)]
            exact ⟨r.after _, by rw [hr]; rfl, hfinds⟩
        · obtain ⟨r, hr, hfinds⟩ := hgo fun hboth => heq hboth.1
          rw [if_neg heq]
          exact ⟨r.after _, by rw [hr]; rfl, hfinds⟩
    · obtain rfl : bitPos = d.max := Nat.le_antisymm hle (Nat.not_lt.mp hlt)
      rw [if_neg hlt]
      refine ⟨_, rfl, fun e he => hpast e he (h.tiled.start_lt he), hscan.longest⟩

/-- The walk of `find_target_dentry` over an area. -/
theorem findTargetDentry_live (h : Recorded d live) (hash : UInt32) (name : Name) :
    ∃ r, findTargetDentry d hash (plainMatch name) = some r ∧
      FindsLive d live hash name r.found r.maxSlots :=
  findTargetFrom_live h boundary_zero (Nat.zero_le _) scanned_zero
    (fun _ _ hlt => absurd hlt (Nat.not_lt_zero _)) (Nat.succ_pos _) (by omega)

/-! ## Room for a name -/

/-- The position of the first free run that is long enough, or the capacity. -/
def FindsRoom (bitmap : Nat → Bool) (maxSlots slots bitPos : Nat) : Prop :=
  FirstFit bitmap maxSlots slots bitPos ∨
    bitPos = maxSlots ∧ ∀ q, ¬Fits bitmap maxSlots slots q

theorem roomFrom_spec {bitmap : Nat → Bool} {slots bitStart : Nat} (hslots : 0 < slots)
    (hno : ∀ q, q < bitStart → ¬Fits bitmap maxSlots slots q) (hpos : 0 < rounds)
    (hrounds : maxSlots < bitStart + rounds) :
    ∃ p, roomFrom bitmap slots maxSlots rounds bitStart = some p ∧
      FindsRoom bitmap maxSlots slots p := by
  induction rounds generalizing bitStart with
  | zero => exact absurd hpos (Nat.lt_irrefl 0)
  | succ rounds ih =>
    rw [roomFrom]
    generalize hz : BitScan.next (fun i => !bitmap i) maxSlots bitStart = zeroStart
    generalize he : BitScan.next bitmap maxSlots zeroStart = zeroEnd
    have hzle : zeroStart ≤ maxSlots := hz ▸ BitScan.next_le _ _ _
    have hele : zeroEnd ≤ maxSlots := he ▸ BitScan.next_le _ _ _
    -- up to the next clear bit every slot is taken
    have htaken : ∀ q, q < zeroStart → ¬Fits bitmap maxSlots slots q := by
      intro q hq
      rcases Nat.lt_or_ge q bitStart with hlt | hge
      · exact hno q hlt
      · refine not_fits_taken hslots ?_
        by_contra hclear
        have hnext := BitScan.next_le_of_match (p := fun i => !bitmap i) hge
          (Nat.lt_of_lt_of_le hq hzle) (by simpa using hclear)
        omega
    by_cases hzend : zeroStart ≥ maxSlots
    · simp only [if_pos hzend]
      refine ⟨_, rfl, Or.inr ⟨rfl, fun q hq => ?_⟩⟩
      have hin := hq.1
      exact htaken q (by omega) hq
    · simp only [if_neg hzend]
      obtain ⟨hge, hclear, -⟩ := BitScan.next_spec (hz ▸ Nat.not_le.mp hzend)
      rw [hz] at hge hclear
      have hfree : ∀ i, zeroStart ≤ i → i < zeroEnd → bitmap i = false := by
        intro i hlo hhi
        by_contra hset
        have hnext := BitScan.next_le_of_match (p := bitmap) hlo (Nat.lt_of_lt_of_le hhi hele)
          (by simpa using hset)
        omega
      have hrun : zeroStart ≤ zeroEnd := by
        rcases Nat.lt_or_eq_of_le hele with hlt | heq
        · exact he ▸ (BitScan.next_spec (he.symm ▸ hlt)).1
        · exact heq ▸ hzle
      by_cases hfit : zeroEnd - zeroStart ≥ slots
      · rw [if_pos hfit]
        exact ⟨_, rfl, Or.inl ⟨⟨by omega, fun i hlo hhi => hfree i hlo (by omega)⟩, htaken⟩⟩
      · rw [if_neg hfit]
        have hstop : zeroEnd < maxSlots → bitmap zeroEnd = true := fun hlt' =>
          he ▸ (BitScan.next_spec (he.symm ▸ hlt')).2.1
        have hbefore : ∀ q, q < zeroEnd + 1 → ¬Fits bitmap maxSlots slots q := by
          intro q hq
          rcases Nat.lt_or_ge q zeroStart with hlt' | hge'
          · exact htaken q hlt'
          · exact not_fits_short (Nat.le_of_lt_succ hq) (by omega) hstop
        by_cases hend : zeroEnd + 1 ≥ maxSlots
        · rw [if_pos hend]
          refine ⟨_, rfl, Or.inr ⟨rfl, fun q hq => ?_⟩⟩
          have hin := hq.1
          exact hbefore q (by omega) hq
        · rw [if_neg hend]
          exact ih hbefore (by omega) (by omega)

/-- `room_for_filename` over any bitmap. -/
theorem roomForFilename_spec (bitmap : Nat → Bool) (maxSlots : Nat) {slots : Nat}
    (hslots : 0 < slots) :
    ∃ p, roomForFilename bitmap slots maxSlots = some p ∧ FindsRoom bitmap maxSlots slots p :=
  roomFrom_spec hslots (fun _ hlt => absurd hlt (Nat.not_lt_zero _)) (Nat.succ_pos _) (by omega)

end

/-! ## Runs of operations -/

/-- An operation on the area: a name added where there is room, or the entry found for a
    name deleted. -/
inductive DentryOp where
  | add (name : FileName) (hash ino : UInt32) (mode : UInt16)
  | delete (hash : UInt32) (name : Name)

/-- An area, with what has been added to it and not been deleted. -/
structure DentryState where
  area : DentryArea
  live : List LiveEntry

/-- One operation; an entry that has no room is not added. -/
def DentryState.apply (s : DentryState) : DentryOp → DentryState
  | .add name hash ino mode =>
    match roomForFilename s.area.bitmap (getDentrySlots name.name.length) s.area.max with
    | none => s
    | some bitPos =>
      if bitPos < s.area.max then
        ⟨updateDentry ino mode s.area name.name hash bitPos,
          ⟨bitPos, name, hash, ino, mode⟩ :: s.live⟩
      else s
  | .delete hash name =>
    match (findTargetDentry s.area hash (plainMatch name)).bind FindResult.found with
    | none => s
    | some bitPos => ⟨deleteEntry s.area bitPos, s.live.filter (·.pos ≠ bitPos)⟩

/-- A sequence of operations. -/
def DentryState.run (s : DentryState) (ops : List DentryOp) : DentryState :=
  ops.foldl DentryState.apply s

section

variable {s : DentryState}

/-- An operation keeps the record. -/
theorem apply_recorded (h : Recorded s.area s.live) (op : DentryOp) :
    Recorded (s.apply op).area (s.apply op).live ∧ (s.apply op).area.max = s.area.max := by
  cases op with
  | add name hash ino mode =>
    have hslots := LiveEntry.slots_pos ⟨0, name, hash, ino, mode⟩
    obtain ⟨p, hp, hroom⟩ := roomForFilename_spec s.area.bitmap s.area.max hslots
    change roomForFilename s.area.bitmap (getDentrySlots name.name.length) s.area.max = some p at hp
    simp only [DentryState.apply, hp]
    by_cases hlt : p < s.area.max
    · rw [if_pos hlt]
      rcases hroom with hfirst | ⟨hend, -⟩
      · exact ⟨Recorded.update (e := ⟨p, name, hash, ino, mode⟩) h hfirst.1, rfl⟩
      · omega
    · rw [if_neg hlt]
      exact ⟨h, rfl⟩
  | delete hash name =>
    obtain ⟨r, hr, hfinds⟩ := findTargetDentry_live h hash name
    simp only [DentryState.apply, hr, Option.bind_some]
    cases hfound : r.found with
    | none => exact ⟨h, rfl⟩
    | some bitPos =>
      rw [hfound] at hfinds
      obtain ⟨e, he, rfl, -, -⟩ := hfinds
      have hfilter : s.live.filter (·.pos ≠ e.pos) = s.live.filter (· ≠ e) := by
        refine List.filter_congr fun e' he' => ?_
        rw [decide_eq_decide, not_iff_not]
        refine ⟨fun heq => ?_, fun heq => heq ▸ rfl⟩
        have hpos := e'.slots_pos
        exact h.tiled.eq_of_mem he' he ⟨heq.le, by omega⟩
          ⟨Nat.le_refl _, Nat.lt_add_of_pos_right e.slots_pos⟩
      simp only [hfilter]
      exact ⟨h.delete he, rfl⟩

theorem run_recorded (h : Recorded s.area s.live) (ops : List DentryOp) :
    Recorded (s.run ops).area (s.run ops).live ∧ (s.run ops).area.max = s.area.max := by
  induction ops generalizing s with
  | nil => exact ⟨h, rfl⟩
  | cons op ops ih =>
    obtain ⟨hrec, hmax⟩ := apply_recorded h op
    obtain ⟨hrec', hmax'⟩ := ih hrec
    exact ⟨hrec', hmax'.trans hmax⟩

end

/-- What the area after any sequence of operations is: a map. -/
structure IsMap (d : DentryArea) (live : List LiveEntry) : Prop where
  /-- live entries take disjoint runs of set bits, no other bit is set, and each has its
      record and name in the area -/
  recorded : Recorded d live
  find : ∀ hash name, ∃ r, findTargetDentry d hash (plainMatch name) = some r ∧
    FindsLive d live hash name r.found r.maxSlots
  room : ∀ slots, 0 < slots → ∃ p, roomForFilename d.bitmap slots d.max = some p ∧
    FindsRoom d.bitmap d.max slots p

/-- An area that starts empty is a map of the entries added and not deleted. -/
theorem dentryArea_isMap (d : DentryArea) (hempty : ∀ i, i < d.max → d.bitmap i = false)
    (ops : List DentryOp) :
    IsMap ((⟨d, []⟩ : DentryState).run ops).area ((⟨d, []⟩ : DentryState).run ops).live := by
  obtain ⟨hrec, -⟩ := run_recorded (s := ⟨d, []⟩) (recorded_empty hempty) ops
  exact ⟨hrec, findTargetDentry_live hrec, fun slots => roomForFilename_spec _ _⟩

/-- Three slots, of which two long names and a short one in turn take some. -/
def threeSlots : DentryArea where
  max := 3
  bitmap := fun _ => false
  dentry := fun _ => ⟨0, 0, 0, 0⟩
  filename := fun _ => 0

/-- A name of one byte and one of nine. -/
def shortName : FileName := ⟨[97], by decide, by decide⟩
def longName : FileName := ⟨List.replicate 9 98, by decide, by decide⟩

theorem threeSlots_isMap :
    let s := (⟨threeSlots, []⟩ : DentryState).run
      [.add longName 7 4 0x81a4, .delete 7 longName.name, .add shortName 5 5 0x81a4,
        .add longName 7 6 0x81a4]
    IsMap s.area s.live ∧ s.live.map (·.pos) = [1, 0] :=
  ⟨dentryArea_isMap threeSlots (fun _ _ => rfl) _, by decide⟩

end F2fs.Dir

/-
  When `ADDRS_PER_INODE` of an inode stays what it is.

  The size of the inline xattr area follows one rule at creation and another when the
  inode is read back, and a conversion changes what the second rule looks at without
  changing the size in memory.  Two operations make the difference: the conversion of
  an inline directory without inline xattrs on a volume without
  `flexible_inline_xattr`, and, on a volume with that feature but without extra
  attributes, an address in the slot that the size is read back from.
-/
import F2fs.Inode.Layout

namespace F2fs.Inode

open Node

/-! ## The condition -/

/-- The dentry blocks a conversion fills. -/
def dentryBlocks (inode : InodeInfo) (blocks : List Nat) : List Nat :=
  if inode.dirLevel = 0 then [0] else blocks

/-- The first address slot after an operation that stores addresses. -/
def Op.firstSlot (inode : InodeInfo) (ri : RawInode) : Op → Option Nat
  | .setBlkaddr idx blkaddr => some (if idx = 0 then blkaddr else ri.addr 0)
  | .convertData exist blkaddr => if exist then some blkaddr else none
  | .convertDir blocks =>
      let blocks := (dentryBlocks inode blocks).filter (· < inode.addrsPerInode)
      if blocks = [] then none
      else some (if ri.addr 0 = nullAddr ∧ 0 ∈ blocks then newAddr else ri.addr 0)
  | _ => none

/-- The operation does not convert an inline directory without inline xattrs where the
    size is fixed, and leaves the size intact where an address lies over it. -/
def KeepsLayout (sb : Features) (s : State) (op : Op) : Prop :=
  ∀ inode ri, s.mem = some inode → s.raw = some ri →
    (∀ blocks, op = .convertDir blocks →
      sb.flexibleInlineXattr = true ∨ inode.flags.inlineXattr = true) ∧
    (sb.flexibleInlineXattr = true → inode.flags.extraAttr = false →
      ∀ slot, op.firstSlot inode ri = some slot →
        slot / 2 ^ 16 % 2 ^ 16 = inode.inlineXattrSize)

/-! ## The invariant -/

/-- The inode has these features and this size. -/
structure InodeInfo.Has (sb : Features) (extra xattr : Bool) (size : Nat) (inode : InodeInfo) :
    Prop where
  extraAttr : inode.flags.extraAttr = extra
  inlineXattr : inode.flags.inlineXattr = xattr
  extraIsize : inode.extraIsize = if extra then f2fsTotalExtraAttrSize else 0
  xattrSize : inode.inlineXattrSize = size
  fixed : sb.flexibleInlineXattr = false →
    size = if xattr || inode.flags.inlineDentry then defaultInlineXattrAddrs else 0

/-- Its page has them too. -/
structure RawInode.Has (sb : Features) (extra xattr : Bool) (size : Nat) (ri : RawInode) :
    Prop where
  extraAttr : ri.inlineBits.extraAttr = extra
  inlineXattr : ri.inlineBits.inlineXattr = xattr
  extraIsize : extra = true → ri.extraIsize = f2fsTotalExtraAttrSize
  xattrSize : extra = true → sb.flexibleInlineXattr = true → ri.inlineXattrSize = size
  fixed : sb.flexibleInlineXattr = false →
    size = if xattr || ri.inlineBits.inlineDentry then defaultInlineXattrAddrs else 0

/-- The size lies in the first address slot. -/
def Overlaid (sb : Features) (extra : Bool) : Prop :=
  sb.flexibleInlineXattr = true ∧ extra = false

/-- The invariant of runs; `held` says that the inode has held an address. -/
structure Inv (sb : Features) (extra xattr : Bool) (size : Nat) (held : Prop) (s : State) :
    Prop where
  size_lt : size < 2 ^ 16
  mem : ∀ inode, s.mem = some inode → inode.Has sb extra xattr size
  raw : ∀ ri, s.raw = some ri → ri.Has sb extra xattr size
  slot : Overlaid sb extra → ∀ ri, s.raw = some ri → held ∨ ri.HoldsAddr →
    ri.inlineXattrSize = size
  raw_of_held : held → s.raw ≠ none

section

variable {sb : Features} {extra xattr : Bool} {size : Nat} {inode : InodeInfo} {ri : RawInode}

theorem addrsPerInode_eq (h : inode.Has sb extra xattr size) :
    inode.addrsPerInode =
      uint32 (923 - ((if extra then f2fsTotalExtraAttrSize else 0) / 4 : Nat) - size) := by
  unfold InodeInfo.addrsPerInode InodeInfo.getExtraIsize InodeInfo.getInlineXattrAddrs
  rw [h.extraIsize, h.xattrSize]
  rfl

theorem base_eq (h : inode.Has sb extra xattr size) :
    inode.base = if extra then 6 else 0 := by
  unfold InodeInfo.base InodeInfo.getExtraIsize
  rw [h.extraAttr, h.extraIsize]
  cases extra <;> rfl

/-- Reading the inode back gives what is in memory. -/
theorem has_doReadInode (h : ri.Has sb extra xattr size)
    (hslot : Overlaid sb extra → ri.inlineXattrSize = size) :
    (doReadInode sb ri).Has sb extra xattr size := by
  refine ⟨h.extraAttr, h.inlineXattr, ?_, ?_, h.fixed⟩
  · unfold doReadInode
    rw [h.extraAttr]
    cases extra with
    | true => exact h.extraIsize rfl
    | false => rfl
  · unfold doReadInode
    cases hflex : sb.flexibleInlineXattr with
    | false =>
        simp only [Bool.false_eq_true, if_false]
        rw [h.inlineXattr]
        exact (h.fixed hflex).symm
    | true =>
        cases extra with
        | true => exact h.xattrSize rfl hflex
        | false => exact hslot ⟨hflex, rfl⟩

theorem has_updateInode (hsize : size < 2 ^ 16) (h : inode.Has sb extra xattr size) :
    (updateInode sb inode ri).Has sb extra xattr size := by
  refine ⟨h.extraAttr, h.inlineXattr, ?_, ?_, h.fixed⟩
  · rintro rfl
    rw [(updateInode_sizes h.extraAttr).1, h.extraIsize]
    rfl
  · rintro rfl hflex
    rw [(updateInode_sizes h.extraAttr).2 hflex, h.xattrSize, Nat.mod_eq_of_lt hsize]

theorem has_f2fsNewInode (sb : Features) (opts : MountOpts) (mode : FileKind) (encrypted : Bool)
    (dirLevel : Nat) :
    ∃ size < 2 ^ 16, (f2fsNewInode sb opts mode encrypted dirLevel).Has sb sb.extraAttr
      opts.inlineXattr size := by
  have hopt := opts.inlineXattrSize_lt
  unfold defAddrsPerInode at hopt
  have hdef : defaultInlineXattrAddrs = 50 := rfl
  refine ⟨_, ?_, rfl, rfl, rfl, rfl, fun hflex => ?_⟩
  · unfold f2fsNewInode
    simp only
    repeat' split
    all_goals omega
  · unfold f2fsNewInode
    simp only [hflex, Bool.false_eq_true, if_false]

/-- The size does not depend on addresses behind the first slot, nor on the bits beside
    those it follows. -/
theorem RawInode.Has.congr {ri' : RawInode} (h : ri.Has sb extra xattr size)
    (hbits : ri'.inlineBits = ri.inlineBits) (hslot : extra = true → ri'.addr 0 = ri.addr 0) :
    ri'.Has sb extra xattr size := by
  refine ⟨hbits ▸ h.extraAttr, hbits ▸ h.inlineXattr, fun he => ?_, fun he hflex => ?_,
    fun hflex => hbits ▸ h.fixed hflex⟩
  · unfold RawInode.extraIsize
    rw [hslot he]
    exact h.extraIsize he
  · unfold RawInode.inlineXattrSize
    rw [hslot he]
    exact h.xattrSize he hflex

/-! ## One operation -/

variable {held : Prop} {s s' : State} {op : Op}

/-- An invariant state with both parts, from what is known of them. -/
theorem inv_mk (hsize : size < 2 ^ 16) (hm : inode.Has sb extra xattr size)
    (hr : ri.Has sb extra xattr size)
    (hslot : Overlaid sb extra → held ∨ ri.HoldsAddr → ri.inlineXattrSize = size) :
    Inv sb extra xattr size held ⟨some inode, some ri⟩ := by
  refine ⟨hsize, ?_, ?_, ?_, fun _ => Option.some_ne_none ri⟩
  · rintro _ ⟨⟩
    exact hm
  · rintro _ ⟨⟩
    exact hr
  · rintro hover _ ⟨⟩
    exact hslot hover

/-- What storing addresses needs to keep the invariant. -/
theorem inv_store {ri' : RawInode} {inode' : InodeInfo}
    (h : Inv sb extra xattr size held ⟨some inode, some ri⟩)
    (hm : inode'.Has sb extra xattr size) (hbits : ri'.inlineBits = ri.inlineBits)
    (hslot : 0 < inode.base → ri'.addr 0 = ri.addr 0)
    (hover : Overlaid sb extra → ri'.addr 0 / 2 ^ 16 % 2 ^ 16 = size) :
    Inv sb extra xattr size held ⟨some inode', some ri'⟩ := by
  have hbase := base_eq (h.mem inode rfl)
  refine inv_mk h.size_lt hm ((h.raw ri rfl).congr hbits fun he => hslot ?_)
    fun ho _ => hover ho
  rw [hbase, if_pos he]
  decide

/-- Storing one address. -/
theorem inv_setDataBlkaddr {idx blkaddr : Nat} {inode' : InodeInfo}
    (h : Inv sb extra xattr size held ⟨some inode, some ri⟩)
    (hm : inode'.Has sb extra xattr size)
    (hkeep : Overlaid sb extra →
      (if idx = 0 then blkaddr else ri.addr 0) / 2 ^ 16 % 2 ^ 16 = size) :
    Inv sb extra xattr size held ⟨some inode', some (setDataBlkaddr inode ri idx blkaddr)⟩ := by
  refine inv_store h hm rfl (fun hb => setDataBlkaddr_slot (by omega)) fun ho => ?_
  have hbase := base_eq (h.mem inode rfl)
  rw [ho.2, if_neg Bool.false_ne_true] at hbase
  have hk := hkeep ho
  by_cases hidx : idx = 0
  · rw [if_pos hidx] at hk
    rw [hidx]
    unfold setDataBlkaddr
    rw [hbase]
    exact hk
  · rw [if_neg hidx] at hk
    rw [setDataBlkaddr_slot (by omega)]
    exact hk

/-- The first slot after dentry blocks were reserved. -/
theorem foldl_reserveBlock_first (hb : inode.base = 0) (blocks : List Nat) (ri : RawInode) :
    (blocks.foldl (reserveBlock inode) ri).addr 0 =
      if ri.addr 0 = nullAddr ∧ 0 ∈ blocks.filter (· < inode.addrsPerInode) then newAddr
      else ri.addr 0 := by
  induction blocks generalizing ri with
  | nil => simp
  | cons idx blocks ih =>
      rw [List.foldl_cons, ih]
      unfold reserveBlock
      by_cases hres : idx < inode.addrsPerInode ∧ dataBlkaddr inode ri idx = nullAddr
      · rw [if_pos hres]
        by_cases hidx : idx = 0
        · subst hidx
          have hslot : (setDataBlkaddr inode ri 0 newAddr).addr 0 = newAddr := by
            unfold setDataBlkaddr
            rw [hb]
            exact Function.update_self (0 + 0) newAddr ri.addr
          have hnull : ri.addr 0 = nullAddr := by
            have h := hres.2
            unfold dataBlkaddr at h
            rwa [hb] at h
          rw [hslot, if_neg fun h => absurd h.1 (by decide), if_pos]
          refine ⟨hnull, ?_⟩
          simp [hres.1]
        · rw [setDataBlkaddr_slot (by omega)]
          simp [Ne.symm hidx]
      · rw [if_neg hres]
        by_cases hidx : idx = 0
        · subst hidx
          unfold dataBlkaddr at hres
          rw [hb] at hres
          by_cases hlt : 0 < inode.addrsPerInode
          · have hnull : ri.addr 0 ≠ nullAddr := fun h => hres ⟨hlt, h⟩
            rw [if_neg fun h => hnull h.1, if_neg fun h => hnull h.1]
          · simp [hlt]
        · simp [Ne.symm hidx]

theorem convertInlineDir_snd (inode : InodeInfo) (ri : RawInode) (blocks : List Nat) :
    (convertInlineDir inode ri blocks).2 =
      (dentryBlocks inode blocks).foldl (reserveBlock inode) ri := by
  unfold convertInlineDir dentryBlocks
  split <;> rfl

theorem foldl_reserveBlock_of_nil {blocks : List Nat}
    (h : blocks.filter (· < inode.addrsPerInode) = []) (ri : RawInode) :
    blocks.foldl (reserveBlock inode) ri = ri := by
  induction blocks with
  | nil => rfl
  | cons idx blocks ih =>
      rw [List.filter_eq_nil_iff] at h
      have hidx : ¬idx < inode.addrsPerInode := by simpa using h idx List.mem_cons_self
      rw [List.foldl_cons, reserveBlock, if_neg fun hh => hidx hh.1]
      exact ih (List.filter_eq_nil_iff.mpr fun i hi => h i (List.mem_cons_of_mem _ hi))

/-- A conversion of an inline directory. -/
theorem inv_convertInlineDir {blocks : List Nat}
    (h : Inv sb extra xattr size held ⟨some inode, some ri⟩)
    (hdir : sb.flexibleInlineXattr = true ∨ inode.flags.inlineXattr = true)
    (hkeep : Overlaid sb extra → ∀ slot, (Op.convertDir blocks).firstSlot inode ri = some slot →
      slot / 2 ^ 16 % 2 ^ 16 = size) :
    Inv sb extra xattr size held
      ⟨some (convertInlineDir inode ri blocks).1, some (convertInlineDir inode ri blocks).2⟩ := by
  have hm := h.mem inode rfl
  have hm' : (convertInlineDir inode ri blocks).1.Has sb extra xattr size := by
    rw [convertInlineDir_fst]
    refine ⟨hm.extraAttr, hm.inlineXattr, hm.extraIsize, hm.xattrSize, fun hflex => ?_⟩
    have hx : xattr = true := by
      obtain hf | hx := hdir
      · rw [hflex] at hf
        cases hf
      · exact hm.inlineXattr.symm.trans hx
    have hfix := hm.fixed hflex
    rw [hx] at hfix ⊢
    exact hfix
  by_cases hnil : (dentryBlocks inode blocks).filter (· < inode.addrsPerInode) = []
  · rw [convertInlineDir_snd, foldl_reserveBlock_of_nil hnil]
    exact inv_mk h.size_lt hm' (h.raw ri rfl) fun ho => h.slot ho ri rfl
  · refine inv_store h hm' (convertInlineDir_bits inode ri blocks)
      (fun hb => convertInlineDir_slot hb ri blocks) fun ho => hkeep ho _ ?_
    have hbase := base_eq hm
    rw [ho.2, if_neg Bool.false_ne_true] at hbase
    rw [convertInlineDir_snd, foldl_reserveBlock_first hbase]
    simp only [Op.firstSlot]
    rw [if_neg hnil]

theorem not_holdsAddr_new (inode : InodeInfo) (he : inode.flags.extraAttr = false) :
    ¬(updateInode sb inode newInodePage).HoldsAddr := by
  rintro ⟨slot, -, hne⟩
  rw [updateInode_addr he] at hne
  exact hne rfl

theorem holdsAddr_of_updateInode (he : inode.flags.extraAttr = false)
    (hr : ri.inlineBits.extraAttr = false) (h : (updateInode sb inode ri).HoldsAddr) :
    ri.HoldsAddr := by
  obtain ⟨slot, -, hne⟩ := h
  rw [updateInode_addr he] at hne
  refine ⟨slot, ?_, hne⟩
  rw [hr, if_neg Bool.false_ne_true]
  exact Nat.zero_le _

/-- Reading the inode back; an overlaid size changes if no address was ever there. -/
theorem inv_read (h : Inv sb extra xattr size held ⟨none, some ri⟩) :
    ∃ size', Inv sb extra xattr size' held ⟨some (doReadInode sb ri), some ri⟩ ∧
      (held ∨ ri.HoldsAddr → size' = size) := by
  have hr := h.raw ri rfl
  by_cases hslot : Overlaid sb extra → ri.inlineXattrSize = size
  · refine ⟨size, inv_mk h.size_lt (has_doReadInode hr hslot) hr fun ho => h.slot ho ri rfl,
      fun _ => rfl⟩
  · rw [Classical.not_imp] at hslot
    obtain ⟨hover, hne⟩ := hslot
    have hr' : ri.Has sb extra xattr ri.inlineXattrSize := by
      refine ⟨hr.extraAttr, hr.inlineXattr, hr.extraIsize, fun _ _ => rfl, fun hflex => ?_⟩
      rw [hover.1] at hflex
      cases hflex
    have hlt : ri.inlineXattrSize < 2 ^ 16 := Nat.mod_lt _ (by decide)
    exact ⟨ri.inlineXattrSize, inv_mk hlt (has_doReadInode hr' fun _ => rfl) hr' fun _ _ => rfl,
      fun hh => absurd (h.slot hover ri rfl hh) hne⟩

/-- One operation keeps the size, unless the inode has never held an address. -/
theorem inv_step (h : Inv sb extra xattr size held s) (hk : KeepsLayout sb s op)
    (hs : step sb s op = some s') :
    ∃ extra' xattr' size', Inv sb extra' xattr' size' held s' ∧
      (held ∨ s.HoldsAddr → extra' = extra ∧ size' = size) := by
  obtain ⟨mem, raw⟩ := s
  cases raw with
  | none =>
      have hnot : ¬(held ∨ State.HoldsAddr ⟨mem, none⟩) := by
        rintro (hh | ⟨ri, hri, -⟩)
        · exact h.raw_of_held hh rfl
        · cases hri
      cases mem with
      | none =>
          cases op with
          | create opts mode encrypted dirLevel =>
              cases hs
              obtain ⟨size', hlt, hhas⟩ := has_f2fsNewInode sb opts mode encrypted dirLevel
              refine ⟨sb.extraAttr, opts.inlineXattr, size',
                ⟨hlt, ?_, ?_, ?_, fun hh => absurd (.inl hh) hnot⟩,
                fun hh => absurd hh hnot⟩
              · rintro _ ⟨⟩
                exact hhas
              · rintro _ ⟨⟩
              · rintro - _ ⟨⟩
          | _ => cases hs
      | some inode =>
          cases op with
          | update =>
              cases hs
              have hm := h.mem inode rfl
              refine ⟨extra, xattr, size, inv_mk h.size_lt hm (has_updateInode h.size_lt hm)
                fun ho hh => ?_, fun hh => absurd hh hnot⟩
              obtain hh | hh := hh
              · exact absurd (.inl hh) hnot
              · exact absurd hh (not_holdsAddr_new inode (hm.extraAttr.trans ho.2))
          | _ => cases hs
  | some ri =>
      cases mem with
      | none =>
          cases op with
          | read =>
              cases hs
              obtain ⟨size', hinv, hsame⟩ := inv_read h
              refine ⟨extra, xattr, size', hinv, fun hh => ⟨rfl, hsame ?_⟩⟩
              obtain hh | ⟨_, ⟨⟩, hh⟩ := hh
              · exact .inl hh
              · exact .inr hh
          | _ => cases hs
      | some inode =>
          have hm := h.mem inode rfl
          obtain ⟨hdir, hslot⟩ := hk inode ri rfl rfl
          rw [hm.extraAttr, hm.xattrSize] at hslot
          refine ⟨extra, xattr, size, ?_, fun _ => ⟨rfl, rfl⟩⟩
          cases op with
          | create => cases hs
          | update =>
              cases hs
              refine inv_mk h.size_lt hm (has_updateInode h.size_lt hm) fun ho hh => ?_
              have he := hm.extraAttr.trans ho.2
              unfold RawInode.inlineXattrSize
              rw [updateInode_addr he]
              apply h.slot ho ri rfl
              obtain hh | hh := hh
              · exact .inl hh
              · exact .inr (holdsAddr_of_updateInode he
                  ((h.raw ri rfl).extraAttr.trans ho.2) hh)
          | setBlkaddr idx blkaddr =>
              simp only [step] at hs
              split at hs
              · cases hs
                exact inv_setDataBlkaddr h hm fun ho => hslot ho.1 ho.2 _ rfl
              · cases hs
          | convertData exist blkaddr =>
              simp only [step] at hs
              split at hs
              · cases hs
                have hm' : (convertInlinePage inode ri exist blkaddr).1.Has sb extra xattr size :=
                  ⟨hm.extraAttr, hm.inlineXattr, hm.extraIsize, hm.xattrSize, hm.fixed⟩
                cases exist with
                | true => exact inv_setDataBlkaddr h hm' fun ho => hslot ho.1 ho.2 _ rfl
                | false => exact inv_mk h.size_lt hm' (h.raw ri rfl) fun ho => h.slot ho ri rfl
              · cases hs
          | convertDir blocks =>
              simp only [step] at hs
              split at hs
              · cases hs
                exact inv_convertInlineDir h (hdir blocks rfl) fun ho => hslot ho.1 ho.2
              · cases hs
          | evict =>
              cases hs
              refine ⟨h.size_lt, ?_, h.raw, h.slot, h.raw_of_held⟩
              rintro _ ⟨⟩
          | read => cases hs

/-! ## Runs -/

theorem inv_start (sb : Features) : Inv sb false false 0 False State.start := by
  refine ⟨by decide, ?_, ?_, ?_, fun h => h.elim⟩
  · rintro _ ⟨⟩
  · rintro _ ⟨⟩
  · rintro - _ ⟨⟩

theorem inv_of_run (h : Run sb (KeepsLayout sb) State.start s) :
    ∃ extra xattr size, Inv sb extra xattr size False s := by
  induction h with
  | refl => exact ⟨false, false, 0, inv_start sb⟩
  | step _ _ hk hs ih =>
      obtain ⟨extra, xattr, size, hinv⟩ := ih
      obtain ⟨extra', xattr', size', hinv', -⟩ := inv_step hinv hk hs
      exact ⟨extra', xattr', size', hinv'⟩

/-- Once an address is held the size is settled. -/
theorem inv_held (h : Inv sb extra xattr size False s) (hs : s.HoldsAddr) :
    Inv sb extra xattr size True s := by
  obtain ⟨ri, hri, hheld⟩ := hs
  refine ⟨h.size_lt, h.mem, h.raw, fun ho ri' hri' _ => ?_, fun _ hnone => ?_⟩
  · obtain rfl := Option.some.inj (hri.symm.trans hri')
    exact h.slot ho ri hri (.inr hheld)
  · cases hri.symm.trans hnone

theorem inv_run_held (h : Inv sb extra xattr size True s)
    (hr : Run sb (KeepsLayout sb) s s') : ∃ xattr', Inv sb extra xattr' size True s' := by
  induction hr with
  | refl => exact ⟨xattr, h⟩
  | step _ _ hk hs ih =>
      obtain ⟨xattr₁, hinv⟩ := ih
      obtain ⟨extra', xattr', size', hinv', hsame⟩ := inv_step hinv hk hs
      obtain ⟨rfl, rfl⟩ := hsame (.inl trivial)
      exact ⟨xattr', hinv'⟩

theorem mem_layouts (h : Inv sb extra xattr size True s) {a : Nat} (ha : a ∈ s.layouts sb) :
    a = uint32 (923 - ((if extra then f2fsTotalExtraAttrSize else 0) / 4 : Nat) - size) := by
  unfold State.layouts at ha
  obtain ⟨inode, hin, rfl⟩ := List.mem_map.mp ha
  suffices hhas : inode.Has sb extra xattr size from addrsPerInode_eq hhas
  obtain hin | hin := List.mem_append.mp hin
  · exact h.mem inode (Option.mem_toList.mp hin)
  · obtain ⟨ri, hri, rfl⟩ := List.mem_map.mp hin
    have hri' := Option.mem_toList.mp hri
    exact has_doReadInode (h.raw ri hri') fun ho => h.slot ho ri hri' (.inl trivial)

end

/-- From the moment an inode holds a block address, `ADDRS_PER_INODE` keeps its value, in
    memory and as `do_read_inode` computes it, and with it the place of every block. -/
theorem layout_stable (sb : Features) {s s' : State}
    (h : Run sb (KeepsLayout sb) State.start s) (hs : s.HoldsAddr)
    (h' : Run sb (KeepsLayout sb) s s') :
    ∀ a ∈ s.layouts sb, ∀ a' ∈ s'.layouts sb,
      a' = a ∧ ∀ block, getNodePath a' block = getNodePath a block := by
  obtain ⟨extra, xattr, size, hinv⟩ := inv_of_run h
  have hheld := inv_held hinv hs
  obtain ⟨xattr', hinv'⟩ := inv_run_held hheld h'
  intro a ha a' ha'
  obtain rfl : a' = a := (mem_layouts hinv' ha').trans (mem_layouts hheld ha).symm
  exact ⟨rfl, fun _ => rfl⟩

/-! ## A directory -/

/-- Inline dentries, and inline xattrs or not. -/
def dentryOpts (xattr : Bool) : MountOpts where
  inlineXattr := xattr
  inlineData := false
  inlineDentry := true
  inlineXattrSize := 50
  inlineXattrSize_lt := by decide

/-- A volume without either feature. -/
def plainSb : Features := ⟨false, false⟩

theorem keepsLayout_plain {s : State} {op : Op}
    (h : ∀ inode, s.mem = some inode → inode.flags.inlineXattr = true) :
    KeepsLayout plainSb s op :=
  fun inode _ hm _ => ⟨fun _ _ => .inr (h inode hm), fun hflex => absurd hflex (by decide)⟩

/-- A directory after its creation and `update_inode`, and after its conversion. -/
def newDir (xattr : Bool) : InodeInfo × RawInode :=
  let inode := f2fsNewInode plainSb (dentryOpts xattr) .directory false 0
  (inode, updateInode plainSb inode newInodePage)

def convertedDir (xattr : Bool) : InodeInfo × RawInode :=
  convertInlineDir (newDir xattr).1 (newDir xattr).2 []

/-- Both parts in memory. -/
def inMemory (p : InodeInfo × RawInode) : State := ⟨some p.1, some p.2⟩

/-- The page after `update_inode`, and the inode read back from it. -/
def rereadDir (xattr : Bool) : State :=
  let ri := updateInode plainSb (convertedDir xattr).1 (convertedDir xattr).2
  ⟨some (doReadInode plainSb ri), some ri⟩

theorem run_convertedDir {P : State → Op → Prop} (xattr : Bool)
    (hcreate : P State.start (.create (dentryOpts xattr) .directory false 0))
    (hupdate : P ⟨some (newDir xattr).1, none⟩ .update)
    (hconvert : P (inMemory (newDir xattr)) (.convertDir [])) :
    Run plainSb P State.start (inMemory (convertedDir xattr)) := by
  have h₀ : Run plainSb P State.start State.start := .refl _
  have h₁ := Run.step _ h₀ hcreate rfl
  have h₂ := Run.step _ h₁ hupdate rfl
  exact Run.step _ h₂ hconvert rfl

theorem holdsAddr_convertedDir (xattr : Bool) : (inMemory (convertedDir xattr)).HoldsAddr := by
  refine ⟨_, rfl, 0, ?_, ?_⟩
  · cases xattr <;> decide +kernel
  · cases xattr <;> decide +kernel

/-- A directory with inline xattrs keeps its 873 addresses over conversion and eviction. -/
theorem xattrDir_stable : ∃ a a', a ∈ (inMemory (convertedDir true)).layouts plainSb ∧
    a' ∈ (rereadDir true).layouts plainSb ∧ a = 873 ∧ a' = a ∧
      getNodePath a' 900 = getNodePath a 900 := by
  have hrun : Run plainSb (KeepsLayout plainSb) State.start (inMemory (convertedDir true)) := by
    apply run_convertedDir
    · exact keepsLayout_plain fun _ => by rintro ⟨⟩
    · exact keepsLayout_plain fun _ => by rintro ⟨⟩; rfl
    · exact keepsLayout_plain fun _ => by rintro ⟨⟩; rfl
  have hrun' : Run plainSb (KeepsLayout plainSb) (inMemory (convertedDir true))
      (rereadDir true) := by
    have h₀ : Run plainSb (KeepsLayout plainSb) (inMemory (convertedDir true)) _ := .refl _
    have h₁ := Run.step .update h₀
      (keepsLayout_plain fun _ => by rintro ⟨⟩; rfl) rfl
    have h₂ := Run.step .evict h₁ (keepsLayout_plain fun _ => by rintro ⟨⟩; rfl) rfl
    exact Run.step .read h₂ (keepsLayout_plain fun _ => by rintro ⟨⟩) rfl
  have ha : 873 ∈ (inMemory (convertedDir true)).layouts plainSb := by decide +kernel
  have ha' : 873 ∈ (rereadDir true).layouts plainSb := by decide +kernel
  obtain ⟨heq, hpath⟩ :=
    layout_stable plainSb hrun (holdsAddr_convertedDir true) hrun' 873 ha 873 ha'
  exact ⟨873, 873, ha, ha', rfl, heq, hpath 900⟩

/-- A directory without inline xattrs is converted: in memory its inode keeps 873
    addresses, read back it has 923. -/
theorem convertedDir_moves :
    Run plainSb (fun _ _ => True) State.start (inMemory (convertedDir false)) ∧
      (inMemory (convertedDir false)).HoldsAddr ∧
      Run plainSb (fun _ _ => True) (inMemory (convertedDir false)) (rereadDir false) ∧
      (inMemory (convertedDir false)).mem.map InodeInfo.addrsPerInode = some 873 ∧
      (rereadDir false).mem.map InodeInfo.addrsPerInode = some 923 := by
  refine ⟨run_convertedDir false trivial trivial trivial, holdsAddr_convertedDir false, ?_, ?_,
    ?_⟩
  · have h₀ : Run plainSb (fun _ _ => True) (inMemory (convertedDir false)) _ := .refl _
    have h₁ := Run.step .update h₀ trivial rfl
    have h₂ := Run.step .evict h₁ trivial rfl
    exact Run.step .read h₂ trivial rfl
  · decide +kernel
  · decide +kernel

end F2fs.Inode

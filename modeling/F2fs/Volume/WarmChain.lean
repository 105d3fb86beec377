/-
  The chain of warm nodes.

  `fill_node_footer_blkaddr` stores in each node block where its log goes on.  Between two
  checkpoints the footers lead from where the log of warm nodes stood to where it stands now,
  through every block that was written there: `update_sit_entry` keeps such a block in the map of
  the last checkpoint, so that no log takes it again even when it is invalidated.
-/
import F2fs.Volume.Runs
import F2fs.Recovery.NodeLog

namespace F2fs.Volume

open F2fs.Segment F2fs.Gc F2fs.Recovery

/-! ## Between two checkpoints -/

/-- `do_write_page` puts a page on the block `addr`. -/
def Writes {α : Type} (sm : SmInfo) (v : Mounted α) (type : CursegType) (sum : SumEntry)
    (addr : Nat) (segs : SegManager) : Prop :=
  ∃ g fuel needSSR crcRecovery now oldBlkaddr, OldBlock sm v.segs.sit oldBlkaddr ∧
    SumFits type sum ∧ g.segs = v.segs.writeNext sm type now oldBlkaddr sum ∧
    (∀ mode, max (g.lastVictim mode) sm.mainSegments + 1 + sm.mainSegments < fuel) ∧
    v.segs.allocateDataBlock sm (victimPolicy sm fuel g type needSSR crcRecovery) now oldBlkaddr
      sum type = some (addr, segs)

/-- The page as it is written; of a data page the footer means nothing. -/
def footed (sm : SmInfo) (cp : CurCp) (segs : SegManager) (type : CursegType) (page : NodeFooter) :
    NodeFooter :=
  if type.isNodeSeg then fillNodeFooterBlkaddr cp page (segs.nextFreeBlkaddr sm type) else page

/-- The block `addr` holds `b`, and the tables are as the write left them. -/
def Mounted.put {α : Type} (v : Mounted α) (segs : SegManager) (addr : Nat) (b : Block α) :
    Mounted α :=
  { v with segs := segs, dev := { v.dev with blocks := Function.update v.dev.blocks addr b } }

/-- The steps between two checkpoints, with the blocks that the log of warm nodes took, the last
    one first. -/
inductive Session (sm : SmInfo) (cp : CurCp) (v₀ : Mounted NodeFooter) :
    List Nat → Mounted NodeFooter → Prop
  | start : Session sm cp v₀ [] v₀
  | write {l : List Nat} {v : Mounted NodeFooter} (hv : Session sm cp v₀ l v) (type : CursegType)
      (sum : SumEntry) (page : NodeFooter) (addr : Nat) (segs : SegManager)
      (h : Writes sm v type sum addr segs) :
      Session sm cp v₀ (if type = .warmNode then addr :: l else l)
        (v.put segs addr ⟨sum, type.isNodeSeg, footed sm cp segs type page⟩)
  | invalidate {l : List Nat} {v : Mounted NodeFooter} (hv : Session sm cp v₀ l v) (now addr : Nat)
      (haddr : addr = newAddr ∨ ValidAt sm v.segs.sit addr) :
      Session sm cp v₀ l { v with segs := invalidateBlocks sm now addr v.segs }
  | newSegments {l : List Nat} {v : Mounted NodeFooter} (hv : Session sm cp v₀ l v)
      (p : SegManager.AllocPolicy) (segs : SegManager)
      (h : allocateNewSegments sm p v.segs = some segs) :
      Session sm cp v₀ l { v with segs := segs }
  | mark {l : List Nat} {v : Mounted NodeFooter} (hv : Session sm cp v₀ l v) (secs : Finset Nat)
      (lastVictim : Nat) (hsecs : secs ⊆ Finset.range sm.totalSections) :
      Session sm cp v₀ l { v with
        segs := { v.segs with
          dirty := { v.segs.dirty with victimSecmap := secs }
          lastVictim := lastVictim } }
  | writeSum {l : List Nat} {v : Mounted NodeFooter} (hv : Session sm cp v₀ l v) (segno : Nat) :
      Session sm cp v₀ l { v with
        dev := { v.dev with ssa := Function.update v.dev.ssa segno (v.segs.ssa segno) } }

/-- Following `next` from `start` goes through `l`, the last one first, and ends at `stop`. -/
inductive Chained (next : Nat → Nat) (start : Nat) : List Nat → Nat → Prop
  | nil : Chained next start [] start
  | snoc {l : List Nat} {a : Nat} (h : Chained next start l a) :
      Chained next start (a :: l) (next a)

theorem Chained.congr {next next' : Nat → Nat} {start stop : Nat} {l : List Nat}
    (h : Chained next start l stop) (hsame : ∀ a ∈ l, next' a = next a) :
    Chained next' start l stop := by
  induction h with
  | nil => exact .nil
  | @snoc l a h ih =>
    rw [← hsame a List.mem_cons_self]
    exact .snoc (ih fun b hb => hsame b (List.mem_cons_of_mem _ hb))

section

variable {sm : SmInfo} {type : CursegType} {sum : SumEntry} {addr : Nat} {segs : SegManager}

/-! ## One write -/

/-- The block is in the map of the last checkpoint. -/
def Kept (sm : SmInfo) (sit : SitInfo) (addr : Nat) : Prop :=
  getBlkoff sm addr ∈ (sit.sentries (getSegno sm addr)).ckptValidMap

/-- `update_sit_entry` keeps the block of a warm node. -/
theorem kept_writeNext {s : SegManager} {now oldBlkaddr : Nat} (h : SegManager.Books sm s)
    (hold : OldBlock sm s.sit oldBlkaddr) (hroom : s.HasRoom .warmNode)
    (htype : (s.sit.sentries (s.curseg .warmNode).segno).type.val = CursegType.warmNode.idx) :
    Kept sm (s.writeNext sm .warmNode now oldBlkaddr sum).sit (s.nextFreeBlkaddr sm .warmNode) := by
  have hset : Kept sm (s.sit.updateSitEntry sm now (s.nextFreeBlkaddr sm .warmNode) true)
      (s.nextFreeBlkaddr sm .warmNode) := by
    unfold Kept
    rw [updateSitEntry_sentries, Function.update_self, updated, update_ckptValidMap,
      if_pos ⟨rfl, by rw [(nextFree_inMain h hroom).2.1]; exact htype⟩]
    exact Finset.mem_insert_self _ _
  rw [writeNext_sit_def]
  split
  case isTrue hne =>
    exact (touches_updateSitEntry now (hold.null_or.resolve_left hne).1 false).ckpt _ hset
  case isFalse => exact hset

/-- What a write does: it takes the next block of its log, which is none of those that are
    kept. -/
structure Written {α : Type} (sm : SmInfo) (v : Mounted α) (type : CursegType) (sum : SumEntry)
    (addr : Nat) (segs : SegManager) : Prop where
  addr_eq : addr = v.segs.nextFreeBlkaddr sm type
  inMain : InMain sm addr
  free : ¬Kept sm v.segs.sit addr
  kept : ∀ a, Kept sm v.segs.sit a → Kept sm segs.sit a
  warm : type = .warmNode → Kept sm segs.sit addr
  other : type ≠ .warmNode → segs.curseg .warmNode = v.segs.curseg .warmNode
  sound : ∀ data, Sound sm (v.put segs addr ⟨sum, type.isNodeSeg, data⟩)

theorem Writes.written {α : Type} {v : Mounted α} (h : Sound sm v)
    (hw : Writes sm v type sum addr segs) : Written sm v type sum addr segs := by
  obtain ⟨g, fuel, needSSR, crcRecovery, now, old, hold, hsum, hg, hfuel, heq⟩ := hw
  obtain ⟨u, ha, hsegs⟩ := h.write_steps hold hg hfuel heq
  have hw := ha.located h.books hold hsegs
  obtain ⟨hlogs, hsit, -, -⟩ :=
    locate_same sm u (getSegno sm old) (v.segs.curseg type).segno
  rw [← hsegs] at hlogs hsit
  refine ⟨ha.addr_eq, hw.inMain, fun hc => ?_, fun a hk => hw.touches.ckpt _ hk, ?_, fun hne => ?_,
    fun data => h.write hold hsum data ha hsegs⟩
  · obtain ⟨offset, hoff, hnot⟩ := hw.free
    obtain rfl := Fin.ext hoff
    exact hnot (Finset.mem_union_left _ hc)
  · rintro rfl
    have hnext : Kept sm (v.segs.writeNext sm .warmNode now old sum).sit
        (v.segs.nextFreeBlkaddr sm .warmNode) :=
      kept_writeNext h.books.toBooks hold (h.books.rooms .warmNode).room (h.sums.types .warmNode)
    rw [ha.addr_eq, Kept, hsit]
    rcases ha.turn with rfl | ⟨m, hturn⟩
    · exact hnext
    · exact hturn.touches.ckpt _ hnext
  · rw [hlogs]
    rcases ha.turn with rfl | ⟨m, hturn⟩
    · exact (SegManager.writeNext_log .warmNode).2.2 hne.symm
    · rw [hturn.moved.other _ hne.symm]
      exact (SegManager.writeNext_log .warmNode).2.2 hne.symm

/-! ## Every run -/

theorem nextFreeBlkaddr_congr {s s' : SegManager} (h : s'.curseg type = s.curseg type) :
    s'.nextFreeBlkaddr sm type = s.nextFreeBlkaddr sm type := by
  unfold SegManager.nextFreeBlkaddr
  rw [h]

/-- What holds of the blocks `l` that the log of warm nodes took since `v₀`. -/
structure WarmChain (sm : SmInfo) (cp : CurCp) (v₀ v : Mounted NodeFooter) (l : List Nat) :
    Prop where
  sound : Sound sm v
  chain : Chained (fun a => (v.dev.blocks a).data.nextBlkaddr)
    (v₀.segs.nextFreeBlkaddr sm .warmNode) l (v.segs.nextFreeBlkaddr sm .warmNode)
  nodup : l.Nodup
  kept : ∀ a ∈ l, Kept sm v.segs.sit a
  mine : ∀ a ∈ l, InMain sm a ∧ isRecoverableDnode cp (v.dev.blocks a).data = true

variable {cp : CurCp} {v₀ v : Mounted NodeFooter} {l : List Nat}

/-- A step that writes nothing and leaves the log alone. -/
theorem WarmChain.quiet (h : WarmChain sm cp v₀ v l) {v' : Mounted NodeFooter}
    (hsound : Sound sm v') (hblocks : v'.dev.blocks = v.dev.blocks)
    (hlog : v'.segs.curseg .warmNode = v.segs.curseg .warmNode)
    (hkept : ∀ k, (v.segs.sit.sentries k).ckptValidMap ⊆ (v'.segs.sit.sentries k).ckptValidMap) :
    WarmChain sm cp v₀ v' l := by
  refine ⟨hsound, ?_, h.nodup, fun a ha => hkept _ (h.kept a ha), ?_⟩
  · rw [hblocks, nextFreeBlkaddr_congr hlog]
    exact h.chain
  · rw [hblocks]
    exact h.mine

theorem WarmChain.write (h : WarmChain sm cp v₀ v l) (page : NodeFooter)
    (hw : Written sm v type sum addr segs) :
    WarmChain sm cp v₀ (v.put segs addr ⟨sum, type.isNodeSeg, footed sm cp segs type page⟩)
      (if type = .warmNode then addr :: l else l) := by
  set b : Block NodeFooter := ⟨sum, type.isNodeSeg, footed sm cp segs type page⟩ with hb
  have hnot : addr ∉ l := fun hc => hw.free (h.kept addr hc)
  have hsame : ∀ a ∈ l, Function.update v.dev.blocks addr b a = v.dev.blocks a := by
    intro a ha
    refine Function.update_of_ne ?_ _ _
    rintro rfl
    exact hnot ha
  have hkept : ∀ a ∈ l, Kept sm segs.sit a := fun a ha => hw.kept a (h.kept a ha)
  have hmine : ∀ a ∈ l, InMain sm a ∧
      isRecoverableDnode cp (Function.update v.dev.blocks addr b a).data = true := by
    intro a ha
    rw [hsame a ha]
    exact h.mine a ha
  have hchain : Chained (fun a => (Function.update v.dev.blocks addr b a).data.nextBlkaddr)
      (v₀.segs.nextFreeBlkaddr sm .warmNode) l (v.segs.nextFreeBlkaddr sm .warmNode) :=
    h.chain.congr fun a ha => by rw [hsame a ha]
  by_cases htype : type = .warmNode
  · rw [if_pos htype]
    subst htype
    -- the footer says where the log stands behind the write
    have hself : (Function.update v.dev.blocks addr b addr).data =
        fillNodeFooterBlkaddr cp page (segs.nextFreeBlkaddr sm .warmNode) := by
      rw [Function.update_self]
      rfl
    refine ⟨hw.sound _, ?_, List.nodup_cons.mpr ⟨hnot, h.nodup⟩, fun a ha => ?_, fun a ha => ?_⟩
    · rw [← hw.addr_eq] at hchain
      have hsnoc := hchain.snoc
      rw [hself] at hsnoc
      exact hsnoc
    · rcases List.mem_cons.mp ha with rfl | ha
      · exact hw.warm rfl
      · exact hkept a ha
    · rcases List.mem_cons.mp ha with rfl | ha
      · refine ⟨hw.inMain, ?_⟩
        show isRecoverableDnode cp (Function.update v.dev.blocks a b a).data = true
        rw [hself]
        exact isRecoverableDnode_fill cp page _
      · exact hmine a ha
  · rw [if_neg htype]
    refine ⟨hw.sound _, ?_, h.nodup, hkept, hmine⟩
    rw [← nextFreeBlkaddr_congr (hw.other htype)] at hchain
    exact hchain

/-- `allocate_new_segments` turns only the logs of data. -/
theorem WarmChain.newSegments (h : WarmChain sm cp v₀ v l) {p : SegManager.AllocPolicy}
    (heq : allocateNewSegments sm p v.segs = some segs) :
    WarmChain sm cp v₀ { v with segs := segs } l := by
  refine OptionFold.foldlM_inv
    (P := fun s : SegManager => WarmChain sm cp v₀ { v with segs := s } l)
    (fun s t s' ht hs hstep => ?_) h heq
  obtain ⟨⟨u, m, hturn, rfl⟩, hsettled⟩ :=
    allocateNewSegment_settled hs.sound.books hs.sound.lists hstep
  have hne : CursegType.warmNode ≠ t := by
    rintro rfl
    exact absurd ht (by decide)
  have hsound : Sound sm { v with segs := u.locateDirtySegment sm (s.curseg t).segno } :=
    (hs.sound.newSegment hstep).1
  exact hs.quiet hsound rfl ((congrFun (SegManager.locateDirtySegment_same sm u _).1 _).trans
    (hturn.moved.other _ hne)) hsettled.touches.ckpt

theorem Session.warmChain (h : Sound sm v₀) (hs : Session sm cp v₀ l v) :
    WarmChain sm cp v₀ v l := by
  induction hs with
  | start =>
    exact ⟨h, .nil, List.nodup_nil, fun _ ha => absurd ha List.not_mem_nil,
      fun _ ha => absurd ha List.not_mem_nil⟩
  | write _ type sum page addr segs hw ih => exact ih.write page (hw.written ih.sound)
  | invalidate _ now addr haddr ih =>
    have hs := (invalidateBlocks_settled now ih.sound.books ih.sound.lists haddr).1
    refine ih.quiet (ih.sound.invalidate now haddr) rfl ?_ hs.touches.ckpt
    unfold invalidateBlocks
    split
    · rfl
    · exact congrFun (SegManager.locateDirtySegment_same sm _ _).1 _
  | newSegments _ p segs heq ih => exact ih.newSegments heq
  | mark _ secs lastVictim hsecs ih =>
    exact ih.quiet (ih.sound.mark lastVictim hsecs) rfl rfl fun _ => subset_rfl
  | writeSum _ segno ih => exact ih.quiet (ih.sound.writeSum segno) rfl rfl fun _ => subset_rfl

/-- In every run between two checkpoints, whatever the other logs do: the footers on the device
    lead from where the log of warm nodes stood through exactly the blocks that it took, no one
    twice, to where it stands, all of them are recoverable, and no log takes one of them next. -/
theorem warmNodes_chained {dev : Device NodeFooter} (h : Run sm dev v₀) (hsec : ¬BySection sm)
    (hs : Session sm cp v₀ l v) :
    Chained (fun a => (v.dev.blocks a).data.nextBlkaddr) (v₀.segs.nextFreeBlkaddr sm .warmNode) l
        (v.segs.nextFreeBlkaddr sm .warmNode) ∧
      l.Nodup ∧ (∀ a ∈ l, InMain sm a ∧ isRecoverableDnode cp (v.dev.blocks a).data = true) ∧
      ∀ type sum addr segs, Writes sm v type sum addr segs → addr ∉ l := by
  have hchain := hs.warmChain (h.sound hsec)
  exact ⟨hchain.chain, hchain.nodup, hchain.mine, fun type sum addr segs hw hc =>
    (hw.written hchain.sound).free (hchain.kept addr hc)⟩

/-- The empty volume, with node footers in its blocks. -/
def footerDevice : Device NodeFooter :=
  { emptyDevice with blocks := fun _ => ⟨⟨0, 0, 0⟩, false, ⟨0, 0, 0, 0, 0⟩⟩ }

theorem footerDevice_saved : Saved smallSm footerDevice :=
  { emptyDevice_saved with
    logNames := fun _ i hi => absurd hi (Finset.notMem_empty i)
    ssaNames := fun _ _ _ i hi => absurd hi (Finset.notMem_empty i) }

/-- One node is written. -/
theorem warmNodes_chained_one :
    ∃ (v₀ v : Mounted NodeFooter) (a : Nat), Run smallSm footerDevice v₀ ∧
      Session smallSm ⟨{ checkpointVer := 7 }, 0⟩ v₀ [a] v ∧
      Chained (fun a => (v.dev.blocks a).data.nextBlkaddr)
        (v₀.segs.nextFreeBlkaddr smallSm .warmNode) [a]
        (v.segs.nextFreeBlkaddr smallSm .warmNode) := by
  have hsome : ((buildSegmentManager smallSm footerDevice).bind fun v =>
      v.segs.allocateDataBlock smallSm
        (victimPolicy smallSm 18
          (emptyGc (v.segs.writeNext smallSm .warmNode 1 nullAddr ⟨3, 0, 0⟩)) .warmNode false false)
        1 nullAddr ⟨3, 0, 0⟩ .warmNode).isSome = true := by
    decide +kernel
  obtain ⟨⟨addr, segs⟩, heq⟩ := Option.isSome_iff_exists.mp hsome
  obtain ⟨v₀, hmount, halloc⟩ := Option.bind_eq_some_iff.mp heq
  have hrun : Run smallSm footerDevice v₀ := ⟨footerDevice_saved, v₀, hmount, Reach.start⟩
  have hw : Writes smallSm v₀ .warmNode ⟨3, 0, 0⟩ addr segs :=
    ⟨_, 18, false, false, 1, nullAddr, Or.inl rfl, fun _ => ⟨rfl, rfl⟩, rfl, emptyGc_fuel _, halloc⟩
  have hs : Session smallSm ⟨{ checkpointVer := 7 }, 0⟩ v₀ [addr] _ :=
    Session.start.write .warmNode ⟨3, 0, 0⟩ ⟨3, 3, 0, 0, 0⟩ addr segs hw
  exact ⟨v₀, _, addr, hrun, hs, (warmNodes_chained hrun smallSm_notBySection hs).1⟩

end

end F2fs.Volume

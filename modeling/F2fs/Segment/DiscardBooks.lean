/-
  What the discard command functions do to the commands in order, and the books they
  keep beside the tree: the two counters and the lists (`Books`).

  None of this needs the commands to be disjoint: while a gap is merged on both sides two
  commands overlap for a moment.
-/
import F2fs.Segment.DiscardCmd

namespace F2fs.Segment.Discard

open IntervalTree

/-! ## The commands in order -/

namespace DiscardCmdControl

@[simp] theorem cmds_modify (dcc : DiscardCmdControl) (id : Nat) (f : DiscardCmd → DiscardCmd) :
    (dcc.modify id f).cmds = dcc.cmds.map fun dc => if dc.id = id then f dc else dc :=
  SearchTree.toList_map _ _

@[simp] theorem mem_listMoveTail {dcc : DiscardCmdControl} {id i : Nat} {l l' : DiscardList} :
    i ∈ (dcc.listMoveTail id l).lists l' ↔ i ≠ id ∧ i ∈ dcc.lists l' ∨ i = id ∧ l' = l := by
  unfold listMoveTail listAddTail listDel
  by_cases hl : l' = l
  · subst hl
    simp [Function.update_self, and_comm]
  · simp [hl, and_comm]

/-- A command and the commands around it. -/
structure At (dcc : DiscardCmdControl) (A : List DiscardCmd) (dc : DiscardCmd)
    (B : List DiscardCmd) : Prop where
  cmds : dcc.cmds = A ++ dc :: B
  before : ∀ a ∈ A, a.id ≠ dc.id
  after : ∀ b ∈ B, b.id ≠ dc.id

theorem at_of_nodup {dcc : DiscardCmdControl} {A B : List DiscardCmd} {dc : DiscardCmd}
    (hids : (dcc.cmds.map DiscardCmd.id).Nodup) (h : dcc.cmds = A ++ dc :: B) :
    dcc.At A dc B := by
  rw [h, List.map_append, List.map_cons, List.nodup_append, List.nodup_cons] at hids
  obtain ⟨-, ⟨hB, -⟩, hA⟩ := hids
  exact ⟨h, fun a ha heq => hA _ (List.mem_map_of_mem ha) _ List.mem_cons_self heq,
    fun b hb heq => hB (heq ▸ List.mem_map_of_mem hb)⟩

namespace At

variable {dcc : DiscardCmdControl} {A B : List DiscardCmd} {dc : DiscardCmd}

theorem map_eq (h : dcc.At A dc B) (f : DiscardCmd → DiscardCmd) :
    (dcc.modify dc.id f).cmds = A ++ f dc :: B := by
  rw [cmds_modify, h.cmds, List.map_append, List.map_cons, if_pos rfl]
  refine congrArg₂ (· ++ ·) ?_ (congrArg _ ?_)
  · exact (List.map_congr_left fun a ha => if_neg (h.before a ha)).trans (List.map_id A)
  · exact (List.map_congr_left fun b hb => if_neg (h.after b hb)).trans (List.map_id B)

theorem indexOf_eq (h : dcc.At A dc B) : dcc.indexOf dc.id = A.length := by
  have hnone : A.findIdx (fun c => decide (c.id = dc.id)) = A.length :=
    List.findIdx_eq_length_of_false fun a ha => by simp [h.before a ha]
  rw [indexOf, h.cmds, List.findIdx_append, hnone, if_neg (lt_irrefl _), List.findIdx_cons]
  simp

theorem get_eq (h : dcc.At A dc B) : dcc.get dc.id = some dc := by
  have hnone : A.find? (fun c => decide (c.id = dc.id)) = none :=
    List.find?_eq_none.mpr fun a ha => by simp [h.before a ha]
  rw [get, h.cmds, List.find?_append, hnone, List.find?_cons]
  simp

theorem rbNext_eq (h : dcc.At A dc B) : dcc.rbNext dc.id = B.head? := by
  rw [rbNext, h.indexOf_eq, h.cmds, getElem?_length_succ]

theorem erase_eq (h : dcc.At A dc B) (rb : Rebalance DiscardCmd) :
    (rb.erase dcc.root (dcc.indexOf dc.id)).toList = A ++ B := by
  have hroot : dcc.root.toList = A ++ dc :: B := h.cmds
  rw [rb.toList_erase, h.indexOf_eq, hroot, List.eraseIdx_append_of_length_le le_rfl,
    Nat.sub_self, List.eraseIdx_cons_zero]

end At

end DiscardCmdControl

/-! ## The books -/

/-- Blocks in the commands of a list. -/
def blocks (l : List DiscardCmd) : Nat := (l.map DiscardCmd.len).sum

@[simp] theorem blocks_append (A B : List DiscardCmd) :
    blocks (A ++ B) = blocks A + blocks B := by
  simp [blocks]

@[simp] theorem blocks_cons (dc : DiscardCmd) (B : List DiscardCmd) :
    blocks (dc :: B) = dc.len + blocks B := by
  simp [blocks]

/-- The counters and the lists agree with the commands in the tree. -/
structure Books (dcc : DiscardCmdControl) : Prop where
  blks : dcc.undiscardBlks = u32 (blocks dcc.cmds)
  cnt : dcc.discardCmdCnt = dcc.cmds.length
  ids : (dcc.cmds.map DiscardCmd.id).Nodup
  fresh : ∀ dc ∈ dcc.cmds, dc.id < dcc.nextId
  /-- a list holds commands of the tree only -/
  owner : ∀ l, ∀ i ∈ dcc.lists l, ∃ dc ∈ dcc.cmds, dc.id = i
  /-- a command that was not issued is on the list for its length, and on no other -/
  pend : ∀ dc ∈ dcc.cmds, dc.state = .prep →
    ∀ l, dc.id ∈ dcc.lists l ↔ l = .pend (plistIdx dc.len)

theorem books_init : Books .init where
  blks := by unfold u32; rfl
  cnt := rfl
  ids := List.nodup_nil
  fresh := fun _ h => absurd h List.not_mem_nil
  owner := fun _ _ h => absurd h List.not_mem_nil
  pend := fun _ h => absurd h List.not_mem_nil

namespace Books

variable {dcc dcc' : DiscardCmdControl} {A B : List DiscardCmd} {dc : DiscardCmd}

theorem at_cmds (h : Books dcc) (hc : dcc.cmds = A ++ dc :: B) : dcc.At A dc B :=
  DiscardCmdControl.at_of_nodup h.ids hc

theorem at_mem (h : Books dcc) (hm : dc ∈ dcc.cmds) : ∃ A B, dcc.At A dc B := by
  obtain ⟨A, B, hc⟩ := List.append_of_mem hm
  exact ⟨A, B, h.at_cmds hc⟩

/-- One command changed, keeping its pointer. -/
theorem replace (h : Books dcc) (hc : dcc.cmds = A ++ dc :: B) (dc' : DiscardCmd)
    (hid : dc'.id = dc.id) (hcmds : dcc'.cmds = A ++ dc' :: B)
    (hother : ∀ l i, i ≠ dc.id → (i ∈ dcc'.lists l ↔ i ∈ dcc.lists l))
    (hself : dc'.state = .prep → ∀ l, dc.id ∈ dcc'.lists l ↔ l = .pend (plistIdx dc'.len))
    (hblks : dcc'.undiscardBlks = u32 (blocks dcc'.cmds))
    (hcnt : dcc'.discardCmdCnt = dcc.discardCmdCnt) (hnext : dcc'.nextId = dcc.nextId) :
    Books dcc' := by
  have hat := h.at_cmds hc
  have hids : dcc'.cmds.map DiscardCmd.id = dcc.cmds.map DiscardCmd.id := by
    rw [hcmds, hc]
    simp [hid]
  have hmem : ∀ c ∈ dcc'.cmds, c = dc' ∨ c ∈ dcc.cmds ∧ c.id ≠ dc.id := by
    intro c hm
    rw [hcmds] at hm
    rw [hc]
    rcases List.mem_append.mp hm with hm | hm
    · exact Or.inr ⟨List.mem_append_left _ hm, hat.before c hm⟩
    · rcases List.mem_cons.mp hm with rfl | hm
      · exact Or.inl rfl
      · exact Or.inr ⟨by simp [hm], hat.after c hm⟩
  refine ⟨hblks, ?_, hids ▸ h.ids, ?_, ?_, ?_⟩
  · rw [hcnt, h.cnt, hcmds, hc]
    simp
  · intro c hm
    rw [hnext]
    rcases hmem c hm with rfl | ⟨hm, -⟩
    · rw [hid]
      exact h.fresh dc (by simp [hc])
    · exact h.fresh c hm
  · intro l i hi
    have hin : i ∈ dcc.cmds.map DiscardCmd.id := by
      by_cases hi' : i = dc.id
      · rw [hi', hc]
        simp
      · obtain ⟨c, hm, rfl⟩ := h.owner l i ((hother l i hi').mp hi)
        exact List.mem_map_of_mem hm
    rw [← hids] at hin
    exact List.mem_map.mp hin
  · intro c hm hprep l
    rcases hmem c hm with rfl | ⟨hm, hne⟩
    · rw [hid]
      exact hself hprep l
    · rw [hother l c.id hne]
      exact h.pend c hm hprep l

/-- A command's blocks changed and the command moved to the list for its new length. -/
theorem resize (h : Books dcc) (hc : dcc.cmds = A ++ dc :: B) {di : DiscardInfo}
    (hcmds : dcc'.cmds = A ++ { dc with di := di } :: B)
    (hlists : dcc'.lists = (dcc.listMoveTail dc.id (.pend (plistIdx di.len))).lists)
    (hblks : dcc'.undiscardBlks = u32 (blocks dcc'.cmds))
    (hcnt : dcc'.discardCmdCnt = dcc.discardCmdCnt) (hnext : dcc'.nextId = dcc.nextId) :
    Books dcc' := by
  refine h.replace hc { dc with di := di } rfl hcmds (fun l i hi => ?_)
    (fun _ l => ?_) hblks hcnt hnext
  · rw [hlists, DiscardCmdControl.mem_listMoveTail]
    simp [hi]
  · rw [hlists, DiscardCmdControl.mem_listMoveTail]
    simp

/-- A new command in the tree, at the end of the list for its length. -/
theorem insert (h : Books dcc) (hc : dcc.cmds = A ++ B) {dc : DiscardCmd}
    (hid : dc.id = dcc.nextId) (hcmds : dcc'.cmds = A ++ dc :: B)
    (hlists : dcc'.lists = (dcc.listAddTail dc.id (.pend (plistIdx dc.len))).lists)
    (hblks : dcc'.undiscardBlks = u32 (dcc.undiscardBlks + dc.len))
    (hcnt : dcc'.discardCmdCnt = dcc.discardCmdCnt + 1)
    (hnext : dcc'.nextId = dcc.nextId + 1) : Books dcc' := by
  have hold : ∀ c ∈ dcc.cmds, c.id ≠ dc.id := fun c hm => by
    rw [hid]
    exact (h.fresh c hm).ne
  have hmem : ∀ c, c ∈ dcc'.cmds ↔ c = dc ∨ c ∈ dcc.cmds := by
    intro c
    rw [hcmds, hc]
    simp only [List.mem_append, List.mem_cons]
    tauto
  have hlist : ∀ l i, i ∈ dcc'.lists l ↔
      i ∈ dcc.lists l ∨ i = dc.id ∧ l = .pend (plistIdx dc.len) := by
    intro l i
    rw [hlists, DiscardCmdControl.listAddTail]
    by_cases hl : l = .pend (plistIdx dc.len)
    · subst hl
      simp
    · simp [hl]
  have hnew : ∀ l, dc.id ∉ dcc.lists l := by
    intro l hi
    obtain ⟨c, hm, heq⟩ := h.owner l dc.id hi
    exact hold c hm heq
  refine ⟨?_, ?_, ?_, ?_, ?_, ?_⟩
  · rw [hblks, h.blks, u32_u32_add, hcmds, hc]
    simp only [blocks_append, blocks_cons]
    congr 1
    omega
  · rw [hcnt, h.cnt, hcmds, hc]
    simp only [List.length_append, List.length_cons]
    omega
  · have hids := h.ids
    rw [hc, List.map_append] at hids
    rw [hcmds, List.map_append, List.map_cons, List.nodup_middle, List.nodup_cons]
    refine ⟨fun hin => ?_, hids⟩
    rw [← List.map_append, ← hc] at hin
    obtain ⟨c, hm, heq⟩ := List.mem_map.mp hin
    exact hold c hm heq
  · intro c hm
    rw [hnext]
    rcases (hmem c).mp hm with rfl | hm
    · rw [hid]
      exact Nat.lt_succ_self _
    · exact (h.fresh c hm).trans (Nat.lt_succ_self _)
  · intro l i hi
    rcases (hlist l i).mp hi with hi | ⟨rfl, -⟩
    · obtain ⟨c, hm, heq⟩ := h.owner l i hi
      exact ⟨c, (hmem c).mpr (Or.inr hm), heq⟩
    · exact ⟨dc, (hmem dc).mpr (Or.inl rfl), rfl⟩
  · intro c hm hprep l
    rw [hlist]
    rcases (hmem c).mp hm with rfl | hm
    · simp [hnew l]
    · rw [h.pend c hm hprep l]
      simp [hold c hm]

/-- A command taken out of the tree and off its list. -/
theorem remove (h : Books dcc) (hc : dcc.cmds = A ++ dc :: B)
    (hcmds : dcc'.cmds = A ++ B) (hlists : dcc'.lists = (dcc.listDel dc.id).lists)
    (hblks : dcc'.undiscardBlks = u32Sub dcc.undiscardBlks dc.len)
    (hcnt : dcc'.discardCmdCnt = dcc.discardCmdCnt - 1)
    (hnext : dcc'.nextId = dcc.nextId) : Books dcc' := by
  have hat := h.at_cmds hc
  have hmem : ∀ c, c ∈ dcc'.cmds ↔ c ∈ dcc.cmds ∧ c.id ≠ dc.id := by
    intro c
    rw [hcmds, hc]
    simp only [List.mem_append, List.mem_cons]
    constructor
    · rintro (hm | hm)
      · exact ⟨Or.inl hm, hat.before c hm⟩
      · exact ⟨Or.inr (Or.inr hm), hat.after c hm⟩
    · rintro ⟨hm | rfl | hm, hne⟩
      · exact Or.inl hm
      · exact absurd rfl hne
      · exact Or.inr hm
  have hlist : ∀ l i, i ∈ dcc'.lists l ↔ i ∈ dcc.lists l ∧ i ≠ dc.id := by
    intro l i
    rw [hlists]
    simp [DiscardCmdControl.listDel]
  refine ⟨?_, ?_, ?_, ?_, ?_, ?_⟩
  · rw [hblks, h.blks, hcmds, hc]
    simp only [blocks_append, blocks_cons]
    unfold u32Sub u32
    omega
  · rw [hcnt, h.cnt, hcmds, hc]
    simp only [List.length_append, List.length_cons]
    omega
  · rw [hcmds]
    refine h.ids.sublist (List.Sublist.map _ ?_)
    rw [hc]
    exact List.Sublist.append_left (List.sublist_cons_self _ _) _
  · intro c hm
    rw [hnext]
    exact h.fresh c ((hmem c).mp hm).1
  · intro l i hi
    obtain ⟨hi, hne⟩ := (hlist l i).mp hi
    obtain ⟨c, hm, rfl⟩ := h.owner l i hi
    exact ⟨c, (hmem c).mpr ⟨hm, hne⟩, rfl⟩
  · intro c hm hprep l
    obtain ⟨hm, hne⟩ := (hmem c).mp hm
    rw [hlist, and_iff_left hne]
    exact h.pend c hm hprep l

end Books

end F2fs.Segment.Discard

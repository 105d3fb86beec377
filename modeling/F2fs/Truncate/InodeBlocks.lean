/-
  `truncate_inode_blocks` as a cut.

  `cutOf s k r` is where a call for direct node `r` of tree `k` cuts: at that node, or at
  the first number below the first missing node on the way to it.  The direct node itself
  goes with all its blocks, so a call for a block inside it is right only if it is missing.
-/
import F2fs.Truncate.BlockPath

namespace F2fs.Truncate

open F2fs.Node

/-- Where a call for direct node `r` below `nid` cuts. -/
def cutBelow (w : Words) : Nat → Nat → Nat → Nat → Nat
  | 0, _, base, _ => base
  | l + 1, nid, base, r =>
    if nid = 0 then base
    else cutBelow w l (w nid (r / span l)) (base + r / span l * span l) (r % span l)

def cutOf (s : Index) (k r : Nat) : Nat :=
  cutBelow s.word (topLevel k) (s.iNid k) (topBase k) r

section

variable {w : Words} {l nid base r : Nat}

theorem cutBelow_succ : cutBelow w (l + 1) nid base r =
    if nid = 0 then base
    else cutBelow w l (w nid (r / span l)) (base + r / span l * span l) (r % span l) := rfl

theorem cutBelow_missing (l base r : Nat) : cutBelow w l 0 base r = base := by
  cases l <;> rfl

theorem cutBelow_one (h0 : nid ≠ 0) : cutBelow w 1 nid base r = base + r := by
  have hspan : span 0 = 1 := rfl
  rw [cutBelow_succ, if_neg h0, hspan, Nat.div_one, Nat.mul_one]
  rfl

theorem cutBelow_two (h0 : nid ≠ 0) : cutBelow w 2 nid base r =
    cutBelow w 1 (w nid (r / nidsPerBlock)) (base + r / nidsPerBlock * nidsPerBlock)
      (r % nidsPerBlock) := by
  have hspan : span 1 = nidsPerBlock := Nat.pow_one _
  rw [cutBelow_succ, if_neg h0, hspan]

theorem le_cutBelow {l : Nat} : ∀ {nid base r : Nat}, base ≤ cutBelow w l nid base r := by
  induction l with
  | zero => exact Nat.le_refl _
  | succ l ih =>
      intro nid base r
      rw [cutBelow_succ]
      split
      · exact Nat.le_refl _
      · exact Nat.le_trans (Nat.le_add_right _ _) ih

theorem cutBelow_le {l : Nat} : ∀ {nid base r : Nat}, cutBelow w l nid base r ≤ base + r := by
  induction l with
  | zero => exact Nat.le_add_right _ _
  | succ l ih =>
      intro nid base r
      rw [cutBelow_succ]
      split
      · exact Nat.le_add_right _ _
      · have h := @ih (w nid (r / span l)) (base + r / span l * span l) (r % span l)
        have := Nat.div_add_mod r (span l)
        rw [Nat.mul_comm] at this
        omega

end

/-! ## Trees before and behind -/

theorem topBase_add_span {j k : Nat} (h : j < k) (hk : k < defNidsPerInode) :
    topBase j + span (topLevel j) ≤ topBase k := by
  unfold defNidsPerInode at hk
  interval_cases k <;> interval_cases j <;> decide

theorem topBase_succ {k : Nat} (hk : k < 4) : topBase k + span (topLevel k) = topBase (k + 1) := by
  interval_cases k <;> decide

theorem tops_split {k : Nat} (hk : k < defNidsPerInode) :
    tops = List.range' 0 k ++ List.range' k (defNidsPerInode - k) := by
  have hsplit := @List.range'_append_1 0 k (defNidsPerInode - k)
  rw [Nat.zero_add, Nat.add_sub_cancel' (Nat.le_of_lt hk)] at hsplit
  rw [hsplit, tops, List.range_eq_range']

section

variable {layout : InodeLayout} {env : TruncEnv} {s s₁ s' : Index} {k cut fuel ofs : Nat}
  {nofs : Int}

/-- The trees from `k` on, `k` being cut. -/
theorem rest_cut (hk : k < defNidsPerInode) (ht : TreesAt s (List.range' k (defNidsPerInode - k)))
    (hround : TopsCut s s₁ [k] cut) (hcut : cut ≤ topBase k + span (topLevel k))
    (hrest : if k = 4 then s' = s₁
      else truncateRest layout env fuel s₁ (nodeDir1Block + (k + 1)) 0 nofs = .ok s') :
    TopsCut s s' (List.range' k (defNidsPerInode - k)) cut := by
  by_cases hk4 : k = 4
  · rw [if_pos hk4] at hrest
    subst hk4 hrest
    exact hround
  rw [if_neg hk4] at hrest
  have hk' : k < 4 := by
    unfold defNidsPerInode at hk
    omega
  have hlist : List.range' k (defNidsPerInode - k) =
      [k] ++ List.range' (k + 1) (defNidsPerInode - (k + 1)) := by
    rw [show defNidsPerInode - k = defNidsPerInode - (k + 1) + 1 by omega, List.range'_succ]
    rfl
  rw [hlist] at ht ⊢
  have hdisj : [k].Disjoint (List.range' (k + 1) (defNidsPerInode - (k + 1))) := by
    intro j hj hj'
    rw [List.mem_singleton] at hj
    rw [List.mem_range'_1] at hj'
    omega
  rw [topBase_succ hk'] at hcut
  have hnext := truncateRest_whole (by unfold defNidsPerInode; omega) hcut hrest
    (hround.treesAt ht hdisj)
  exact hround.trans hnext hdisj ht.disjoint

/-- A round for a missing tree. -/
theorem rest_missing (hk : k < defNidsPerInode) (h0 : s.iNid k = 0) (hcut : cut ≤ topBase k)
    (h : truncateRest layout env (fuel + 1) s (nodeDir1Block + k) ofs nofs = .ok s')
    (ht : TreesAt s (List.range' k (defNidsPerInode - k))) :
    TopsCut s s' (List.range' k (defNidsPerInode - k)) cut := by
  obtain ⟨s₁, err, htol, hrest⟩ := truncateRest_succ hk h
  obtain ⟨err', hmiss⟩ := freeTop_missing layout env h0 ofs nofs
  rw [hmiss] at htol
  cases htol
  have hclear : clearTop s k ofs = s := if_neg fun hc => hc.2 h0
  rw [hclear] at hrest
  have hsub : SubtreeCut s s (topLevel k) (s.iNid k) (topBase k) cut := by
    rw [h0]
    exact SubtreeCut.missing s _ _ _
  have hround : TopsCut s s [k] cut := by
    refine hsub.top (Or.inr rfl) fun j => ?_
    by_cases hj : j = k
    · simp [hj, h0]
    · simp [hj]
  exact rest_cut hk ht hround (Nat.le_trans hcut (Nat.le_add_right _ _)) hrest

/-- The round for the double indirect node, from a slot on. -/
theorem rest_double {i : Nat} (hi : i ≠ 0) (h0 : s.iNid 4 ≠ 0)
    (haddr : s.nat (s.iNid 4) ≠ nullAddr) (ht : TreesBelow s 1 (s.iNid 4) (slotsFrom i))
    (h : truncateRest layout env (fuel + 1) s (nodeDir1Block + 4) i nofs = .ok s') :
    ChildrenFreed s s' 1 (s.iNid 4) (slotsFrom i) := by
  obtain ⟨s₁, err, htol, hrest⟩ := truncateRest_succ (by decide) h
  rw [if_pos rfl, clearTop_of_ne _ _ hi] at hrest
  have hf := freeTop_ok htol haddr
  rw [freeTop_two rfl] at hf
  obtain ⟨r₁, hchildren, hr⟩ := truncateNodes_double hf h0 ht
  rw [finishNodes, if_neg hi] at hr
  rw [hrest, show s₁ = r₁.1 from congrArg Prod.fst hr]
  exact hchildren

/-! ## The partial part -/

theorem truncatePartial_cases {offset offset₁ : Nat → Nat} {idx : Nat}
    (h : truncatePartial layout env s offset idx = .ok (s₁, offset₁))
    (hofs : offset (idx + 1) ≠ 0) :
    (pathNid s offset 0 = 0 ∧ s₁ = s ∧ offset₁ = offset) ∨
    (pathNid s offset 0 ≠ 0 ∧ getPathPages env s offset idx = .error .enoent ∧ s₁ = s ∧
      offset₁ = offset) ∨
    (pathNid s offset 0 ≠ 0 ∧ getPathPages env s offset idx = .ok () ∧
      (slotsFrom (offset (idx + 1))).foldlM
        (truncateChild layout env (pathNid s offset idx)) s = .ok s₁ ∧
      offset₁ = fun j =>
        if j = idx then offset idx + 1 else if j = idx + 1 then 0 else offset j) := by
  unfold truncatePartial at h
  cases hn : truncatePartialNodes layout env s offset idx with
  | error e =>
      rw [hn] at h
      cases e with
      | enoent =>
          cases h
          unfold truncatePartialNodes at hn
          split at hn
          · cases hn
          rename_i h0
          split at hn
          · rename_i hpages
            cases hn
            exact Or.inr (Or.inl ⟨h0, hpages, rfl, rfl⟩)
          · simp only at hn
            split at hn
            · rename_i hloop
              cases hn
              obtain ⟨a, i, hs⟩ := foldlM_error hloop
              obtain ⟨r, hr, -⟩ := truncateChild_error hs
              cases hr
            · cases hn
      | e2big => cases h
      | read r => cases h
      | bug => cases h
  | ok r =>
      rw [hn] at h
      cases h
      unfold truncatePartialNodes at hn
      split at hn
      · rename_i h0
        cases hn
        exact Or.inl ⟨h0, rfl, rfl⟩
      rename_i h0
      split at hn
      · cases hn
      rename_i hpages
      simp only at hn
      split at hn
      · cases hn
      rename_i s₂ hloop
      cases hn
      exact Or.inr (Or.inr ⟨h0, hpages, hloop, rfl⟩)

end

/-! ## The call -/

section

variable {layout : InodeLayout} {env : TruncEnv} {s s' : Index} {p : NodePath} {k r o : Nat}

theorem TreesAt.from_top (h : IndexTree s) (hk : k < defNidsPerInode) :
    TreesAt s (List.range' k (defNidsPerInode - k)) := by
  unfold IndexTree at h
  rw [tops_split hk] at h
  exact h.sublist (List.sublist_append_right _ _)

/-- The trees before `k` are not touched. -/
theorem TopsCut.all {cut : Nat} (ht : IndexTree s) (hk : k < defNidsPerInode)
    (hcut : topBase k ≤ cut) (h : TopsCut s s' (List.range' k (defNidsPerInode - k)) cut) :
    TopsCut s s' tops cut := by
  have hd : (List.range' 0 k).Disjoint (List.range' k (defNidsPerInode - k)) := by
    intro j hj hj'
    rw [List.mem_range'_1] at hj hj'
    omega
  have hall : TreesAt s (List.range' 0 k ++ List.range' k (defNidsPerInode - k)) := by
    rw [← tops_split hk]
    exact ht
  rw [tops_split hk]
  refine (TopsCut.untouched s fun j hj => ?_).trans h hd hall.disjoint
  rw [List.mem_range'_1] at hj
  exact Nat.le_trans (topBase_add_span (by omega) hk) hcut

/-- A call for a direct node, in a tree of level 0. -/
theorem truncatePath_direct (ht : IndexTree s) (hp : PathTo p k r o) (hl : topLevel k = 0)
    (hmiss : o = 0 ∨ dnodeOf s k r = 0)
    (h : truncatePath layout env s (some p) = .ok s') :
    TopsCut s s' (List.range' k (defNidsPerInode - k)) (topBase k) := by
  have htk := TreesAt.from_top ht hp.k_lt
  have hlast := hp.last
  rw [hl] at hlast
  rw [truncatePath] at h
  split at h
  · cases h
  simp only [hp.level, hl, hp.top, hlast] at h
  rcases hmiss with rfl | h0
  · exact truncateRest_whole hp.k_lt (Nat.le_refl _) h htk
  · unfold dnodeOf at h0
    rw [hl, dnodeAt] at h0
    exact rest_missing hp.k_lt h0 (Nat.le_refl _) h htk

/-- A call for a direct node below one of the two indirect nodes. -/
theorem truncatePath_indirect (ht : IndexTree s) (hp : PathTo p k r o) (hl : topLevel k = 1)
    (h : truncatePath layout env s (some p) = .ok s') :
    TopsCut s s' (List.range' k (defNidsPerInode - k)) (cutOf s k r) := by
  have htk := TreesAt.from_top ht hp.k_lt
  have hr := hp.r_lt
  have htop := ht.treeAt (k := k) (List.mem_range.mpr hp.k_lt)
  rw [hl] at hr htop
  unfold cutOf
  rw [hl]
  rw [truncatePath] at h
  split at h
  · cases h
  simp only [hp.level, hl, hp.top, hp.one hl] at h
  rw [if_neg (by decide), if_pos trivial] at h
  by_cases hr0 : r = 0
  · rw [if_pos hr0, hr0] at h
    exact truncateRest_whole hp.k_lt (by rw [hr0]; exact cutBelow_le) h htk
  rw [if_neg hr0] at h
  split at h
  · cases h
  rename_i s₁ offset₁ hpart
  have hnid := pathNid_zero (s := s) hp
  have hofs : offsetOf p 1 = r := hp.one hl
  rcases truncatePartial_cases hpart (by rw [hofs]; exact hr0) with
    ⟨h0, rfl, rfl⟩ | ⟨h0, hpages, -, -⟩ | ⟨h0, -, hloop, rfl⟩
  · -- the indirect node is missing
    rw [hnid] at h0
    rw [hp.top] at h
    rw [h0, cutBelow_missing]
    exact rest_missing hp.k_lt h0 (Nat.le_refl _) h htk
  · rw [getPathPages, hnid] at hpages
    rw [hnid] at h0
    exact absurd ((getNodePage_tree env htop.addr_self).2.1 hpages) h0
  · -- the loop from slot `r` on
    rw [hnid] at h0 hloop
    rw [hofs] at hloop
    have hchildren := children_freed (fun s => s) (truncateChild layout env (s.iNid k)) 0 (s.iNid k)
      (fun a i a' hs ht hp => truncateChild_freed hs ht hp) hloop (nodup_slotsFrom r)
      (htop.below h0 (slotsFrom_sublist r))
    have hcut : SubtreeCut s s₁ (topLevel k) (s.iNid k) (topBase k) (topBase k + r * span 0) := by
      rw [hl]
      exact hchildren.subtreeCut htop h0 hr0 (Nat.le_of_lt hr)
    rw [show r * span 0 = r from Nat.mul_one r] at hcut
    rw [cutBelow_one h0]
    have hround : TopsCut s s₁ [k] (topBase k + r) := by
      refine hcut.top (Or.inr rfl) fun j => ?_
      rw [if_neg]
      rintro ⟨-, hle⟩
      omega
    have hk4 : k ≠ 4 := by
      rintro rfl
      cases hl
    have hrest : truncateRest layout env 5 s₁ (offsetOf p 0 + 1) 0
        ((p.noffset.getD 1 0 : Nat) + (1 + nidsPerBlock)) = .ok s' := h
    rw [hp.top] at hrest
    refine rest_cut hp.k_lt htk hround ?_ ((if_neg hk4).mpr hrest)
    rw [hl]
    exact Nat.add_le_add_left (Nat.le_of_lt hr) _

/-- The loop from the double indirect node on, if the call ends at the child in slot `i`. -/
theorem rest_double_cut {fuel i : Nat} {nofs : Int} (ht : IndexTree s) (hi : i < nidsPerBlock)
    (h : truncateRest layout env (fuel + 1) s (nodeDir1Block + 4) i nofs = .ok s')
    (hr : r / nidsPerBlock = i) (hcut : r % nidsPerBlock = 0 ∨ s.iNid 4 = 0 ∨
      s.word (s.iNid 4) i = 0) :
    TopsCut s s' [4] (cutBelow s.word 2 (s.iNid 4) (topBase 4) r) := by
  have hk : 4 < defNidsPerInode := by decide
  have htk := TreesAt.from_top ht hk
  have htop : TreeAt s 2 (s.iNid 4) := ht.treeAt (List.mem_range.mpr hk)
  by_cases h0 : s.iNid 4 = 0
  · have hrest := rest_missing hk h0 (Nat.le_refl _) h htk
    rw [h0, cutBelow_missing]
    exact hrest
  have hchild : cutBelow s.word 2 (s.iNid 4) (topBase 4) r = topBase 4 + i * nidsPerBlock := by
    rw [cutBelow_two h0, hr]
    by_cases hc : s.word (s.iNid 4) i = 0
    · rw [hc, cutBelow_missing]
    · rw [cutBelow_one hc]
      rcases hcut with hj | hz | hz
      · rw [hj, Nat.add_zero]
      · exact absurd hz h0
      · exact absurd hz hc
  rw [hchild]
  by_cases hi0 : i = 0
  · subst hi0
    exact truncateRest_whole hk (by rw [Nat.zero_mul, Nat.add_zero]) h htk
  · have hchildren := rest_double hi0 h0 (htop.addr_self h0)
      (htop.below h0 (slotsFrom_sublist i)) h
    have hsub : SubtreeCut s s' (topLevel 4) (s.iNid 4) (topBase 4) (topBase 4 + i * span 1) :=
      hchildren.subtreeCut htop h0 hi0 (Nat.le_of_lt hi)
    rw [show span 1 = nidsPerBlock from Nat.pow_one _] at hsub
    refine hsub.top (Or.inr rfl) fun j => ?_
    have hpos : 0 < i * nidsPerBlock := Nat.mul_pos (Nat.pos_of_ne_zero hi0) (by decide)
    rw [if_neg]
    rintro ⟨-, hle⟩
    omega

/-- A call for a direct node below the double indirect node. -/
theorem truncatePath_double (ht : IndexTree s) (hp : PathTo p k r o) (hl : topLevel k = 2)
    (h : truncatePath layout env s (some p) = .ok s') :
    TopsCut s s' (List.range' k (defNidsPerInode - k)) (cutOf s k r) := by
  obtain rfl : k = 4 := by
    have hk := hp.k_lt
    unfold defNidsPerInode at hk
    interval_cases k <;> first | rfl | cases hl
  have htk := TreesAt.from_top ht hp.k_lt
  have hr : r < nidsPerBlock * nidsPerBlock := by
    have := hp.r_lt
    rwa [hl, show span 2 = nidsPerBlock * nidsPerBlock from Nat.pow_two _] at this
  have htop : TreeAt s 2 (s.iNid 4) := ht.treeAt (List.mem_range.mpr hp.k_lt)
  obtain ⟨hi, hj⟩ := hp.two hl
  have hilt : r / nidsPerBlock < nidsPerBlock := Nat.div_lt_of_lt_mul hr
  have hjlt : r % nidsPerBlock < nidsPerBlock := Nat.mod_lt _ (by decide)
  unfold cutOf
  rw [hl]
  rw [truncatePath] at h
  split at h
  · cases h
  simp only [hp.level, hl, hp.top, hi, hj] at h
  rw [if_neg (by decide), if_neg (by decide), if_pos trivial] at h
  by_cases hj0 : r % nidsPerBlock = 0
  · rw [if_pos hj0] at h
    exact rest_double_cut ht hilt h rfl (Or.inl hj0)
  rw [if_neg hj0] at h
  split at h
  · cases h
  rename_i s₁ offset₁ hpart
  have hnid := pathNid_zero (s := s) hp
  have hchild := (pathNid_two (s := s) hp hl).1
  rcases truncatePartial_cases hpart (by rw [hj]; exact hj0) with
    ⟨h0, rfl, rfl⟩ | ⟨h0, hpages, rfl, rfl⟩ | ⟨h0, hpages, hloop, rfl⟩
  · rw [hp.top, hi] at h
    rw [hnid] at h0
    exact rest_double_cut ht hilt h rfl (Or.inr (Or.inl h0))
  · -- the indirect node on the path is missing
    rw [hp.top, hi] at h
    rw [hnid] at h0
    refine rest_double_cut ht hilt h rfl (Or.inr (Or.inr ?_))
    rw [getPathPages, getPathPages, hnid, hchild] at hpages
    split at hpages
    · rename_i hp'
      cases hpages
      exact absurd ((getNodePage_tree env htop.addr_self).2.1 hp') h0
    · exact (getNodePage_tree env
        (htop.child h0 (mem_slots.mpr hilt)).addr_self).2.1 hpages
  · -- the loop below it, then the loop from the next slot on
    rw [hnid] at h0
    rw [hchild, hj] at hloop
    have hc0 : s.word (s.iNid 4) (r / nidsPerBlock) ≠ 0 := by
      rw [getPathPages, hchild] at hpages
      split at hpages
      · cases hpages
      · exact (getNodePage_present hpages).1
    have htc := htop.child h0 (mem_slots.mpr hilt)
    have hloop₁ := children_freed (fun s => s) (truncateChild layout env _) 0 _
      (fun a i a' hs ht hp => truncateChild_freed hs ht hp) hloop (nodup_slotsFrom _)
      (htc.below hc0 (slotsFrom_sublist _))
    have hspan : span 1 = nidsPerBlock := Nat.pow_one _
    have hsub : SubtreeCut s s₁ 1 (s.word (s.iNid 4) (r / nidsPerBlock))
        (topBase 4 + r / nidsPerBlock * span 1)
        (topBase 4 + r / nidsPerBlock * span 1 + r % nidsPerBlock * span 0) :=
      hloop₁.subtreeCut htc hc0 hj0 (Nat.le_of_lt hjlt)
    rw [show r % nidsPerBlock * span 0 = r % nidsPerBlock from Nat.mul_one _] at hsub
    have hrest : truncateRest layout env 5 s₁ (offsetOf p 0) (offsetOf p 1 + 1)
        (5 + 2 * nidsPerBlock) = .ok s' := h
    rw [hp.top, hi] at hrest
    have hiNid : s₁.iNid 4 = s.iNid 4 := by rw [hsub.iNid]
    have haddr : s₁.nat (s₁.iNid 4) ≠ nullAddr := by
      rw [hiNid, hsub.freed.nat, if_neg]
      · exact htop.addr_self h0
      · intro hm
        have hself := (htop.below h0 (List.singleton_sublist.mpr (mem_slots.mpr hilt))).notMem
        rw [nodesBelow, List.flatMap_cons, List.flatMap_nil, List.append_nil] at hself
        exact hself (nodesFrom_sublist.subset hm)
    have hloop₂ := rest_double (Nat.succ_ne_zero _) (by rw [hiNid]; exact h0) haddr
      (by rw [hiNid]; exact hsub.treesBelow htop h0 (mem_slots.mpr hilt)) hrest
    rw [hiNid] at hloop₂
    have hcut := hsub.slot hloop₂ htop h0 hilt (by omega) (by
      rw [hspan, Nat.succ_mul]
      omega)
    rw [cutBelow_two h0, cutBelow_one hc0]
    rw [hspan] at hcut
    refine SubtreeCut.top (k := 4) hcut (Or.inr rfl) fun j => ?_
    rw [if_neg]
    rintro ⟨-, hle⟩
    omega

/-- `truncate_inode_blocks` for a direct node that is missing, or from its first block on. -/
theorem truncateInodeBlocks_cut {b : Nat} (ht : IndexTree s)
    (hpath : getNodePath layout.addrsPerInode b = some p) (hp : PathTo p k r o)
    (hb : b < layout.addrsPerInode + maxFileBlocks) (hmiss : o = 0 ∨ dnodeOf s k r = 0)
    (h : truncateInodeBlocks layout env s b = .ok s') : TopsCut s s' tops (cutOf s k r) := by
  rw [truncateInodeBlocks, toLong_block hb, hpath] at h
  refine TopsCut.all ht hp.k_lt le_cutBelow ?_
  rcases topLevel_cases k with hl | hl | hl
  · have hcut := truncatePath_direct ht hp hl hmiss h
    unfold cutOf
    rw [hl, cutBelow]
    exact hcut
  · exact truncatePath_indirect ht hp hl h
  · exact truncatePath_double ht hp hl h

end

end F2fs.Truncate

import TestScribe.Proofs.Tree.Levels
import TestScribe.Proofs.Tree.Paths

/-!
# The walk level by level

`depthOf` counts the nodes on the path to a node. A level holds the nodes of one depth (`mem_level_iff`), so along the
walk the depth never goes down and a node comes after its parent. Child lists are found in it as they are, and a node
that is added only adds itself to it (`breadthFirst_addChild`).
-/

namespace TestScribe.ExecutionTree

/-- How far a node is from the root. -/
def depthOf (t : ExecutionTree) (id : NodeId) : Nat :=
  (t.ancestry t.size id).length

variable {t t' : ExecutionTree} {id p c parent : NodeId} {path : List NodeId} {depth : Nat} {step : Step}
  {testCaseId : Option String}

theorem LeadsTo.mem_level (h : t.LeadsTo path id) : id ∈ t.level path.length := by
  induction path using List.reverseRecOn generalizing id with
  | nil =>
    obtain rfl := leadsTo_nil_iff.mp h
    exact List.mem_singleton_self root
  | append_singleton front x ih =>
    obtain ⟨-, p, hfront, hchild⟩ := leadsTo_concat_iff.mp h
    rw [List.length_append]
    exact mem_level_succ_iff.mpr ⟨p, ih hfront, hchild⟩

namespace WellFormed

/-! ### Depths -/

theorem lt_size_of_mem_level (h : t.WellFormed) (hid : id ∈ t.level depth) : id < t.size := by
  cases depth with
  | zero => exact List.mem_singleton.mp hid ▸ h.size_pos
  | succ depth => exact (h.of_mem_level_succ hid).2

/-- A level holds the nodes of one depth. -/
theorem mem_level_iff (h : t.WellFormed) : id ∈ t.level depth ↔ id < t.size ∧ t.depthOf id = depth := by
  have hdepth (hlt : id < t.size) : id ∈ t.level (t.depthOf id) :=
    (h.leadsTo_ancestry hlt hlt).1.mem_level
  constructor
  · intro hid
    have hlt := h.lt_size_of_mem_level hid
    exact ⟨hlt, h.depth_unique (hdepth hlt) hid⟩
  · rintro ⟨hlt, rfl⟩
    exact hdepth hlt

theorem depthOf_child (h : t.WellFormed) (hc : t.IsChild p c) : t.depthOf c = t.depthOf p + 1 := by
  have hlt := h.lt_of_mem hc
  have hp := h.mem_level_iff.mpr ⟨Nat.lt_trans hlt.1 hlt.2, rfl⟩
  exact (h.mem_level_iff.mp (mem_level_succ_iff.mpr ⟨p, hp, hc⟩)).2

/-! ### The order of the walk -/

theorem depths_ascend (h : t.WellFormed) :
    t.breadthFirst.Pairwise fun a b => t.depthOf a ≤ t.depthOf b := by
  rw [h.breadthFirst_eq, levels, List.pairwise_flatMap]
  refine ⟨fun k _ => List.pairwise_of_forall_mem_list fun a ha b hb => ?_,
    List.pairwise_lt_range.imp fun hlt a ha b hb => ?_⟩
  · rw [(h.mem_level_iff.mp ha).2, (h.mem_level_iff.mp hb).2]
  · rw [(h.mem_level_iff.mp ha).2, (h.mem_level_iff.mp hb).2]
    exact Nat.succ_le_succ (Nat.le_of_lt hlt)

theorem parent_first (h : t.WellFormed) (hp : p ≠ root) (hc : t.IsChild p c) : [p, c].Sublist t.breadthFirst := by
  have hlt := h.lt_of_mem hc
  obtain ⟨before, behind, hsplit⟩ :=
    List.append_of_mem (h.mem_breadthFirst_iff.mpr ⟨hp, Nat.lt_trans hlt.1 hlt.2⟩)
  have hsorted := h.depths_ascend
  have hmem := h.mem_breadthFirst_iff.mpr (h.ne_root_of_mem hc)
  rw [hsplit] at hsorted hmem
  -- What comes before the parent is not deeper than it.
  have hbefore : c ∉ before := fun hin => by
    have hle := (List.pairwise_append.mp hsorted).2.2 c hin p List.mem_cons_self
    rw [h.depthOf_child hc] at hle
    exact Nat.not_succ_le_self _ hle
  have hbehind : c ∈ behind := by
    rcases List.mem_cons.mp ((List.mem_append.mp hmem).resolve_left hbefore) with rfl | hin
    · exact absurd hlt.1 (Nat.lt_irrefl c)
    · exact hin
  rw [hsplit]
  exact ((List.singleton_sublist.mpr hbehind).cons_cons p).trans (List.sublist_append_right before _)

/-- The children of a node stand in a level as they stand in its child list. -/
theorem childrenOf_sublist (h : t.WellFormed) (hp : p < t.size) : (t.childrenOf p).Sublist t.breadthFirst := by
  have hlevel : (t.childrenOf p).Sublist (t.level (t.depthOf p + 1)) := by
    rw [level, List.flatMap_def]
    exact List.sublist_flatten_of_mem (List.mem_map_of_mem (h.mem_level_iff.mpr ⟨hp, rfl⟩))
  have hdepth : t.depthOf p < t.size :=
    Nat.lt_of_le_of_lt (h.le_of_mem_level (h.mem_level_iff.mpr ⟨hp, rfl⟩)) hp
  refine hlevel.trans ?_
  rw [h.breadthFirst_eq, levels, List.flatMap_def]
  exact List.sublist_flatten_of_mem (List.mem_map_of_mem (List.mem_range.mpr hdepth))

/-! ### Adding a child -/

/-- A node that contributes nothing may be left out. -/
theorem flatMap_filter_ne {f : NodeId → List NodeId} (hid : f id = []) (nodes : List NodeId) :
    (nodes.filter (· != id)).flatMap f = nodes.flatMap f := by
  induction nodes with
  | nil => rfl
  | cons x nodes ih =>
    rw [List.flatMap_cons, List.filter_cons, ← ih]
    split
    · rw [List.flatMap_cons]
    · next hx =>
      obtain rfl : x = id := by simpa using hx
      rw [hid, List.nil_append]

theorem level_addChild (h : t.WellFormed) (hadd : t.addChild parent step testCaseId = .ok (id, t')) (depth : Nat) :
    (t'.level depth).filter (· != id) = t.level depth := by
  obtain ⟨_, -, rfl, -⟩ := addChild_spec hadd
  have hne : ∀ x < t.size, (x != t.size) = true := fun x hlt => bne_iff_ne.mpr (Nat.ne_of_lt hlt)
  have hold (p : NodeId) : (t.childrenOf p).filter (· != t.size) = t.childrenOf p :=
    List.filter_eq_self.mpr fun c hc => hne c (h.lt_of_mem hc).2
  have hchildren (p : NodeId) : (t'.childrenOf p).filter (· != t.size) = t.childrenOf p := by
    rw [childrenOf_addChild hadd]
    split
    · rw [List.filter_append, hold, List.filter_cons_of_neg (by simp), List.filter_nil, List.append_nil]
    · exact hold p
  induction depth with
  | zero => exact List.filter_eq_self.mpr fun x hx => hne x (List.mem_singleton.mp hx ▸ h.size_pos)
  | succ depth ih =>
    rw [level, level, ← ih, List.filter_flatMap, List.flatMap_congr fun p _ => hchildren p]
    exact (flatMap_filter_ne t.childrenOf_size _).symm

/-- A node that is added changes nothing in the order of the others. -/
theorem breadthFirst_addChild (h : t.WellFormed) (hadd : t.addChild parent step testCaseId = .ok (id, t')) :
    t'.breadthFirst.filter (· != id) = t.breadthFirst := by
  obtain ⟨_, -, -, -, hsize, -⟩ := addChild_spec hadd
  have hend : t.levels (t.size + 1) = t.levels t.size := by
    rw [levels_succ, h.level_eq_nil (Nat.le_succ t.size), List.append_nil]
  rw [(h.addChild hadd).breadthFirst_eq, hsize, h.breadthFirst_eq, ← hend, levels, List.filter_flatMap, levels]
  exact List.flatMap_congr fun k _ => h.level_addChild hadd (k + 1)

end WellFormed

/-- The loop over a queue ends, and it has listed every node but the root, once: one level after another, so that the
depth never goes down and a parent comes before its children. Children of one node stand in the order in which they
were added: a new one joins at the end of the child list, these lists are found in the walk as they are, and the walk
without the new node is what it was. -/
theorem breadthFirst_levels (h : t.Reachable) :
    (∀ order, t.Drains (t.childrenOf root) order ↔ order = t.breadthFirst) ∧
      (∀ id, id ∈ t.breadthFirst ↔ id ≠ root ∧ id < t.size) ∧ t.breadthFirst.Nodup ∧
      (t.depthOf root = 0 ∧ ∀ p c, t.IsChild p c → t.depthOf c = t.depthOf p + 1) ∧
      t.breadthFirst.Pairwise (fun a b => t.depthOf a ≤ t.depthOf b) ∧
      (∀ p c, t.IsChild p c → p ≠ root → [p, c].Sublist t.breadthFirst) ∧
      (t.breadthFirst = (List.range t.size).flatMap (fun k => t.level (k + 1)) ∧
        ∀ k, t.size ≤ k → t.level k = []) ∧
      (∀ p, (t.childrenOf p).Sublist t.breadthFirst) ∧
      ∀ parent step testCaseId id t', t.addChild parent step testCaseId = .ok (id, t') →
        t'.childrenOf parent = t.childrenOf parent ++ [id] ∧ t'.breadthFirst.filter (· != id) = t.breadthFirst := by
  have hwf := h.wellFormed
  refine ⟨fun order => ⟨fun hdrains => ?_, ?_⟩, fun _ => hwf.mem_breadthFirst_iff, hwf.nodup_breadthFirst,
    ⟨?_, fun _ _ => hwf.depthOf_child⟩, hwf.depths_ascend, fun _ _ hc hp => hwf.parent_first hp hc,
    ⟨hwf.breadthFirst_eq, fun k hk => ?_⟩, fun p => ?_, fun parent step testCaseId id t' hadd => ⟨?_, ?_⟩⟩
  · rw [hwf.breadthFirst_eq]
    exact hdrains.unique hwf.drains_children_root
  · rintro rfl
    exact hwf.breadthFirst_eq ▸ hwf.drains_children_root
  · exact (hwf.mem_level_iff.mp (List.mem_singleton_self root)).2
  · obtain ⟨k, rfl⟩ := Nat.exists_eq_add_one_of_ne_zero (Nat.ne_zero_of_lt (Nat.lt_of_lt_of_le hwf.size_pos hk))
    exact hwf.level_eq_nil hk
  · rcases Nat.lt_or_ge p t.size with hp | hp
    · exact hwf.childrenOf_sublist hp
    · rw [List.eq_nil_iff_forall_not_mem.mpr fun c hc =>
        absurd (Nat.lt_trans (hwf.lt_of_mem hc).1 (hwf.lt_of_mem hc).2) (Nat.not_lt_of_le hp)]
      exact List.nil_sublist _
  · obtain ⟨_, -, rfl, -⟩ := addChild_spec hadd
    rw [childrenOf_addChild hadd, if_pos rfl]
  · exact hwf.breadthFirst_addChild hadd

/-- A node that is added under the first one, when the second level is there already, comes after those of its level
that it finds under the same parent. -/
theorem breadthFirst_levels_interleaved :
    let login := Step.firing (.named "login")
    let t := (((((rooted .standard (.constructor "new") ∅).withStep 0 login).withStep 1 login).withStep 1
      login).withStep 3 login).withStep 0 login
    let t' := t.withStep 1 login
    t.Reachable ∧ t.breadthFirst = [1, 5, 2, 3, 4] ∧ t'.breadthFirst = [1, 5, 2, 3, 6, 4] ∧
      (t.Drains [1, 5] [1, 5, 2, 3, 4] ∧ t.breadthFirst.Nodup) ∧
      t.breadthFirst.Pairwise (fun a b => t.depthOf a ≤ t.depthOf b) ∧
      (t.IsChild 3 4 ∧ [3, 4].Sublist t.breadthFirst) ∧ (t.level 1 = [1, 5] ∧ t.level 6 = []) ∧
      [2, 3].Sublist t.breadthFirst ∧ t'.breadthFirst.filter (· != 6) = t.breadthFirst := by
  intro login t t'
  have hreachable : t.Reachable :=
    (((((Reachable.rooted .standard (.constructor "new") ∅).withStep 0 login).withStep 1 login).withStep 1
      login).withStep 3 login).withStep 0 login
  have horder : t.breadthFirst = [1, 5, 2, 3, 4] := by decide +kernel
  have hroot : t.childrenOf root = [1, 5] := by decide +kernel
  have hfirst : t.childrenOf 1 = [2, 3] := by decide +kernel
  have hchild : t.IsChild 3 4 := by
    show 4 ∈ t.childrenOf 3
    decide +kernel
  have hadd : t.addChild 1 login none = .ok (6, t') := by decide +kernel
  obtain ⟨hdrains, -, hnodup, -, hdepths, hparent, ⟨-, hempty⟩, hchildren, hadds⟩ := breadthFirst_levels hreachable
  rw [hroot] at hdrains
  exact ⟨hreachable, horder, by decide +kernel, ⟨(hdrains _).mpr horder.symm, hnodup⟩, hdepths,
    ⟨hchild, hparent 3 4 hchild (by decide)⟩, ⟨by decide +kernel, hempty 6 (by decide +kernel)⟩,
    hfirst ▸ hchildren 1, (hadds 1 login none 6 t' hadd).2⟩

end TestScribe.ExecutionTree

import TestScribe.Proofs.Text.Decimal
import TestScribe.Proofs.Tree.Operations
import TestScribe.Proofs.Tree.Walk

/-!
# Positions and test-case ids

`StandsAt` reads off the lists of children which positions lead from the root to a node. Every node stands at exactly
one list of positions and no two nodes at the same (`WellFormed.exists_standsAt`, `WellFormed.standsAt_unique`,
`StandsAt.node_unique`), and since operations only add children behind those that are there (`Grown.afterAll`), a node
never moves. A node that is added without an id of its own is named after its position, so a tree without such ids is
`Numbered`: the id of a node spells out its positions (`testCaseIds_afterAll`).
-/

namespace TestScribe.ExecutionTree

/-- The positions, counted from one among the children of a node, that lead from the root to a node. -/
inductive StandsAt (t : ExecutionTree) : NodeId → List Nat → Prop
  | root : StandsAt t root []
  | child {p c : NodeId} {k : Nat} {positions : List Nat} (hp : StandsAt t p positions)
      (hc : (t.childrenOf p)[k]? = some c) : StandsAt t c (positions ++ [k + 1])

/-- Every node is still there with its id, and its children are followed by more at most. -/
def Grown (t t' : ExecutionTree) : Prop :=
  ∀ i n, t.node? i = some n →
    ∃ n', t'.node? i = some n' ∧ n'.testCaseId = n.testCaseId ∧ n.children <+: n'.children

/-- The ids of the nodes are their positions. -/
def Numbered (t : ExecutionTree) : Prop :=
  ∀ i n positions, t.node? i = some n → t.StandsAt i positions → n.testCaseId = joined positions

variable {t t' t'' : ExecutionTree} {parent i j p c id : NodeId} {k : Nat} {step : Step} {testCaseId : Option String}
  {positions positions' : List Nat}

/-! ### Where a node stands -/

theorem standsAt_concat_iff {number : Nat} : t.StandsAt c (positions ++ [number]) ↔
    ∃ p k, number = k + 1 ∧ t.StandsAt p positions ∧ (t.childrenOf p)[k]? = some c := by
  constructor
  · intro h
    generalize hat : positions ++ [number] = at' at h
    cases h with
    | root => simp at hat
    | child hp hc =>
      obtain ⟨rfl, hlast⟩ := List.append_inj' hat rfl
      cases hlast
      exact ⟨_, _, rfl, hp, hc⟩
  · rintro ⟨p, k, rfl, hp, hc⟩
    exact .child hp hc

theorem StandsAt.node_unique (h : t.StandsAt i positions) (h' : t.StandsAt j positions) : i = j := by
  induction h generalizing j with
  | root =>
    generalize hat : ([] : List Nat) = at' at h'
    cases h' with
    | root => rfl
    | child => simp at hat
  | child hp hc ih =>
    obtain ⟨p', k', hk, hp', hc'⟩ := standsAt_concat_iff.mp h'
    obtain rfl := ih hp'
    obtain rfl := Nat.succ.inj hk
    exact Option.some.inj (hc.symm.trans hc')

namespace WellFormed

theorem eq_root_of_standsAt (h : t.WellFormed) (hi : t.StandsAt root positions) : positions = [] := by
  rcases List.eq_nil_or_concat' positions with rfl | ⟨front, number, rfl⟩
  · rfl
  · obtain ⟨p, k, -, -, hc⟩ := standsAt_concat_iff.mp hi
    exact absurd rfl (h.ne_root_of_mem (List.mem_of_getElem? hc)).1

theorem ne_nil_of_standsAt (hi : t.StandsAt i positions) (hne : i ≠ root) : positions ≠ [] := by
  rintro rfl
  exact hne (hi.node_unique .root)

/-- A node is the child of one node only, and once. -/
theorem standsAt_unique (h : t.WellFormed) (hi : t.StandsAt i positions) (hi' : t.StandsAt i positions') :
    positions = positions' := by
  induction hi generalizing positions' with
  | root => exact (h.eq_root_of_standsAt hi').symm
  | @child p c k positions hp hc ih =>
    have hmem := List.mem_of_getElem? hc
    rcases List.eq_nil_or_concat' positions' with rfl | ⟨front, number, rfl⟩
    · exact absurd (hi'.node_unique .root) (h.ne_root_of_mem hmem).1
    · obtain ⟨p', k', rfl, hp', hc'⟩ := standsAt_concat_iff.mp hi'
      obtain rfl := h.parent_unique hmem (List.mem_of_getElem? hc')
      have hnodup : (t.childrenOf p).Nodup := (h.sorted p).imp Nat.ne_of_lt
      have hlt := (List.getElem?_eq_some_iff.mp hc).1
      obtain rfl := (List.getElem?_inj hlt hnodup).mp (hc.trans hc'.symm)
      rw [ih hp']

theorem exists_standsAt (h : t.WellFormed) (hi : i < t.size) : ∃ positions, t.StandsAt i positions := by
  induction h.under_root hi with
  | refl => exact ⟨[], .root⟩
  | tail _ hc ih =>
    obtain ⟨k, hk⟩ := List.getElem?_of_mem hc
    obtain ⟨positions, hp⟩ := ih (Nat.lt_trans (h.lt_of_mem hc).1 hi)
    exact ⟨_, .child hp hk⟩

end WellFormed

/-! ### What operations leave -/

namespace Grown

theorem refl (t : ExecutionTree) : t.Grown t :=
  fun _ n hn => ⟨n, hn, rfl, List.prefix_refl _⟩

theorem trans (h : t.Grown t') (h' : t'.Grown t'') : t.Grown t'' := by
  intro i n hn
  obtain ⟨n', hn', hid, hchildren⟩ := h i n hn
  obtain ⟨n'', hn'', hid', hchildren'⟩ := h' i n' hn'
  exact ⟨n'', hn'', hid'.trans hid, hchildren.trans hchildren'⟩

/-- Test-case ids and children are not in the slots. -/
theorem of_clear_eq (h : t'.clear = t.clear) : t.Grown t' := by
  intro i n hn
  have hcleared : (t'.node? i).map Node.clear = some n.clear := by
    rw [← node?_clear, h, node?_clear, hn, Option.map_some]
  obtain ⟨n', hn', hsame⟩ := Option.map_eq_some_iff.mp hcleared
  have hid : n'.clear.testCaseId = n.clear.testCaseId := by rw [hsame]
  have hchildren : n'.clear.children = n.clear.children := by rw [hsame]
  exact ⟨n', hn', hid, hchildren ▸ List.prefix_refl _⟩

theorem addChild (h : t.addChild parent step testCaseId = .ok (id, t')) : t.Grown t' := by
  intro i n hn
  obtain ⟨p, -, -, -, -, hnode⟩ := addChild_spec h
  rw [hnode, if_neg (Nat.ne_of_lt (lt_size hn)), hn]
  split
  · exact ⟨_, rfl, rfl, List.prefix_append _ _⟩
  · exact ⟨n, rfl, rfl, List.prefix_refl _⟩

theorem after (t : ExecutionTree) (operation : Operation) : t.Grown (t.after operation) := by
  rcases t.after_cases operation with ⟨parent, step, testCaseId, id, -, hadd⟩ | hclear
  · exact .addChild hadd
  · exact .of_clear_eq hclear

theorem afterAll (t : ExecutionTree) (operations : List Operation) : t.Grown (t.afterAll operations) := by
  induction operations generalizing t with
  | nil => exact .refl t
  | cons operation operations ih => exact (Grown.after t operation).trans (ih (t.after operation))

theorem childrenOf (h : t.Grown t') (p : NodeId) : t.childrenOf p <+: t'.childrenOf p := by
  rw [childrenOf_eq, childrenOf_eq]
  cases hn : t.node? p with
  | none => exact List.nil_prefix
  | some n =>
    obtain ⟨n', hn', -, hchildren⟩ := h p n hn
    rw [hn']
    exact hchildren

theorem getElem?_childrenOf (h : t.Grown t') (hc : (t.childrenOf p)[k]? = some c) :
    (t'.childrenOf p)[k]? = some c := by
  obtain ⟨more, hmore⟩ := h.childrenOf p
  rw [← hmore, List.getElem?_append_left (List.getElem?_eq_some_iff.mp hc).1, hc]

/-- Nodes stay where they stand. -/
theorem standsAt (h : t.Grown t') (hi : t.StandsAt i positions) : t'.StandsAt i positions := by
  induction hi with
  | root => exact .root
  | child _ hc ih => exact .child ih (h.getElem?_childrenOf hc)

end Grown

/-! ### Nodes without ids of their own -/

/-- A child that is added comes behind the children there are. -/
theorem getElem?_childrenOf_addChild {p : Node} (hp : t.node? parent = some p)
    (h : t.addChild parent step testCaseId = .ok (id, t')) :
    (t'.childrenOf parent)[p.children.length]? = some t.size := by
  have hchildren : t.childrenOf parent = p.children := by rw [childrenOf_eq, hp]; rfl
  rw [childrenOf_addChild h, if_pos rfl, hchildren, List.getElem?_concat_length]

namespace WellFormed

theorem isRoot_iff (h : t.WellFormed) {n : Node} (hn : t.node? i = some n) : n.isRoot = true ↔ i = root := by
  rw [← h.parentOf_eq_none_iff (lt_size hn), parentOf, hn, Option.bind_some, Node.isRoot, Option.isNone_iff_eq_none]

/-- The id of a position under a node that is named after its own. -/
theorem childTestCaseId_eq (h : t.WellFormed) {p : Node} (hp : t.node? parent = some p)
    (hat : t.StandsAt parent positions) (hid : p.testCaseId = joined positions) (number : Nat) :
    p.childTestCaseId number = joined (positions ++ [number]) := by
  rw [Node.childTestCaseId]
  split
  · next hroot =>
    obtain rfl := (h.isRoot_iff hp).mp hroot
    obtain rfl := h.eq_root_of_standsAt hat
    simp [joined]
  · next hroot =>
    have hne : parent ≠ root := fun heq => hroot ((h.isRoot_iff hp).mpr heq)
    rw [joined_concat (ne_nil_of_standsAt hat hne), hid]

end WellFormed

namespace Numbered

theorem rooted (kind : TreeKind) (constructor : Transition) (marking : Marking) :
    (ExecutionTree.rooted kind constructor marking).Numbered := by
  intro i n positions hn hat
  obtain rfl : i = root := Nat.lt_one_iff.mp (lt_size hn)
  obtain rfl := (WellFormed.rooted kind constructor marking).eq_root_of_standsAt hat
  cases hn
  rfl

theorem of_clear_eq (h : t.Numbered) (hclear : t'.clear = t.clear) : t'.Numbered := by
  intro i n positions hn hat
  obtain ⟨n', hn', hid, -⟩ := Grown.of_clear_eq hclear.symm i n hn
  rw [← hid]
  exact h i n' positions hn' ((Grown.of_clear_eq hclear.symm).standsAt hat)

theorem addChild (hw : t.WellFormed) (h : t.Numbered) (hadd : t.addChild parent step none = .ok (id, t')) :
    t'.Numbered := by
  intro i n positions hn hat
  have hgrown : t.Grown t' := .addChild hadd
  have hw' : t'.WellFormed := hw.addChild hadd
  obtain ⟨p, hp, -, -, hsize, hnode⟩ := addChild_spec hadd
  by_cases hi : i = t.size
  · -- The new node stands behind the children of its parent.
    rw [hnode, if_pos hi] at hn
    cases hn
    subst hi
    obtain ⟨front, hfront⟩ := hw.exists_standsAt (lt_size hp)
    have hnew := StandsAt.child (hgrown.standsAt hfront) (getElem?_childrenOf_addChild hp hadd)
    obtain rfl := hw'.standsAt_unique hat hnew
    exact hw.childTestCaseId_eq hp hfront (h parent p front hp hfront) _
  · have hlt : i < t.size + 1 := hsize ▸ lt_size hn
    have hlt : i < t.size := Nat.lt_of_le_of_ne (Nat.le_of_lt_succ hlt) hi
    obtain ⟨m, hm⟩ := exists_node hlt
    obtain ⟨n', hn', hid, -⟩ := hgrown i m hm
    obtain rfl := Option.some.inj (hn.symm.trans hn')
    obtain ⟨positions', hat'⟩ := hw.exists_standsAt hlt
    obtain rfl := hw'.standsAt_unique hat (hgrown.standsAt hat')
    rw [hid, h i m _ hm hat']

theorem afterAll (hr : t.Reachable) (h : t.Numbered) {operations : List Operation}
    (hnone : ∀ parent step testCaseId, .addChild parent step (some testCaseId) ∉ operations) :
    (t.afterAll operations).Numbered := by
  induction operations generalizing t with
  | nil => exact h
  | cons operation operations ih =>
    refine ih (hr.after operation) ?_ fun parent step testCaseId hmem => ?_
    · rcases t.after_cases operation with ⟨parent, step, testCaseId, id, rfl, hadd⟩ | hclear
      · cases testCaseId with
        | none => exact h.addChild hr.wellFormed hadd
        | some testCaseId => exact absurd List.mem_cons_self (hnone parent step testCaseId)
      · exact h.of_clear_eq hclear
    · exact hnone parent step testCaseId (List.mem_cons_of_mem _ hmem)

end Numbered

/-- A child without an id of its own is named after its parent and its position, also when more was done to the tree
since. -/
theorem testCaseId_addChild (hw : t.WellFormed) (hadd : t.addChild parent step none = .ok (id, t'))
    (hgrown : t'.Grown t'') :
    ∃ p n k, t''.node? parent = some p ∧ t''.node? t.size = some n ∧ p.children[k]? = some t.size ∧
      n.testCaseId = if parent = root then toString (k + 1) else p.testCaseId ++ "_" ++ toString (k + 1) := by
  obtain ⟨p, hp, -, -, -, hnode⟩ := addChild_spec hadd
  obtain ⟨p'', hp'', hid, -⟩ := (Grown.addChild hadd).trans hgrown parent p hp
  have hnew : t'.node? t.size = some (t.newChild p parent step none) := by rw [hnode, if_pos rfl]
  obtain ⟨n, hn, hname, -⟩ := hgrown t.size _ hnew
  have hchild := hgrown.getElem?_childrenOf (getElem?_childrenOf_addChild hp hadd)
  rw [childrenOf_eq, hp''] at hchild
  refine ⟨p'', n, p.children.length, hp'', hn, hchild, ?_⟩
  rw [hname, hid]
  show p.childTestCaseId (p.children.length + 1) = _
  rw [Node.childTestCaseId]
  exact ite_congr (propext (hw.isRoot_iff hp)) (fun _ => rfl) fun _ => rfl

/-- A tree whose nodes are added without ids of their own names each after the positions that lead to it, and no two
alike. Among nodes with ids of their own, a node without one is still named after its parent and its position among
all children of it. No operation changes an id that is there. -/
theorem testCaseIds_afterAll (kind : TreeKind) (constructor : Transition) (marking : Marking)
    (operations : List Operation) :
    let start := rooted kind constructor marking
    let t := start.afterAll operations
    ((∀ parent step testCaseId, .addChild parent step (some testCaseId) ∉ operations) →
      (∀ i n, t.node? i = some n → i ≠ root →
        ∃ positions, (∀ other, t.StandsAt i other ↔ other = positions) ∧
          n.testCaseId = "_".intercalate (positions.map toString)) ∧
      ∀ i j n m, t.node? i = some n → t.node? j = some m → i ≠ root → j ≠ root →
        n.testCaseId = m.testCaseId → i = j) ∧
      (∀ before parent step since, operations = before ++ .addChild parent step none :: since →
        let id := (start.afterAll before).size
        parent < id →
        ∃ p n k, t.node? parent = some p ∧ t.node? id = some n ∧ p.children[k]? = some id ∧
          n.testCaseId =
            if parent = root then toString (k + 1) else p.testCaseId ++ "_" ++ toString (k + 1)) ∧
      ∀ more i n, t.node? i = some n →
        ∃ n', (t.afterAll more).node? i = some n' ∧ n'.testCaseId = n.testCaseId := by
  intro start t
  have hstart : start.Reachable := .rooted kind constructor marking
  have hw : t.WellFormed := (hstart.afterAll operations).wellFormed
  refine ⟨fun hnone => ?_, fun before parent step since hsplit => ?_, fun more i n hn => ?_⟩
  · have hnumbered : t.Numbered := (Numbered.rooted kind constructor marking).afterAll hstart hnone
    refine ⟨fun i n hn hi => ?_, fun i j n m hn hm hi hj hid => ?_⟩
    · obtain ⟨positions, hat⟩ := hw.exists_standsAt (lt_size hn)
      exact ⟨positions, fun other => ⟨fun hother => hw.standsAt_unique hother hat, fun heq => heq ▸ hat⟩,
        hnumbered i n positions hn hat⟩
    · obtain ⟨positions, hat⟩ := hw.exists_standsAt (lt_size hn)
      obtain ⟨positions', hat'⟩ := hw.exists_standsAt (lt_size hm)
      rw [hnumbered i n positions hn hat, hnumbered j m positions' hm hat'] at hid
      obtain rfl := joined_inj (WellFormed.ne_nil_of_standsAt hat hi) (WellFormed.ne_nil_of_standsAt hat' hj) hid
      exact hat.node_unique hat'
  · intro id hlt
    obtain ⟨t', hadd⟩ := exists_addChild hlt step none
    have hafter : (start.afterAll before).after (.addChild parent step none) = t' := by rw [after, hadd]
    have hgrown : t'.Grown t := by
      have ht : t = t'.afterAll since := by
        rw [← hafter]
        exact (congrArg start.afterAll hsplit).trans List.foldl_append
      exact ht ▸ Grown.afterAll t' since
    exact testCaseId_addChild (hstart.afterAll before).wellFormed hadd hgrown
  · obtain ⟨n', hn', hid, -⟩ := Grown.afterAll t more i n hn
    exact ⟨n', hn', hid⟩

/-- A child refused in between takes no position. A given id passes for a position, and the one that is made from it
counts the sibling with an id of its own. -/
theorem testCaseIds_afterAll_given :
    let login := Step.firing (.named "login")
    let start := rooted .standard (.constructor "new") ∅
    let operations : List Operation := [.addChild 0 login none, .addChild 0 login none, .addChild 9 login none,
      .addChild 2 login none, .setCode 2 .input "login();", .addChild 2 login none]
    let t := start.afterAll operations
    let before : List Operation := [.addChild 0 login (some "2_2"), .addChild 1 login (some "b")]
    let given := start.afterAll (before ++ [.addChild 1 login none, .clear])
    ((∀ parent step testCaseId, .addChild parent step (some testCaseId) ∉ operations) ∧
      ∃ n, t.node? 4 = some n ∧ (4 : NodeId) ≠ root ∧ (∀ other, t.StandsAt 4 other ↔ other = [2, 2]) ∧
        n.testCaseId = "2_2" ∧
        ∀ j m, t.node? j = some m → j ≠ root → n.testCaseId = m.testCaseId → 4 = j) ∧
      1 < (start.afterAll before).size ∧
      ∃ p n k n', given.node? 1 = some p ∧ given.node? 3 = some n ∧ p.children[k]? = some 3 ∧
        n.testCaseId = p.testCaseId ++ "_" ++ toString (k + 1) ∧ n.testCaseId = "2_2_2" ∧
        (given.afterAll [.addChild 3 login (some "c")]).node? 3 = some n' ∧ n'.testCaseId = n.testCaseId := by
  intro login start operations t before given
  have hnone : ∀ parent step testCaseId, .addChild parent step (some testCaseId) ∉ operations := by
    simp [operations]
  have hstands : t.StandsAt 2 ([] ++ [1 + 1]) := .child .root (by decide +kernel)
  have hstands : t.StandsAt 4 ([2] ++ [1 + 1]) := .child hstands (by decide +kernel)
  have hnode : (t.node? 4).isSome := by decide +kernel
  have hknown : 1 < (start.afterAll before).size := by decide +kernel
  obtain ⟨n, hn⟩ := Option.isSome_iff_exists.mp hnode
  obtain ⟨hplaces, hdistinct⟩ := (testCaseIds_afterAll .standard (.constructor "new") ∅ operations).1 hnone
  obtain ⟨positions, hat, hid⟩ := hplaces 4 n hn (by decide)
  obtain rfl := (hat _).mp hstands
  obtain ⟨-, hposition, hkept⟩ := testCaseIds_afterAll .standard (.constructor "new") ∅
    (before ++ [.addChild 1 login none, .clear])
  obtain ⟨p, n₃, k, hp, hn₃, hk, hname⟩ := hposition before 1 login [.clear] rfl hknown
  obtain ⟨n₃', hn₃', hsame⟩ := hkept [.addChild 3 login (some "c")] 3 n₃ hn₃
  have hshown : (given.node? 3).map Node.testCaseId = some "2_2_2" := by decide +kernel
  have hshown : n₃.testCaseId = "2_2_2" := Option.some.inj ((congrArg _ hn₃).symm.trans hshown)
  exact ⟨⟨hnone, n, hn, by decide, hat, hid.trans (by decide +kernel), fun j m hm hj heq =>
      hdistinct 4 j n m hn hm (by decide) hj heq⟩,
    hknown, p, n₃, k, n₃', hp, hn₃, hk, hname, hshown, hn₃', hsame⟩

end TestScribe.ExecutionTree

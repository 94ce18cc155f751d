import TestScribe.Document.Tree
import TestScribe.Proofs.First
import TestScribe.Proofs.Tree.Operations
import TestScribe.Proofs.Tree.Walk

/-!
# The tree of a document

`steps` lists the nodes of a document in the order they are written. A tree is built if the model knows all
their transitions; else the first unknown one is reported. The tree numbers the nodes in that order and
nests them as the document does (`AllLaidOut`), so its tests end in increasing leaves (`build_outcome`).
-/

namespace TestScribe

open ExecutionTree (root)

namespace StepDocument

def Known (d : StepDocument) (model : Model) : Prop :=
  ∃ transition, model.transition? d.transitionName = some transition

/-- A node fires what a document says. It has the document's test-case id, or else an automatic one. -/
structure CarriedBy (d : StepDocument) (model : Model) (automatic : String) (n : Node) : Prop where
  event : n.event = d.event
  transition : model.transition? d.transitionName = some n.transition
  bindings : n.bindings = d.substitution
  marking : n.marking = d.marking
  negative : n.negative = d.negative
  parameters : n.parameters = d.parameters
  statements : n.statements = d.statements
  testCaseId : n.testCaseId = d.testCaseId.getD automatic

instance (d : StepDocument) (model : Model) : Decidable (d.Known model) :=
  decidable_of_iff ((model.transition? d.transitionName).isSome = true) Option.isSome_iff_exists

variable {d : StepDocument} {model : Model}

theorem exists_build (h : d.Known model) : ∃ step, d.build model = .ok step := by
  obtain ⟨transition, htransition⟩ := h
  rw [build, htransition]
  exact ⟨_, rfl⟩

theorem build_of_unknown (h : ¬ d.Known model) :
    d.build model = .error (.unknownTransition d.event d.transitionName) := by
  cases htransition : model.transition? d.transitionName with
  | none => rw [build, htransition]
  | some transition => exact absurd ⟨transition, htransition⟩ h

theorem build_congr {model' : Model} (h : model.transitions = model'.transitions) (d : StepDocument) :
    d.build model = d.build model' := by
  rw [build, build, Model.transition?, Model.transition?, h]

end StepDocument

namespace NodeDocument

mutual

/-- The steps of a document as they are written: a node before its children, and these in order. -/
def steps : NodeDocument → List StepDocument
  | .node d children => d :: stepsOf children

def stepsOf : List NodeDocument → List StepDocument
  | [] => []
  | d :: rest => d.steps ++ stepsOf rest

end

/-- The ids of siblings: each comes right after all that is below the one before. -/
def siblings (first : NodeId) : List NodeDocument → List NodeId
  | [] => []
  | d :: rest => first :: siblings (first + d.steps.length) rest

mutual

/-- The node `id` of the tree carries the document as the child of `parent` at a position, and its children
carry the document's. The function `automatic` gives the test-case ids of the children of `parent`. -/
def LaidOut (t : ExecutionTree) (model : Model) (parent : NodeId) (automatic : Nat → String)
    (position : Nat) (id : NodeId) : NodeDocument → Prop
  | .node d children =>
    ∃ n, t.node? id = some n ∧ d.CarriedBy model (automatic position) n ∧ n.parent = some parent ∧
      n.children = siblings (id + 1) children ∧
      AllLaidOut t model id n.childTestCaseId 1 (id + 1) children

def AllLaidOut (t : ExecutionTree) (model : Model) (parent : NodeId) (automatic : Nat → String) :
    Nat → NodeId → List NodeDocument → Prop
  | _, _, [] => True
  | position, first, d :: rest =>
    d.LaidOut t model parent automatic position first ∧
      AllLaidOut t model parent automatic (position + 1) (first + d.steps.length) rest

end

variable {model : Model} {t t' : ExecutionTree} {parent : Nat} {p : Node} {d : NodeDocument}
  {rest : List NodeDocument}

/-! ### What is laid out stays so -/

mutual

theorem LaidOut.of_eq : ∀ {d : NodeDocument} {parent id position : Nat}
    {automatic : Nat → String}, d.LaidOut t model parent automatic position id →
    (∀ i, id ≤ i → i < id + d.steps.length → t'.node? i = t.node? i) →
    d.LaidOut t' model parent automatic position id
  | .node d children, parent, id, position, automatic, h, heq => by
    rw [steps, List.length_cons] at heq
    obtain ⟨n, hn, hcarried, hparent, hchildren, hbelow⟩ := h
    refine ⟨n, ?_, hcarried, hparent, hchildren, AllLaidOut.of_eq hbelow fun i hle hlt => ?_⟩
    · rw [heq id (Nat.le_refl id) (by omega), hn]
    · exact heq i (by omega) (by omega)

theorem AllLaidOut.of_eq : ∀ {docs : List NodeDocument} {parent first position : Nat}
    {automatic : Nat → String}, AllLaidOut t model parent automatic position first docs →
    (∀ i, first ≤ i → i < first + (stepsOf docs).length → t'.node? i = t.node? i) →
    AllLaidOut t' model parent automatic position first docs
  | [], _, _, _, _, _, _ => trivial
  | d :: rest, parent, first, position, automatic, h, heq => by
    rw [stepsOf, List.length_append] at heq
    obtain ⟨hd, hrest⟩ := h
    refine ⟨LaidOut.of_eq hd fun i hle hlt => ?_, AllLaidOut.of_eq hrest fun i hle hlt => ?_⟩
    · exact heq i hle (by omega)
    · exact heq i (by omega) (by omega)

end

/-! ### Adding documents -/

/-- What adding documents below the node `p` does to a tree: they are laid out behind it, and they become
the last children of `p`. -/
structure Added (model : Model) (t : ExecutionTree) (parent : NodeId) (p : Node)
    (docs : List NodeDocument) (t' : ExecutionTree) : Prop where
  kind : t'.kind = t.kind
  size : t'.size = t.size + (stepsOf docs).length
  node?_of_lt : ∀ i, i < t.size → t'.node? i =
    if i = parent then some { p with children := p.children ++ siblings t.size docs } else t.node? i
  laidOut : AllLaidOut t' model parent p.childTestCaseId (p.children.length + 1) t.size docs
  reachable : t.Reachable → t'.Reachable

namespace Added

theorem nil (hp : t.node? parent = some p) : Added model t parent p [] t where
  kind := rfl
  size := rfl
  node?_of_lt i _ := by
    rw [siblings, List.append_nil]
    split
    · next hi => rw [hi, hp]
    · rfl
  laidOut := trivial
  reachable h := h

/-- A step is added as a node without children, and then its children below it. -/
theorem node {s : StepDocument} {step : Step} {children : List NodeDocument} {t₁ : ExecutionTree}
    (hbuild : s.build model = .ok step) (hp : t.node? parent = some p)
    (hadd : t.addChild parent step s.testCaseId = .ok (t.size, t₁))
    (h : Added model t₁ t.size (t.newChild p parent step s.testCaseId) children t') :
    Added model t parent p [.node s children] t' := by
  obtain ⟨_, hp', -, hkind, hsize, hnode⟩ := ExecutionTree.addChild_spec hadd
  obtain rfl := Option.some.inj (hp.symm.trans hp')
  have hlt := ExecutionTree.lt_size hp
  have hlen : (stepsOf [.node s children]).length = 1 + (stepsOf children).length := by
    simp [stepsOf, steps]; omega
  have hcarried : s.CarriedBy model (p.childTestCaseId (p.children.length + 1))
      (t.newChild p parent step s.testCaseId) := by
    rw [StepDocument.build] at hbuild
    split at hbuild
    · cases hbuild
    · next transition htransition =>
      cases hbuild
      exact ⟨rfl, htransition, rfl, rfl, rfl, rfl, rfl, rfl⟩
  refine ⟨h.kind.trans hkind, ?_, fun i hi => ?_, ⟨?_, trivial⟩, fun hr => h.reachable (hr.addChild hadd)⟩
  · rw [h.size, hsize, hlen]; omega
  · rw [h.node?_of_lt i (by omega), if_neg (Nat.ne_of_lt hi), hnode, if_neg (Nat.ne_of_lt hi)]
    rcases Decidable.em (i = parent) with rfl | hne
    · rw [if_pos rfl, if_pos rfl, hp, siblings, siblings, Option.map_some]
    · rw [if_neg (Ne.symm hne), if_neg hne]
  · refine ⟨{ t.newChild p parent step s.testCaseId with children := siblings (t.size + 1) children },
      ?_, ⟨hcarried.event, hcarried.transition, hcarried.bindings, hcarried.marking, hcarried.negative,
        hcarried.parameters, hcarried.statements, hcarried.testCaseId⟩, rfl, rfl, ?_⟩
    · rw [h.node?_of_lt t.size (by omega), if_pos rfl, hsize]; rfl
    · have hlaid := h.laidOut
      rw [hsize] at hlaid
      exact hlaid

theorem cons {t₁ : ExecutionTree} (hlt : parent < t.size) (h : Added model t parent p [d] t₁)
    (hrest : Added model t₁ parent { p with children := p.children ++ [t.size] } rest t') :
    Added model t parent p (d :: rest) t' := by
  have hsize := h.size
  simp only [stepsOf, List.append_nil] at hsize
  refine ⟨hrest.kind.trans h.kind, ?_, fun i hi => ?_, ⟨?_, ?_⟩, fun hr => hrest.reachable (h.reachable hr)⟩
  · rw [hrest.size, hsize, stepsOf, List.length_append, Nat.add_assoc]
  · rw [hrest.node?_of_lt i (by omega)]
    split
    · rw [siblings, List.append_assoc, hsize]; rfl
    · next hne => rw [h.node?_of_lt i hi, if_neg hne]
  · -- What is laid out for the first document is behind `parent`, so the others leave it alone.
    refine LaidOut.of_eq h.laidOut.1 fun i hle hlt' => ?_
    rw [hrest.node?_of_lt i (by omega), if_neg (by omega)]
  · have hlaid := hrest.laidOut
    rw [List.length_append, hsize] at hlaid
    exact hlaid

end Added

mutual

theorem addTo_of_known : ∀ (d : NodeDocument) {t : ExecutionTree} {parent : Nat} {p : Node},
    (∀ s ∈ d.steps, s.Known model) → t.node? parent = some p →
    ∃ t', d.addTo model t parent = .ok t' ∧ Added model t parent p [d] t'
  | .node s children, t, parent, p, hknown, hp => by
    rw [steps, List.forall_mem_cons] at hknown
    obtain ⟨step, hbuild⟩ := s.exists_build hknown.1
    obtain ⟨t₁, hadd⟩ := ExecutionTree.exists_addChild (ExecutionTree.lt_size hp) step s.testCaseId
    have hnew : t₁.node? t.size = some (t.newChild p parent step s.testCaseId) := by
      obtain ⟨_, hp', -, -, -, hnode⟩ := ExecutionTree.addChild_spec hadd
      obtain rfl := Option.some.inj (hp.symm.trans hp')
      rw [hnode, if_pos rfl]
    obtain ⟨t', hall, h⟩ := addAll_of_known children hknown.2 hnew
    refine ⟨t', ?_, Added.node hbuild hp hadd h⟩
    rw [addTo, hbuild]
    show (t.addChild parent step s.testCaseId >>= _) = _
    rw [hadd]
    exact hall

theorem addAll_of_known : ∀ (docs : List NodeDocument) {t : ExecutionTree} {parent : Nat} {p : Node},
    (∀ s ∈ stepsOf docs, s.Known model) → t.node? parent = some p →
    ∃ t', addAll model t parent docs = .ok t' ∧ Added model t parent p docs t'
  | [], t, parent, p, _, hp => ⟨t, rfl, .nil hp⟩
  | d :: rest, t, parent, p, hknown, hp => by
    rw [stepsOf, List.forall_mem_append] at hknown
    have hlt := ExecutionTree.lt_size hp
    obtain ⟨t₁, hd, h⟩ := addTo_of_known d hknown.1 hp
    have hp₁ : t₁.node? parent = some { p with children := p.children ++ [t.size] } := by
      rw [h.node?_of_lt parent hlt, if_pos rfl, siblings, siblings]
    obtain ⟨t', hall, hrest⟩ := addAll_of_known rest hknown.2 hp₁
    refine ⟨t', ?_, h.cons hlt hrest⟩
    rw [addAll, hd]
    exact hall

end

/-! ### Unknown transitions -/

mutual

theorem addTo_of_unknown : ∀ (d : NodeDocument) {t : ExecutionTree} {parent : Nat} {s : StepDocument},
    parent < t.size → IsFirst (fun s => ¬ s.Known model) d.steps s →
    d.addTo model t parent = .error (.unknownTransition s.event s.transitionName)
  | .node d children, t, parent, s, hlt, h => by
    rw [steps] at h
    cases h with
    | here hd =>
      rw [addTo, StepDocument.build_of_unknown hd]
      rfl
    | there hd h =>
      obtain ⟨step, hbuild⟩ := d.exists_build (Decidable.not_not.mp hd)
      obtain ⟨t₁, hadd⟩ := ExecutionTree.exists_addChild hlt step d.testCaseId
      have hsize : t₁.size = t.size + 1 := by
        obtain ⟨_, -, -, -, hsize, -⟩ := ExecutionTree.addChild_spec hadd
        exact hsize
      rw [addTo, hbuild]
      show (t.addChild parent step d.testCaseId >>= _) = _
      rw [hadd]
      exact addAll_of_unknown children (by omega) h

theorem addAll_of_unknown : ∀ (docs : List NodeDocument) {t : ExecutionTree} {parent : Nat}
    {s : StepDocument}, parent < t.size → IsFirst (fun s => ¬ s.Known model) (stepsOf docs) s →
    addAll model t parent docs = .error (.unknownTransition s.event s.transitionName)
  | [], _, _, _, _, h => by cases h
  | d :: rest, t, parent, s, hlt, h => by
    rw [stepsOf] at h
    rcases h.of_append with hd | ⟨hknown, hrest⟩
    · rw [addAll, addTo_of_unknown d hlt hd]
      rfl
    · obtain ⟨p, hp⟩ := ExecutionTree.exists_node hlt
      obtain ⟨t₁, hd, hadded⟩ := addTo_of_known d (fun s hs => Decidable.not_not.mp (hknown s hs)) hp
      have hsize := hadded.size
      rw [addAll, hd]
      exact addAll_of_unknown rest (by omega) hrest

end

/-! ### Models with the same transitions -/

section

variable {model' : Model}

mutual

/-- Of a model, the nodes of a document need the transitions and nothing else. -/
theorem addTo_congr (h : model.transitions = model'.transitions) : ∀ (d : NodeDocument) (t : ExecutionTree)
    (parent : Nat), d.addTo model t parent = d.addTo model' t parent
  | .node s children, t, parent => by
    rw [addTo, addTo, s.build_congr h]
    exact bind_congr fun step => bind_congr fun (id, tree) => addAll_congr h children tree id

theorem addAll_congr (h : model.transitions = model'.transitions) : ∀ (docs : List NodeDocument)
    (t : ExecutionTree) (parent : Nat), addAll model t parent docs = addAll model' t parent docs
  | [], _, _ => rfl
  | d :: rest, t, parent => by
    rw [addAll, addAll, addTo_congr h d t parent]
    exact bind_congr fun tree => addAll_congr h rest tree parent

end

end

/-! ### Numbers -/

mutual

/-- The node of the `k`-th step comes `k` ids after the document's own. -/
theorem LaidOut.carried : ∀ {d : NodeDocument} {parent id j k : Nat} {p : Node} {s : StepDocument},
    d.LaidOut t model parent p.childTestCaseId (j + 1) id → t.node? parent = some p →
    p.children[j]? = some id → d.steps[k]? = some s →
    ∃ n parent p j, t.node? (id + k) = some n ∧ n.parent = some parent ∧ t.node? parent = some p ∧
      p.children[j]? = some (id + k) ∧ s.CarriedBy model (p.childTestCaseId (j + 1)) n
  | .node d children, parent, id, j, k, p, s, h, hp, hj, hk => by
    obtain ⟨n, hn, hcarried, hparent, hchildren, hbelow⟩ := h
    cases k with
    | zero =>
      rw [steps, List.getElem?_cons_zero, Option.some.injEq] at hk
      subst hk
      exact ⟨n, parent, p, j, hn, hparent, hp, hj, hcarried⟩
    | succ k =>
      rw [steps, List.getElem?_cons_succ] at hk
      rw [Nat.add_comm k 1, ← Nat.add_assoc]
      exact AllLaidOut.carried (j := 0) hbelow hn hchildren hk

theorem AllLaidOut.carried : ∀ {docs : List NodeDocument} {parent first j k : Nat} {p : Node}
    {s : StepDocument}, AllLaidOut t model parent p.childTestCaseId (j + 1) first docs →
    t.node? parent = some p → p.children.drop j = siblings first docs → (stepsOf docs)[k]? = some s →
    ∃ n parent p j, t.node? (first + k) = some n ∧ n.parent = some parent ∧ t.node? parent = some p ∧
      p.children[j]? = some (first + k) ∧ s.CarriedBy model (p.childTestCaseId (j + 1)) n
  | [], _, _, _, _, _, _, _, _, _, hk => by cases hk
  | d :: rest, parent, first, j, k, p, s, h, hp, hj, hk => by
    obtain ⟨hd, hrest⟩ := h
    rw [stepsOf] at hk
    rw [siblings] at hj
    rcases Nat.lt_or_ge k d.steps.length with hlt | hge
    · rw [List.getElem?_append_left hlt] at hk
      have hfirst : p.children[j]? = some first := by
        rw [← List.head?_drop, hj, List.head?_cons]
      exact LaidOut.carried hd hp hfirst hk
    · rw [List.getElem?_append_right hge] at hk
      have hdrop : p.children.drop (j + 1) = siblings (first + d.steps.length) rest := by
        rw [← List.tail_drop, hj, List.tail_cons]
      have hsum : first + d.steps.length + (k - d.steps.length) = first + k := by omega
      rw [← hsum]
      exact AllLaidOut.carried hrest hp hdrop hk

end

mutual

/-- What is at a document's node and below it is numbered in one go. -/
theorem LaidOut.preorder (hw : t.WellFormed) : ∀ {d : NodeDocument} {parent id position : Nat}
    {automatic : Nat → String}, d.LaidOut t model parent automatic position id →
    hw.preorder id = List.range' id d.steps.length
  | .node d children, parent, id, position, automatic, h => by
    obtain ⟨n, hn, -, -, hchildren, hbelow⟩ := h
    have hids : t.childrenOf id = siblings (id + 1) children := by
      rw [ExecutionTree.childrenOf_eq, hn, Option.map_some, Option.getD_some, hchildren]
    rw [hw.preorder_eq, hids, AllLaidOut.preorder hw hbelow, steps, List.length_cons, List.range'_succ]

theorem AllLaidOut.preorder (hw : t.WellFormed) : ∀ {docs : List NodeDocument} {parent first position : Nat}
    {automatic : Nat → String}, AllLaidOut t model parent automatic position first docs →
    (siblings first docs).flatMap hw.preorder = List.range' first (stepsOf docs).length
  | [], _, _, _, _, _ => rfl
  | d :: rest, parent, first, position, automatic, h => by
    rw [siblings, List.flatMap_cons, LaidOut.preorder hw h.1, AllLaidOut.preorder hw h.2, stepsOf,
      List.length_append, List.range'_append_1]

end

end NodeDocument

namespace TreeDocument

def steps (d : TreeDocument) : List StepDocument :=
  NodeDocument.stepsOf d.children

/-- The tree of a document, with its nodes numbered in the order they are written. -/
structure Reproduced (d : TreeDocument) (model : Model) (t : ExecutionTree) : Prop where
  kind : t.kind = d.kind
  size : t.size = d.steps.length + 1
  /-- The root fires the constructor event in the initial marking. -/
  root : ∃ r, t.node? root = some r ∧ r.parent = none ∧ r.event = model.constructorEvent ∧
    r.transition = constructor model ∧ r.marking = d.initialMarking ∧
    r.children = NodeDocument.siblings 1 d.children
  /-- Each other node carries its step. Its test-case id, unless the document gives one, is that of its place
  among the children of its parent. -/
  carried : ∀ k s, d.steps[k]? = some s → ∃ n parent p j, t.node? (k + 1) = some n ∧
    n.parent = some parent ∧ t.node? parent = some p ∧ p.children[j]? = some (k + 1) ∧
    s.CarriedBy model (p.childTestCaseId (j + 1)) n
  nested : NodeDocument.AllLaidOut t model ExecutionTree.root toString 1 1 d.children
  leaves : t.leaves.Pairwise (· < ·)

variable {d : TreeDocument} {model : Model} {t : ExecutionTree}

theorem name_constructor (model : Model) : (constructor model).name = model.constructorEvent := by
  rw [constructor]
  cases h : model.transition? model.constructorEvent with
  | none => rfl
  | some transition => simpa using List.find?_some h

theorem leaves_of_allLaidOut {automatic : Nat → String} {position : Nat} (hw : t.WellFormed)
    (hroot : t.childrenOf root = NodeDocument.siblings 1 d.children)
    (h : NodeDocument.AllLaidOut t model root automatic position 1 d.children) :
    t.leaves.Pairwise (· < ·) := by
  rw [hw.leaves_eq, hroot, h.preorder hw]
  apply List.Pairwise.filter
  exact List.pairwise_lt_range'

theorem build_of_known (h : ∀ s ∈ d.steps, s.Known model) :
    ∃ t, d.build model = .ok t ∧ d.Reproduced model t := by
  let alone : Node := { Step.firing (constructor model) with
    marking := d.initialMarking, id := 0, testCaseId := "", parent := none, children := [],
    inputCode := none, oracleCode := none }
  let r : Node := { alone with children := NodeDocument.siblings 1 d.children }
  have halone : (ExecutionTree.rooted d.kind (constructor model) d.initialMarking).node? root =
      some alone := rfl
  obtain ⟨t, hbuild, hadded⟩ := NodeDocument.addAll_of_known d.children h halone
  have hr : t.node? root = some r := by
    rw [hadded.node?_of_lt root Nat.zero_lt_one, if_pos rfl]
    rfl
  have hlaid : NodeDocument.AllLaidOut t model root r.childTestCaseId 1 1 d.children := hadded.laidOut
  have hw := (hadded.reachable (.rooted _ _ _)).wellFormed
  have hchildren : t.childrenOf root = NodeDocument.siblings 1 d.children := by
    rw [ExecutionTree.childrenOf_eq, hr]
    rfl
  refine ⟨t, hbuild, hadded.kind, ?_, ⟨r, hr, rfl, name_constructor model, rfl, rfl, rfl⟩,
    fun k s hk => ?_, hlaid, leaves_of_allLaidOut hw hchildren hlaid⟩
  · rw [hadded.size]
    exact Nat.add_comm 1 _
  · rw [Nat.add_comm k 1]
    exact NodeDocument.AllLaidOut.carried (j := 0) hlaid hr rfl hk

theorem build_of_unknown {s : StepDocument} (h : IsFirst (fun s => ¬ s.Known model) d.steps s) :
    d.build model = .error (.unknownTransition s.event s.transitionName) :=
  NodeDocument.addAll_of_unknown d.children Nat.zero_lt_one h

theorem known_of_build (h : d.build model = .ok t) : ∀ s ∈ d.steps, s.Known model := by
  rcases IsFirst.exists_or_forall_not (fun s : StepDocument => ¬ s.Known model) d.steps with
    ⟨s, hs⟩ | hknown
  · rw [build_of_unknown hs] at h
    cases h
  · exact fun s hs => Decidable.not_not.mp (hknown s hs)

theorem reachable_build (h : d.build model = .ok t) : t.Reachable := by
  have halone : (ExecutionTree.rooted d.kind (constructor model) d.initialMarking).node? root = some _ := rfl
  obtain ⟨t', hbuild, hadded⟩ := NodeDocument.addAll_of_known d.children (known_of_build h) halone
  obtain rfl := Except.ok.inj (hbuild.symm.trans h)
  exact hadded.reachable (.rooted _ _ _)

theorem reproduced_of_build (h : d.build model = .ok t) : d.Reproduced model t := by
  obtain ⟨t', hbuild, hreproduced⟩ := build_of_known (known_of_build h)
  obtain rfl := Except.ok.inj (hbuild.symm.trans h)
  exact hreproduced

theorem build_congr {model' : Model} (htransitions : model.transitions = model'.transitions)
    (hconstructor : model.constructorEvent = model'.constructorEvent) (d : TreeDocument) :
    d.build model = d.build model' := by
  rw [build, build, NodeDocument.addAll_congr htransitions, constructor, constructor, Model.transition?,
    Model.transition?, htransitions, hconstructor]

/-- A document gives a tree exactly when the model knows the transitions of all its nodes; else the first
node of an unknown one, as they are written, is reported. The tree reproduces the document. -/
theorem build_outcome (d : TreeDocument) (model : Model) :
    ((∃ t, d.build model = .ok t) ↔ ∀ s ∈ d.steps, s.Known model) ∧
      (∀ e, d.build model = .error e ↔ ∃ s, IsFirst (fun s => ¬ s.Known model) d.steps s ∧
        e = .unknownTransition s.event s.transitionName) ∧
      ∀ t, d.build model = .ok t → d.Reproduced model t := by
  rcases IsFirst.exists_or_forall_not (fun s : StepDocument => ¬ s.Known model) d.steps with
    ⟨s, hs⟩ | hknown
  · have hbuild := build_of_unknown hs
    refine ⟨⟨fun ⟨t, ht⟩ => ?_, fun hall => ?_⟩, fun e => ⟨fun he => ?_, ?_⟩, fun t ht => ?_⟩
    · rw [hbuild] at ht
      cases ht
    · exact absurd (hall s hs.mem) hs.holds
    · rw [hbuild] at he
      exact ⟨s, hs, (Except.error.inj he).symm⟩
    · rintro ⟨s', hs', rfl⟩
      rw [hs'.unique hs, hbuild]
    · rw [hbuild] at ht
      cases ht
  · have hall : ∀ s ∈ d.steps, s.Known model := fun s hs => Decidable.not_not.mp (hknown s hs)
    obtain ⟨t, hbuild, hreproduced⟩ := build_of_known hall
    refine ⟨⟨fun _ => hall, fun _ => ⟨t, hbuild⟩⟩, fun e => ⟨fun he => ?_, ?_⟩, fun t' ht' => ?_⟩
    · rw [hbuild] at he
      cases he
    · rintro ⟨s, hs, -⟩
      exact absurd (hall s hs.mem) hs.holds
    · rw [hbuild] at ht'
      cases ht'
      exact hreproduced

/-- The second of two siblings is numbered behind what is below the first. -/
theorem build_outcome_nested :
    let step (event : String) : StepDocument := ⟨event, some "go", none, ∅, false, none, [], []⟩
    let model : Model :=
      ⟨"Shop", "new", [], [], [], [], ∅, ∅, .empty, [.named "go"]⟩
    let d : TreeDocument :=
      ⟨.standard, ∅, [.node (step "a") [.node (step "b") [], .node (step "c") []], .node (step "d") []]⟩
    (∀ s ∈ d.steps, s.Known model) ∧ ∃ t, d.build model = .ok t ∧ d.Reproduced model t ∧
      t.childrenOf root = [1, 4] ∧ t.childrenOf 1 = [2, 3] ∧ t.leaves = [2, 3, 4] := by
  intro step model d
  have hknown : ∀ s ∈ d.steps, s.Known model := by decide
  obtain ⟨hok, -, hreproduced⟩ := build_outcome d model
  obtain ⟨t, ht⟩ := hok.mpr hknown
  refine ⟨hknown, t, ht, hreproduced t ht, ?_⟩
  cases ht
  decide

end TreeDocument

end TestScribe

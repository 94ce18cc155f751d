import Mathlib.Data.List.Induction
import TestScribe.Proofs.Tree.Operations

/-!
# The slots of a tree

`codeAt` is the text in a slot. An operation that offers a text to a slot fills it if it is empty
(`after_setCode`, `after_codeOrFill`), so that after any operations a slot holds the first text it was offered
since the last clear, and nothing if it was offered none (`slots_afterAll`).
-/

namespace TestScribe.ExecutionTree

/-- The text in a slot of a node; none if the slot is empty or the node unknown. -/
def codeAt (t : ExecutionTree) (id : NodeId) (slot : Slot) : Option String :=
  (t.node? id).bind fun n => n.code? slot

/-- The text that an operation offers to a slot. -/
def Operation.offer? (id : NodeId) (slot : Slot) : Operation → Option String
  | .setCode id' slot' code | .codeOrFill id' slot' code =>
    if id' = id ∧ slot' = slot then some code else none
  | .addChild .. | .clear => none

/-- One of the operations offers the text to the slot, and the slots are not cleared any more after it. It comes
after `before`, when the node is there. -/
def Offered (t : ExecutionTree) (operations : List Operation) (id : NodeId) (slot : Slot)
    (before : List Operation) (text : String) : Prop :=
  ∃ operation since, operations = before ++ operation :: since ∧ operation.offer? id slot = some text ∧
    id < (t.afterAll before).size ∧ .clear ∉ since

/-- Of the texts offered to the slot since the slots were last cleared, the first one. -/
def FirstOffered (t : ExecutionTree) (operations : List Operation) (id : NodeId) (slot : Slot)
    (text : String) : Prop :=
  ∃ before, t.Offered operations id slot before text ∧
    ∀ before' text', t.Offered operations id slot before' text' → before.length ≤ before'.length

/-- The trees are the same but for the text in one slot. -/
structure SameBut (id : NodeId) (slot : Slot) (t t' : ExecutionTree) : Prop where
  /-- Only slots differ. -/
  clear_eq : t'.clear = t.clear
  codeAt_eq : ∀ i s, ¬ (i = id ∧ s = slot) → t'.codeAt i s = t.codeAt i s

variable {t t' : ExecutionTree} {id i : NodeId} {slot s : Slot} {code text text' : String}
  {operation : Operation} {operations before : List Operation}

/-! ### Filling a slot -/

theorem codeAt_of_unknown (h : t.size ≤ id) (slot : Slot) : t.codeAt id slot = none := by
  have hnone : t.node? id = none := Array.getElem?_eq_none h
  rw [codeAt, hnone, Option.bind_none]

theorem codeAt_of_node {n : Node} (hn : t.node? id = some n) (slot : Slot) :
    t.codeAt id slot = n.code? slot := by
  rw [codeAt, hn, Option.bind_some]

@[simp]
theorem codeAt_clear (t : ExecutionTree) (id : NodeId) (slot : Slot) : t.clear.codeAt id slot = none := by
  rw [codeAt, node?_clear]
  cases t.node? id <;> simp

theorem codeAt_fill (t : ExecutionTree) (id : NodeId) (slot : Slot) (code : String) (i : NodeId) (s : Slot) :
    (t.fill id slot code).codeAt i s =
      if i < t.size ∧ id = i ∧ slot = s then (t.codeAt i s).or (some code) else t.codeAt i s := by
  rw [codeAt, node?_fill, codeAt]
  by_cases hi : i < t.size
  · obtain ⟨n, hn⟩ := exists_node hi
    rw [hn, Option.map_some, Option.bind_some]
    by_cases hid : id = i
    · rw [if_pos hid, Option.bind_some, Node.code?_fill]
      by_cases hs : slot = s
      · rw [if_pos hs.symm, if_pos ⟨hi, hid, hs⟩, hs]
      · rw [if_neg (Ne.symm hs), if_neg (by simp [hs])]
    · rw [if_neg hid, Option.bind_some, if_neg (by simp [hid])]
  · have hnone : t.node? i = none := Array.getElem?_eq_none (Nat.le_of_not_lt hi)
    rw [hnone, if_neg (by simp [hi] : ¬ (i < t.size ∧ id = i ∧ slot = s))]
    split <;> rfl

theorem sameBut_fill (t : ExecutionTree) (id : NodeId) (slot : Slot) (code : String) :
    SameBut id slot t (t.fill id slot code) where
  clear_eq := clear_fill t id slot code
  codeAt_eq i s hne := by
    rw [codeAt_fill, if_neg]
    rintro ⟨-, rfl, rfl⟩
    exact hne ⟨rfl, rfl⟩

/-- The walks do not see the slot. -/
theorem SameBut.walks (h : SameBut id slot t t') :
    t'.leaves = t.leaves ∧ t'.breadthFirst = t.breadthFirst ∧ ∀ i, t'.pathTo i = t.pathTo i :=
  ⟨eq_of_clear_eq leaves_clear h.clear_eq, eq_of_clear_eq breadthFirst_clear h.clear_eq,
    fun i => eq_of_clear_eq (f := fun t => t.pathTo i) (fun t => pathTo_clear t i) h.clear_eq⟩

/-- A tree is its nodes without code and what is in their slots. -/
theorem ext_codeAt (hclear : t.clear = t'.clear) (hcode : ∀ i s, t.codeAt i s = t'.codeAt i s) : t = t' := by
  have hkind : t.clear.kind = t'.clear.kind := by rw [hclear]
  refine ext_node? hkind fun i => ?_
  have hnode : (t.node? i).map Node.clear = (t'.node? i).map Node.clear := by
    rw [← node?_clear, hclear, node?_clear]
  cases hn : t.node? i with
  | none =>
    rw [hn] at hnode
    exact (Option.map_eq_none_iff.mp hnode.symm).symm
  | some n =>
    rw [hn] at hnode
    obtain ⟨n', hn', hsame⟩ := Option.map_eq_some_iff.mp hnode.symm
    rw [hn', Node.ext_code hsame.symm fun s => ?_]
    rw [← codeAt_of_node hn, hcode, codeAt_of_node hn']

/-- Filling changes nothing unless there is a node with the slot empty. -/
theorem fill_eq_self (h : t.size ≤ id ∨ (t.codeAt id slot).isSome) : t.fill id slot code = t := by
  refine ext_codeAt (clear_fill t id slot code) fun i s => ?_
  rw [codeAt_fill]
  split
  · next hslot =>
    obtain ⟨hi, rfl, rfl⟩ := hslot
    rcases h with hunknown | hfilled
    · exact absurd hi (Nat.not_lt.mpr hunknown)
    · rw [Option.or_of_isSome hfilled]
  · rfl

theorem setCode_eq (h : id < t.size) (slot : Slot) (code : String) :
    t.setCode id slot code =
      if (t.codeAt id slot).isSome then .error (.codeAlreadySet id slot) else .ok (t.fill id slot code) := by
  obtain ⟨n, hn⟩ := exists_node h
  rw [setCode, codeAt_of_node hn, hn]
  dsimp only
  cases n.code? slot <;> rfl

theorem codeOrFill_eq (h : id < t.size) (slot : Slot) (code : String) :
    t.codeOrFill id slot code = .ok ((t.codeAt id slot).getD code, t.fill id slot code) := by
  obtain ⟨n, hn⟩ := exists_node h
  rw [codeOrFill, codeAt_of_node hn, hn]

/-- Setting a slot leaves what filling it leaves, also where it is refused. -/
theorem after_setCode (t : ExecutionTree) (id : NodeId) (slot : Slot) (code : String) :
    t.after (.setCode id slot code) = t.fill id slot code := by
  by_cases h : id < t.size
  · rw [after, setCode_eq h]
    by_cases hfilled : (t.codeAt id slot).isSome
    · rw [if_pos hfilled, fill_eq_self (.inr hfilled)]
    · rw [if_neg hfilled]
  · have hle := Nat.le_of_not_lt h
    have hnone : t.node? id = none := Array.getElem?_eq_none hle
    rw [after, setCode, hnone, fill_eq_self (.inl hle)]

theorem after_codeOrFill (t : ExecutionTree) (id : NodeId) (slot : Slot) (code : String) :
    t.after (.codeOrFill id slot code) = t.fill id slot code := by
  by_cases h : id < t.size
  · rw [after, codeOrFill_eq h]
  · have hle := Nat.le_of_not_lt h
    have hnone : t.node? id = none := Array.getElem?_eq_none hle
    rw [after, codeOrFill, hnone, fill_eq_self (.inl hle)]

/-! ### One operation -/

theorem codeAt_addChild {parent : NodeId} {step : Step} {testCaseId : Option String}
    (h : t.addChild parent step testCaseId = .ok (id, t')) (i : NodeId) (s : Slot) :
    t'.codeAt i s = t.codeAt i s := by
  obtain ⟨p, -, -, -, -, hnode⟩ := addChild_spec h
  rw [codeAt, hnode]
  split
  · next hi =>
    rw [hi, codeAt_of_unknown (Nat.le_refl _)]
    cases s <;> rfl
  · split
    · rw [codeAt]
      cases t.node? i with
      | none => rfl
      | some n => cases s <;> rfl
    · rfl

/-- A slot that is empty takes the text offered to it, and all but a clear leave what it holds. -/
theorem codeAt_after (t : ExecutionTree) (operation : Operation) (i : NodeId) (s : Slot) :
    (t.after operation).codeAt i s =
      if operation = .clear then none
      else (t.codeAt i s).or (if i < t.size then operation.offer? i s else none) := by
  have hfill (id : NodeId) (slot : Slot) (code : String) :
      (t.fill id slot code).codeAt i s =
        (t.codeAt i s).or (if i < t.size then Operation.offer? i s (.setCode id slot code) else none) := by
    rw [codeAt_fill, Operation.offer?]
    by_cases hi : i < t.size <;> by_cases hslot : id = i ∧ slot = s <;> simp [hi, hslot]
  cases operation with
  | addChild parent step testCaseId =>
    have hkept : (t.after (.addChild parent step testCaseId)).codeAt i s = t.codeAt i s := by
      rw [after]
      split
      · next hadd => exact codeAt_addChild hadd i s
      · rfl
    simp [hkept, Operation.offer?]
  | setCode id slot code =>
    rw [after_setCode]
    exact hfill id slot code
  | codeOrFill id slot code =>
    rw [after_codeOrFill]
    exact hfill id slot code
  | clear =>
    rw [if_pos rfl]
    exact codeAt_clear t i s

/-! ### Any operations -/

theorem afterAll_concat (t : ExecutionTree) (operations : List Operation) (operation : Operation) :
    t.afterAll (operations ++ [operation]) = (t.afterAll operations).after operation :=
  List.foldl_append ..

theorem offered_concat :
    t.Offered (operations ++ [operation]) id slot before text ↔
      operation ≠ .clear ∧ t.Offered operations id slot before text ∨
        before = operations ∧ operation.offer? id slot = some text ∧ id < (t.afterAll operations).size := by
  constructor
  · rintro ⟨o, since, hsplit, hoffer, hlt, hclear⟩
    rcases List.eq_nil_or_concat since with rfl | ⟨since, last, rfl⟩
    · obtain ⟨rfl, hlast⟩ := List.append_inj' hsplit rfl
      cases hlast
      exact .inr ⟨rfl, hoffer, hlt⟩
    · rw [List.concat_eq_append] at hsplit hclear
      rw [← List.cons_append, ← List.append_assoc] at hsplit
      obtain ⟨hfront, hlast⟩ := List.append_inj' hsplit rfl
      cases hlast
      rw [List.mem_append, List.mem_singleton, not_or] at hclear
      exact .inl ⟨Ne.symm hclear.2, o, since, hfront, hoffer, hlt, hclear.1⟩
  · rintro (⟨hne, o, since, rfl, hoffer, hlt, hclear⟩ | ⟨rfl, hoffer, hlt⟩)
    · refine ⟨o, since ++ [operation], by simp, hoffer, hlt, ?_⟩
      rw [List.mem_append, List.mem_singleton, not_or]
      exact ⟨hclear, Ne.symm hne⟩
    · exact ⟨operation, [], rfl, hoffer, hlt, List.not_mem_nil⟩

theorem Offered.length_lt (h : t.Offered operations id slot before text) : before.length < operations.length := by
  obtain ⟨o, since, rfl, -⟩ := h
  simp

theorem FirstOffered.unique (h : t.FirstOffered operations id slot text)
    (h' : t.FirstOffered operations id slot text') : text = text' := by
  obtain ⟨before, hoffered, hfirst⟩ := h
  obtain ⟨before', hoffered', hfirst'⟩ := h'
  have hlength : before.length = before'.length :=
    Nat.le_antisymm (hfirst _ _ hoffered') (hfirst' _ _ hoffered)
  obtain ⟨o, since, hsplit, hoffer, -⟩ := hoffered
  obtain ⟨o', since', hsplit', hoffer', -⟩ := hoffered'
  obtain ⟨-, htail⟩ := List.append_inj (hsplit.symm.trans hsplit') hlength
  cases htail
  exact Option.some.inj (hoffer.symm.trans hoffer')

/-- What a slot holds is the first text it was offered; a slot that holds nothing was offered none. -/
theorem held_afterAll (hempty : t.codeAt id slot = none) (operations : List Operation) :
    (∀ text, (t.afterAll operations).codeAt id slot = some text → t.FirstOffered operations id slot text) ∧
      ((t.afterAll operations).codeAt id slot = none →
        ∀ before text, ¬ t.Offered operations id slot before text) := by
  induction operations using List.reverseRecOn with
  | nil =>
    refine ⟨fun text htext => ?_, fun _ before text hoffered => ?_⟩
    · exact absurd (hempty.symm.trans htext) (by simp)
    · exact absurd hoffered.length_lt (Nat.not_lt_zero _)
  | append_singleton operations operation ih =>
    obtain ⟨hsome, hnone⟩ := ih
    rw [afterAll_concat, codeAt_after]
    by_cases hclear : operation = .clear
    · subst hclear
      rw [if_pos rfl]
      refine ⟨fun text htext => ?_, fun _ before text hoffered => ?_⟩
      · cases htext
      · rcases offered_concat.mp hoffered with ⟨hne, -⟩ | ⟨-, hoffer, -⟩
        · exact hne rfl
        · cases hoffer
    rw [if_neg hclear]
    cases hheld : (t.afterAll operations).codeAt id slot with
    | some held =>
      -- A filled slot keeps its text, and a new offer comes later.
      obtain ⟨before, hoffered, hfirst⟩ := hsome held hheld
      refine ⟨fun text htext => ?_, fun hnothing => ?_⟩
      · cases htext
        refine ⟨before, offered_concat.mpr (.inl ⟨hclear, hoffered⟩), fun before' text' hoffered' => ?_⟩
        rcases offered_concat.mp hoffered' with ⟨-, hoffered'⟩ | ⟨rfl, -⟩
        · exact hfirst before' text' hoffered'
        · exact Nat.le_of_lt hoffered.length_lt
      · cases hnothing
    | none =>
      have hnever := hnone hheld
      rw [Option.none_or]
      refine ⟨fun text htext => ?_, fun hnothing before text hoffered => ?_⟩
      · split at htext
        · next hlt =>
          refine ⟨operations, offered_concat.mpr (.inr ⟨rfl, htext, hlt⟩), fun before' text' hoffered' => ?_⟩
          rcases offered_concat.mp hoffered' with ⟨-, hoffered'⟩ | ⟨rfl, -⟩
          · exact absurd hoffered' (hnever before' text')
          · exact Nat.le_refl _
        · cases htext
      · rcases offered_concat.mp hoffered with ⟨-, hoffered⟩ | ⟨-, hoffer, hlt⟩
        · exact hnever before text hoffered
        · rw [if_pos hlt, hoffer] at hnothing
          cases hnothing

theorem codeAt_rooted (kind : TreeKind) (constructor : Transition) (marking : Marking) (id : NodeId)
    (slot : Slot) : (rooted kind constructor marking).codeAt id slot = none := by
  by_cases hid : id < 1
  · obtain rfl : id = 0 := Nat.lt_one_iff.mp hid
    cases slot <;> rfl
  · exact codeAt_of_unknown (Nat.le_of_not_lt hid) slot

/-- Whatever operations a tree has seen, each of its slots holds the first text offered to it since the slots were
last cleared, or nothing if none was. A slot that is filled refuses to be set and changes nothing, and reading it
gives what it holds then. All else about the tree stays: the other slots, the other fields of every node, and so what
the walks list. -/
theorem slots_afterAll (kind : TreeKind) (constructor : Transition) (marking : Marking)
    (operations : List Operation) (id : NodeId) (slot : Slot) :
    let start := rooted kind constructor marking
    let t := start.afterAll operations
    (∀ text, t.codeAt id slot = some text ↔ start.FirstOffered operations id slot text) ∧
      (t.codeAt id slot = none ↔ ∀ before text, ¬ start.Offered operations id slot before text) ∧
      ∀ code,
        let set := t.after (.setCode id slot code)
        let read := t.after (.codeOrFill id slot code)
        (id < t.size →
          (t.setCode id slot code = .error (.codeAlreadySet id slot) ↔ (t.codeAt id slot).isSome) ∧
          ((t.codeAt id slot).isSome → set = t) ∧
          (t.codeAt id slot = none → t.setCode id slot code = .ok set ∧ set.codeAt id slot = some code) ∧
          ∃ text, t.codeOrFill id slot code = .ok (text, read) ∧ read.codeAt id slot = some text) ∧
        ∀ t', t' = set ∨ t' = read → SameBut id slot t t' ∧
          t'.leaves = t.leaves ∧ t'.breadthFirst = t.breadthFirst ∧ ∀ i, t'.pathTo i = t.pathTo i := by
  intro start t
  obtain ⟨hsome, hnone⟩ := held_afterAll (codeAt_rooted kind constructor marking id slot) operations
  refine ⟨fun text => ⟨hsome text, fun hfirst => ?_⟩, ⟨hnone, fun hnever => ?_⟩, fun code => ?_⟩
  · cases hheld : t.codeAt id slot with
    | none =>
      obtain ⟨before, hoffered, -⟩ := hfirst
      exact absurd hoffered (hnone hheld before text)
    | some held => rw [(hsome held hheld).unique hfirst]
  · cases hheld : t.codeAt id slot with
    | none => rfl
    | some held =>
      obtain ⟨before, hoffered, -⟩ := hsome held hheld
      exact absurd hoffered (hnever before held)
  · intro set read
    have hset : set = t.fill id slot code := after_setCode t id slot code
    have hread : read = t.fill id slot code := after_codeOrFill t id slot code
    refine ⟨fun hlt => ?_, fun t' ht' => ?_⟩
    · have hfilled : (t.fill id slot code).codeAt id slot = (t.codeAt id slot).or (some code) := by
        rw [codeAt_fill, if_pos ⟨hlt, rfl, rfl⟩]
      rw [setCode_eq hlt, codeOrFill_eq hlt, hset, hread, hfilled]
      refine ⟨?_, fun hheld => fill_eq_self (.inr hheld), fun hempty => ?_, _, rfl, ?_⟩
      · split
        · next hheld => simp [hheld]
        · next hheld => simp [hheld]
      · rw [hempty]
        exact ⟨rfl, rfl⟩
      · cases t.codeAt id slot <;> rfl
    · obtain rfl : t' = t.fill id slot code := ht'.elim (·.trans hset) (·.trans hread)
      have hsame := sameBut_fill t id slot code
      exact ⟨hsame, hsame.walks⟩

/-- Offers to a node that is not there yet, to the other slot and before the clear do not count. -/
theorem slots_afterAll_shared :
    let login := Step.firing (.named "login")
    let operations : List Operation :=
      [.addChild 0 login none, .setCode 2 .input "early", .codeOrFill 1 .input "old", .addChild 1 login none, .clear,
        .setCode 2 .oracle "check", .codeOrFill 2 .input "first", .addChild 2 login none, .setCode 2 .input "second"]
    let start := rooted .standard (.constructor "new") ∅
    let t := start.afterAll operations
    start.FirstOffered operations 2 .input "first" ∧
      (t.codeAt 1 .input = none ∧ ∀ before text, ¬ start.Offered operations 1 .input before text) ∧
      (2 < t.size ∧ t.setCode 2 .input "third" = .error (.codeAlreadySet 2 .input) ∧
        ∃ t', t.codeOrFill 2 .input "third" = .ok ("first", t') ∧ t' = t) ∧
      (1 < t.size ∧ ∃ t', t.setCode 1 .input "third" = .ok t' ∧ t'.codeAt 1 .input = some "third" ∧
        t'.codeAt 1 .oracle = t.codeAt 1 .oracle ∧ t'.breadthFirst = [1, 2, 3]) := by
  intro login operations start t
  have hfirst : t.codeAt 2 .input = some "first" := by decide +kernel
  have hempty : t.codeAt 1 .input = none := by decide +kernel
  have hlt : 2 < t.size := by decide +kernel
  have hlt' : 1 < t.size := by decide +kernel
  have h := slots_afterAll .standard (.constructor "new") ∅ operations 2 .input
  have h' := slots_afterAll .standard (.constructor "new") ∅ operations 1 .input
  obtain ⟨hrefused, -, -, text, hread, htext⟩ := (h.2.2 "third").1 hlt
  have hfilled : (t.codeAt 2 .input).isSome := by rw [hfirst]; rfl
  have hsame : t.after (.codeOrFill 2 .input "third") = t :=
    (after_codeOrFill t 2 .input "third").trans (fill_eq_self (.inr hfilled))
  obtain ⟨-, -, hset, -⟩ := (h'.2.2 "third").1 hlt'
  obtain ⟨hbut, -, hwalk, -⟩ := (h'.2.2 "third").2 _ (.inl rfl)
  refine ⟨(h.1 "first").mp hfirst, ⟨hempty, h'.2.1.mp hempty⟩, ⟨hlt, hrefused.mpr hfilled, ?_⟩, hlt', ?_⟩
  · rw [hsame, hfirst] at htext
    obtain rfl := Option.some.inj htext
    exact ⟨_, hread, hsame⟩
  · exact ⟨_, (hset hempty).1, (hset hempty).2, hbut.codeAt_eq 1 .oracle (by simp),
      hwalk.trans (by decide +kernel)⟩

end TestScribe.ExecutionTree

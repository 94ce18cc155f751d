import Mathlib.Data.Nat.Find
import TestScribe.Proofs.Run.Generation
import TestScribe.Proofs.Tree.Slots

/-!
# Filling a tree

A run that writes the code of a tree ahead fills the empty slots of the nodes that it comes to before a poll stops it,
level by level (`codeAt_treeCode_iff`). What it leaves out another run completes, and a complete tree stays as it is
(`treeCode_fills`).
-/

namespace TestScribe

open ExecutionTree

namespace Signal

/-- The polls of a run give these answers, one after another. -/
def Answers (s : Signal) (answers : Nat → Bool) : Prop :=
  ∀ k, (s.after k).isCancelled = answers k

variable {s : Signal} {answers : Nat → Bool} {ids : List NodeId} {id : NodeId} {n : Nat}

/-- Any answers that stay at yes are those of a signal: it is cancelled after as many polls as say no. -/
theorem exists_answers (hstays : ∀ k, answers k = true → answers (k + 1) = true) :
    ∃ s : Signal, s.Answers answers := by
  by_cases hyes : ∃ k, answers k = true
  · refine ⟨.cancelAfter (Nat.find hyes), fun k => ?_⟩
    rw [after, isCancelled]
    rcases Nat.lt_or_ge k (Nat.find hyes) with hlt | hge
    · have hno := Bool.eq_false_iff.mpr (Nat.find_min hyes hlt)
      rw [hno, beq_eq_false_iff_ne]
      exact Nat.sub_ne_zero_of_lt hlt
    · have hyes' : answers k = true := Nat.le_induction (Nat.find_spec hyes) (fun k _ => hstays k) k hge
      rw [hyes', Nat.sub_eq_zero_of_le hge]
      rfl
  · refine ⟨.quiet, fun k => ?_⟩
    exact (Bool.eq_false_iff.mpr fun hk => hyes ⟨k, hk⟩).symm

theorem Answers.allows_iff (h : s.Answers answers) (n : Nat) : s.allows n = true ↔ ∀ k < n, answers k = false := by
  rw [Signal.allows_iff]
  simp only [h _]

/-- A node is reached when its poll and all polls before it say no. -/
theorem Answers.mem_reached_iff (h : s.Answers answers) :
    id ∈ s.reached ids ↔ ∃ k, ids[k]? = some id ∧ ∀ j ≤ k, answers j = false := by
  have hreached : id ∈ s.reached ids ↔ ∃ k, ids[k]? = some id ∧ s.allows (k + 1) = true := by
    rw [List.mem_iff_getElem?]
    refine exists_congr fun k => ?_
    cases s with
    | quiet => exact (and_iff_left rfl).symm
    | cancelAfter n =>
      rw [reached, List.getElem?_take, allows, decide_eq_true_iff]
      split
      · next hlt => exact (and_iff_left hlt).symm
      · next hge => exact iff_of_false (Option.some_ne_none id).symm fun hreached => hge hreached.2
  simp only [hreached, h.allows_iff, Nat.lt_succ_iff]

end Signal

namespace ExecutionTree

variable {w : StepWriter} {t : ExecutionTree} {id : NodeId} {ids : List NodeId} {n : Node}

theorem codeAt_complete (h : t.WellFormed) (hn : t.node? id = some n) (slot : Slot) :
    (t.complete w ids).codeAt id slot =
      if id ∈ ids ∧ w.model.isConstructor n.event = false then some (w.slotText n slot) else n.code? slot := by
  rw [codeAt, node?_complete, hn, Option.map_some, Option.bind_some, h.id_eq id n hn]
  by_cases hid : id ∈ ids
  · rw [if_pos hid, Node.code?_complete]
    cases w.model.isConstructor n.event <;> simp [hid]
  · rw [if_neg hid, if_neg fun hif => hid hif.1]

end ExecutionTree

namespace Generator

variable {g : Generator} {tree : ExecutionTree} {id : NodeId} {n : Node} {slot : Slot} {text : String}
  {signal : Signal} {answers : Nat → Bool}

/-- After a run a slot holds what it held before, or else the text for its node, if the node is not the constructor's
and was reached. -/
theorem codeAt_treeCode_iff (h : tree.WellFormed) (hsignal : signal.Answers answers) (hn : tree.node? id = some n) :
    (g.treeCode tree signal).tree.codeAt id slot = some text ↔
      n.code? slot = some text ∨
        n.code? slot = none ∧ g.model.isConstructor n.event = false ∧ text = (g.writer tree).write n slot ∧
          ∃ k, tree.breadthFirst[k]? = some id ∧ ∀ j ≤ k, answers j = false := by
  rw [treeCode_eq h, codeAt_complete h hn, ← hsignal.mem_reached_iff, StepWriter.slotText]
  show (if id ∈ signal.reached tree.breadthFirst ∧ g.model.isConstructor n.event = false then _ else _) = _ ↔ _
  cases n.code? slot with
  | some held => simp
  | none =>
    split
    · next hif => simp [hif, eq_comm]
    · next hif =>
      constructor
      · intro hnone
        cases hnone
      · rintro (hnone | ⟨-, hconstructor, -, hreached⟩)
        · cases hnone
        · exact absurd ⟨hreached, hconstructor⟩ hif

theorem clear_treeCode (h : tree.WellFormed) (signal : Signal) :
    (g.treeCode tree signal).tree.clear = tree.clear := by
  rw [treeCode_eq h]
  exact clear_complete ..

/-- What a run has filled another one leaves. -/
theorem tree_treeCode_treeCode (h : tree.WellFormed) (signal signal' : Signal) :
    (g.treeCode (g.treeCode tree signal).tree signal').tree =
      tree.complete (g.writer tree) (signal.reached tree.breadthFirst ++ signal'.reached tree.breadthFirst) := by
  have hclear := clear_treeCode (g := g) h signal
  rw [treeCode_eq (h.of_clear_eq hclear), eq_of_clear_eq breadthFirst_clear hclear, ← complete_append,
    treeCode_eq h]
  rfl

/-- A run that nothing stops completes the tree, whatever another one has filled before or fills after it. -/
theorem tree_treeCode_quiet (h : tree.WellFormed) (signal : Signal) :
    (g.treeCode (g.treeCode tree signal).tree .quiet).tree = (g.treeCode tree .quiet).tree ∧
      (g.treeCode (g.treeCode tree .quiet).tree signal).tree = (g.treeCode tree .quiet).tree := by
  rw [tree_treeCode_treeCode h, tree_treeCode_treeCode h, treeCode_eq h]
  constructor <;> refine complete_congr h fun id _ => ?_ <;> rw [List.mem_append]
  · exact or_iff_right_of_imp Signal.mem_of_mem_reached
  · exact or_iff_left_of_imp Signal.mem_of_mem_reached

/-- Whatever slots of a tree are filled and whenever the polls begin to say yes, a run fills just the empty slots of
the nodes that come, level by level, before the first poll that says yes, with the text for the node; the root and the
constructors are left out, and nothing else changes. It is cancelled if a poll says yes. Another run that nothing
stops fills what is left, and no run changes anything after it. -/
theorem treeCode_fills (g : Generator) (h : tree.Reachable)
    (hstays : ∀ k, answers k = true → answers (k + 1) = true) :
    (∃ signal : Signal, signal.Answers answers) ∧ ∀ signal : Signal, signal.Answers answers →
      let order := tree.breadthFirst
      let run := g.treeCode tree signal
      let again := g.treeCode run.tree .quiet
      (order = tree.levels tree.size ∧ order.Nodup ∧ ∀ id, id ∈ order ↔ id ≠ root ∧ id < tree.size) ∧
      (run.result = .error .cancelled ↔ ∃ k < order.length, answers k = true) ∧
      (run.result = .ok () ↔ ∀ k < order.length, answers k = false) ∧
      run.tree.clear = tree.clear ∧
      (∀ id n slot text, tree.node? id = some n → (run.tree.codeAt id slot = some text ↔
        n.code? slot = some text ∨
          n.code? slot = none ∧ g.model.isConstructor n.event = false ∧ text = (g.writer tree).write n slot ∧
            ∃ k, order[k]? = some id ∧ ∀ j ≤ k, answers j = false)) ∧
      again.result = .ok () ∧ again.tree.clear = tree.clear ∧
      (∀ id n slot text, tree.node? id = some n → (again.tree.codeAt id slot = some text ↔
        n.code? slot = some text ∨
          n.code? slot = none ∧ g.model.isConstructor n.event = false ∧ text = (g.writer tree).write n slot ∧
            id ≠ root)) ∧
      ∀ signal', (g.treeCode again.tree signal').tree = again.tree := by
  refine ⟨Signal.exists_answers hstays, fun signal hsignal => ?_⟩
  intro order run again
  have hwf := h.wellFormed
  have hclear : run.tree.clear = tree.clear := clear_treeCode hwf signal
  have hresult : run.result = if signal.allows order.length then .ok () else .error .cancelled := by
    rw [show run = _ from treeCode_eq hwf signal]
  have hagain : again.tree = (g.treeCode tree .quiet).tree := (tree_treeCode_quiet hwf signal).1
  refine ⟨⟨hwf.breadthFirst_eq, hwf.nodup_breadthFirst, fun _ => hwf.mem_breadthFirst_iff⟩, ?_, ?_, hclear,
    fun id n slot text hn => codeAt_treeCode_iff hwf hsignal hn, ?_, ?_, fun id n slot text hn => ?_,
    fun signal' => ?_⟩
  · rw [hresult, ← not_iff_not, not_exists]
    simp only [not_and, Bool.not_eq_true, ← hsignal.allows_iff]
    cases signal.allows order.length <;> simp
  · rw [hresult, ← hsignal.allows_iff]
    cases signal.allows order.length <;> simp
  · rw [show again = _ from treeCode_eq (hwf.of_clear_eq hclear) .quiet]
    rfl
  · rw [hagain, clear_treeCode hwf]
  · -- Without a request every poll says no, so every node of the order is reached.
    have hreached : (∃ k : Nat, order[k]? = some id ∧ ∀ j ≤ k, false = false) ↔ id ≠ root := by
      rw [← and_iff_left (a := id ≠ root) (lt_size hn), ← hwf.mem_breadthFirst_iff, List.mem_iff_getElem?]
      simp only [implies_true, and_true, order]
    have hquiet : Signal.quiet.Answers fun _ => false := fun _ => rfl
    rw [hagain, codeAt_treeCode_iff hwf hquiet hn, hreached]
  · rw [hagain]
    exact (tree_treeCode_quiet hwf signal').2

/-- The request is seen after the first node, whose input code was there before. The second run goes on at the next
node and leaves the constructor out. -/
theorem treeCode_fills_interrupted :
    let g : Generator := ⟨(Draft.empty "Bank").toModel, .default⟩
    let tree := sharedLogin.after (.setCode 1 .input "old();")
    let answers (k : Nat) : Bool := decide (1 ≤ k)
    let run := g.treeCode tree (.cancelAfter 1)
    let again := g.treeCode run.tree .quiet
    tree.Reachable ∧ (∀ k, answers k = true → answers (k + 1) = true) ∧ (Signal.cancelAfter 1).Answers answers ∧
      tree.breadthFirst = [1, 2, 3] ∧ run.result = .error .cancelled ∧
      (run.tree.codeAt 1 .input = some "old();" ∧ run.tree.codeAt 1 .oracle = some "" ∧
        run.tree.codeAt 2 .input = none) ∧
      again.result = .ok () ∧
      (again.tree.codeAt 1 .input = some "old();" ∧ again.tree.codeAt 2 .input = some "\n\t\tBank.logout();" ∧
        again.tree.codeAt 3 .input = none) ∧
      ∀ signal, (g.treeCode again.tree signal).tree = again.tree := by
  intro g tree answers run again
  have htree : tree.Reachable := reachable_sharedLogin.after _
  have hstays : ∀ k, answers k = true → answers (k + 1) = true := fun k hk => by
    rw [decide_eq_true_iff] at hk ⊢
    exact Nat.le_succ_of_le hk
  have hsignal : (Signal.cancelAfter 1).Answers answers := fun k => by
    cases k with
    | zero => rfl
    | succ k =>
      have hyes : answers (k + 1) = true := decide_eq_true (Nat.le_add_left 1 k)
      rw [hyes, Signal.after, Nat.sub_eq_zero_of_le (Nat.le_add_left 1 k)]
      rfl
  have horder : tree.breadthFirst = [1, 2, 3] := by decide +kernel
  obtain ⟨n, hn⟩ : ∃ n, tree.node? 1 = some n := exists_node (by decide +kernel)
  have hheld : n.code? .input = some "old();" :=
    (codeAt_of_node hn .input).symm.trans (by decide +kernel)
  obtain ⟨-, hcancelled, -, -, hslots, hok, -, hall, hfurther⟩ :=
    (treeCode_fills g htree hstays).2 (.cancelAfter 1) hsignal
  refine ⟨htree, hstays, hsignal, horder, hcancelled.mpr ⟨1, by rw [horder]; decide, rfl⟩,
    ⟨(hslots 1 n .input "old();" hn).mpr (.inl hheld), by decide +kernel, by decide +kernel⟩, hok,
    ⟨(hall 1 n .input "old();" hn).mpr (.inl hheld), by decide +kernel, by decide +kernel⟩, hfurther⟩

end Generator

end TestScribe

import Mathlib.Logic.Relation
import TestScribe.Proofs.Run.Saving

/-!
# Runs do not see one another

Whatever generators do to a tree, they change only its slots (`clear_operations`). A run starts from empty
slots, so it gives what it would give on a tree that no generator has touched, and the code it leaves is its
own (`independent_of_operations`).
-/

namespace TestScribe

open ExecutionTree

namespace Run

variable {α β : Type} {w : StepWriter} {r : Run α} {f : α → Run β}

/-- However it ends, the run changes nothing of the tree but its slots. -/
def WritesSlots (r : Run α) : Prop :=
  ∀ s, (r.run.run s).2.tree.clear = s.tree.clear

theorem writesSlots_pure (a : α) : WritesSlots (pure a) :=
  fun _ => rfl

theorem WritesSlots.bind (hr : WritesSlots r) (hf : ∀ a, WritesSlots (f a)) : WritesSlots (r >>= f) := by
  intro s
  have hs := hr s
  rcases hrun : r.run.run s with ⟨e | a, s'⟩
  · rw [hrun] at hs
    rw [bind_error hrun, hs]
  · rw [hrun] at hs
    rw [bind_ok hrun, hf, hs]

theorem writesSlots_get {f : RunState → Run α} (h : ∀ s, WritesSlots (f s)) : WritesSlots (get >>= f) :=
  fun s => h s s

theorem writesSlots_poll : WritesSlots poll := by
  intro s
  rw [poll_run]

theorem writesSlots_enter (phase : Phase) : WritesSlots (enter phase) :=
  fun _ => rfl

theorem writesSlots_ofTree (e : Except TreeError α) : WritesSlots (ofTree e) := by
  cases e <;> exact fun _ => rfl

theorem writesSlots_slotCode (n : Node) (slot : Slot) : WritesSlots (slotCode w n slot) :=
  fun s => s.tree.clear_fill n.id slot _

theorem writesSlots_nodeCode (id : NodeId) : WritesSlots (nodeCode w id) := by
  refine writesSlots_get fun s => ?_
  split
  · exact writesSlots_pure ""
  · split
    · exact writesSlots_pure ""
    · exact (writesSlots_slotCode _ _).bind fun _ =>
        (writesSlots_slotCode _ _).bind fun _ => writesSlots_pure _

theorem writesSlots_nodesCode (ids : List NodeId) : WritesSlots (nodesCode w ids) := by
  induction ids with
  | nil => exact writesSlots_pure ""
  | cons id ids ih =>
    exact writesSlots_poll.bind fun _ =>
      (writesSlots_nodeCode id).bind fun _ => ih.bind fun _ => writesSlots_pure _

theorem writesSlots_fillTree : WritesSlots (fillTree w) :=
  writesSlots_get fun s => (writesSlots_nodesCode s.tree.breadthFirst).bind fun _ => writesSlots_pure ()

theorem writesSlots_leafBody (leaf : NodeId) : WritesSlots (leafBody w leaf) :=
  writesSlots_get fun s => (writesSlots_ofTree (s.tree.pathTo leaf)).bind fun path =>
    writesSlots_get fun _ => (writesSlots_nodesCode path).bind fun _ => writesSlots_pure _

theorem writesSlots_testCases (number : Nat) (leaves : List NodeId) :
    WritesSlots (testCases w number leaves) := by
  induction leaves generalizing number with
  | nil => exact writesSlots_pure []
  | cons leaf leaves ih =>
    exact (writesSlots_leafBody leaf).bind fun _ => writesSlots_get fun s =>
      (writesSlots_ofTree (w.options.testId s.tree number leaf)).bind fun _ =>
        (ih (number + 1)).bind fun _ => writesSlots_pure _

theorem writesSlots_suite (name : String) : WritesSlots (suite w name) := by
  have hrender : WritesSlots (do
      enter .rendering
      let tests ← testCases w 1 (← get).tree.leaves
      return Suite.assemble w.model w.options name tests) :=
    (writesSlots_enter .rendering).bind fun _ => writesSlots_get fun s =>
      (writesSlots_testCases 1 s.tree.leaves).bind fun _ => writesSlots_pure _
  rw [suite]
  split
  · exact (writesSlots_enter .traversing).bind fun _ => writesSlots_fillTree.bind fun _ => hrender
  · exact hrender

theorem WritesSlots.clear_report (hr : WritesSlots r) (tree : ExecutionTree) (signal : Signal)
    (phases : List Phase) : (r.report tree signal phases).tree.clear = tree.clear :=
  hr ⟨tree, signal, phases⟩

end Run

/-! ### Operations -/

/-- One operation takes the tree to another: of a generator, whatever signal it polls and whatever storage
it saves to, or on the slots themselves. -/
inductive Operated (tree : ExecutionTree) : ExecutionTree → Prop
  | generate (g : Generator) (signal : Signal) (name : String) :
      Operated tree (g.generate tree signal name).tree
  | save {σ : Type} [Storage (StateM σ)] (g : Generator) (signal : Signal) (destination : Path) (s : σ) :
      Operated tree ((g.save tree signal destination : StateM σ _).run s).1.tree
  | review (g : Generator) (signal : Signal) (leaf : NodeId) : Operated tree (g.review tree signal leaf).tree
  | treeCode (g : Generator) (signal : Signal) : Operated tree (g.treeCode tree signal).tree
  | setCode {id : NodeId} {slot : Slot} {code : String} {tree' : ExecutionTree}
      (h : tree.setCode id slot code = .ok tree') : Operated tree tree'
  | codeOrFill {id : NodeId} {slot : Slot} {code text : String} {tree' : ExecutionTree}
      (h : tree.codeOrFill id slot code = .ok (text, tree')) : Operated tree tree'
  | clear : Operated tree tree.clear

namespace Generator

variable {g : Generator} {tree tree' : ExecutionTree}

theorem clear_render (g : Generator) (tree : ExecutionTree) (signal : Signal) (name : String) :
    (g.render tree signal name).tree.clear = tree.clear :=
  ((Run.writesSlots_suite name).clear_report tree.clear signal [.idle]).trans tree.clear_clear

theorem clear_operated (h : Operated tree tree') : tree'.clear = tree.clear := by
  cases h with
  | generate g signal name => exact g.clear_render tree signal name
  | save g signal destination s =>
    rw [tree_save]
    exact g.clear_render tree signal (suiteName destination)
  | review g signal leaf =>
    exact ((Run.writesSlots_leafBody leaf).clear_report tree.clear signal []).trans tree.clear_clear
  | treeCode g signal => exact Run.writesSlots_fillTree.clear_report tree signal []
  | setCode h => exact clear_setCode h
  | codeOrFill h => exact clear_codeOrFill h
  | clear => exact tree.clear_clear

theorem clear_operations (h : Relation.ReflTransGen Operated tree tree') : tree'.clear = tree.clear := by
  induction h with
  | refl => rfl
  | tail _ hop ih => exact (clear_operated hop).trans ih

/-! ### Runs start from empty slots -/

@[simp]
theorem render_clear (g : Generator) (tree : ExecutionTree) (signal : Signal) (name : String) :
    g.render tree.clear signal name = g.render tree signal name := by
  rw [render, clear_clear]
  rfl

@[simp]
theorem generate_clear (g : Generator) (tree : ExecutionTree) (signal : Signal) (name : String) :
    g.generate tree.clear signal name = g.generate tree signal name := by
  rw [generate, render_clear, generate]

@[simp]
theorem review_clear (g : Generator) (tree : ExecutionTree) (signal : Signal) (leaf : NodeId) :
    g.review tree.clear signal leaf = g.review tree signal leaf := by
  rw [review, clear_clear]
  rfl

@[simp]
theorem save_clear {m : Type → Type} [Monad m] [Storage m] (g : Generator) (tree : ExecutionTree)
    (signal : Signal) (destination : Path) :
    (g.save tree.clear signal destination : m _) = g.save tree signal destination := by
  rw [save, render_clear, save]

end Generator

namespace ExecutionTree

/-- All code in the slots is the writer's. -/
def HoldsCodeOf (w : StepWriter) (t : ExecutionTree) : Prop :=
  ∀ id n slot text, t.node? id = some n → n.code? slot = some text → text = w.write n slot

variable {w : StepWriter} {t : ExecutionTree} {ids : List NodeId}

theorem holdsCodeOf_complete_clear (h : t.WellFormed) : (t.clear.complete w ids).HoldsCodeOf w := by
  intro id n slot text hn hcode
  rw [code?_complete_clear h hn] at hcode
  split at hcode
  · exact (Option.some.inj hcode).symm
  · cases hcode

theorem holdsCodeOf_clear (h : t.WellFormed) : t.clear.HoldsCodeOf w := by
  rw [← complete_nil w t.clear]
  exact holdsCodeOf_complete_clear h

end ExecutionTree

namespace Generator

variable {g : Generator} {tree tree' : ExecutionTree}

theorem holdsCodeOf_generate (h : tree.WellFormed) (signal : Signal) (name : String) :
    (g.generate tree signal name).tree.HoldsCodeOf (g.writer tree) := by
  rw [generate_eq h]
  exact holdsCodeOf_complete_clear h

theorem holdsCodeOf_review (h : tree.WellFormed) (signal : Signal) (leaf : NodeId) :
    (g.review tree signal leaf).tree.HoldsCodeOf (g.writer tree) := by
  by_cases hleaf : leaf < tree.size
  · rw [review_eq h hleaf]
    exact holdsCodeOf_complete_clear h
  · rw [review_of_unknown hleaf]
    exact holdsCodeOf_clear h

/-- After any operations of any generators, only the slots of the tree have changed, and no run of a
generator can tell: its report is the one on empty slots, and the code it leaves is its own writer's. -/
theorem independent_of_operations (h : tree.Reachable) (hops : Relation.ReflTransGen Operated tree tree') :
    tree'.clear = tree.clear ∧ ∀ (g : Generator) (signal : Signal),
      (∀ name, g.generate tree' signal name = g.generate tree.clear signal name ∧
        (g.generate tree' signal name).tree.HoldsCodeOf (g.writer tree)) ∧
      (∀ leaf, g.review tree' signal leaf = g.review tree.clear signal leaf ∧
        (g.review tree' signal leaf).tree.HoldsCodeOf (g.writer tree)) ∧
      ∀ (m : Type → Type) [Monad m] [Storage m] (destination : Path),
        (g.save tree' signal destination : m _) = g.save tree.clear signal destination := by
  have hclear := clear_operations hops
  refine ⟨hclear, fun g signal => ⟨fun name => ?_, fun leaf => ?_, fun m _ _ destination => ?_⟩⟩
  · have heq : g.generate tree' signal name = g.generate tree signal name :=
      eq_of_clear_eq (f := fun t => g.generate t signal name) (fun t => g.generate_clear t signal name) hclear
    rw [heq, generate_clear]
    exact ⟨rfl, holdsCodeOf_generate h.wellFormed signal name⟩
  · have heq : g.review tree' signal leaf = g.review tree signal leaf :=
      eq_of_clear_eq (f := fun t => g.review t signal leaf) (fun t => g.review_clear t signal leaf) hclear
    rw [heq, review_clear]
    exact ⟨rfl, holdsCodeOf_review h.wellFormed signal leaf⟩
  · rw [save_clear]
    exact eq_of_clear_eq (f := fun t => (g.save t signal destination : m _))
      (fun t => g.save_clear t signal destination) hclear

/-- A tree with code for two languages gives the tests of a third. -/
theorem independent_of_operations_sharedLogin :
    let forLanguage (l : Language) : Generator :=
      ⟨(Draft.empty "Bank").toModel, { Options.default with language := l, createObjectReference := false }⟩
    let stopped := ((forLanguage .java).generate sharedLogin (.cancelAfter 1) "BankTest").tree
    let used := ((forLanguage .c).treeCode stopped .quiet).tree
    let again := (forLanguage .python).generate used .quiet "bank"
    used.nodes.toList.map (fun n => n.inputCode) =
        [none, some "\n\t\tlogin();", some "\n\tlogout;", none] ∧
      used.clear = sharedLogin.clear ∧
      again = (forLanguage .python).generate sharedLogin.clear .quiet "bank" ∧
      again.tree.nodes.toList.map (fun n => n.inputCode) =
        [none, some "\n        login()", some "\n        logout()", none] := by
  intro forLanguage stopped used again
  have hops : Relation.ReflTransGen Operated sharedLogin used :=
    .tail (.single (.generate (forLanguage .java) (.cancelAfter 1) "BankTest"))
      (.treeCode (forLanguage .c) .quiet)
  have h := independent_of_operations reachable_sharedLogin hops
  exact ⟨by decide +kernel, h.1, ((h.2 (forLanguage .python) .quiet).1 "bank").1, by decide +kernel⟩

end Generator

end TestScribe

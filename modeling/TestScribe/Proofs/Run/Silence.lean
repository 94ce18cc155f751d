import TestScribe.Proofs.Code.Marking
import TestScribe.Proofs.Run.Bodies
import TestScribe.Proofs.Run.Independence

/-!
# Silent steps

Hidden events and the constructor have no code. Of their steps nothing shows in a suite but the event and, in
tags at the start of tests, the marking (`SameUnlessSilent`); of the root nothing shows at all. No run leaves
code in their slots (`KeepsSilence`). Both are said by `generate_silent`.
-/

namespace TestScribe

open ExecutionTree

namespace StepWriter

variable {w : StepWriter} {testCaseId : String} {s : Step} {n n' : Node}

/-- The steps have the same event, and the steps of an event that is not silent are the same. With tags at the
start of tests, their markings are the same in any case. -/
structure SameUnlessSilent (w : StepWriter) (s s' : Step) : Prop where
  event : s.event = s'.event
  step : w.isSilent s.event = false → s = s'
  marking : w.options.tagsAtStart = true → s.marking = s'.marking

theorem inputCode_of_silent (h : w.isSilent s.event = true) : w.inputCode testCaseId s = "" :=
  if_pos h

theorem write_of_silent (h : w.isSilent n.event = true) (slot : Slot) : w.write n slot = "" := by
  cases slot with
  | input => exact inputCode_of_silent h
  | oracle => exact oracleCode_of_silent h

theorem nodeText_of_silent (h : w.isSilent n.event = true) : w.nodeText n = "" := by
  rw [nodeText, inputCode_of_silent h, oracleCode_of_silent h, String.append_empty, ite_self]

theorem nodeText_eq_of_sameUnlessSilent (hplace : n.SamePlace n')
    (h : w.SameUnlessSilent n.toStep n'.toStep) : w.nodeText n = w.nodeText n' := by
  cases hsilent : w.isSilent n.event with
  | true => rw [nodeText_of_silent hsilent, nodeText_of_silent (h.event ▸ hsilent)]
  | false => rw [nodeText, nodeText, h.step hsilent, hplace.testCaseId]

end StepWriter

namespace ExecutionTree

variable {w : StepWriter} {t t' : ExecutionTree} {ids : List NodeId}

theorem writtenAlike_of_sameUnlessSilent (h : t.MatchedBy w.SameUnlessSilent t') : t.WrittenAlike w t' :=
  h.writtenAlike (fun hplace hsteps => StepWriter.nodeText_eq_of_sameUnlessSilent hplace hsteps)
    fun htags _ _ hsteps _ _ => by rw [hsteps.marking htags]

/-! ### The slots of silent nodes -/

/-- The slots of the root and of constructors are empty, and those of hidden nodes hold no text. -/
structure KeepsSilence (m : Model) (t : ExecutionTree) : Prop where
  root : ∀ n slot, t.node? root = some n → n.code? slot = none
  constructor : ∀ i n slot, t.node? i = some n → m.isConstructor n.event = true → n.code? slot = none
  hidden : ∀ i n slot text, t.node? i = some n → m.isHidden n.event = true → n.code? slot = some text →
    text = ""

theorem keepsSilence_clear (m : Model) (t : ExecutionTree) : t.clear.KeepsSilence m := by
  have hcode : ∀ i n slot, t.clear.node? i = some n → n.code? slot = none := by
    intro i n slot hn
    rw [node?_clear] at hn
    obtain ⟨n, -, rfl⟩ := Option.map_eq_some_iff.mp hn
    exact n.code?_clear slot
  refine ⟨fun n slot hn => hcode _ n slot hn, fun i n slot hn _ => hcode i n slot hn, ?_⟩
  intro i n slot text hn _ htext
  rw [hcode i n slot hn] at htext
  cases htext

/-- Completing nodes does not break the silence, unless the root is among them. -/
theorem KeepsSilence.complete (h : t.KeepsSilence w.model) (hw : t.WellFormed) (hroot : ExecutionTree.root ∉ ids) :
    (t.complete w ids).KeepsSilence w.model := by
  have hnode : ∀ {i n}, (t.complete w ids).node? i = some n →
      ∃ m, t.node? i = some m ∧ n = if i ∈ ids then m.complete w else m := by
    intro i n hn
    rw [node?_complete] at hn
    obtain ⟨m, hm, rfl⟩ := Option.map_eq_some_iff.mp hn
    exact ⟨m, hm, by rw [hw.id_eq i m hm]⟩
  refine ⟨fun n slot hn => ?_, fun i n slot hn hc => ?_, fun i n slot text hn hh htext => ?_⟩
  · obtain ⟨m, hm, rfl⟩ := hnode hn
    rw [if_neg hroot]
    exact h.root m slot hm
  · obtain ⟨m, hm, rfl⟩ := hnode hn
    split at hc
    · next hi =>
      rw [Node.toStep_complete] at hc
      rw [if_pos hi, Node.code?_complete, if_pos hc]
      exact h.constructor i m slot hm hc
    · next hi =>
      rw [if_neg hi]
      exact h.constructor i m slot hm hc
  · obtain ⟨m, hm, rfl⟩ := hnode hn
    by_cases hi : i ∈ ids
    · rw [if_pos hi, Node.toStep_complete] at hh
      rw [if_pos hi, Node.code?_complete] at htext
      split at htext
      · exact h.hidden i m slot text hm hh htext
      · -- The slot has what it held, or else what the writer has for a silent node.
        have hsilent : w.isSilent m.event = true := by rw [StepWriter.isSilent, hh, Bool.true_or]
        rw [StepWriter.slotText, StepWriter.write_of_silent hsilent, Option.some.injEq] at htext
        cases hcode : m.code? slot with
        | none =>
          rw [hcode] at htext
          exact htext.symm
        | some old =>
          rw [hcode, Option.getD_some] at htext
          exact htext ▸ h.hidden i m slot old hm hh hcode
    · rw [if_neg hi] at hh htext
      exact h.hidden i m slot text hm hh htext

theorem keepsSilence_complete_clear (h : t.WellFormed) (w : StepWriter) (hroot : ExecutionTree.root ∉ ids) :
    (t.clear.complete w ids).KeepsSilence w.model :=
  (keepsSilence_clear w.model t).complete h.clear hroot

end ExecutionTree

namespace Generator

variable {g : Generator} {tree : ExecutionTree}

theorem keepsSilence_render (h : tree.WellFormed) (signal : Signal) (name : String) :
    (g.render tree signal name).tree.KeepsSilence g.model := by
  rw [render_eq h]
  refine keepsSilence_complete_clear h (g.writer tree) fun hroot => ?_
  exact ((StepWriter.mem_visits_iff _ h).mp (Signal.mem_of_mem_reached hroot)).1 rfl

theorem keepsSilence_review (h : tree.WellFormed) (signal : Signal) (leaf : NodeId) :
    (g.review tree signal leaf).tree.KeepsSilence g.model := by
  by_cases hleaf : leaf < tree.size
  · rw [review_eq h hleaf]
    refine keepsSilence_complete_clear h (g.writer tree) fun hroot => ?_
    exact ((h.mem_ancestry_iff hleaf hleaf).mp (Signal.mem_of_mem_reached hroot)).1 rfl
  · rw [review_of_unknown hleaf]
    exact keepsSilence_clear _ tree

theorem keepsSilence_treeCode (h : tree.WellFormed) (hsilence : tree.KeepsSilence g.model) (signal : Signal) :
    (g.treeCode tree signal).tree.KeepsSilence g.model := by
  rw [treeCode_eq h]
  exact KeepsSilence.complete (w := g.writer tree) hsilence h fun hroot =>
    (h.mem_breadthFirst_iff.mp (Signal.mem_of_mem_reached hroot)).1 rfl

/-- Silent steps are inert. Trees that differ in nothing but what silent steps do, and in the root, give the same
suite; and however a run ends, it leaves no code with the root, with a constructor or with a hidden node. The
code of the whole tree is written into slots that are not cleared first, and brings none in. -/
theorem generate_silent (g : Generator) (h : tree.Reachable) :
    (∀ tree', tree.MatchedBy (g.writer tree).SameUnlessSilent tree' →
      ∀ signal name, (g.generate tree signal name).result = (g.generate tree' signal name).result) ∧
    ∀ signal,
      (∀ name, (g.generate tree signal name).tree.KeepsSilence g.model) ∧
      (∀ leaf, (g.review tree signal leaf).tree.KeepsSilence g.model) ∧
      (∀ (σ : Type) [Storage (StateM σ)] (destination : Path) (s : σ),
        ((g.save tree signal destination : StateM σ _).run s).1.tree.KeepsSilence g.model) ∧
      (tree.KeepsSilence g.model → (g.treeCode tree signal).tree.KeepsSilence g.model) := by
  have hw := h.wellFormed
  refine ⟨fun tree' hmatched signal name => ?_, fun signal => ⟨fun name => ?_, fun leaf => ?_, ?_, ?_⟩⟩
  · exact result_generate_of_writtenAlike hw (writtenAlike_of_sameUnlessSilent hmatched) signal name
  · exact keepsSilence_render hw signal name
  · exact keepsSilence_review hw signal leaf
  · intro σ _ destination s
    rw [tree_save]
    exact keepsSilence_render hw signal (suiteName destination)
  · exact fun hsilence => keepsSilence_treeCode hw hsilence signal

/-- A hidden audit and a constructor in the middle of a test do other things in the second tree. The third poll
stops a run that has written nothing but the empty code of the audit. -/
theorem generate_silent_audit :
    let g : Generator := ⟨((Draft.empty "Bank").declare [.hidden "audit"]).toModel,
      { Options.default with eager := true }⟩
    let tree (initial : Marking) (audit renewal : Step) : ExecutionTree :=
      ((((rooted .standard (.constructor "new") initial).withStep 0 audit).withStep 1 renewal).withStep 2
        (.firing (.named "login")))
    let plain := tree ∅ (.firing (.named "audit")) (.firing (.named "NEW"))
    let other := tree ((∅ : Marking).insert "open" [["ann"]])
      { Step.firing (.named "audit") with negative := true, statements := ["flush();"] }
      { Step.firing (.named "NEW") with
        parameters := ["ann"], marking := (∅ : Marking).insert "open" [["bob"]] }
    plain.Reachable ∧ plain.MatchedBy (g.writer plain).SameUnlessSilent other ∧
      (g.generate plain .quiet "BankTest").result = (g.generate other .quiet "BankTest").result ∧
      (g.review other .quiet 3).result.toOption = some "\n\t\tBank.login();" ∧
      (g.generate plain (.cancelAfter 2) "BankTest").tree.KeepsSilence g.model ∧
      (g.generate plain (.cancelAfter 2) "BankTest").tree.nodes.toList.map (fun n => n.inputCode) =
        [none, some "", none, none] := by
  intro g tree plain other
  have hplain : plain.Reachable := (((Reachable.rooted _ _ _).withStep _ _).withStep _ _).withStep _ _
  have hlogin : (g.writer plain).SameUnlessSilent (.firing (.named "login")) (.firing (.named "login")) :=
    ⟨rfl, fun _ => rfl, fun _ => rfl⟩
  have hmatched : plain.MatchedBy (g.writer plain).SameUnlessSilent other := by
    refine ((MatchedBy.withStep (.rooted _ _ _ _ _ _) ?_ 0).withStep ?_ 1).withStep hlogin 2
    · exact ⟨rfl, fun hsilent => absurd hsilent (by decide +kernel), fun _ => rfl⟩
    · exact ⟨rfl, fun hsilent => absurd hsilent (by decide +kernel), fun htags => absurd htags (by decide)⟩
  have hsilent := generate_silent g hplain
  exact ⟨hplain, hmatched, hsilent.1 other hmatched .quiet "BankTest", by decide +kernel,
    (hsilent.2 (.cancelAfter 2)).1 "BankTest", by decide +kernel⟩

end Generator

end TestScribe

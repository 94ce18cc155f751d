import TestScribe.Proofs.Code.Hidden
import TestScribe.Proofs.Run.Bodies
import TestScribe.Proofs.Tree.Building

/-!
# Hidden names in suites

Hidden names leave no trace in a suite. Models that are the same but for what they hide build the same trees and
give the same suites, and the tuples that markings hold in hidden places count for nothing, unless a goal that is
tagged looks for them (`generate_hidden`).
-/

namespace TestScribe

open ExecutionTree

namespace StepWriter

variable {w : StepWriter} {m : Model} {t t' : ExecutionTree}

theorem sameCode_withModel (h : w.model.SameButHidden m) (hoptions : w.model.OptionsVisible) :
    w.SameCode (w.withModel m) where
  isConstructor event := (congrFun h.isConstructor_eq event).symm
  write n slot := by
    cases slot with
    | input => exact (inputCode_withModel h hoptions n.testCaseId n.toStep).symm
    | oracle => exact (oracleCode_withModel h n.testCaseId n.toStep).symm

theorem startTag_withModel (h : w.model.SameButHidden m) : w.startTag = (w.withModel m).startTag := by
  funext path
  unfold startTag withModel
  rw [h.goals]

theorem nodeText_of_sameButHiddenTuples {n n' : Node} (hplace : n.SamePlace n')
    (h : w.model.SameButHiddenTuples n.toStep n'.toStep)
    (htags : w.options.hasTagTemplate = false ∨ w.model.GoalsVisible) : w.nodeText n = w.nodeText n' := by
  have hevent : n.event = n'.event := by rw [← h.step]
  have hinput : w.inputCode n.testCaseId n.toStep = w.inputCode n.testCaseId n'.toStep := by
    rw [← h.step]
    rfl
  rw [nodeText, nodeText, ← hevent, ← hplace.testCaseId, hinput, oracleCode_of_sameButHiddenTuples h htags]

end StepWriter

theorem ExecutionTree.writtenAlike_of_sameButHiddenTuples {w : StepWriter} {t t' : ExecutionTree}
    (h : t.MatchedBy w.model.SameButHiddenTuples t')
    (htags : w.options.hasTagTemplate = false ∨ w.model.GoalsVisible) : t.WrittenAlike w t' := by
  refine h.writtenAlike (fun hplace hsteps => ?_) fun hstart s s' hsteps goal hgoal => ?_
  · exact StepWriter.nodeText_of_sameButHiddenTuples hplace hsteps htags
  · rcases htags with hnone | hgoals
    · rw [Options.tagsAtStart_of_no_template hnone] at hstart
      cases hstart
    · exact hsteps.satisfies hgoals hgoal

namespace Generator

variable {system : String} {ds ds' : List Declaration} {m m' : Model} {tree tree' : ExecutionTree}

theorem assemble_congr (h : m.systemName = m'.systemName) (o : Options) (name : String)
    (tests : List TestCase) : Suite.assemble m o name tests = Suite.assemble m' o name tests := by
  rw [Suite.assemble, Suite.assemble, h]
  unfold separateFile
  rw [h]

/-- The runs are the same in all they give and leave. -/
theorem generate_of_sameButHidden (hm : Model.ofDeclarations system ds = .ok m) (h : m.SameButHidden m')
    (hw : tree.WellFormed) (o : Options) (signal : Signal) (name : String) :
    Generator.generate ⟨m, o⟩ tree signal name = Generator.generate ⟨m', o⟩ tree signal name := by
  let w := Generator.writer ⟨m, o⟩ tree
  have hcode : w.SameCode (Generator.writer ⟨m', o⟩ tree) :=
    StepWriter.sameCode_withModel (w := w) h (Model.optionsVisible_of_declarations hm)
  have htests := hcode.testCases (StepWriter.startTag_withModel (w := w) h) rfl
  rw [generate_eq hw, generate_eq hw, hcode.complete, htests, assemble_congr h.systemName]
  rfl

/-- Hidden names leave no trace. Declarations that are the same but for the mappings of hidden names make models
that are the same but for these; a document gives the same tree in both, and a run the same suite. Tuples in
hidden places change no suite either, unless there are tags and a goal for them names such a place. -/
theorem generate_hidden (hm : Model.ofDeclarations system ds = .ok m)
    (hm' : Model.ofDeclarations system ds' = .ok m') :
    (withoutHiddenMappings ds = withoutHiddenMappings ds' → m.SameButHidden m') ∧
    (m.SameButHidden m' → ∀ (d : TreeDocument) (o : Options), d.build m = d.build m' ∧
      ∀ tree, d.build m = .ok tree → ∀ signal name,
        Generator.generate ⟨m, o⟩ tree signal name = Generator.generate ⟨m', o⟩ tree signal name) ∧
    ∀ o : Options, o.hasTagTemplate = false ∨ m.GoalsVisible →
      ∀ tree tree', tree.Reachable → tree.MatchedBy m.SameButHiddenTuples tree' → ∀ signal name,
        (Generator.generate ⟨m, o⟩ tree signal name).result =
          (Generator.generate ⟨m, o⟩ tree' signal name).result := by
  refine ⟨Model.sameButHidden_of_declarations hm hm', fun h d o => ⟨?_, fun tree htree signal name => ?_⟩,
    fun o htags tree tree' htree hmatched signal name => ?_⟩
  · exact d.build_congr h.transitions h.constructorEvent
  · exact generate_of_sameButHidden hm h (d.reachable_build htree).wellFormed o signal name
  · exact result_generate_of_writtenAlike htree.wellFormed
      (writtenAlike_of_sameButHiddenTuples (w := Generator.writer ⟨m, o⟩ tree) hmatched htags) signal name

/-- A bank that also maps its hidden audit and log gives the same suites, and what the log holds does not show. -/
theorem generate_hidden_audit :
    let plain : List Declaration := [.transition (.named "login"), .transition (.named "audit"),
      .hidden "audit", .hidden "log", .mapping .accessor "open(U)" "isOpen(U)"]
    let mapped : List Declaration := .mapping .accessor "log(U)" "logged(U)" ::
      plain ++ [.mapping .action "audit" "spy()"]
    let marking (log : List Tuple) : Marking := Dict.insert ((∅ : Marking).insert "open" [["ann"]]) "log" log
    let step (event : String) : StepDocument := ⟨event, none, none, marking [["ann"]], false, none, [], []⟩
    let d : TreeDocument := ⟨.standard, ∅, [.node (step "login") [.node (step "audit") []]]⟩
    let tree (log : List Tuple) : ExecutionTree := (rooted .standard (.constructor "new") ∅).withStep 0
      { Step.firing (.named "login") with marking := marking log }
    let o : Options := { Options.default with verifyPostconditions := false, verifyMarkings := true }
    ∃ (m m' : Model) (t : ExecutionTree),
      Model.ofDeclarations "Bank" plain = .ok m ∧ Model.ofDeclarations "Bank" mapped = .ok m' ∧
      m ≠ m' ∧ m.SameButHidden m' ∧ d.build m = .ok t ∧ d.build m' = .ok t ∧
      Generator.generate ⟨m, o⟩ t .quiet "BankTest" = Generator.generate ⟨m', o⟩ t .quiet "BankTest" ∧
      (d.build m').toOption.bind (fun t => (Generator.review ⟨m', o⟩ t .quiet 2).result.toOption) =
        some "\n\t\tBank.login();\n\t\tassertTrue(\"1\", isOpen(ann));" ∧
      (tree []).MatchedBy m.SameButHiddenTuples (tree [["bob"]]) ∧
      (Generator.generate ⟨m, o⟩ (tree []) .quiet "BankTest").result =
        (Generator.generate ⟨m, o⟩ (tree [["bob"]]) .quiet "BankTest").result := by
  intro plain mapped marking step d tree o
  let bank : Model := ((Draft.empty "Bank").declare plain).toModel
  have hm : Model.ofDeclarations "Bank" plain = .ok bank := rfl
  have hm' : Model.ofDeclarations "Bank" mapped = .ok ((Draft.empty "Bank").declare mapped).toModel := rfl
  have ht : d.build bank = .ok _ := rfl
  obtain ⟨hdeclarations, hruns, htuples⟩ := generate_hidden hm hm'
  have hsame := hdeclarations (by decide +kernel)
  obtain ⟨hbuild, hgenerate⟩ := hruns hsame d o
  have hmatched : (tree []).MatchedBy bank.SameButHiddenTuples (tree [["bob"]]) := by
    refine MatchedBy.withStep (.rooted _ _ _ _ _ _) ⟨rfl, fun place hplace => ?_⟩ 0
    have hlog : "log" ≠ place := by
      rintro rfl
      exact absurd hplace (by decide +kernel)
    exact (Marking.tuples_insert_of_ne _ hlog _).trans (Marking.tuples_insert_of_ne _ hlog _).symm
  refine ⟨_, _, _, hm, hm', by decide +kernel, hsame, ht, hbuild ▸ ht, hgenerate _ ht .quiet "BankTest",
    by decide +kernel, hmatched, ?_⟩
  exact htuples o (.inl rfl) _ _ ((Reachable.rooted _ _ _).withStep _ _) hmatched .quiet "BankTest"

end Generator

end TestScribe

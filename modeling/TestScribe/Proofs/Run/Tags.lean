import TestScribe.Proofs.Run.Bodies

/-!
# Tagged tests

Tags only add text to tests, and in one place: at the start of the body (`TaggedAtStart`) or after the oracle
code of each clean step that has code (`TaggedInline`). Where there is nothing to tag, or nothing to write a tag
with, a run is the one without tags (`generate_tags`).
-/

namespace TestScribe

open ExecutionTree

namespace StepWriter

variable {w : StepWriter} {testCaseId : String} {s : Step}

theorem oracleCode_withoutTags (h : w.inlineTag s = "") (testCaseId : String) :
    w.withoutTags.oracleCode testCaseId s = w.oracleCode testCaseId s := by
  rw [oracleCode_eq_withoutTags w, h, ite_self, String.append_empty]

theorem write_withoutTags (h : ∀ s, w.inlineTag s = "") (n : Node) (slot : Slot) :
    w.withoutTags.write n slot = w.write n slot := by
  cases slot with
  | input => exact inputCode_withoutTags w n.testCaseId n.toStep
  | oracle => exact oracleCode_withoutTags (h n.toStep) n.testCaseId

theorem nodeText_withoutTags (h : ∀ s, w.inlineTag s = "") : w.withoutTags.nodeText = w.nodeText := by
  funext n
  rw [nodeText, nodeText, oracleCode_withoutTags (h n.toStep)]
  rfl

theorem startTag_of_not_tagsAtStart (h : w.options.tagsAtStart = false) (path : List Marking) :
    w.startTag path = "" := by
  rw [startTag, h, if_neg Bool.false_ne_true]

/-- Without a tag at the start, a body is the code of its nodes. -/
theorem body_of_not_tagsAtStart (h : w.options.tagsAtStart = false) (nodes : List Node) :
    w.body nodes = String.join (nodes.map w.nodeText) := by
  rw [body, startTag_of_not_tagsAtStart h, String.empty_append]

theorem body_of_tagsAtStart (h : w.options.tagsAtStart = true) (nodes : List Node) :
    w.body nodes =
      goalTag ((w.model.goals.filter fun goal => nodes.any fun n => n.marking.satisfies goal).map Goal.name)
        w.options w.margin ++ w.withoutTags.body nodes := by
  have hinline := inlineTag_of_not_tagsInline (Options.not_tagsInline_of_tagsAtStart h)
  have hplain := body_of_not_tagsAtStart (w := w.withoutTags) rfl nodes
  rw [hplain, nodeText_withoutTags hinline, body, startTag, if_pos h, goalsOnPath_eq]
  simp only [List.any_map, Function.comp_def]

theorem startTag_of_no_goals (h : w.model.goals = []) (path : List Marking) : w.startTag path = "" := by
  rw [startTag, h, goalsOnPath_eq]
  split
  · exact goalTag_nil _ _
  · rfl

end StepWriter

namespace Generator

variable {g : Generator} {tree : ExecutionTree}

def withoutTags (g : Generator) : Generator :=
  { g with options := g.options.withoutTags }

/-- The tag of the goals that some marking on the way to a leaf satisfies. -/
def testTag (g : Generator) (tree : ExecutionTree) (leaf : NodeId) : String :=
  goalTag ((g.model.goals.filter fun goal =>
      (tree.nodesTo leaf).any fun n => n.marking.satisfies goal).map Goal.name)
    g.options (g.writer tree).margin

/-- The tag of the goals that the marking of a node satisfies, the default goal apart. -/
def stepTag (g : Generator) (tree : ExecutionTree) (n : Node) : String :=
  goalTag ((g.model.goals.filter fun goal =>
      goal.name != defaultGoal && n.marking.satisfies goal).map Goal.name)
    g.options (g.writer tree).margin

/-- The code of every node is as it would be without tags, and every body begins with the tag of its test. -/
structure TaggedAtStart (g : Generator) (tree : ExecutionTree) : Prop where
  code : ∀ n slot, (g.writer tree).write n slot = (g.withoutTags.writer tree).write n slot
  review : ∀ signal leaf, (g.review tree signal leaf).result =
    (g.withoutTags.review tree signal leaf).result.map (g.testTag tree leaf ++ ·)
  suite : ∀ name, ∃ tests, tests.length = tree.leaves.length ∧
    (g.withoutTags.generate tree .quiet name).result = .ok (.assemble g.model g.options name tests) ∧
    (g.generate tree .quiet name).result = .ok (.assemble g.model g.options name
      (tree.leaves.zipWith (fun leaf test => ⟨test.id, g.testTag tree leaf ++ test.body⟩) tests))

/-- Only the oracle code of clean steps that are not silent ends with a tag, and no body begins with one: it is
the code of its nodes. -/
structure TaggedInline (g : Generator) (tree : ExecutionTree) : Prop where
  input : ∀ n, (g.writer tree).write n .input = (g.withoutTags.writer tree).write n .input
  oracle : ∀ n, (g.writer tree).write n .oracle = (g.withoutTags.writer tree).write n .oracle ++
    if (g.writer tree).isSilent n.event || n.negative then "" else g.stepTag tree n
  review : ∀ leaf < tree.size, (g.review tree .quiet leaf).result =
    .ok (String.join ((tree.nodesTo leaf).map (g.writer tree).nodeText))
  suite : ∀ name, ∃ tests, (g.generate tree .quiet name).result = .ok (.assemble g.model g.options name tests) ∧
    tests.map TestCase.body = tree.leaves.map fun leaf =>
      String.join ((tree.nodesTo leaf).map (g.writer tree).nodeText)

theorem taggedAtStart (h : tree.WellFormed) (htags : g.options.tagsAtStart = true) : g.TaggedAtStart tree := by
  have hbody : ∀ leaf, (g.writer tree).body (tree.nodesTo leaf) =
      g.testTag tree leaf ++ (g.writer tree).withoutTags.body (tree.nodesTo leaf) := fun leaf =>
    StepWriter.body_of_tagsAtStart (w := g.writer tree) htags (tree.nodesTo leaf)
  refine ⟨fun n slot => ?_, fun signal leaf => ?_, fun name => ⟨_, ?_, result_generate h .quiet name, ?_⟩⟩
  · have hinline := Options.not_tagsInline_of_tagsAtStart htags
    exact (StepWriter.write_withoutTags
      (StepWriter.inlineTag_of_not_tagsInline (w := g.writer tree) hinline) n slot).symm
  · by_cases hleaf : leaf < tree.size
    · rw [result_review h hleaf, result_review h hleaf, hbody]
      split <;> rfl
    · rw [review_of_unknown hleaf, review_of_unknown hleaf]
      rfl
  · exact List.length_mapIdx
  · rw [result_generate h, StepWriter.testCases_clear, StepWriter.testCases_clear]
    refine congrArg (fun tests => Except.ok (Suite.assemble g.model g.options name tests)) ?_
    refine List.ext_getElem (by simp) fun k _ _ => ?_
    simp only [List.getElem_mapIdx, List.getElem_zipWith, hbody]
    rfl

theorem taggedInline (h : tree.WellFormed) (htags : g.options.tagsInline = true) : g.TaggedInline tree := by
  have hstart : g.options.tagsAtStart = false := by
    rw [Bool.eq_false_iff]
    intro hstart
    rw [Options.not_tagsInline_of_tagsAtStart hstart] at htags
    cases htags
  have hbody : ∀ nodes, (g.writer tree).body nodes = String.join (nodes.map (g.writer tree).nodeText) :=
    StepWriter.body_of_not_tagsAtStart (w := g.writer tree) hstart
  refine ⟨fun n => rfl, fun n => ?_, fun leaf hleaf => ?_, fun name => ⟨_, result_generate h .quiet name, ?_⟩⟩
  · have htag : (g.writer tree).inlineTag n.toStep = g.stepTag tree n := if_pos htags
    rw [← htag]
    exact StepWriter.oracleCode_eq_withoutTags (g.writer tree) n.testCaseId n.toStep
  · rw [result_review h hleaf, hbody]
    rfl
  · rw [StepWriter.testCases_clear]
    refine List.ext_getElem (by simp) fun k _ _ => ?_
    simp only [List.getElem_map, List.getElem_mapIdx, hbody]

/-- Where no tag has any text, a run is the one without tags. -/
theorem generate_withoutTags (h : tree.WellFormed) (hinline : ∀ s, (g.writer tree).inlineTag s = "")
    (hstart : ∀ path, (g.writer tree).startTag path = "") (signal : Signal) (name : String) :
    g.generate tree signal name = g.withoutTags.generate tree signal name := by
  have hcode : (g.writer tree).SameCode (g.withoutTags.writer tree) :=
    ⟨fun _ => rfl, fun n slot => (StepWriter.write_withoutTags hinline n slot).symm⟩
  have htests := hcode.testCases (funext hstart) rfl
  rw [generate_eq h, generate_eq h, htests, hcode.complete]
  rfl

/-- Tags only add text, and in one place; without a goal, without a template or with tags switched off a run
gives the same and leaves the same as without tags. -/
theorem generate_tags (g : Generator) (h : tree.Reachable) :
    (g.options.tagsAtStart = true → g.TaggedAtStart tree) ∧
    (g.options.tagsInline = true → g.TaggedInline tree) ∧
    (g.options.createGoalTags = false ∨ g.options.tagTemplate = "" ∨ g.model.goals = [] →
      ∀ signal name, g.generate tree signal name = g.withoutTags.generate tree signal name) := by
  refine ⟨taggedAtStart h.wellFormed, taggedInline h.wellFormed, fun hnone signal name => ?_⟩
  have htagless : g.options.hasTagTemplate = false ∨ g.model.goals = [] := by
    unfold Options.hasTagTemplate
    rcases hnone with hoff | htemplate | hgoals
    · exact .inl (by rw [hoff]; rfl)
    · exact .inl (by rw [htemplate]; exact Bool.and_false _)
    · exact .inr hgoals
  rcases htagless with htemplate | hgoals
  · exact generate_withoutTags h.wellFormed
      (StepWriter.inlineTag_of_not_tagsInline (Options.tagsInline_of_no_template htemplate))
      (StepWriter.startTag_of_not_tagsAtStart (Options.tagsAtStart_of_no_template htemplate)) signal name
  · exact generate_withoutTags h.wellFormed (StepWriter.inlineTag_of_no_goals hgoals)
      (StepWriter.startTag_of_no_goals hgoals) signal name

/-- A login reaches the goal, and the logout that ends the test has no marking. -/
theorem generate_tags_login :
    let model : Model :=
      ((Draft.empty "Bank").declare [.goal ⟨"goalOpen", [⟨"open", [.var "U"]⟩], []⟩]).toModel
    let tagged (template : String) (placement : TagPlacement) : Generator :=
      ⟨model, Options.default.withGoalTags template placement⟩
    let login : Step := { Step.firing (.named "login") with marking := (∅ : Marking).insert "open" [["ann"]] }
    let tree := ((rooted .standard (.constructor "new") ∅).withStep 0 login).withStep 1 (.firing (.named "logout"))
    let atStart := tagged "// reached: [NAME]" .atStart
    let inline := tagged "// reached: [NAME]" .inline
    tree.Reachable ∧
      (atStart.TaggedAtStart tree ∧ (atStart.review tree .quiet 2).result.toOption =
        some "\n\t\t// reached: goalOpen\n\t\tBank.login();\n\t\tBank.logout();") ∧
      (inline.TaggedInline tree ∧ (inline.review tree .quiet 2).result.toOption =
        some "\n\t\tBank.login();\n\t\t// reached: goalOpen\n\t\tBank.logout();") ∧
      (tagged "" .inline).generate tree .quiet "BankTest" =
        (tagged "" .inline).withoutTags.generate tree .quiet "BankTest" := by
  intro model tagged login tree atStart inline
  have htree : tree.Reachable := ((Reachable.rooted _ _ _).withStep _ _).withStep _ _
  refine ⟨htree, ⟨(generate_tags atStart htree).1 (by decide), by decide +kernel⟩,
    ⟨(generate_tags inline htree).2.1 (by decide), by decide +kernel⟩, ?_⟩
  exact (generate_tags (tagged "" .inline) htree).2.2 (.inr (.inl rfl)) .quiet "BankTest"

end Generator

end TestScribe

import TestScribe.Code.Input
import TestScribe.Model.Draft
import TestScribe.Proofs.Text.Indentation

/-!
# The assembly of input code

The input code of a step is a line for each of its pieces (`plainInput_eq`): the set-ups of the option places, the
user's statements, the action. Where an exception is expected, a guard stands around the indented lines, and the
lines can be read back (`inputCode_assembly`). What the guard says is a table by the language (`catching_eq`).
-/

namespace TestScribe

/-- The lines of a guard around code that is expected to throw: those before and after the code, and one that
fails the test if nothing was thrown. -/
structure Guard where
  opening : String
  failure : Option String
  closing : List String
deriving DecidableEq, Repr

namespace Guard

def forLanguage (l : Language) (testId : String) : Guard :=
  match l with
  | .python => ⟨"with self.assertRaises(Exception):", none, []⟩
  | .cpp => ⟨"EXPECT_ANY_THROW(\x7b", none, ["\x7d);"]⟩
  | .cSharp =>
    ⟨"try \x7b", some ("Assert.Fail" ++ Dialect.expectedException testId ++ ";"),
      ["\x7d catch (Exception) \x7b \x7d"]⟩
  | .vb =>
    ⟨"Try", some ("Assert.Fail" ++ Dialect.expectedException testId), ["Catch ex As Exception", "End Try"]⟩
  | .java | .c | .html | .kbt | .rpc | .seleniumDriver | .uft =>
    ⟨"try \x7b", some ("fail" ++ Dialect.expectedException testId ++ ";"),
      ["\x7d catch (Exception e) \x7b \x7d"]⟩

/-- The guard at a margin, around code that is indented already. -/
def around (g : Guard) (m : Margin) (body : String) : String :=
  m.line g.opening ++ body ++ String.join (g.failure.toList.map m.indented.line) ++
    String.join (g.closing.map m.line)

/-- At the margin of a language, the guarded lines start where the failure line does, and the guard's own lines one
unit before. -/
theorem around_join (g : Guard) (l : Language) {codes : List String} (h : ∀ code ∈ codes, '\n' ∉ code.toList) :
    let m := Margin.forLanguage l
    g.around m (m.indentBlock (String.join (codes.map m.line))) =
      Text.lines ([m.indent ++ g.opening] ++ (codes ++ g.failure.toList).map (m.indented.indent ++ ·) ++
        g.closing.map (m.indent ++ ·)) := by
  intro m
  have hbody : m.indentBlock (String.join (codes.map m.line)) = String.join (codes.map m.indented.line) := by
    rw [Margin.indentBlock_join, List.map_map]
    exact congrArg String.join (List.map_congr_left fun code hcode => Margin.indentBlock_line l (h code hcode))
  have hopening : m.line g.opening = Text.lines [m.indent ++ g.opening] := by
    simpa using m.join_map_line [g.opening]
  rw [around, hbody, hopening]
  simp only [Margin.join_map_line, Text.lines_append, List.map_append, String.append_assoc]

end Guard

theorem Dialect.catching_eq (l : Language) (m : Margin) (testId code : String) :
    catching l m testId code = (Guard.forLanguage l testId).around m (m.indentBlock code) := by
  cases l <;> simp [catching, Guard.forLanguage, Guard.around, String.append_assoc]

namespace StepWriter

variable {w : StepWriter} {testCaseId : String} {s : Step}

/-- The statements that set up the option places of the precondition. -/
def setups (w : StepWriter) (s : Step) : List String :=
  let places := (s.transition.precondition.getD []).filter fun p => w.model.isOption p.name
  places.map fun p =>
    w.dialect.setup w.language (w.model.resolve .mutator p.name ((s.bindings.getD ∅).substitute p)).code

/-- What stands on the lines of the input code, in order. -/
def inputPieces (w : StepWriter) (s : Step) : List String :=
  w.setups s ++ s.statements ++ [w.dialect.statement w.language (w.inputAction s)]

/-- The input code is guarded: the step is negative, exceptions are expected and the test is object-oriented. -/
def isGuarded (w : StepWriter) (s : Step) : Bool :=
  s.negative && w.options.expectExceptionsForDirtyTests && w.dialect.isObjectOriented

theorem plainInput_eq (w : StepWriter) (s : Step) :
    w.plainInput s = String.join ((w.inputPieces s).map w.margin.line) := by
  have hsetups : w.optionSetup s = String.join ((w.setups s).map w.margin.line) := by
    rw [setups, List.map_map]
    rfl
  rw [plainInput, hsetups, inputPieces, List.map_append, List.map_append, String.join_append, String.join_append]
  simp [Dialect.action]

theorem inputCode_eq (hsilent : w.isSilent s.event = false) :
    w.inputCode testCaseId s =
      if w.isGuarded s then
        (Guard.forLanguage w.language testCaseId).around w.margin (w.margin.indentBlock (w.plainInput s))
      else w.plainInput s := by
  unfold inputCode isGuarded Dialect.guarded
  rw [hsilent, Dialect.catching_eq]
  cases s.negative && w.options.expectExceptionsForDirtyTests <;> rfl

/-- The input code of a step lists the set-ups of the option places, the user's statements and the action, each on a
line of its own. If an exception is expected, the guard of the language stands around these lines, which are indented
by one more unit; its closing lines are none in Python, two in Visual Basic and else one. Without the units the lines
are as they would be without the guard, and in the margin of a language they start where the failure line does. -/
theorem inputCode_assembly (testCaseId : String) (hsilent : w.isSilent s.event = false) :
    let plain := String.join ((w.inputPieces s).map w.margin.line)
    let body := w.margin.indentBlock plain
    let guard := Guard.forLanguage w.language testCaseId
    (s.transition.precondition = none → w.setups s = []) ∧
      (w.isGuarded s = false → w.inputCode testCaseId s = plain) ∧
      (w.isGuarded s = true →
        w.inputCode testCaseId s =
          w.margin.line guard.opening ++ body ++ String.join (guard.failure.toList.map w.margin.indented.line) ++
            String.join (guard.closing.map w.margin.line)) ∧
      guard.closing.length = (if w.language = .python then 0 else if w.language = .vb then 2 else 1) ∧
      w.margin.outdentBlock body = plain ∧
      ∀ l, w.margin = .forLanguage l → (∀ piece ∈ w.inputPieces s, '\n' ∉ piece.toList) →
        w.isGuarded s = true →
        let outer := l.bodyIndentation
        let inner := l.bodyIndentation ++ l.indentUnit
        w.inputCode testCaseId s =
          Text.lines ([outer ++ guard.opening] ++ (w.inputPieces s ++ guard.failure.toList).map (inner ++ ·) ++
            guard.closing.map (outer ++ ·)) := by
  intro plain body guard
  have hplain : w.plainInput s = plain := w.plainInput_eq s
  have hguarded : w.isGuarded s = true → w.inputCode testCaseId s = guard.around w.margin body := by
    intro h
    rw [inputCode_eq hsilent, if_pos h, hplain]
  refine ⟨fun hnone => ?_, fun h => ?_, hguarded, ?_, w.margin.outdentBlock_indentBlock plain, ?_⟩
  · rw [setups, hnone]
    rfl
  · rw [inputCode_eq hsilent, h, if_neg Bool.false_ne_true, hplain]
  · show (Guard.forLanguage w.language testCaseId).closing.length = _
    cases w.language <;> rfl
  · intro l hmargin hpieces h outer inner
    have hbody : body = (Margin.forLanguage l).indentBlock
        (String.join ((w.inputPieces s).map (Margin.forLanguage l).line)) := by
      rw [← hmargin]
    rw [hguarded h, hmargin, hbody]
    exact guard.around_join l hpieces

/-- A payment in Visual Basic that must fail, with a set-up and a statement. -/
theorem inputCode_assembly_payment :
    let pay : Transition := { Transition.named "pay" with precondition := some [⟨"mode", [.var "M"]⟩] }
    ∃ m : Model,
      Model.ofDeclarations "Shop" [.option "mode", .mapping .mutator "mode(X)" "setMode(X)", .transition pay] =
        .ok m ∧
      let w : StepWriter := ⟨m, .forLanguage .vb, .objectOriented, .forLanguage .vb⟩
      let s : Step :=
        { Step.firing pay with
          bindings := some (Dict.ofList [("M", "fast")])
          negative := true
          statements := ["Wait()"] }
      w.isSilent s.event = false ∧ w.isGuarded s = true ∧ (∀ piece ∈ w.inputPieces s, '\n' ∉ piece.toList) ∧
        w.inputCode "1" s =
          Text.lines ["\t\tTry", "\t\t\tsetMode(fast)", "\t\t\tWait()", "\t\t\tShop.pay(fast)",
            "\t\t\tAssert.Fail(\"Test 1: exception expected\")", "\t\tCatch ex As Exception", "\t\tEnd Try"] := by
  intro pay
  refine ⟨_, rfl, ?_⟩
  intro w s
  have hsilent : w.isSilent s.event = false := by decide +kernel
  have hguarded : w.isGuarded s = true := by decide +kernel
  have hpieces : ∀ piece ∈ w.inputPieces s, '\n' ∉ piece.toList := by decide +kernel
  obtain ⟨-, -, -, -, -, hlines⟩ := inputCode_assembly "1" hsilent
  refine ⟨hsilent, hguarded, hpieces, (hlines .vb rfl hpieces hguarded).trans ?_⟩
  decide +kernel

/-- In Python nothing is closed: no line follows the guarded code. -/
theorem inputCode_without_closing_line :
    ∃ m : Model, Model.ofDeclarations "Shop" [.transition (.named "pay")] = .ok m ∧
      let w : StepWriter := ⟨m, .forLanguage .python, .objectOriented, .forLanguage .python⟩
      let s : Step := { Step.firing (.named "pay") with negative := true }
      w.isSilent s.event = false ∧ w.isGuarded s = true ∧
        ∀ opening failure closing : String,
          w.inputCode "1" s ≠
            w.margin.line opening ++ w.margin.indentBlock (w.plainInput s) ++ failure ++ w.margin.line closing := by
  refine ⟨_, rfl, ?_⟩
  intro w s
  refine ⟨by decide +kernel, by decide +kernel, fun opening failure closing h => ?_⟩
  -- The code has two lines, and there would have to be three.
  have hcode : (w.inputCode "1" s).toList.count '\n' = 2 := by decide +kernel
  have hbody : (w.margin.indentBlock (w.plainInput s)).toList.count '\n' = 1 := by decide +kernel
  have hline (code : String) : 0 < (w.margin.line code).toList.count '\n' :=
    List.count_pos_iff.mpr (by simp [Margin.line, Margin.newline])
  have hopening := hline opening
  have hclosing := hline closing
  rw [h, String.toList_append, String.toList_append, String.toList_append, List.count_append, List.count_append,
    List.count_append, hbody] at hcode
  omega

end StepWriter

end TestScribe

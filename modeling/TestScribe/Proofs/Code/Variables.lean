import TestScribe.Proofs.Code.Sources
import TestScribe.Proofs.Names

/-!
# The variables of a transition

A transition without declared parameters takes as many as its conditions have variables, in the order in which these
first occur when the precondition, the postcondition and the effect are read one after the other
(`Transition.occurrences`). The call that is made from a firing has its arguments in this order, and it stays the same
when later occurrences are put in or taken out (`allVariables_occurrences`).
-/

namespace TestScribe

namespace Transition

/-- All variables of the precondition, the postcondition and the effect, argument by argument. -/
def occurrences (t : Transition) : List String :=
  (t.precondition.getD [] ++ t.postcondition ++ t.effect).flatMap fun p => p.args.filterMap Term.variableName?

variable {t t' : Transition} {x : String}

theorem allVariables_eq (t : Transition) : t.allVariables = firstOccurrences t.occurrences :=
  firstOccurrences_flatMap (fun p : Predicate => p.args.filterMap Term.variableName?) _

theorem mem_variableNames_iff {args : List Term} : x ∈ args.filterMap Term.variableName? ↔ .var x ∈ args := by
  rw [List.mem_filterMap]
  constructor
  · rintro ⟨a, ha, hx⟩
    cases a with
    | var y => exact Option.some.inj hx ▸ ha
    | const c => cases hx
  · exact fun hx => ⟨.var x, hx, rfl⟩

theorem mem_allVariables_iff : x ∈ t.allVariables ↔
    ∃ p, ((∃ ps, t.precondition = some ps ∧ p ∈ ps) ∨ p ∈ t.postcondition ∨ p ∈ t.effect) ∧ .var x ∈ p.args := by
  have hprecondition (p : Predicate) : p ∈ t.precondition.getD [] ↔ ∃ ps, t.precondition = some ps ∧ p ∈ ps := by
    cases t.precondition <;> simp
  rw [allVariables_eq, mem_firstOccurrences, occurrences, List.mem_flatMap]
  simp only [mem_variableNames_iff, List.mem_append, hprecondition, or_assoc]

theorem formalParameters_eq (h : t.parameters = none) : t.formalParameters = t.allVariables := by
  rw [formalParameters, h, Option.getD_none]

end Transition

namespace StepWriter

variable {w : StepWriter} {s s' : Step} {b : Bindings}

/-- Steps of one event with the same bindings and parameters have the same action, if their transitions have the same
formal parameters. -/
theorem inputAction_of_formalParameters (w : StepWriter)
    (hformal : s'.transition.formalParameters = s.transition.formalParameters) (hevent : s'.event = s.event)
    (hbindings : s'.bindings = s.bindings) (hparameters : s'.parameters = s.parameters) :
    w.inputAction s' = w.inputAction s := by
  refine inputAction_congr rfl rfl rfl (bareAction_congr rfl rfl hevent ?_)
  rw [source, source, hparameters, hevent, firing_congr hformal hbindings]

end StepWriter

namespace Transition

/-- The variables of a transition are those of its precondition, if it has one, of its postcondition and of its
effect, each once and in the order of their first occurrences; those that its delete-precondition alone has do not
count. Two transitions have the same variables exactly when they differ in later occurrences. If no parameters are
declared, the parameters of a firing stand at the places of their variables, so the call has as many arguments as
there are variables, and another transition that differs in later occurrences makes the same call. -/
theorem allVariables_occurrences (t : Transition) :
    t.allVariables = t.occurrences.eraseDups ∧
      t.allVariables.Nodup ∧
      (t.allVariables.Pairwise fun x y => t.occurrences.idxOf x < t.occurrences.idxOf y) ∧
      (∀ x, x ∈ t.allVariables ↔
        ∃ p, ((∃ ps, t.precondition = some ps ∧ p ∈ ps) ∨ p ∈ t.postcondition ∨ p ∈ t.effect) ∧ .var x ∈ p.args) ∧
      allVariables { t with precondition := none } = allVariables { t with precondition := some [] } ∧
      (∀ deletePrecondition, allVariables { t with deletePrecondition } = t.allVariables) ∧
      (∀ t' : Transition, t'.allVariables = t.allVariables ↔ Relation.EqvGen Repeats t'.occurrences t.occurrences) ∧
      (t.parameters = none → ∀ (w : StepWriter) (s : Step), s.transition = t →
        (∀ b, (w.actualParameters s b).length = t.allVariables.length ∧
          ∀ (i : Nat) (x : String), t.allVariables[i]? = some x →
            (w.actualParameters s b)[i]? = some (((b.get? x).map w.model.objectFor).getD x)) ∧
        ∀ s' : Step, s'.transition.parameters = none →
          Relation.EqvGen Repeats s'.transition.occurrences t.occurrences →
          (∀ b, w.actualParameters s' b = w.actualParameters s b) ∧
            (s'.event = s.event → s'.bindings = s.bindings → s'.parameters = s.parameters →
              w.inputAction s' = w.inputAction s)) := by
  have hiff (t' : Transition) :
      t'.allVariables = t.allVariables ↔ Relation.EqvGen Repeats t'.occurrences t.occurrences := by
    rw [eqvGen_repeats_iff, allVariables_eq, allVariables_eq]
  refine ⟨?_, ?_, ?_, fun x => mem_allVariables_iff, rfl, fun _ => rfl, hiff, ?_⟩
  · rw [allVariables_eq, firstOccurrences_eq_eraseDups]
  · rw [allVariables_eq]
    exact nodup_firstOccurrences _
  · rw [allVariables_eq]
    exact pairwise_idxOf_lt _
  · rintro hnone w s rfl
    refine ⟨fun b => ⟨?_, fun i x hx => ?_⟩, fun s' hnone' hrepeats => ?_⟩
    · rw [StepWriter.actualParameters, List.length_map, formalParameters_eq hnone]
    · rw [StepWriter.actualParameters, formalParameters_eq hnone, List.getElem?_map, hx]
      cases hvalue : b.get? x <;> simp [hvalue]
    · have hformal : s'.transition.formalParameters = s.transition.formalParameters := by
        rw [formalParameters_eq hnone', formalParameters_eq hnone, (hiff s'.transition).mpr hrepeats]
      refine ⟨fun b => ?_, fun hevent hbindings hparameters => ?_⟩
      · rw [StepWriter.actualParameters, StepWriter.actualParameters, hformal]
      · exact w.inputAction_of_formalParameters hformal hevent hbindings hparameters

/-- The variables of the second transition occur again in another order, and once more; those of its
delete-precondition are no parameters. -/
theorem allVariables_occurrences_move :
    let t : Transition := ⟨"move", none, some [⟨"at", [.var "B", .const "a", .var "A"]⟩], [⟨"old", [.var "D"]⟩],
      [⟨"at", [.var "C", .var "A", .var "B"]⟩], [⟨"log", [.var "A"]⟩]⟩
    let t' : Transition := ⟨"move", none, some [⟨"at", [.var "B", .const "a", .var "A"]⟩], [],
      [⟨"at", [.var "B", .var "B", .var "A", .var "C"]⟩], []⟩
    let b : Bindings := Dict.ofList [("A", "a1"), ("B", "b1"), ("C", "c1"), ("D", "d1")]
    ∃ m : Model,
      Model.ofDeclarations "Depot" [.object "b1" "depot", .mapping .action "move(X, Y, Z)" "move(X, Y, Z)"] = .ok m ∧
      let w : StepWriter := ⟨m, .default, .objectOriented, .forLanguage .java⟩
      let s : Step := { Step.firing t with bindings := some b }
      t.allVariables = ["B", "A", "C"] ∧ Relation.EqvGen Repeats t'.occurrences t.occurrences ∧
        (w.actualParameters s b)[2]? = some "c1" ∧
        w.actualParameters { s with transition := t' } b = w.actualParameters s b ∧
        w.inputAction { s with transition := t' } = "Depot.move(depot, a1, c1)" := by
  intro t t' b
  refine ⟨_, rfl, ?_⟩
  intro w s
  obtain ⟨-, -, -, -, -, -, hiff, hcall⟩ := allVariables_occurrences t
  obtain ⟨hplaces, hsame⟩ := hcall rfl w s rfl
  have hrepeats : Relation.EqvGen Repeats t'.occurrences t.occurrences := (hiff t').mp (by decide +kernel)
  obtain ⟨hactual, haction⟩ := hsame { s with transition := t' } rfl hrepeats
  have hthird : (w.actualParameters s b)[2]? = some "c1" :=
    ((hplaces b).2 2 "C" (by decide +kernel)).trans (by decide +kernel)
  refine ⟨by decide +kernel, hrepeats, hthird, hactual b, ?_⟩
  exact (haction rfl rfl rfl).trans (by decide +kernel)

end Transition

end TestScribe

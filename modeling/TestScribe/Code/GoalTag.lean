import TestScribe.Margin
import TestScribe.Model
import TestScribe.Options

/-!
# Goal tags

Tests are tagged with the names of the goals that their markings satisfy: once at the start of a test,
for all the markings of its path (`goalsOnPath`), or after each step, for its marking (`goalsHere`).
-/

namespace TestScribe

/-- Run through the markings and mark each goal that one of them satisfies; stop when every goal is
marked. -/
def markReached : List (Goal × Bool) → List Marking → List (Goal × Bool)
  | goals, [] => goals
  | goals, m :: rest =>
    if goals.all (·.2) then goals
    else markReached (goals.map fun (g, reached) => (g, reached || m.satisfies g)) rest

/-- The names of the goals that some marking of a path satisfies, in the order of the goals. -/
def goalsOnPath (goals : List Goal) (path : List Marking) : List String :=
  ((markReached (goals.map fun g => (g, false)) path).filter (·.2)).map (·.1.name)

/-- The names of the goals that a marking satisfies, the default goal apart. -/
def goalsHere (goals : List Goal) (m : Marking) : List String :=
  (goals.filter fun g => g.name != defaultGoal && m.satisfies g).map Goal.name

/-- The tag for some goals, on a line of its own. In the template, `[NAME]` stands for the names with
the chosen separator; only where it does not occur, `[NAME,]` stands for the names with commas. -/
def goalTag (names : List String) (o : Options) (m : Margin) : String :=
  if names.isEmpty ∨ o.tagTemplate = "" then ""
  else
    let template := "\n" ++ o.tagTemplate
    m.reindent <|
      if containsText "[NAME]" template then
        replaceText "[NAME]" (o.tagNameSeparator.intercalate names) template
      else replaceText "[NAME,]" (argumentText names) template

end TestScribe

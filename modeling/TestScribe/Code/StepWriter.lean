import TestScribe.Dialect
import TestScribe.Model
import TestScribe.Options

/-!
# Step writers

A step writer holds what the code of a step depends on besides the step: the model, the options, the
dialect and the margin.
-/

namespace TestScribe

def Options.dialect (o : Options) (kind : TreeKind) : Dialect :=
  .select o.language o.createObjectReference kind

structure StepWriter where
  model : Model
  options : Options
  dialect : Dialect
  margin : Margin
deriving DecidableEq

namespace StepWriter

def forTree (model : Model) (options : Options) (kind : TreeKind) : StepWriter :=
  ⟨model, options, options.dialect kind, .forLanguage options.language⟩

def language (w : StepWriter) : Language :=
  w.options.language

/-- Hidden events and the constructor have no code. -/
def isSilent (w : StepWriter) (event : String) : Bool :=
  w.model.isHidden event || w.model.isConstructor event

end StepWriter

end TestScribe

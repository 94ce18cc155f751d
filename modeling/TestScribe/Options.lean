import TestScribe.Language

/-!
# Options of a generation run
-/

namespace TestScribe

/-- Where goal tags are written: once per test, listing every goal reached along its path, or after
each step, listing the goals its marking satisfies. -/
inductive TagPlacement
  | atStart
  | inline
deriving DecidableEq, Repr

structure Options where
  language : Language
  verifyPostconditions : Bool
  verifyEffects : Bool
  verifyMarkings : Bool
  verifyNegatedConditions : Bool
  verifyDirtyTestState : Bool
  preferGuiParameters : Bool
  deriveParametersFromTrace : Bool
  createObjectReference : Bool
  generateReferenceForMethodCall : Bool
  expectExceptionsForDirtyTests : Bool
  createGoalTags : Bool
  tagTemplate : String
  tagPlacement : TagPlacement
  tagNameSeparator : String
  separateTestFiles : Bool
  includeSequenceIndices : Bool
  eager : Bool
deriving DecidableEq, Repr

namespace Options

def default : Options :=
  { language := .java
    verifyPostconditions := true
    verifyEffects := false
    verifyMarkings := false
    verifyNegatedConditions := false
    verifyDirtyTestState := true
    preferGuiParameters := true
    deriveParametersFromTrace := true
    createObjectReference := true
    generateReferenceForMethodCall := true
    expectExceptionsForDirtyTests := true
    createGoalTags := false
    tagTemplate := ""
    tagPlacement := .atStart
    tagNameSeparator := " "
    separateTestFiles := false
    includeSequenceIndices := true
    eager := false }

instance : Inhabited Options :=
  ⟨default⟩

def forLanguage (l : Language) : Options :=
  { default with language := l }

/-- Plain calls: no object references, and no oracle but the postconditions. -/
def minimal (l : Language) : Options :=
  { forLanguage l with
    verifyDirtyTestState := false
    createObjectReference := false
    generateReferenceForMethodCall := false
    expectExceptionsForDirtyTests := false
    includeSequenceIndices := false }

def thorough (l : Language) : Options :=
  { forLanguage l with
    verifyEffects := true
    verifyMarkings := true
    verifyNegatedConditions := true }

def withGoalTags (o : Options) (template : String) (placement : TagPlacement) : Options :=
  { o with createGoalTags := true, tagTemplate := template, tagPlacement := placement }

def hasTagTemplate (o : Options) : Bool :=
  o.createGoalTags && o.tagTemplate != ""

def tagsAtStart (o : Options) : Bool :=
  o.hasTagTemplate && o.tagPlacement == .atStart

def tagsInline (o : Options) : Bool :=
  o.hasTagTemplate && o.tagPlacement == .inline

end Options

end TestScribe

import TestScribe.Json
import TestScribe.Options

/-!
# Option documents

Every field of the options may be left out; it then has its default.
-/

namespace TestScribe

namespace Language

def documentName (l : Language) : String :=
  if l = .cSharp then "c_sharp" else l.name

def decode (v : Json) : Option Language :=
  v.choice?.bind fun text => all.find? fun l => l.documentName == text

def encode (l : Language) : Json :=
  .str l.documentName

end Language

namespace TagPlacement

def name : TagPlacement → String
  | .atStart => "at_start"
  | .inline => "inline"

def decode (v : Json) : Option TagPlacement :=
  v.choice?.bind fun text => [atStart, inline].find? fun p => p.name == text

def encode (p : TagPlacement) : Json :=
  .str p.name

end TagPlacement

namespace Options

def fieldNames : List String :=
  ["language", "verify_postconditions", "verify_effects", "verify_markings",
    "verify_negated_conditions", "verify_dirty_test_state", "prefer_gui_parameters",
    "derive_parameters_from_trace", "create_object_reference",
    "generate_reference_for_method_call", "expect_exceptions_for_dirty_tests", "create_goal_tags",
    "tag_template", "tag_placement", "tag_name_separator", "separate_test_files",
    "include_sequence_indices", "eager"]

def decode (v : Json) : Option Options := do
  let fields ← v.record? fieldNames
  let flag (name : String) := Json.optional fields name Json.toBool?
  let text (name : String) := Json.optional fields name Json.toText?
  return {
    language := ← Json.optional fields "language" Language.decode default.language
    verifyPostconditions := ← flag "verify_postconditions" default.verifyPostconditions
    verifyEffects := ← flag "verify_effects" default.verifyEffects
    verifyMarkings := ← flag "verify_markings" default.verifyMarkings
    verifyNegatedConditions := ← flag "verify_negated_conditions" default.verifyNegatedConditions
    verifyDirtyTestState := ← flag "verify_dirty_test_state" default.verifyDirtyTestState
    preferGuiParameters := ← flag "prefer_gui_parameters" default.preferGuiParameters
    deriveParametersFromTrace :=
      ← flag "derive_parameters_from_trace" default.deriveParametersFromTrace
    createObjectReference := ← flag "create_object_reference" default.createObjectReference
    generateReferenceForMethodCall :=
      ← flag "generate_reference_for_method_call" default.generateReferenceForMethodCall
    expectExceptionsForDirtyTests :=
      ← flag "expect_exceptions_for_dirty_tests" default.expectExceptionsForDirtyTests
    createGoalTags := ← flag "create_goal_tags" default.createGoalTags
    tagTemplate := ← text "tag_template" default.tagTemplate
    tagPlacement := ← Json.optional fields "tag_placement" TagPlacement.decode default.tagPlacement
    tagNameSeparator := ← text "tag_name_separator" default.tagNameSeparator
    separateTestFiles := ← flag "separate_test_files" default.separateTestFiles
    includeSequenceIndices := ← flag "include_sequence_indices" default.includeSequenceIndices
    eager := ← flag "eager" default.eager }

def encode (o : Options) : Json :=
  .obj [
    ("language", o.language.encode),
    ("verify_postconditions", .bool o.verifyPostconditions),
    ("verify_effects", .bool o.verifyEffects),
    ("verify_markings", .bool o.verifyMarkings),
    ("verify_negated_conditions", .bool o.verifyNegatedConditions),
    ("verify_dirty_test_state", .bool o.verifyDirtyTestState),
    ("prefer_gui_parameters", .bool o.preferGuiParameters),
    ("derive_parameters_from_trace", .bool o.deriveParametersFromTrace),
    ("create_object_reference", .bool o.createObjectReference),
    ("generate_reference_for_method_call", .bool o.generateReferenceForMethodCall),
    ("expect_exceptions_for_dirty_tests", .bool o.expectExceptionsForDirtyTests),
    ("create_goal_tags", .bool o.createGoalTags),
    ("tag_template", .str o.tagTemplate),
    ("tag_placement", o.tagPlacement.encode),
    ("tag_name_separator", .str o.tagNameSeparator),
    ("separate_test_files", .bool o.separateTestFiles),
    ("include_sequence_indices", .bool o.includeSequenceIndices),
    ("eager", .bool o.eager)]

end Options

end TestScribe

import TestScribe.Document.Bundle

/-!
# The fields of documents

A `Codec` is a reader of values together with its writer. The table of a record (`Goal.members` and so on)
lists its fields in the order in which they are written: the name, the shape of the value, the value that a
missing field stands for, and how the value is read and written. `RecordKind.fields` is what of all tables
the spellings of a document depend on.
-/

namespace TestScribe

structure Codec (α : Type) where
  decode : Json → Option α
  encode : α → Json

namespace Codec

variable {α : Type}

/-- What is written of the document that is read. -/
def rewrite? (c : Codec α) (v : Json) : Option Json :=
  (c.decode v).map c.encode

def text : Codec String :=
  ⟨Json.toText?, .str⟩

def flag : Codec Bool :=
  ⟨Json.toBool?, .bool⟩

def list (c : Codec α) : Codec (List α) :=
  ⟨Json.toList? c.decode, fun l => .arr (l.map c.encode)⟩

def dict (c : Codec α) : Codec (Dict α) :=
  ⟨Json.toDict? c.decode, .ofDict c.encode⟩

def orNull (c : Codec α) : Codec (Option α) :=
  ⟨Json.orNull? c.decode, .ofOption c.encode⟩

def predicate : Codec Predicate :=
  ⟨Predicate.decode, Predicate.encode⟩

def bindings : Codec Bindings :=
  ⟨Bindings.decode, Bindings.encode⟩

def marking : Codec Marking :=
  ⟨Marking.decode, Marking.encode⟩

def goal : Codec Goal :=
  ⟨Goal.decode, Goal.encode⟩

def transition : Codec Transition :=
  ⟨Transition.decode, Transition.encode⟩

def mapping : Codec MappingText :=
  ⟨MappingText.decode, MappingText.encode⟩

def model : Codec ModelDocument :=
  ⟨ModelDocument.decode, ModelDocument.encode⟩

def node : Codec NodeDocument :=
  ⟨NodeDocument.decode, NodeDocument.encode⟩

def treeKind : Codec TreeKind :=
  ⟨TreeKind.decode, TreeKind.encode⟩

def tree : Codec TreeDocument :=
  ⟨TreeDocument.decode, TreeDocument.encode⟩

def language : Codec Language :=
  ⟨Language.decode, Language.encode⟩

def tagPlacement : Codec TagPlacement :=
  ⟨TagPlacement.decode, TagPlacement.encode⟩

def options : Codec Options :=
  ⟨Options.decode, Options.encode⟩

def bundle : Codec Bundle :=
  ⟨Bundle.decode, Bundle.encode⟩

end Codec

inductive RecordKind
  | goal
  | transition
  | mapping
  | model
  | node
  | tree
  | options
  | bundle
deriving DecidableEq, Repr

/-- Where the records are in a value. A plain value has none: it is a text, a truth value, a map, or a list
of such. -/
inductive Shape
  | plain
  | list (item : Shape)
  | orNull (value : Shape)
  | record (kind : RecordKind)
deriving DecidableEq, Repr

/-- A field of a record. A field that may be missing has a default. -/
structure Field where
  name : String
  shape : Shape
  default? : Option Json

/-- A field of the record of an `α`: `Reads entries a` says that reading the field from the entries of an
object gives what `a` has there. -/
structure Member (α : Type) extends Field where
  Reads : List (String × Json) → α → Prop
  write : α → Json

namespace Member

variable {α β : Type}

def required (name : String) (shape : Shape) (c : Codec β) (get : α → β) : Member α where
  name
  shape
  default? := none
  Reads entries a := Json.required entries name c.decode = some (get a)
  write a := c.encode (get a)

/-- A field that may be missing. It then has the value `missing`, which is written as `default`. -/
def optional (name : String) (shape : Shape) (default : Json) (c : Codec β) (missing : β)
    (get : α → β) : Member α where
  name
  shape
  default? := some default
  Reads entries a := Json.optional entries name c.decode missing = some (get a)
  write a := c.encode (get a)

def texts (name : String) (get : α → List String) : Member α :=
  optional name .plain (.arr []) Codec.text.list [] get

def predicates (name : String) (get : α → List Predicate) : Member α :=
  optional name .plain (.arr []) Codec.predicate.list [] get

/-- A field for any number of records, none by default. -/
def records (name : String) (kind : RecordKind) (c : Codec β) (get : α → List β) : Member α :=
  optional name (.list (.record kind)) (.arr []) c.list [] get

/-- A field for a value without records that may be null, as it is by default. -/
def nullable (name : String) (c : Codec β) (get : α → Option β) : Member α :=
  optional name .plain .null c.orNull none get

def flag (name : String) (default : Bool) (get : α → Bool) : Member α :=
  optional name .plain (.bool default) Codec.flag default get

end Member

def Goal.members : List (Member Goal) :=
  [.required "name" .plain .text Goal.name,
    .required "condition" .plain Codec.predicate.list Goal.condition,
    .predicates "negated" Goal.negated]

def Transition.members : List (Member Transition) :=
  [.optional "name" .plain (.str "") .text "" Transition.name,
    .nullable "parameters" Codec.text.list Transition.parameters,
    .nullable "precondition" Codec.predicate.list Transition.precondition,
    .predicates "delete_precondition" Transition.deletePrecondition,
    .predicates "postcondition" Transition.postcondition,
    .predicates "effect" Transition.effect]

def MappingText.members : List (Member MappingText) :=
  [.required "pattern" .plain .text MappingText.pattern,
    .required "operator" .plain .text MappingText.operator]

def ModelDocument.members : List (Member ModelDocument) :=
  [.optional "system_name" .plain (.str "") .text "" ModelDocument.systemName,
    .nullable "constructor_event" .text ModelDocument.constructorEvent,
    .texts "places" ModelDocument.places,
    .texts "hidden" ModelDocument.hidden,
    .texts "options" ModelDocument.options,
    .records "goals" .goal .goal ModelDocument.goals,
    .optional "objects" .plain (.obj []) Codec.text.dict ∅ ModelDocument.objects,
    .optional "parameters" .plain (.obj []) Codec.text.list.dict ∅ ModelDocument.parameters,
    .records "actions" .mapping .mapping ModelDocument.actions,
    .records "accessors" .mapping .mapping ModelDocument.accessors,
    .records "mutators" .mapping .mapping ModelDocument.mutators,
    .records "transitions" .transition .transition ModelDocument.transitions]

namespace NodeDocument

def step : NodeDocument → StepDocument
  | .node step _ => step

def children : NodeDocument → List NodeDocument
  | .node _ children => children

def members : List (Member NodeDocument) :=
  [.optional "event" .plain (.str "") .text "" fun d => d.step.event,
    .nullable "transition" .text fun d => d.step.transition,
    .nullable "substitution" .bindings fun d => d.step.substitution,
    .optional "marking" .plain (.obj []) .marking ∅ fun d => d.step.marking,
    .flag "negative" false fun d => d.step.negative,
    .nullable "test_case_id" .text fun d => d.step.testCaseId,
    .texts "parameters" fun d => d.step.parameters,
    .texts "statements" fun d => d.step.statements,
    .records "children" .node .node children]

end NodeDocument

def TreeDocument.members : List (Member TreeDocument) :=
  [.optional "kind" .plain (.str "standard") .treeKind .standard TreeDocument.kind,
    .optional "initial_marking" .plain (.obj []) .marking ∅ TreeDocument.initialMarking,
    .records "children" .node .node TreeDocument.children]

def Options.members : List (Member Options) :=
  [.optional "language" .plain (.str "java") .language .java Options.language,
    .flag "verify_postconditions" true Options.verifyPostconditions,
    .flag "verify_effects" false Options.verifyEffects,
    .flag "verify_markings" false Options.verifyMarkings,
    .flag "verify_negated_conditions" false Options.verifyNegatedConditions,
    .flag "verify_dirty_test_state" true Options.verifyDirtyTestState,
    .flag "prefer_gui_parameters" true Options.preferGuiParameters,
    .flag "derive_parameters_from_trace" true Options.deriveParametersFromTrace,
    .flag "create_object_reference" true Options.createObjectReference,
    .flag "generate_reference_for_method_call" true Options.generateReferenceForMethodCall,
    .flag "expect_exceptions_for_dirty_tests" true Options.expectExceptionsForDirtyTests,
    .flag "create_goal_tags" false Options.createGoalTags,
    .optional "tag_template" .plain (.str "") .text "" Options.tagTemplate,
    .optional "tag_placement" .plain (.str "at_start") .tagPlacement .atStart Options.tagPlacement,
    .optional "tag_name_separator" .plain (.str " ") .text " " Options.tagNameSeparator,
    .flag "separate_test_files" false Options.separateTestFiles,
    .flag "include_sequence_indices" true Options.includeSequenceIndices,
    .flag "eager" false Options.eager]

def Bundle.members : List (Member Bundle) :=
  [.optional "model" (.record .model) ModelDocument.empty.encode .model .empty Bundle.model,
    .optional "tree" (.record .tree) TreeDocument.empty.encode .tree .empty Bundle.tree,
    .optional "options" (.orNull (.record .options)) .null Codec.options.orNull none Bundle.options]

namespace RecordKind

def fields : RecordKind → List Field
  | .goal => Goal.members.map Member.toField
  | .transition => Transition.members.map Member.toField
  | .mapping => MappingText.members.map Member.toField
  | .model => ModelDocument.members.map Member.toField
  | .node => NodeDocument.members.map Member.toField
  | .tree => TreeDocument.members.map Member.toField
  | .options => Options.members.map Member.toField
  | .bundle => Bundle.members.map Member.toField

theorem nodup_names (kind : RecordKind) : (kind.fields.map Field.name).Nodup := by
  cases kind <;> decide

end RecordKind

end TestScribe

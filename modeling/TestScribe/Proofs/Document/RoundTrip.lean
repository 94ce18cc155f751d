import TestScribe.Proofs.Document.Respelling
import TestScribe.Proofs.Predicate.RoundTrip

/-!
# Documents are read back

Every document is read back from what is written of it, and from every spelling of that
(`decode_respelled`). The records of the documents are what their tables of fields say (`isRecord_goal` and
so on), so this follows from their fields; for the nodes of a tree by induction on the document.
-/

namespace TestScribe

namespace Codec

/-! ### Plain values -/

theorem faithful_predicate (p : Predicate) : predicate.Faithful .plain p := by
  refine ⟨fun v h => ?_, fun _ _ hr => nomatch hr⟩
  obtain ⟨text, -, h⟩ := Option.bind_eq_some_iff.mp h
  have hparse : Predicate.parse text = .ok p := by
    cases hp : Predicate.parse text with
    | error e => simp [hp, Except.toOption] at h
    | ok q => simpa [hp, Except.toOption] using h
  have hback := Predicate.parse_display_of_wellFormed (Predicate.wellFormed_of_parse hparse)
  simp only [predicate, Predicate.decode, Predicate.encode, Json.toText?, Option.bind_some, hback,
    Except.toOption]

theorem faithful_predicates (ps : List Predicate) : predicate.list.Faithful .plain ps :=
  (Faithful.list fun p _ => faithful_predicate p).plain

theorem inverse_bindings : bindings.Inverse := inverse_text.dict

theorem inverse_marking : marking.Inverse := inverse_text.list.list.dict

theorem inverse_treeKind : treeKind.Inverse := fun k => by
  cases k <;> decide

theorem inverse_tagPlacement : tagPlacement.Inverse := fun p => by
  cases p <;> decide

theorem inverse_language : language.Inverse := fun l => by
  cases l <;> decide

end Codec

namespace Member

open Codec

variable {α β : Type} {a : α} {name : String} {c : Codec β}

@[simp]
theorem lawful_text (name default : String) (get : α → String) :
    (optional name .plain (.str default) .text default get).Lawful a :=
  lawful_optional (inverse_text.faithful _) rfl

@[simp]
theorem lawful_texts (name : String) (get : α → List String) : (texts name get).Lawful a :=
  lawful_optional (inverse_text.list.faithful _) rfl

@[simp]
theorem lawful_predicates (name : String) (get : α → List Predicate) : (predicates name get).Lawful a :=
  lawful_optional (faithful_predicates _) rfl

@[simp]
theorem lawful_flag (name : String) (default : Bool) (get : α → Bool) : (flag name default get).Lawful a :=
  lawful_optional (inverse_flag.faithful _) rfl

theorem lawful_nullable (name : String) {get : α → Option β} (hnull : c.decode .null = none)
    (h : ∀ b, c.Faithful .plain b) : (nullable name c get).Lawful a :=
  lawful_optional (Faithful.orNull hnull h).plain rfl

theorem lawful_records (name : String) {kind : RecordKind} {get : α → List β}
    (h : ∀ b ∈ get a, c.Faithful (.record kind) b) : (records name kind c get).Lawful a :=
  lawful_optional (Faithful.list h) rfl

end Member

namespace Codec

open Member

/-! ### Records -/

/-- A reader that ends well has ended well at each of its steps. -/
theorem bind_iff {α β : Type} {x : Option β} {f : β → Option α} {a : α} :
    (x >>= f) = some a ↔ ∃ b, x = some b ∧ f b = some a :=
  Option.bind_eq_some_iff

theorem isRecord_goal : goal.IsRecord .goal Goal.members where
  fields_eq := rfl
  encode_eq _ := rfl
  decode_iff v g := by
    show Goal.decode v = some g ↔ _
    simp only [Goal.decode, Goal.members, ↓bind_iff, Option.pure_def, Option.some.injEq,
      List.forall_mem_cons, List.not_mem_nil, false_imp_iff, implies_true, and_true]
    constructor
    · rintro ⟨entries, hrecord, name, hname, condition, hcondition, negated, hnegated, rfl⟩
      exact ⟨entries, hrecord, hname, hcondition, hnegated⟩
    · rintro ⟨entries, hrecord, hname, hcondition, hnegated⟩
      exact ⟨entries, hrecord, _, hname, _, hcondition, _, hnegated, rfl⟩

theorem faithful_goal (g : Goal) : goal.Faithful (.record .goal) g := by
  refine isRecord_goal.faithful ?_
  simp only [Goal.members, lawful_predicates, List.forall_mem_cons, List.not_mem_nil, false_imp_iff,
    implies_true, and_true]
  exact ⟨lawful_required (inverse_text.faithful _), lawful_required (faithful_predicates _)⟩

theorem isRecord_transition : transition.IsRecord .transition Transition.members where
  fields_eq := rfl
  encode_eq _ := rfl
  decode_iff v t := by
    show Transition.decode v = some t ↔ _
    simp only [Transition.decode, Transition.members, ↓bind_iff, Option.pure_def, Option.some.injEq,
      List.forall_mem_cons, List.not_mem_nil, false_imp_iff, implies_true, and_true]
    constructor
    · rintro ⟨entries, hrecord, name, hname, parameters, hparameters, precondition, hprecondition, delete,
        hdelete, postcondition, hpostcondition, effect, heffect, rfl⟩
      exact ⟨entries, hrecord, hname, hparameters, hprecondition, hdelete, hpostcondition, heffect⟩
    · rintro ⟨entries, hrecord, hname, hparameters, hprecondition, hdelete, hpostcondition, heffect⟩
      exact ⟨entries, hrecord, _, hname, _, hparameters, _, hprecondition, _, hdelete, _, hpostcondition, _,
        heffect, rfl⟩

theorem faithful_transition (t : Transition) : transition.Faithful (.record .transition) t := by
  refine isRecord_transition.faithful ?_
  simp only [Transition.members, lawful_text, lawful_predicates, List.forall_mem_cons, List.not_mem_nil,
    false_imp_iff, implies_true, true_and, and_true]
  exact ⟨lawful_nullable _ rfl inverse_text.list.faithful, lawful_nullable _ rfl faithful_predicates⟩

theorem isRecord_mapping : mapping.IsRecord .mapping MappingText.members where
  fields_eq := rfl
  encode_eq _ := rfl
  decode_iff v m := by
    show MappingText.decode v = some m ↔ _
    simp only [MappingText.decode, MappingText.members, ↓bind_iff, Option.pure_def, Option.some.injEq,
      List.forall_mem_cons, List.not_mem_nil, false_imp_iff, implies_true, and_true]
    constructor
    · rintro ⟨entries, hrecord, pattern, hpattern, operator, hoperator, rfl⟩
      exact ⟨entries, hrecord, hpattern, hoperator⟩
    · rintro ⟨entries, hrecord, hpattern, hoperator⟩
      exact ⟨entries, hrecord, _, hpattern, _, hoperator, rfl⟩

theorem faithful_mapping (m : MappingText) : mapping.Faithful (.record .mapping) m := by
  refine isRecord_mapping.faithful ?_
  simp only [MappingText.members, List.forall_mem_cons, List.not_mem_nil, false_imp_iff, implies_true,
    and_true]
  exact ⟨lawful_required (inverse_text.faithful _), lawful_required (inverse_text.faithful _)⟩

theorem isRecord_model : model.IsRecord .model ModelDocument.members where
  fields_eq := rfl
  encode_eq _ := rfl
  decode_iff v d := by
    show ModelDocument.decode v = some d ↔ _
    simp only [ModelDocument.decode, ModelDocument.members, ↓bind_iff, Option.pure_def,
      Option.some.injEq, List.forall_mem_cons, List.not_mem_nil, false_imp_iff, implies_true, and_true]
    constructor
    · rintro ⟨entries, hrecord, system, hsystem, constructor, hconstructor, places, hplaces, hidden,
        hhidden, options, hoptions, goals, hgoals, objects, hobjects, parameters, hparameters, actions,
        hactions, accessors, haccessors, mutators, hmutators, transitions, htransitions, rfl⟩
      exact ⟨entries, hrecord, hsystem, hconstructor, hplaces, hhidden, hoptions, hgoals, hobjects,
        hparameters, hactions, haccessors, hmutators, htransitions⟩
    · rintro ⟨entries, hrecord, hsystem, hconstructor, hplaces, hhidden, hoptions, hgoals, hobjects,
        hparameters, hactions, haccessors, hmutators, htransitions⟩
      exact ⟨entries, hrecord, _, hsystem, _, hconstructor, _, hplaces, _, hhidden, _, hoptions, _, hgoals,
        _, hobjects, _, hparameters, _, hactions, _, haccessors, _, hmutators, _, htransitions, rfl⟩

theorem faithful_model (d : ModelDocument) : model.Faithful (.record .model) d := by
  refine isRecord_model.faithful ?_
  simp only [ModelDocument.members, lawful_text, lawful_texts, List.forall_mem_cons, List.not_mem_nil,
    false_imp_iff, implies_true, true_and, and_true]
  have hmappings (ms : List MappingText) : ∀ m ∈ ms, mapping.Faithful (.record .mapping) m :=
    fun m _ => faithful_mapping m
  refine ⟨lawful_nullable _ rfl inverse_text.faithful, lawful_records _ fun g _ => faithful_goal g, ?_, ?_,
    lawful_records _ (hmappings _), lawful_records _ (hmappings _), lawful_records _ (hmappings _),
    lawful_records _ fun t _ => faithful_transition t⟩
  · exact lawful_optional (inverse_text.dict.faithful _) rfl
  · exact lawful_optional (inverse_text.list.dict.faithful _) rfl

theorem isRecord_options : options.IsRecord .options Options.members where
  fields_eq := rfl
  encode_eq _ := rfl
  decode_iff v o := by
    show Options.decode v = some o ↔ _
    simp only [Options.decode, Options.members, ↓bind_iff, Option.pure_def, Option.some.injEq,
      List.forall_mem_cons, List.not_mem_nil, false_imp_iff, implies_true, and_true]
    constructor
    · rintro ⟨entries, hrecord, language, hlanguage, postconditions, hpostconditions, effects, heffects,
        markings, hmarkings, negated, hnegated, dirty, hdirty, gui, hgui, trace, htrace, reference,
        hreference, method, hmethod, exceptions, hexceptions, tags, htags, template, htemplate, placement,
        hplacement, separator, hseparator, separate, hseparate, indices, hindices, eager, heager, rfl⟩
      exact ⟨entries, hrecord, hlanguage, hpostconditions, heffects, hmarkings, hnegated, hdirty, hgui,
        htrace, hreference, hmethod, hexceptions, htags, htemplate, hplacement, hseparator, hseparate,
        hindices, heager⟩
    · rintro ⟨entries, hrecord, hlanguage, hpostconditions, heffects, hmarkings, hnegated, hdirty, hgui,
        htrace, hreference, hmethod, hexceptions, htags, htemplate, hplacement, hseparator, hseparate,
        hindices, heager⟩
      exact ⟨entries, hrecord, _, hlanguage, _, hpostconditions, _, heffects, _, hmarkings, _, hnegated, _,
        hdirty, _, hgui, _, htrace, _, hreference, _, hmethod, _, hexceptions, _, htags, _, htemplate, _,
        hplacement, _, hseparator, _, hseparate, _, hindices, _, heager, rfl⟩

theorem faithful_options (o : Options) : options.Faithful (.record .options) o := by
  refine isRecord_options.faithful ?_
  simp only [Options.members, lawful_flag, lawful_text, List.forall_mem_cons, List.not_mem_nil,
    false_imp_iff, implies_true, true_and, and_true]
  exact ⟨lawful_optional (inverse_language.faithful _) rfl,
    lawful_optional (inverse_tagPlacement.faithful _) rfl⟩

end Codec

/-! ### Nodes and trees -/

namespace NodeDocument

theorem decodeItems_eq (items : List Json) : decodeItems items = items.mapM decode := by
  induction items with
  | nil => rfl
  | cons v items ih => rw [decodeItems, List.mapM_cons, ih]

theorem decodeList_eq : decodeList = Json.toList? decode := by
  funext v
  cases v with
  | arr items => exact decodeItems_eq items
  | _ => rfl

theorem encodeList_eq (ds : List NodeDocument) : encodeList ds = ds.map encode := by
  induction ds with
  | nil => rfl
  | cons d ds ih => rw [encodeList, List.map_cons, ih]

theorem decodeChildren_eq (entries : List (String × Json)) :
    decodeChildren entries = Json.optional entries "children" (Json.toList? decode) [] := by
  induction entries with
  | nil => rfl
  | cons e entries ih =>
    rw [decodeChildren, Json.optional, Dict.find]
    split
    · rw [decodeList_eq]
    · exact ih

/-- The children of a node that is written as an array come after the fields of its step. -/
theorem decodeAt_eq (items : List Json) :
    ∀ {names : List String}, "children" ∉ names → decodeAt names.length items =
      Json.optional ((names ++ ["children"]).zip items) "children" (Json.toList? decode) [] := by
  induction items with
  | nil =>
    intro names _
    rw [List.zip_nil_right, decodeAt]
    rfl
  | cons v items ih =>
    intro names hnames
    cases names with
    | nil =>
      rw [List.length_nil, decodeAt, decodeList_eq]
      rfl
    | cons name names =>
      rw [List.mem_cons, not_or] at hnames
      rw [List.length_cons, decodeAt, ih hnames.2, List.cons_append, List.zip_cons_cons, Json.optional,
        Json.optional, Dict.find, if_neg (Ne.symm hnames.1)]

/-- A node is read as a record with the fields of its step and its children. -/
theorem decode_eq (v : Json) :
    decode v = do
      let entries ← v.record? (StepDocument.fieldNames ++ ["children"])
      let step ← StepDocument.decode v
      let children ← Json.optional entries "children" (Json.toList? decode) []
      return .node step children := by
  cases hrecord : v.record? (StepDocument.fieldNames ++ ["children"]) with
  | none =>
    have hstep : StepDocument.decode v = none := by
      rw [StepDocument.decode, hrecord]
      rfl
    cases v with
    | obj fields =>
      rw [decode, hstep]
      rfl
    | arr items =>
      rw [decode, hstep]
      rfl
    | _ => rfl
  | some entries =>
    cases v with
    | obj fields =>
      obtain ⟨-, rfl⟩ : _ ∧ fields = entries := by simpa [Json.record?] using hrecord
      simp only [decode, decodeChildren_eq]
      rfl
    | arr items =>
      obtain ⟨-, rfl⟩ : _ ∧ (StepDocument.fieldNames ++ ["children"]).zip items = entries := by
        simpa [Json.record?] using hrecord
      have hnames : "children" ∉ StepDocument.fieldNames := by decide
      simp only [decode, decodeAt_eq items hnames]
      rfl
    | _ => cases hrecord

end NodeDocument

namespace Codec

open Member

theorem isRecord_node : node.IsRecord .node NodeDocument.members where
  fields_eq := rfl
  encode_eq d := by
    cases d with
    | node step children =>
      show NodeDocument.encode (.node step children) = _
      rw [NodeDocument.encode, NodeDocument.encodeList_eq]
      rfl
  decode_iff v d := by
    show NodeDocument.decode v = some d ↔ _
    simp only [NodeDocument.decode_eq, StepDocument.decode, NodeDocument.members, ↓bind_iff,
      Option.pure_def, Option.some.injEq, List.forall_mem_cons, List.not_mem_nil, false_imp_iff,
      implies_true, and_true]
    constructor
    · rintro ⟨entries, hrecord, _, ⟨entries', hrecord', event, hevent, transition, htransition,
        substitution, hsubstitution, marking, hmarking, negative, hnegative, testCase, htestCase,
        parameters, hparameters, statements, hstatements, rfl⟩, _, hchildren, rfl⟩
      obtain rfl := Option.some.inj (hrecord.symm.trans hrecord')
      exact ⟨entries, hrecord, hevent, htransition, hsubstitution, hmarking, hnegative, htestCase,
        hparameters, hstatements, hchildren⟩
    · rintro ⟨entries, hrecord, hevent, htransition, hsubstitution, hmarking, hnegative, htestCase,
        hparameters, hstatements, hchildren⟩
      cases d
      exact ⟨entries, hrecord, _, ⟨entries, hrecord, _, hevent, _, htransition, _, hsubstitution, _,
        hmarking, _, hnegative, _, htestCase, _, hparameters, _, hstatements, rfl⟩, _, hchildren, rfl⟩

mutual

theorem faithful_node : ∀ d : NodeDocument, node.Faithful (.record .node) d
  | .node step children => by
    refine isRecord_node.faithful ?_
    simp only [NodeDocument.members, lawful_text, lawful_texts, lawful_flag, List.forall_mem_cons,
      List.not_mem_nil, false_imp_iff, implies_true, true_and, and_true]
    refine ⟨?_, ?_, lawful_optional (inverse_marking.faithful _) rfl, ?_,
      lawful_records _ (faithful_nodes children)⟩
    · exact lawful_nullable _ rfl inverse_text.faithful
    · exact lawful_nullable _ rfl inverse_bindings.faithful
    · exact lawful_nullable _ rfl inverse_text.faithful

theorem faithful_nodes : ∀ ds : List NodeDocument, ∀ d ∈ ds, node.Faithful (.record .node) d
  | [] => by simp
  | d :: ds => List.forall_mem_cons.mpr ⟨faithful_node d, faithful_nodes ds⟩

end

theorem isRecord_tree : tree.IsRecord .tree TreeDocument.members where
  fields_eq := rfl
  encode_eq d := by
    show TreeDocument.encode d = _
    rw [TreeDocument.encode, NodeDocument.encodeList_eq]
    rfl
  decode_iff v d := by
    show TreeDocument.decode v = some d ↔ _
    simp only [TreeDocument.decode, NodeDocument.decodeList_eq, TreeDocument.members, ↓bind_iff,
      Option.pure_def, Option.some.injEq, List.forall_mem_cons, List.not_mem_nil, false_imp_iff,
      implies_true, and_true]
    constructor
    · rintro ⟨entries, hrecord, kind, hkind, marking, hmarking, children, hchildren, rfl⟩
      exact ⟨entries, hrecord, hkind, hmarking, hchildren⟩
    · rintro ⟨entries, hrecord, hkind, hmarking, hchildren⟩
      exact ⟨entries, hrecord, _, hkind, _, hmarking, _, hchildren, rfl⟩

theorem faithful_tree (d : TreeDocument) : tree.Faithful (.record .tree) d := by
  refine isRecord_tree.faithful ?_
  simp only [TreeDocument.members, List.forall_mem_cons, List.not_mem_nil, false_imp_iff, implies_true,
    and_true]
  exact ⟨lawful_optional (inverse_treeKind.faithful _) rfl,
    lawful_optional (inverse_marking.faithful _) rfl, lawful_records _ fun d _ => faithful_node d⟩

theorem isRecord_bundle : bundle.IsRecord .bundle Bundle.members where
  fields_eq := rfl
  encode_eq _ := rfl
  decode_iff v b := by
    show Bundle.decode v = some b ↔ _
    simp only [Bundle.decode, Bundle.members, ↓bind_iff, Option.pure_def, Option.some.injEq,
      List.forall_mem_cons, List.not_mem_nil, false_imp_iff, implies_true, and_true]
    constructor
    · rintro ⟨entries, hrecord, model, hmodel, tree, htree, options, hoptions, rfl⟩
      exact ⟨entries, hrecord, hmodel, htree, hoptions⟩
    · rintro ⟨entries, hrecord, hmodel, htree, hoptions⟩
      exact ⟨entries, hrecord, _, hmodel, _, htree, _, hoptions, rfl⟩

theorem faithful_bundle (b : Bundle) : bundle.Faithful (.record .bundle) b := by
  refine isRecord_bundle.faithful ?_
  simp only [Bundle.members, List.forall_mem_cons, List.not_mem_nil, false_imp_iff, implies_true,
    and_true]
  exact ⟨lawful_optional (faithful_model _) rfl, lawful_optional (faithful_tree _) rfl,
    lawful_optional (Faithful.orNull rfl faithful_options) rfl⟩

end Codec

/-! ### All documents -/

inductive DocumentType
  | predicate
  | goal
  | transition
  | substitution
  | marking
  | model
  | node
  | tree
  | options
  | bundle
deriving DecidableEq, Repr

namespace DocumentType

def Value : DocumentType → Type
  | predicate => Predicate
  | goal => Goal
  | transition => Transition
  | substitution => Bindings
  | marking => Marking
  | model => ModelDocument
  | node => NodeDocument
  | tree => TreeDocument
  | options => Options
  | bundle => Bundle

def codec : (type : DocumentType) → Codec type.Value
  | predicate => .predicate
  | goal => .goal
  | transition => .transition
  | substitution => .bindings
  | marking => .marking
  | model => .model
  | node => .node
  | tree => .tree
  | options => .options
  | bundle => .bundle

def shape : DocumentType → Shape
  | predicate | substitution | marking => .plain
  | goal => .record .goal
  | transition => .record .transition
  | model => .record .model
  | node => .record .node
  | tree => .record .tree
  | options => .record .options
  | bundle => .record .bundle

variable {type : DocumentType} {v : Json} {d : type.Value}

theorem faithful : ∀ (type : DocumentType) (d : type.Value), type.codec.Faithful type.shape d
  | predicate, p => Codec.faithful_predicate p
  | goal, g => Codec.faithful_goal g
  | transition, t => Codec.faithful_transition t
  | substitution, b => Codec.inverse_bindings.faithful b
  | marking, m => Codec.inverse_marking.faithful m
  | model, d => Codec.faithful_model d
  | node, d => Codec.faithful_node d
  | tree, d => Codec.faithful_tree d
  | options, o => Codec.faithful_options o
  | bundle, b => Codec.faithful_bundle b

/-- A document is read back from what is written of it, so that reading and writing it a second time changes
nothing. It is also read from what is written once fields with their defaults are left out or unknown fields
are put in, any number of them at any depth. -/
theorem decode_respelled (h : type.codec.decode v = some d) :
    type.codec.decode (type.codec.encode d) = some d ∧
      (type.codec.rewrite? v).bind type.codec.rewrite? = type.codec.rewrite? v ∧
      ∀ v', Relation.ReflTransGen type.shape.Respelled (type.codec.encode d) v' →
        type.codec.decode v' = some d := by
  have hback := (faithful type d).back v h
  refine ⟨hback, ?_, fun v' hr => (faithful type d).decode_respellings hr hback⟩
  rw [Codec.rewrite?, h, Option.map_some, Option.bind_some, Codec.rewrite?, hback, Option.map_some]

/-- In a model that is written without its name, a goal without its `negated` and with a note. -/
theorem decode_respelled_goal_of_model :
    let condition : List Json := [.str "paid(A, 0)"]
    let goal : List (String × Json) := [("name", .str "Paid"), ("condition", .arr condition)]
    let written (goal : List (String × Json)) : List (String × Json) :=
      [("constructor_event", .null), ("places", .arr []), ("hidden", .arr []), ("options", .arr []),
        ("goals", .arr [.obj goal]), ("objects", .obj []), ("parameters", .obj []), ("actions", .arr []),
        ("accessors", .arr []), ("mutators", .arr []), ("transitions", .arr [])]
    let d : ModelDocument :=
      { ModelDocument.empty with goals := [⟨"Paid", [⟨"paid", [.var "A", .const "0"]⟩], []⟩] }
    model.codec.decode (.obj [("goals", .arr [.obj [("name", .str "Paid"),
        ("condition", .arr [.str " paid( A ,0)"])]])]) = some d ∧
      model.codec.encode d = .obj (("system_name", .str "") :: written (goal ++ [("negated", .arr [])])) ∧
      model.codec.decode (.obj (written (("note", .null) :: goal))) = some d := by
  intro condition goal written d
  have hread : model.codec.decode (.obj [("goals", .arr [.obj [("name", .str "Paid"),
      ("condition", .arr [.str " paid( A ,0)"])]])]) = some d := rfl
  have hwritten : model.codec.encode d =
      .obj (("system_name", .str "") :: written (goal ++ [("negated", .arr [])])) := rfl
  have hname : ⟨"system_name", .plain, some (.str "")⟩ ∈ RecordKind.model.fields :=
    List.mem_of_getElem? (i := 0) rfl
  have hgoals : ⟨"goals", .list (.record .goal), some (.arr [])⟩ ∈ RecordKind.model.fields :=
    List.mem_of_getElem? (i := 5) rfl
  have hnegated : ⟨"negated", .plain, some (.arr [])⟩ ∈ RecordKind.goal.fields :=
    List.mem_of_getElem? (i := 2) rfl
  have hinner {g g' : List (String × Json)} (h : (Shape.record .goal).Respelled (.obj g) (.obj g')) :
      (Shape.record .model).Respelled (.obj (written g)) (.obj (written g')) :=
    .field ((written g).take 4) ((written g).drop 5) hgoals (.item [] [] h)
  refine ⟨hread, hwritten, (decode_respelled hread).2.2 _ ?_⟩
  rw [hwritten]
  exact .tail (.tail (.single (.drop [] _ hname rfl)) (hinner (.drop goal [] hnegated rfl)))
    (hinner (.add .null [] goal (by decide)))

end DocumentType

end TestScribe

import Mathlib.Data.List.Forall2
import TestScribe.Proofs.Predicate.Cuts
import TestScribe.Proofs.Predicate.RoundTrip

/-!
# The grammar of predicates

`ParsesAs` gives the outcome of reading a text by what the text looks like: where its argument list begins and ends is
said by counting, and so is where its arguments are cut apart. Each text has an outcome (`exists_parsesAs`), and it is
the one that the reader gives (`parse_eq_iff`).
-/

namespace TestScribe

open Text Nesting

namespace Term

/-- The term is the trim of a piece of text: a variable if that is a variable name, and else a constant. -/
structure StandsFor (a : Term) (p : List Char) : Prop where
  text_eq : a.text = String.ofList (trim p)
  isVariable_eq : a.isVariable = isVariableName a.text

theorem standsFor_iff {a : Term} {p : List Char} : a.StandsFor p ↔ a = parse (String.ofList p) := by
  have htrim : trimmed (String.ofList p) = String.ofList (trim p) := by rw [trimmed, String.toList_ofList]
  constructor
  · intro h
    exact ext_text (by rw [text_parse, htrim, h.text_eq]) (by rw [isVariable_parse, htrim, h.isVariable_eq, h.text_eq])
  · intro h
    exact ⟨by rw [h, text_parse, htrim], by rw [h, isVariable_parse, text_parse]⟩

end Term

namespace Predicate

/-- The first opening parenthesis of the trimmed text stands between these two parts of it. -/
structure Opens (text : String) (head rest : List Char) : Prop where
  split : trim text.toList = head ++ '(' :: rest
  first : '(' ∉ head

/-- The outcome of reading a text; the conditions come in the order in which they are checked. -/
inductive ParsesAs (text : String) : Except ParseError Predicate → Prop
  | empty (hparen : '(' ∉ trim text.toList) (hname : trim text.toList = []) :
    ParsesAs text (.error (.missingName text))
  | name (hparen : '(' ∉ trim text.toList) (hname : trim text.toList ≠ []) :
    ParsesAs text (.ok ⟨String.ofList (trim text.toList), []⟩)
  | missingName {head rest : List Char} (hopen : Opens text head rest) (hname : trim head = []) :
    ParsesAs text (.error (.missingName text))
  | unclosedArguments {head rest : List Char} (hopen : Opens text head rest) (hname : trim head ≠ [])
    (hclose : ∀ inner after, ¬ ClosedAt rest inner after) :
    ParsesAs text (.error (.unclosedArguments text))
  | trailingInput {head rest inner after : List Char} (hopen : Opens text head rest) (hname : trim head ≠ [])
    (hclose : ClosedAt rest inner after) (hafter : trim after ≠ []) :
    ParsesAs text (.error (.trailingInput text (String.ofList (trim after))))
  | noArguments {head rest inner after : List Char} (hopen : Opens text head rest) (hname : trim head ≠ [])
    (hclose : ClosedAt rest inner after) (hafter : trim after = []) (hinner : trim inner = []) :
    ParsesAs text (.ok ⟨String.ofList (trim head), []⟩)
  | emptyArgument {head rest inner after p : List Char} {front back : List (List Char)}
    (hopen : Opens text head rest) (hname : trim head ≠ []) (hclose : ClosedAt rest inner after)
    (hafter : trim after = []) (hinner : trim inner ≠ []) (hcut : CutAtCommas inner (front ++ p :: back))
    (hfront : ∀ q ∈ front, trim q ≠ []) (hblank : trim p = []) :
    ParsesAs text (.error (.emptyArgument text front.length))
  | arguments {head rest inner after : List Char} {ps : List (List Char)} {terms : List Term}
    (hopen : Opens text head rest) (hname : trim head ≠ []) (hclose : ClosedAt rest inner after)
    (hafter : trim after = []) (hinner : trim inner ≠ []) (hcut : CutAtCommas inner ps)
    (hpieces : ∀ p ∈ ps, trim p ≠ []) (hterms : List.Forall₂ Term.StandsFor terms ps) :
    ParsesAs text (.ok ⟨String.ofList (trim head), terms⟩)

variable {text : String} {head rest inner after p : List Char} {ps : List (List Char)} {terms : List Term}
  {outcome : Except ParseError Predicate}

/-! ### The reader, part by part -/

theorem ofList_eq_empty_iff {cs : List Char} : String.ofList cs = "" ↔ cs = [] := by
  rw [← String.toList_eq_nil_iff, String.toList_ofList]

theorem parse_of_not_mem (hparen : '(' ∉ trim text.toList) :
    parse text =
      if trim text.toList = [] then .error (.missingName text)
      else .ok ⟨String.ofList (trim text.toList), []⟩ := by
  have hall : ∀ c ∈ trim text.toList, decide (c ≠ '(') = true := fun c hc =>
    decide_eq_true fun he => hparen (he ▸ hc)
  obtain ⟨htake, hdrop⟩ := takeWhile_append_of_head? (r := []) hall (by simp)
  rw [List.append_nil] at htake hdrop
  simp only [parse, htake, hdrop, trim_trim, ofList_eq_empty_iff]

theorem parse_of_opens (hopen : Opens text head rest) :
    parse text =
      if trim head = [] then .error (.missingName text)
      else (readList text rest).map fun terms => ⟨String.ofList (trim head), terms⟩ := by
  have hall : ∀ c ∈ head, decide (c ≠ '(') = true := fun c hc =>
    decide_eq_true fun he => hopen.first (he ▸ hc)
  obtain ⟨htake, hdrop⟩ := takeWhile_append_of_head? (r := '(' :: rest) hall (by simp)
  simp only [parse, hopen.split, htake, hdrop, ofList_eq_empty_iff]
  cases readList text rest <;> rfl

theorem readList_of_not_closedAt (hclose : ∀ inner after, ¬ ClosedAt rest inner after) :
    readList text rest = .error (.unclosedArguments text) := by
  rw [readList]
  cases hcut : outside.cutAtClose rest with
  | none => rfl
  | some cut => exact absurd (closedAt_iff.mpr hcut) (hclose cut.1 cut.2)

theorem readList_of_closedAt (hclose : ClosedAt rest inner after) :
    readList text rest =
      if trim after = [] then
        if trim inner = [] then .ok [] else readArguments text 0 (outside.pieces inner)
      else .error (.trailingInput text (String.ofList (trim after))) := by
  rw [readList, closedAt_iff.mp hclose]
  simp only [trim_eq_nil_iff]

theorem readArguments_of_blank {position : Nat} {front back : List (List Char)}
    (hfront : ∀ q ∈ front, trim q ≠ []) (hblank : trim p = []) :
    readArguments text position (front ++ p :: back) = .error (.emptyArgument text (position + front.length)) := by
  induction front generalizing position with
  | nil => rw [List.nil_append, readArguments, if_pos (trim_eq_nil_iff.mp hblank), List.length_nil, Nat.add_zero]
  | cons q front ih =>
    obtain ⟨hq, hfront⟩ := List.forall_mem_cons.mp hfront
    rw [List.cons_append, readArguments, if_neg fun h => hq (trim_eq_nil_iff.mpr h), ih hfront, List.length_cons,
      Nat.add_right_comm, Nat.add_assoc]

theorem readArguments_of_not_blank {position : Nat} (hpieces : ∀ p ∈ ps, trim p ≠ [])
    (hterms : List.Forall₂ Term.StandsFor terms ps) : readArguments text position ps = .ok terms := by
  refine readArguments_ok_iff.mpr ⟨fun p hp => ?_, ?_⟩
  · exact Bool.eq_false_iff.mpr fun h => hpieces p hp (trim_eq_nil_iff.mpr h)
  · rw [← List.forall₂_eq_eq_eq, List.forall₂_map_right_iff]
    exact hterms.imp fun _ _ h => Term.standsFor_iff.mp h

/-! ### The outcome -/

/-- The pieces of what a closing parenthesis ends are those that the scan finds. -/
theorem pieces_eq (hclose : ClosedAt rest inner after) (hcut : CutAtCommas inner ps) : outside.pieces inner = ps :=
  ((cutAtCommas_iff (cutAtClose_sound (closedAt_iff.mp hclose)).2.1).mp hcut).symm

theorem ParsesAs.parse_eq (h : ParsesAs text outcome) : parse text = outcome := by
  cases h with
  | empty hparen hname => rw [parse_of_not_mem hparen, if_pos hname]
  | name hparen hname => rw [parse_of_not_mem hparen, if_neg hname]
  | missingName hopen hname => rw [parse_of_opens hopen, if_pos hname]
  | unclosedArguments hopen hname hclose =>
    rw [parse_of_opens hopen, if_neg hname, readList_of_not_closedAt hclose]
    rfl
  | trailingInput hopen hname hclose hafter =>
    rw [parse_of_opens hopen, if_neg hname, readList_of_closedAt hclose, if_neg hafter]
    rfl
  | noArguments hopen hname hclose hafter hinner =>
    rw [parse_of_opens hopen, if_neg hname, readList_of_closedAt hclose, if_pos hafter, if_pos hinner]
    rfl
  | emptyArgument hopen hname hclose hafter hinner hcut hfront hblank =>
    rw [parse_of_opens hopen, if_neg hname, readList_of_closedAt hclose, if_pos hafter, if_neg hinner,
      pieces_eq hclose hcut, readArguments_of_blank hfront hblank, Nat.zero_add]
    rfl
  | arguments hopen hname hclose hafter hinner hcut hpieces hterms =>
    rw [parse_of_opens hopen, if_neg hname, readList_of_closedAt hclose, if_pos hafter, if_neg hinner,
      pieces_eq hclose hcut, readArguments_of_not_blank hpieces hterms]
    rfl

theorem exists_parsesAs_of_cut (hopen : Opens text head rest) (hname : trim head ≠ [])
    (hclose : ClosedAt rest inner after) (hafter : trim after = []) (hinner : trim inner ≠ []) :
    ∃ outcome, ParsesAs text outcome := by
  have hcut := cutAtCommas_pieces (cutAtClose_sound (closedAt_iff.mp hclose)).2.1
  cases hfind : (outside.pieces inner).find? blank with
  | none =>
    refine ⟨_, .arguments hopen hname hclose hafter hinner hcut (fun p hp hblank => ?_)
      (List.forall₂_map_left_iff.mpr (List.forall₂_same.mpr fun p _ => Term.standsFor_iff.mpr rfl))⟩
    exact List.find?_eq_none.mp hfind p hp (trim_eq_nil_iff.mp hblank)
  | some p =>
    obtain ⟨hblank, front, back, hsplit, hfront⟩ := List.find?_eq_some_iff_append.mp hfind
    rw [hsplit] at hcut
    refine ⟨_, .emptyArgument hopen hname hclose hafter hinner hcut (fun q hq hempty => ?_)
      (trim_eq_nil_iff.mpr hblank)⟩
    have hnot := hfront q hq
    rw [trim_eq_nil_iff.mp hempty] at hnot
    cases hnot

theorem exists_parsesAs_of_opens (hopen : Opens text head rest) : ∃ outcome, ParsesAs text outcome := by
  by_cases hname : trim head = []
  · exact ⟨_, .missingName hopen hname⟩
  by_cases hclosed : ∃ inner after, ClosedAt rest inner after
  · obtain ⟨inner, after, hclose⟩ := hclosed
    by_cases hafter : trim after = []
    · by_cases hinner : trim inner = []
      · exact ⟨_, .noArguments hopen hname hclose hafter hinner⟩
      · exact exists_parsesAs_of_cut hopen hname hclose hafter hinner
    · exact ⟨_, .trailingInput hopen hname hclose hafter⟩
  · exact ⟨_, .unclosedArguments hopen hname fun inner after hclose => hclosed ⟨inner, after, hclose⟩⟩

theorem exists_parsesAs (text : String) : ∃ outcome, ParsesAs text outcome := by
  by_cases hparen : '(' ∈ trim text.toList
  · obtain ⟨head, rest, hsplit, hfirst⟩ := List.eq_append_cons_of_mem hparen
    exact exists_parsesAs_of_opens ⟨hsplit, hfirst⟩
  · by_cases hname : trim text.toList = []
    · exact ⟨_, .empty hparen hname⟩
    · exact ⟨_, .name hparen hname⟩

/-- Reading a text gives what the grammar says, be it a predicate or an error. -/
theorem parse_eq_iff (text : String) (outcome : Except ParseError Predicate) :
    parse text = outcome ↔ ParsesAs text outcome := by
  refine ⟨fun h => ?_, ParsesAs.parse_eq⟩
  obtain ⟨found, hfound⟩ := exists_parsesAs text
  rwa [← h, hfound.parse_eq]

/-- The quoted parenthesis ends nothing, and what follows the list is reported before the piece that is blank. -/
example : parse "pay(\"a)\", ) now" = .error (.trailingInput "pay(\"a)\", ) now" "now") :=
  rfl

end Predicate

end TestScribe

import TestScribe.Proofs.CommandLine.Arguments

/-!
# Mistakes in the arguments

Arguments that are no sequence of flags have a first place where no flag can be read, and `Mistake` says what is wrong
there; this is the error, whatever flags come before and whatever comes after (`parse_eq_error_iff`). Flags can be
`Rearranged` with their values, as long as those of one kind stay in order: the request is the same (`parse_outcome`).
-/

namespace TestScribe

namespace Flag

/-- The arguments do not begin with a flag that can be read. -/
inductive Mistake : List String → UsageError → Prop
  | unknownArgument {arg : String} {args : List String}
      (harg : arg ∉ ["--model", "--options", "--output", "--language", "--separate", "--eager", "--verbose", "--help",
        "-h"]) : Mistake (arg :: args) (.unknownArgument arg)
  | missingValue {flag : String} (hflag : flag ∈ ["--model", "--options", "--output", "--language"]) :
      Mistake [flag] (.missingValue flag)
  | unknownLanguage {text : String} {args : List String} (htext : Language.parse text = none) :
      Mistake ("--language" :: text :: args) (.unknownLanguage text)

/-- The flag without its value. -/
def keyword : Flag → String
  | .model _ => "--model"
  | .options _ => "--options"
  | .output _ => "--output"
  | .language _ => "--language"
  | .separate => "--separate"
  | .eager => "--eager"
  | .verbose => "--verbose"
  | .help => "--help"

/-- Neighbours of different kinds change places, any number of times. -/
inductive Rearranged : List Flag → List Flag → Prop
  | nil : Rearranged [] []
  | cons (flag : Flag) {flags flags' : List Flag} (h : Rearranged flags flags') :
      Rearranged (flag :: flags) (flag :: flags')
  | swap {f g : Flag} (h : f.keyword ≠ g.keyword) (flags : List Flag) : Rearranged (f :: g :: flags) (g :: f :: flags)
  | trans {flags flags' flags'' : List Flag} (h : Rearranged flags flags') (h' : Rearranged flags' flags'') :
      Rearranged flags flags''

end Flag

namespace Request

variable {r : Request} {arg value : String} {args : List String} {flags flags' : List Flag} {e : UsageError}

/-! ### The first mistake -/

theorem takesValue_iff : takesValue arg = true ↔ arg ∈ ["--model", "--options", "--output", "--language"] := by
  simp [takesValue, or_assoc]

theorem parseFrom_of_mistake (h : Flag.Mistake args e) (r : Request) : r.parseFrom args = .error e := by
  cases h with
  | @unknownArgument arg args harg =>
    have htakes : takesValue arg = false := by
      rw [Bool.eq_false_iff, Ne, takesValue_iff]
      exact fun hmem => harg (by simp_all)
    have hswitch : r.withSwitch arg = .error (.unknownArgument arg) := by
      unfold withSwitch
      split <;> simp_all
    rw [parseFrom_of_not_takesValue htakes, hswitch]
  | missingValue hflag => rw [parseFrom, if_pos (takesValue_iff.mpr hflag)]
  | @unknownLanguage text args htext =>
    have hvalue : r.withValue "--language" text = .error (.unknownLanguage text) := by
      rw [withValue_language rfl, htext]
    rw [parseFrom_of_takesValue (takesValue_iff.mpr (by decide)), hvalue]

theorem mistake_of_withSwitch (harg : takesValue arg = false) (h : r.withSwitch arg = .error e) (args : List String) :
    Flag.Mistake (arg :: args) e := by
  have hnot : arg ∉ ["--model", "--options", "--output", "--language"] := fun hmem => by
    rw [takesValue_iff.mpr hmem] at harg
    cases harg
  unfold withSwitch at h
  split at h
  · cases h
  · cases h
  · cases h
  · cases h
  · cases h
  · cases h
    exact .unknownArgument (by simp_all)

theorem mistake_of_withValue (harg : takesValue arg = true) (h : r.withValue arg value = .error e) (args : List String) :
    Flag.Mistake (arg :: value :: args) e := by
  unfold withValue at h
  split at h
  · cases h
  · cases h
  · cases h
  · split at h
    · cases h
    · next htext =>
      cases h
      obtain rfl : arg = "--language" := by simp_all [takesValue]
      exact .unknownLanguage htext

theorem exists_mistake_of_parseFrom (h : r.parseFrom args = .error e) :
    ∃ front flags rest, args = front ++ rest ∧ Flag.Reads front flags ∧ Flag.Mistake rest e := by
  fun_induction parseFrom r args with
  | case1 r => cases h
  | case2 r arg harg =>
    cases h
    exact ⟨[], [], [arg], rfl, .nil, .missingValue (takesValue_iff.mp harg)⟩
  | case3 r arg harg => exact ⟨[], [], [arg], rfl, .nil, mistake_of_withSwitch (Bool.eq_false_iff.mpr harg) h []⟩
  | case4 r arg value args harg r' hvalue ih =>
    obtain ⟨flag, hflag⟩ := exists_spelt_of_withValue harg hvalue
    obtain ⟨front, flags, rest, rfl, hread, hmistake⟩ := ih h
    exact ⟨_, _, rest, rfl, .cons hflag hread, hmistake⟩
  | case5 r arg value args harg e' hvalue =>
    cases h
    exact ⟨[], [], _, rfl, .nil, mistake_of_withValue harg hvalue args⟩
  | case6 r arg value args harg r' hswitch ih =>
    obtain ⟨flag, hflag⟩ := exists_spelt_of_withSwitch hswitch
    obtain ⟨front, flags, rest, hargs, hread, hmistake⟩ := ih h
    exact ⟨_, _, rest, by rw [hargs]; rfl, .cons hflag hread, hmistake⟩
  | case7 r arg value args harg e' hswitch =>
    cases h
    exact ⟨[], [], _, rfl, .nil, mistake_of_withSwitch (Bool.eq_false_iff.mpr harg) hswitch _⟩

theorem parse_eq_error_iff : parse args = .error e ↔
    ∃ front flags rest, args = front ++ rest ∧ Flag.Reads front flags ∧ Flag.Mistake rest e := by
  constructor
  · exact exists_mistake_of_parseFrom
  · rintro ⟨front, flags, rest, rfl, hread, hmistake⟩
    rw [parse, parseFrom_append hread, parseFrom_of_mistake hmistake]

/-! ### Any arguments -/

/-- Flags of different kinds write different fields. -/
theorem take_comm {f g : Flag} (h : f.keyword ≠ g.keyword) (r : Request) : (r.take f).take g = (r.take g).take f := by
  cases f <;> cases g <;> first | rfl | exact absurd rfl h

theorem foldl_take_rearranged (h : Flag.Rearranged flags flags') (r : Request) :
    flags'.foldl take r = flags.foldl take r := by
  induction h generalizing r with
  | nil => rfl
  | cons flag _ ih => exact ih (r.take flag)
  | swap h flags => rw [List.foldl_cons, List.foldl_cons, List.foldl_cons, List.foldl_cons, take_comm h]
  | trans _ _ ih ih' => rw [ih', ih]

/-- Arguments make a request exactly when they are a sequence of flags, and then the request is what the flags say; in
what order flags of different kinds come does not count. All other arguments have the error of the first place where
they go wrong, also when help is asked for elsewhere. -/
theorem parse_outcome (args : List String) :
    (∀ r, parse args = .ok r ↔ ∃ flags, Flag.Reads args flags ∧ ofFlags flags = r) ∧
      (∀ e, parse args = .error e ↔
        ∃ front flags rest, args = front ++ rest ∧ Flag.Reads front flags ∧ Flag.Mistake rest e) ∧
      ∀ flags args' flags', Flag.Reads args flags → Flag.Reads args' flags' → Flag.Rearranged flags flags' →
        parse args' = parse args := by
  refine ⟨fun r => parse_eq_ok_iff, fun e => parse_eq_error_iff, fun flags args' flags' hread hread' hsame => ?_⟩
  rw [parse_of_reads hread, parse_of_reads hread', ← foldl_take, foldl_take_rearranged hsame, foldl_take]

/-- The value of `--model` looks like a flag and is none, and the last output counts; a language nobody knows is the
error, and not the argument after it. -/
theorem parse_outcome_flagLike :
    let args := ["--model", "--help", "--output", "a", "--separate", "--output", "b"]
    let flags : List Flag := [.model "--help", .output "a", .separate, .output "b"]
    let args' := ["--separate", "--model", "--help", "--output", "a", "--output", "b"]
    let flags' : List Flag := [.separate, .model "--help", .output "a", .output "b"]
    let request : Request := ⟨some "--help", none, "b", none, true, false, false, false⟩
    (parse args = .ok request ∧ Flag.Reads args flags ∧ ofFlags flags = request) ∧
      (Flag.Reads args' flags' ∧ Flag.Rearranged flags flags' ∧ parse args' = parse args) ∧
      Flag.Mistake ["--language", "latin", "now"] (.unknownLanguage "latin") ∧
      parse ["-h", "--language", "latin", "now"] = .error (.unknownLanguage "latin") := by
  intro args flags args' flags' request
  have hread : Flag.Reads args flags := .cons (.model _) (.cons (.output _) (.cons .separate (.cons (.output _) .nil)))
  have hread' : Flag.Reads args' flags' :=
    .cons .separate (.cons (.model _) (.cons (.output _) (.cons (.output _) .nil)))
  have hsame : Flag.Rearranged flags flags' :=
    .trans (.cons _ (.swap (by decide) _)) (.swap (by decide) _)
  have hmistake : Flag.Mistake ["--language", "latin", "now"] (.unknownLanguage "latin") :=
    .unknownLanguage (by decide +kernel)
  obtain ⟨hok, -, hrearranged⟩ := parse_outcome args
  exact ⟨⟨(hok request).mpr ⟨flags, hread, by decide⟩, hread, by decide⟩,
    ⟨hread', hsame, hrearranged flags args' flags' hread hread' hsame⟩, hmistake,
    ((parse_outcome ["-h", "--language", "latin", "now"]).2.1 _).mpr
      ⟨["-h"], [.help], _, rfl, .cons .shortHelp .nil, hmistake⟩⟩

end Request

end TestScribe

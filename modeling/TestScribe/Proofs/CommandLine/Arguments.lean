import Mathlib.Data.List.Induction
import TestScribe.CommandLine

/-!
# Arguments

Arguments are a sequence of flags, each with its value if it takes one (`Flag.Reads`); the argument after a flag
that takes a value is that value, also when it looks like a flag. A request is read from such a sequence and
from no other list of arguments, and what counts of a flag is its last value (`parse_eq_ok_iff`).
-/

namespace TestScribe

inductive Flag
  | model (path : Path)
  | options (path : Path)
  | output (path : Path)
  | language (l : Language)
  | separate
  | eager
  | verbose
  | help
deriving DecidableEq

namespace Flag

/-- `flag.Spelt spelling`: the arguments that say a flag and its value. -/
inductive Spelt : Flag → List String → Prop
  | model (path : Path) : Spelt (.model path) ["--model", path]
  | options (path : Path) : Spelt (.options path) ["--options", path]
  | output (path : Path) : Spelt (.output path) ["--output", path]
  | language {l : Language} {text : String} (h : Language.parse text = some l) :
    Spelt (.language l) ["--language", text]
  | separate : Spelt .separate ["--separate"]
  | eager : Spelt .eager ["--eager"]
  | verbose : Spelt .verbose ["--verbose"]
  | help : Spelt .help ["--help"]
  | shortHelp : Spelt .help ["-h"]

def model? : Flag → Option Path
  | .model path => some path
  | _ => none

def options? : Flag → Option Path
  | .options path => some path
  | _ => none

def output? : Flag → Option Path
  | .output path => some path
  | _ => none

def language? : Flag → Option Language
  | .language l => some l
  | _ => none

/-- The last of the values that the flags have. -/
def last? {α : Type} (value? : Flag → Option α) (flags : List Flag) : Option α :=
  (flags.filterMap value?).getLast?

theorem last?_concat {α : Type} (value? : Flag → Option α) (flags : List Flag) (flag : Flag) :
    last? value? (flags ++ [flag]) = (value? flag).or (last? value? flags) := by
  cases h : value? flag <;> simp [last?, List.filterMap_append, h]

/-- `Reads args flags`: the arguments are the spellings of these flags, in order. -/
inductive Reads : List String → List Flag → Prop
  | nil : Reads [] []
  | cons {flag : Flag} {spelling args : List String} {flags : List Flag} (hflag : flag.Spelt spelling)
      (hrest : Reads args flags) : Reads (spelling ++ args) (flag :: flags)

end Flag

namespace Request

variable {r r' : Request} {arg : String} {args : List String} {flags : List Flag}

/-- The request that flags make: the last value of each, and its default without any. -/
def ofFlags (flags : List Flag) : Request where
  model := Flag.last? Flag.model? flags
  options := Flag.last? Flag.options? flags
  output := (Flag.last? Flag.output? flags).getD "generated/TestSuite"
  language := Flag.last? Flag.language? flags
  separate := decide (Flag.separate ∈ flags)
  eager := decide (Flag.eager ∈ flags)
  verbose := decide (Flag.verbose ∈ flags)
  help := decide (Flag.help ∈ flags)

/-- A request after one more flag. -/
def take (r : Request) : Flag → Request
  | .model path => { r with model := some path }
  | .options path => { r with options := some path }
  | .output path => { r with output := path }
  | .language l => { r with language := some l }
  | .separate => { r with separate := true }
  | .eager => { r with eager := true }
  | .verbose => { r with verbose := true }
  | .help => { r with help := true }

theorem ofFlags_concat (flags : List Flag) (flag : Flag) :
    ofFlags (flags ++ [flag]) = (ofFlags flags).take flag := by
  cases flag <;>
    simp [ofFlags, take, Flag.last?_concat, Flag.model?, Flag.options?, Flag.output?, Flag.language?]

theorem foldl_take (flags : List Flag) : flags.foldl take empty = ofFlags flags := by
  induction flags using List.reverseRecOn with
  | nil => rfl
  | append_singleton flags flag ih => rw [List.foldl_append, ih, ofFlags_concat, List.foldl_cons, List.foldl_nil]

/-! ### Reading the first flag -/

theorem parseFrom_of_takesValue (harg : takesValue arg = true) (r : Request) (value : String)
    (args : List String) :
    r.parseFrom (arg :: value :: args) =
      match r.withValue arg value with
      | .ok r => r.parseFrom args
      | .error e => .error e := by
  cases hvalue : r.withValue arg value <;> rw [parseFrom, if_pos harg, hvalue]

theorem parseFrom_of_not_takesValue (harg : takesValue arg = false) (r : Request) (args : List String) :
    r.parseFrom (arg :: args) =
      match r.withSwitch arg with
      | .ok r => r.parseFrom args
      | .error e => .error e := by
  have harg := Bool.eq_false_iff.mp harg
  cases args with
  | nil =>
    cases hswitch : r.withSwitch arg with
    | ok r' =>
      rw [parseFrom, if_neg harg, hswitch]
      rfl
    | error e => rw [parseFrom, if_neg harg, hswitch]
  | cons value args => cases hswitch : r.withSwitch arg <;> rw [parseFrom, if_neg harg, hswitch]

theorem withValue_language (harg : arg = "--language") (r : Request) (text : String) :
    r.withValue arg text =
      match Language.parse text with
      | some l => .ok (r.take (.language l))
      | none => .error (.unknownLanguage text) := by
  unfold withValue
  split
  · simp at harg
  · simp at harg
  · simp at harg
  · cases Language.parse text <;> rfl

theorem parseFrom_spelt {flag : Flag} {spelling : List String} (h : flag.Spelt spelling) (r : Request)
    (args : List String) : r.parseFrom (spelling ++ args) = (r.take flag).parseFrom args := by
  cases h with
  | model path => exact parseFrom_of_takesValue rfl r path args
  | options path => exact parseFrom_of_takesValue rfl r path args
  | output path => exact parseFrom_of_takesValue rfl r path args
  | @language l text h =>
    exact (parseFrom_of_takesValue rfl r text args).trans (by rw [withValue_language rfl, h])
  | separate => exact parseFrom_of_not_takesValue rfl r args
  | eager => exact parseFrom_of_not_takesValue rfl r args
  | verbose => exact parseFrom_of_not_takesValue rfl r args
  | help => exact parseFrom_of_not_takesValue rfl r args
  | shortHelp => exact parseFrom_of_not_takesValue rfl r args

theorem exists_spelt_of_withSwitch (h : r.withSwitch arg = .ok r') : ∃ flag : Flag, flag.Spelt [arg] := by
  unfold withSwitch at h
  split at h
  · exact ⟨_, .separate⟩
  · exact ⟨_, .eager⟩
  · exact ⟨_, .verbose⟩
  · exact ⟨_, .help⟩
  · exact ⟨_, .shortHelp⟩
  · cases h

theorem exists_spelt_of_withValue {value : String} (harg : takesValue arg = true)
    (h : r.withValue arg value = .ok r') : ∃ flag : Flag, flag.Spelt [arg, value] := by
  unfold withValue at h
  split at h
  · exact ⟨_, .model value⟩
  · exact ⟨_, .options value⟩
  · exact ⟨_, .output value⟩
  · cases hl : Language.parse value with
    | none => simp [hl] at h
    | some l =>
      obtain rfl : arg = "--language" := by simp_all [takesValue]
      exact ⟨_, .language hl⟩

/-! ### Reading all arguments -/

/-- Flags that can be read are read whatever comes after them. -/
theorem parseFrom_append (h : Flag.Reads args flags) (r : Request) (rest : List String) :
    r.parseFrom (args ++ rest) = (flags.foldl take r).parseFrom rest := by
  induction h generalizing r with
  | nil => rfl
  | cons hflag _ ih => rw [List.append_assoc, parseFrom_spelt hflag, ih, List.foldl_cons]

theorem parseFrom_of_reads (h : Flag.Reads args flags) (r : Request) :
    r.parseFrom args = .ok (flags.foldl take r) := by
  rw [← List.append_nil args, parseFrom_append h, parseFrom]

theorem exists_reads_of_parseFrom (h : r.parseFrom args = .ok r') : ∃ flags, Flag.Reads args flags := by
  fun_induction parseFrom r args with
  | case1 r => exact ⟨[], .nil⟩
  | case2 r arg harg => cases h
  | case3 r arg harg =>
    obtain ⟨flag, hflag⟩ := exists_spelt_of_withSwitch h
    exact ⟨_, .cons hflag .nil⟩
  | case4 r arg value rest harg r₁ hvalue ih =>
    obtain ⟨flag, hflag⟩ := exists_spelt_of_withValue harg hvalue
    obtain ⟨flags, hrest⟩ := ih h
    exact ⟨_, .cons hflag hrest⟩
  | case5 r arg value rest harg e hvalue => cases h
  | case6 r arg value rest harg r₁ hswitch ih =>
    obtain ⟨flag, hflag⟩ := exists_spelt_of_withSwitch hswitch
    obtain ⟨flags, hrest⟩ := ih h
    exact ⟨_, .cons hflag hrest⟩
  | case7 r arg value rest harg e hswitch => cases h

theorem parse_of_reads (h : Flag.Reads args flags) : parse args = .ok (ofFlags flags) :=
  (parseFrom_of_reads h empty).trans (congrArg _ (foldl_take flags))

theorem parse_eq_ok_iff : parse args = .ok r ↔ ∃ flags, Flag.Reads args flags ∧ ofFlags flags = r := by
  constructor
  · intro h
    obtain ⟨flags, hreads⟩ := exists_reads_of_parseFrom h
    exact ⟨flags, hreads, Except.ok.inj ((parse_of_reads hreads).symm.trans h)⟩
  · rintro ⟨flags, hreads, rfl⟩
    exact parse_of_reads hreads

end Request

end TestScribe

import TestScribe.Proofs.CommandLine.Arguments
import TestScribe.Storage.Disk

/-!
# Endings of the program

What the program does with its arguments on a disk (`ending_commandLine`): it complains, prints its usage,
refuses what it cannot load (`Request.Refused`), or saves a suite under the options that the flags leave
(`Request.Loads`). Only saving touches the disk.
-/

namespace TestScribe

/-- Options under flags: a language that is given replaces theirs, and two of their switches can be turned on. -/
def Options.under (o : Options) (flags : List Flag) : Options :=
  { o with
    language := (Flag.last? Flag.language? flags).getD o.language
    separateTestFiles := o.separateTestFiles || decide (Flag.separate ∈ flags)
    eager := o.eager || decide (Flag.eager ∈ flags) }

variable {room : Room}

theorem readText_bind {α : Type} (path : Path) (next : Option String → StateM (Disk room) α) (d : Disk room) :
    (Storage.readText path >>= next).run d = (next (d.readText path)).run d :=
  rfl

namespace Request

/-- The options that flags start from: those of the options file if one is given, or else those that come with
the bundle, or else the defaults. -/
inductive StartsFrom (flags : List Flag) (d : Disk room) (bundled : Option Options) : Options → Prop
  | file {path : Path} {text : String} {o : Options} (hpath : Flag.last? Flag.options? flags = some path)
    (htext : d.readText path = some text) (ho : (Json.parseDocument text).bind Options.decode = some o) :
    StartsFrom flags d bundled o
  | bundle {o : Options} (hpath : Flag.last? Flag.options? flags = none) (ho : bundled = some o) :
    StartsFrom flags d bundled o
  | default (hpath : Flag.last? Flag.options? flags = none) (ho : bundled = none) :
    StartsFrom flags d bundled .default

/-- The bundle that the flags name can be read off the disk, decoded and built, and so can the options. -/
structure Loads (flags : List Flag) (d : Disk room) (parts : Bundle.Parts) (o : Options) : Prop where
  bundle : ∃ path text b, Flag.last? Flag.model? flags = some path ∧ d.readText path = some text ∧
    Bundle.ofText text = .ok b ∧ b.build = .ok parts
  options : StartsFrom flags d parts.options o

/-- What keeps a request from being carried out. -/
inductive Refused (flags : List Flag) (d : Disk room) : Prop
  | noModel (hpath : Flag.last? Flag.model? flags = none)
  | unreadBundle {path : Path} (hpath : Flag.last? Flag.model? flags = some path)
    (htext : d.readText path = none)
  | undecodedBundle {path : Path} {text : String} {e : BundleError}
    (hpath : Flag.last? Flag.model? flags = some path) (htext : d.readText path = some text)
    (hbundle : Bundle.ofText text = .error e)
  | unbuiltBundle {path : Path} {text : String} {b : Bundle} {e : BundleError}
    (hpath : Flag.last? Flag.model? flags = some path) (htext : d.readText path = some text)
    (hbundle : Bundle.ofText text = .ok b) (hbuild : b.build = .error e)
  | unreadOptions {path : Path} (hpath : Flag.last? Flag.options? flags = some path)
    (htext : d.readText path = none)
  | undecodedOptions {path : Path} {text : String} (hpath : Flag.last? Flag.options? flags = some path)
    (htext : d.readText path = some text) (ho : (Json.parseDocument text).bind Options.decode = none)

variable {flags : List Flag} {d : Disk room} {parts : Bundle.Parts} {o : Options} {bundled : Option Options}

theorem Loads.not_refused (h : Loads flags d parts o) : ¬ Refused flags d := by
  obtain ⟨⟨path, text, b, hpath, htext, hbundle, hbuild⟩, hoptions⟩ := h
  intro hrefused
  cases hrefused with
  | noModel hpath' => simp [hpath] at hpath'
  | unreadBundle hpath' htext' => simp_all
  | undecodedBundle hpath' htext' hbundle' => simp_all
  | unbuiltBundle hpath' htext' hbundle' hbuild' => simp_all
  | unreadOptions hpath' htext' => cases hoptions <;> simp_all
  | undecodedOptions hpath' htext' ho' =>
    cases hoptions with
    | file hpath htext ho =>
      obtain rfl := Option.some.inj (hpath'.symm.trans hpath)
      obtain rfl := Option.some.inj (htext'.symm.trans htext)
      cases ho'.symm.trans ho
    | bundle hpath => cases hpath'.symm.trans hpath
    | default hpath => cases hpath'.symm.trans hpath

/-- Reading the options gives those that the flags start from, or fails where the flags are refused. -/
theorem readOptions_ofFlags (flags : List Flag) (bundled : Option Options) (d : Disk room) :
    (∃ o, ((ofFlags flags).readOptions bundled : StateM (Disk room) _).run d = (.ok o, d) ∧
      StartsFrom flags d bundled o) ∨
    ∃ e, ((ofFlags flags).readOptions bundled : StateM (Disk room) _).run d = (.error e, d) ∧ Refused flags d := by
  unfold readOptions
  cases hpath : (ofFlags flags).options with
  | none =>
    left
    cases bundled with
    | some o => exact ⟨o, rfl, .bundle hpath rfl⟩
    | none => exact ⟨.default, rfl, .default hpath rfl⟩
  | some path =>
    dsimp only
    rw [readText_bind]
    cases htext : d.readText path with
    | none => exact .inr ⟨_, rfl, .unreadOptions hpath htext⟩
    | some text =>
      dsimp only
      cases ho : (Json.parseDocument text).bind Options.decode with
      | none => exact .inr ⟨_, rfl, .undecodedOptions hpath htext ho⟩
      | some o => exact .inl ⟨o, rfl, .file hpath htext ho⟩

/-- Carrying a request out saves what the flags load, or fails where the flags are refused. -/
theorem carryOut_ofFlags (flags : List Flag) (d : Disk room) :
    (∃ parts o, Loads flags d parts o ∧
      ((ofFlags flags).carryOut : StateM (Disk room) _).run d =
        let generator : Generator := ⟨parts.model, o.under flags⟩
        let saved := (generator.save parts.tree .quiet (ofFlags flags).output : StateM (Disk room) _).run d
        (saved.1.result.mapError .run, saved.2)) ∨
    ∃ e, ((ofFlags flags).carryOut : StateM (Disk room) _).run d = (.error e, d) ∧ Refused flags d := by
  unfold carryOut
  cases hpath : (ofFlags flags).model with
  | none => exact .inr ⟨_, rfl, .noModel hpath⟩
  | some path =>
    dsimp only
    rw [readText_bind]
    cases htext : d.readText path with
    | none => exact .inr ⟨_, rfl, .unreadBundle hpath htext⟩
    | some text =>
      dsimp only
      cases hbundle : Bundle.ofText text with
      | error e => exact .inr ⟨_, rfl, .undecodedBundle hpath htext hbundle⟩
      | ok b =>
        rw [Except.bind]
        cases hbuild : b.build with
        | error e => exact .inr ⟨_, rfl, .unbuiltBundle hpath htext hbundle hbuild⟩
        | ok parts =>
          dsimp only
          rw [StateT.run_bind]
          obtain ⟨o, hrun, ho⟩ | ⟨e, hrun, hrefused⟩ := readOptions_ofFlags flags parts.options d
          · rw [hrun]
            exact .inl ⟨parts, o, ⟨⟨path, text, b, hpath, htext, hbundle, hbuild⟩, ho⟩, rfl⟩
          · rw [hrun]
            exact .inr ⟨e, rfl, hrefused⟩

end Request

/-! ### The ways to end -/

variable {args : List String} {flags : List Flag}

theorem commandLine_of_unread (h : ¬ ∃ flags, Flag.Reads args flags) (d : Disk room) :
    ∃ e : UsageError, (commandLine args : StateM (Disk room) _).run d =
      (⟨2, "", e.message ++ "\n\n" ++ usage ++ "\n"⟩, d) := by
  cases hparse : Request.parse args with
  | ok r =>
    obtain ⟨flags, hreads, -⟩ := Request.parse_eq_ok_iff.mp hparse
    exact absurd ⟨flags, hreads⟩ h
  | error e =>
    refine ⟨e, ?_⟩
    rw [commandLine, hparse]
    rfl

theorem commandLine_of_help (h : Flag.Reads args flags) (hhelp : .help ∈ flags) (d : Disk room) :
    (commandLine args : StateM (Disk room) _).run d = (⟨0, usage ++ "\n", ""⟩, d) := by
  have hhelp : (Request.ofFlags flags).help = true := decide_eq_true hhelp
  rw [commandLine, Request.parse_of_reads h]
  dsimp only
  rw [if_pos hhelp]
  rfl

/-- How the program ends when a request was carried out with this result. -/
def Ending.ofResult : Except RequestError (List Path) → Ending
  | .error e => ⟨1, "", e.message⟩
  | .ok paths => ⟨0, String.join (paths.map fun p => p ++ "\n"), ""⟩

theorem commandLine_of_carryOut {d d' : Disk room} {result : Except RequestError (List Path)}
    (h : Flag.Reads args flags) (hhelp : .help ∉ flags)
    (hcarried : ((Request.ofFlags flags).carryOut : StateM (Disk room) _).run d = (result, d')) :
    (commandLine args : StateM (Disk room) _).run d = (.ofResult result, d') := by
  have hhelp : ¬ (Request.ofFlags flags).help = true := fun h => hhelp (of_decide_eq_true h)
  rw [commandLine, Request.parse_of_reads h]
  dsimp only
  rw [if_neg hhelp, StateT.run_bind, hcarried]
  cases result <;> rfl

/-- Arguments that cannot be read end the program before it looks at the disk, and so does a flag that asks for
help, wherever it stands. Any other request is refused without a trace, or it saves the suite of the bundle under
the options that the flags leave and prints the paths that saving gives. -/
theorem ending_commandLine (args : List String) (d : Disk room) :
    let ending := ((commandLine args : StateM (Disk room) Ending).run d).1
    let d' := ((commandLine args : StateM (Disk room) Ending).run d).2
    ((¬ ∃ flags, Flag.Reads args flags) → ending.exitCode = 2 ∧ ending.output = "" ∧ d' = d) ∧
      ∀ flags, Flag.Reads args flags →
        (.help ∈ flags → ending.exitCode = 0 ∧ ending.output = usage ++ "\n" ∧ d' = d) ∧
        (.help ∉ flags → Request.Refused flags d → ending.exitCode = 1 ∧ ending.output = "" ∧ d' = d) ∧
        (.help ∉ flags → ¬ Request.Refused flags d →
          ∃ parts o, Request.Loads flags d parts o ∧
            let generator : Generator := ⟨parts.model, o.under flags⟩
            let destination := (Flag.last? Flag.output? flags).getD "generated/TestSuite"
            let saved := (generator.save parts.tree .quiet destination : StateM (Disk room) _).run d
            d' = saved.2 ∧
              match saved.1.result with
              | .ok paths => ending.exitCode = 0 ∧ ending.output = String.join (paths.map fun p => p ++ "\n")
              | .error _ => ending.exitCode = 1 ∧ ending.output = "") := by
  refine ⟨fun hunread => ?_, fun flags hreads =>
    ⟨fun hhelp => ?_, fun hhelp hrefused => ?_, fun hhelp hloaded => ?_⟩⟩
  · obtain ⟨e, hrun⟩ := commandLine_of_unread hunread d
    rw [hrun]
    exact ⟨rfl, rfl, rfl⟩
  · rw [commandLine_of_help hreads hhelp]
    exact ⟨rfl, rfl, rfl⟩
  · obtain ⟨parts, o, hloads, -⟩ | ⟨e, hcarried, -⟩ := Request.carryOut_ofFlags flags d
    · exact absurd hrefused hloads.not_refused
    · rw [commandLine_of_carryOut hreads hhelp hcarried]
      exact ⟨rfl, rfl, rfl⟩
  · obtain ⟨parts, o, hloads, hcarried⟩ | ⟨e, -, hrefused⟩ := Request.carryOut_ofFlags flags d
    · refine ⟨parts, o, hloads, ?_⟩
      intro generator destination saved
      have hrun : (commandLine args : StateM (Disk room) _).run d =
          (.ofResult (saved.1.result.mapError .run), saved.2) :=
        commandLine_of_carryOut hreads hhelp hcarried
      rw [hrun]
      refine ⟨rfl, ?_⟩
      cases saved.1.result <;> exact ⟨rfl, rfl⟩
    · exact absurd hrefused hloaded

/-- The language that is given replaces the bundle's, and of two destinations the last one counts; a flag without
its value is not read, and a model that is not on the disk is refused. -/
theorem ending_commandLine_overridden :
    let d : Disk :=
      ⟨"/home", [("/home", .directory), ("/home/b.json", .file "\x7b\"options\":\x7b\"language\":\"c\"\x7d\x7d")]⟩
    let args := ["--output", "a", "--model", "b.json", "--language", "python", "--eager", "--output", "out/T"]
    let flags : List Flag := [.output "a", .model "b.json", .language .python, .eager, .output "out/T"]
    ((commandLine ["--model"] : StateM Disk _).run d).1.exitCode = 2 ∧
      ((commandLine ["--model", "c.json", "-h"] : StateM Disk _).run d).1.output = usage ++ "\n" ∧
      ((commandLine ["--model", "c.json"] : StateM Disk _).run d).1.exitCode = 1 ∧
      Flag.Reads args flags ∧ ((commandLine args : StateM Disk _).run d).1 = ⟨0, "out/T.py\n", ""⟩ ∧
      ∃ parts o, Request.Loads flags d parts o ∧
        (o.under flags).language = .python ∧ (o.under flags).eager = true ∧
        ((commandLine args : StateM Disk _).run d).2 =
          ((Generator.save ⟨parts.model, o.under flags⟩ parts.tree .quiet "out/T" : StateM Disk _).run d).2 := by
  intro d args flags
  have hunread : ¬ ∃ flags, Flag.Reads ["--model"] flags := fun ⟨flags, hreads⟩ => by
    have := Request.parse_of_reads hreads
    simp [Request.parse, Request.parseFrom, Request.takesValue] at this
  have hhelp : Flag.Reads ["--model", "c.json", "-h"] [.model "c.json", .help] :=
    .cons (.model "c.json") (.cons .shortHelp .nil)
  have hlost : Flag.Reads ["--model", "c.json"] [.model "c.json"] := .cons (.model "c.json") .nil
  have hpython : Language.parse "python" = some .python := by decide +kernel
  have hreads : Flag.Reads args flags :=
    .cons (.output "a") (.cons (.model "b.json") (.cons (.language hpython)
      (.cons .eager (.cons (.output "out/T") .nil))))
  have hending : ((commandLine args : StateM Disk _).run d).1 = ⟨0, "out/T.py\n", ""⟩ := by decide +kernel
  have hread := (ending_commandLine args d).2 flags hreads
  have hloaded : ¬ Request.Refused flags d := fun hrefused => by
    have hexit : ((commandLine args : StateM Disk _).run d).1.exitCode = 1 :=
      (hread.2.1 (by decide) hrefused).1
    rw [hending] at hexit
    cases hexit
  obtain ⟨parts, o, hloads, hsaved, -⟩ := hread.2.2 (by decide) hloaded
  have hexit := ((ending_commandLine ["--model"] d).1 hunread).1
  have hshown := (((ending_commandLine ["--model", "c.json", "-h"] d).2 _ hhelp).1 (by decide)).2.1
  have hrefused : Request.Refused [.model "c.json"] d := .unreadBundle rfl (by decide +kernel)
  have hfailed := (((ending_commandLine ["--model", "c.json"] d).2 _ hlost).2.1 (by decide) hrefused).1
  exact ⟨hexit, hshown, hfailed, hreads, hending, parts, o, hloads, rfl, Bool.or_true _, hsaved⟩

/-- What is given to a flag as its value does not ask for help. -/
theorem help_as_value :
    let d : Disk := ⟨"/home", [("/home", .directory)]⟩
    let args := ["--model", "--help"]
    "--help" ∈ args ∧ (∃ flags, Flag.Reads args flags) ∧
      ((commandLine args : StateM Disk _).run d).1 = ⟨1, "", "cannot read --help"⟩ :=
  ⟨by decide, ⟨_, .cons (.model "--help") .nil⟩, by decide +kernel⟩

end TestScribe

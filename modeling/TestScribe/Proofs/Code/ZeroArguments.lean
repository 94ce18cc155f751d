import TestScribe.Proofs.Code.Sources
import TestScribe.Proofs.Model.Resolution
import TestScribe.Proofs.Text.Trimming

/-!
# Actions without arguments

An event without arguments has two actions. Where there are no bindings to derive arguments from, its operator is
trimmed and called if the language needs a call; where there are, the look-up for the empty tuple gives the
operator as it stands, or else a call of the event. `inputAction_zeroArguments` says when the two are the same,
and which of them end a statement.
-/

namespace TestScribe

/-! ### Ends of statements -/

theorem endsStatement_congr {a b : String} (h : a.toList.getLast? = b.toList.getLast?) :
    endsStatement a = endsStatement b := by
  unfold endsStatement endsWithChar
  rw [h]

theorem endsStatement_append (a : String) {b : String} (hb : b ≠ "") :
    endsStatement (a ++ b) = endsStatement b := by
  have hb : b.toList ≠ [] := fun h => hb (String.toList_inj.mp h)
  refine endsStatement_congr ?_
  rw [String.toList_append, List.getLast?_append, List.getLast?_eq_some_getLast hb, Option.some_or]

theorem endsStatement_objectReference (l : Language) (systemName : String) :
    endsStatement (l.objectReference systemName) = false := by
  cases l <;> exact (endsStatement_append _ (by decide)).trans (by decide)

theorem Language.exists_mark_objectReference (l : Language) (systemName : String) :
    ∃ c, (c = '.' ∨ c = '>') ∧ c ∈ (l.objectReference systemName).toList := by
  cases l
  case cpp => exact ⟨'>', .inr rfl, by simp [objectReference]⟩
  all_goals exact ⟨'.', .inl rfl, by simp [objectReference]⟩

namespace StepWriter

variable {w : StepWriter} {s : Step} {code code' event : String} {e : Mapping}

/-! ### Qualified calls -/

/-- An action as it is written: qualified by the system object or not. -/
def referred (w : StepWriter) (code : String) : String :=
  if w.dialect = .objectOriented ∧ w.options.generateReferenceForMethodCall then w.qualify code else code

theorem endsStatement_qualify (w : StepWriter) (code : String) :
    endsStatement (w.qualify code) = endsStatement code := by
  unfold qualify
  dsimp only
  split
  · rfl
  · by_cases hcode : code = ""
    · subst hcode
      rw [String.append_empty, endsStatement_objectReference]
      rfl
    · exact endsStatement_append _ hcode

theorem not_isBlank_of_mark {c : Char} (hc : c = '.' ∨ c = '>') :
    isBlank c = false ∧ c ≠ '(' ∧ c ≠ ')' := by
  rcases hc with rfl | rfl <;> decide

/-- Of two codes with the same marks, not one alone can start with the reference. -/
theorem eq_of_qualify_eq (hmarks : ∀ c, c = '.' ∨ c = '>' → code.toList.count c = code'.toList.count c)
    (h : w.qualify code = w.qualify code') : code = code' := by
  obtain ⟨c, hc, hmem⟩ := w.language.exists_mark_objectReference w.model.systemName
  have hpositive := List.count_pos_iff.mpr hmem
  have hcount := hmarks c hc
  unfold qualify at h
  dsimp only at h
  split at h <;> split at h
  · exact h
  · rw [h, String.toList_append, List.count_append] at hcount
    omega
  · rw [← h, String.toList_append, List.count_append] at hcount
    omega
  · exact String.append_right_inj _ |>.mp h

theorem endsStatement_referred (w : StepWriter) (code : String) :
    endsStatement (w.referred code) = endsStatement code := by
  unfold referred
  split
  · exact w.endsStatement_qualify code
  · rfl

theorem eq_of_referred_eq (hmarks : ∀ c, c = '.' ∨ c = '>' → code.toList.count c = code'.toList.count c)
    (h : w.referred code = w.referred code') : code = code' := by
  unfold referred at h
  split at h
  · exact eq_of_qualify_eq hmarks h
  · exact h

/-! ### Calls -/

/-- An action that is called where the language needs it. -/
def called (w : StepWriter) (action : String) : String :=
  if w.language.isObjectOriented && !endsStatement action then action ++ "()" else action

theorem called_of_needed (hlanguage : w.language.isObjectOriented = true) (hcode : endsStatement code = false) :
    w.called code = code ++ "()" := by
  rw [called, hlanguage, hcode]
  rfl

theorem called_of_not_needed (h : w.language.isObjectOriented = true → endsStatement code = true) :
    w.called code = code := by
  rw [called, if_neg]
  intro hneeded
  rw [Bool.and_eq_true, Bool.not_eq_true'] at hneeded
  rw [h hneeded.1] at hneeded
  exact Bool.false_ne_true hneeded.2.symm

theorem endsStatement_called (hlanguage : w.language.isObjectOriented = true) (code : String) :
    endsStatement (w.called code) = true := by
  cases hcode : endsStatement code with
  | false =>
    rw [called_of_needed hlanguage hcode, endsStatement_append _ (by decide)]
    decide
  | true => rw [called_of_not_needed fun _ => hcode, hcode]

theorem count_append_parentheses {c : Char} (hc : c ≠ '(' ∧ c ≠ ')') (code : String) :
    (code ++ "()").toList.count c = code.toList.count c := by
  rw [String.toList_append, List.count_append, Nat.add_eq_left]
  exact List.count_eq_zero.mpr (by simpa [not_or] using hc)

theorem count_called {c : Char} (hc : c ≠ '(' ∧ c ≠ ')') (w : StepWriter) (code : String) :
    (w.called code).toList.count c = code.toList.count c := by
  unfold called
  split
  · exact count_append_parentheses hc code
  · rfl

theorem called_eq_self_iff :
    w.called code = code ↔ (w.language.isObjectOriented = true → endsStatement code = true) := by
  refine ⟨fun h hlanguage => ?_, called_of_not_needed⟩
  rw [← h]
  exact endsStatement_called hlanguage code

/-- A trimmed operator that is called is the operator itself only if trimming took nothing from it. -/
theorem called_trimmed_eq_iff :
    w.called (trimmed code) = code ↔
      trimmed code = code ∧ (w.language.isObjectOriented = true → endsStatement code = true) := by
  constructor
  · intro h
    have htrimmed : trimmed code = code := by
      unfold called at h
      split at h
      · -- trimming takes no parenthesis away, so the call has one more than the operator
        have hcount := congrArg (fun s => s.toList.count '(') h
        simp only [String.toList_append, List.count_append, toList_trimmed,
          Text.count_trim (show isBlank '(' = false by decide)] at hcount
        exact absurd (Nat.add_eq_left.mp hcount) (by decide)
      · exact h
    rw [htrimmed] at h
    exact ⟨htrimmed, called_eq_self_iff.mp h⟩
  · rintro ⟨htrimmed, hends⟩
    rw [htrimmed, called_eq_self_iff.mpr hends]

theorem called_eq_append_iff :
    w.called code = code ++ "()" ↔ w.language.isObjectOriented = true ∧ endsStatement code = false := by
  constructor
  · intro h
    unfold called at h
    split at h
    · next hneeded => rwa [Bool.and_eq_true, Bool.not_eq_true'] at hneeded
    · have hlength := congrArg (fun s => s.toList.length) h
      simp at hlength
  · rintro ⟨hlanguage, hcode⟩
    exact called_of_needed hlanguage hcode

/-! ### The two actions -/

theorem actionWithoutParameters_of_isFirst
    (he : IsFirst (Mapping.Names []) (w.model.mappingsOf .action event) e) :
    w.actionWithoutParameters event = w.called (trimmed e.operator) := by
  unfold actionWithoutParameters
  cases hexact : w.model.exactMapping .action event [] with
  | none => exact absurd he.holds (Model.not_names_of_exactMapping hexact e he.mem)
  | some e' =>
    obtain rfl := he.unique (Model.isFirst_of_exactMapping hexact)
    rfl

theorem actionWithoutParameters_of_not_names
    (hnone : ∀ e ∈ w.model.mappingsOf .action event, ¬ e.Names []) :
    w.actionWithoutParameters event = w.called event := by
  unfold actionWithoutParameters
  cases hexact : w.model.exactMapping .action event [] with
  | none => rfl
  | some e =>
    have he := Model.isFirst_of_exactMapping hexact
    exact absurd he.holds (hnone e he.mem)

theorem code_resolve_nil_of_isFirst
    (he : IsFirst (Mapping.Names []) (w.model.mappingsOf .action event) e) :
    (w.model.resolve .action event []).code = e.operator :=
  congrArg Resolution.code ((w.model.resolves_resolve .action event []).unique (.exact he))

theorem code_resolve_nil_of_not_names
    (hnone : ∀ e ∈ w.model.mappingsOf .action event, ¬ e.Names []) :
    (w.model.resolve .action event []).code = event ++ "()" := by
  have hresolves := w.model.resolves_resolve .action event []
  rw [hresolves.unique (.synthesized hnone fun e _ hfits => hfits.ne_nil rfl)]
  show event ++ "(" ++ "" ++ ")" = event ++ "()"
  rw [String.append_empty, String.append_assoc]
  rfl

theorem source_of_unbound (hentered : ¬ w.Entered s) (hdeclares : ¬ w.model.Declares s.event)
    (h : w.options.deriveParametersFromTrace = false ∨ s.Unbound) : w.source s = .nothing := by
  rw [source_of_not_declares hentered hdeclares]
  rcases h with hderive | hbindings
  · rw [hderive]
    rfl
  · rw [firing_of_unbound hbindings, ite_self]

theorem source_of_bound (hentered : ¬ w.Entered s) (hdeclares : ¬ w.model.Declares s.event)
    (hderive : w.options.deriveParametersFromTrace = true) {b : Bindings} (hb : b ≠ ∅)
    (hbindings : s.bindings = some b) : w.source s = .fired (w.actualParameters s b) := by
  rw [source_of_not_declares hentered hdeclares, hderive, firing, hbindings]
  dsimp only
  rw [Dict.isEmpty_eq_false_of_ne hb]
  rfl

theorem inputAction_of_unbound (hentered : ¬ w.Entered s) (hdeclares : ¬ w.model.Declares s.event)
    (h : w.options.deriveParametersFromTrace = false ∨ s.Unbound) :
    w.inputAction s = w.referred (w.actionWithoutParameters s.event) := by
  show w.referred (w.bareAction s) = _
  rw [bareAction_eq, source_of_unbound hentered hdeclares h]
  rfl

theorem inputAction_of_bound (hentered : ¬ w.Entered s) (hdeclares : ¬ w.model.Declares s.event)
    (hformal : s.transition.formalParameters = []) (hderive : w.options.deriveParametersFromTrace = true)
    {b : Bindings} (hb : b ≠ ∅) (hbindings : s.bindings = some b) :
    w.inputAction s = w.referred (w.model.resolve .action s.event []).code := by
  show w.referred (w.bareAction s) = _
  rw [bareAction_eq, source_of_bound hentered hdeclares hderive hb hbindings, actualParameters, hformal]
  rfl

/-- Unless there are bindings to derive parameters from, an event without arguments has one action, and in an
object-oriented language that action ends a statement. With bindings the action is that of the look-up for the
empty tuple. It is the same exactly if the operator is a call already as it stands, or if the call that is made up
is one that the language needs; it fails to end a statement only where the operator itself does. -/
theorem inputAction_zeroArguments (w : StepWriter) (s : Step) (hentered : ¬ w.Entered s)
    (hdeclares : ¬ w.model.Declares s.event) (hformal : s.transition.formalParameters = []) :
    let action (derive : Bool) (bindings : Option Bindings) : String :=
      StepWriter.inputAction { w with options := { w.options with deriveParametersFromTrace := derive } }
        { s with bindings }
    let plain := action false none
    let mappings := w.model.mappingsOf .action s.event
    (∀ derive bindings, derive = false ∨ Step.Unbound { s with bindings } → action derive bindings = plain) ∧
      (w.language.isObjectOriented = true → endsStatement plain = true) ∧
      ∀ b : Bindings, b ≠ ∅ →
        (∀ e, IsFirst (Mapping.Names []) mappings e →
          action true (some b) = w.referred e.operator ∧
          endsStatement (action true (some b)) = endsStatement e.operator ∧
          (action true (some b) = plain ↔ trimmed e.operator = e.operator ∧
            (w.language.isObjectOriented = true → endsStatement e.operator = true))) ∧
        ((∀ e ∈ mappings, ¬ e.Names []) →
          action true (some b) = w.referred (s.event ++ "()") ∧
          endsStatement (action true (some b)) = true ∧
          (action true (some b) = plain ↔
            w.language.isObjectOriented = true ∧ endsStatement s.event = false)) := by
  intro action plain mappings
  have hplain : plain = w.referred (w.actionWithoutParameters s.event) :=
    inputAction_of_unbound (w := { w with options := { w.options with deriveParametersFromTrace := false } })
      (s := { s with bindings := none }) hentered hdeclares (.inl rfl)
  have hfired (b : Bindings) (hb : b ≠ ∅) :
      action true (some b) = w.referred (w.model.resolve .action s.event []).code :=
    inputAction_of_bound (w := { w with options := { w.options with deriveParametersFromTrace := true } })
      (s := { s with bindings := some b }) hentered hdeclares hformal rfl hb rfl
  refine ⟨fun derive bindings hunbound => ?_, fun hlanguage => ?_, fun b hb =>
    ⟨fun e he => ?_, fun hnone => ?_⟩⟩
  · exact (inputAction_of_unbound
      (w := { w with options := { w.options with deriveParametersFromTrace := derive } })
      (s := { s with bindings }) hentered hdeclares hunbound).trans hplain.symm
  · rw [hplain, endsStatement_referred]
    exact endsStatement_called hlanguage _
  · rw [hfired b hb, code_resolve_nil_of_isFirst he, hplain, actionWithoutParameters_of_isFirst he]
    refine ⟨rfl, w.endsStatement_referred e.operator, ?_⟩
    rw [← called_trimmed_eq_iff]
    refine ⟨fun h => (eq_of_referred_eq (fun c hc => ?_) h).symm, fun h => by rw [h]⟩
    obtain ⟨hblank, hparentheses⟩ := not_isBlank_of_mark hc
    rw [count_called hparentheses, toList_trimmed, Text.count_trim hblank]
  · rw [hfired b hb, code_resolve_nil_of_not_names hnone, hplain, actionWithoutParameters_of_not_names hnone]
    refine ⟨rfl, ?_, ?_⟩
    · rw [endsStatement_referred, endsStatement_append _ (by decide)]
      decide
    · rw [← called_eq_append_iff]
      refine ⟨fun h => (eq_of_referred_eq (fun c hc => ?_) h).symm, fun h => by rw [h]⟩
      have hparentheses := (not_isBlank_of_mark hc).2
      rw [count_called hparentheses, count_append_parentheses hparentheses]

/-- Without a mapping a call in Java is the same for a step with bindings as for one without. -/
theorem inputAction_zeroArguments_login :
    ∃ m : Model, Model.ofDeclarations "Bank" [.mapping .action "logout" "signOut"] = .ok m ∧
      let w : StepWriter := ⟨m, .default, .objectOriented, .forLanguage .java⟩
      let login : Step := Step.firing { Transition.named "login" with
        parameters := some [], precondition := some [⟨"open", [.var "A"]⟩] }
      (¬ w.Entered login ∧ ¬ w.model.Declares login.event ∧ login.transition.formalParameters = []) ∧
        w.inputAction login = "Bank.login()" ∧
        ∀ b : Bindings, b ≠ ∅ → w.inputAction { login with bindings := some b } = "Bank.login()" := by
  have hm : Model.ofDeclarations "Bank" [.mapping .action "logout" "signOut"] = .ok _ := rfl
  refine ⟨_, hm, ?_⟩
  intro w login
  have hentered : ¬ w.Entered login := fun h => h.2 rfl
  have hdeclares : ¬ w.model.Declares login.event := fun ⟨_, _, h⟩ => nomatch h
  have hlogin : w.inputAction login = "Bank.login()" := by decide +kernel
  refine ⟨⟨hentered, hdeclares, rfl⟩, hlogin, fun b hb => ?_⟩
  obtain ⟨hunbound, -, hbound⟩ := inputAction_zeroArguments w login hentered hdeclares rfl
  obtain ⟨-, -, hsame⟩ := (hbound b hb).2 (fun e he => nomatch he)
  exact (hsame.mpr ⟨rfl, by decide +kernel⟩).trans ((hunbound true none (.inr (.inl rfl))).symm.trans hlogin)

/-- An operator that is not yet a call is called only without bindings. -/
theorem inputAction_leaves_operator :
    ∃ m : Model, Model.ofDeclarations "Bank" [.mapping .action "logout" "signOut"] = .ok m ∧
      let w : StepWriter := ⟨m, .default, .objectOriented, .forLanguage .java⟩
      let logout : Step := Step.firing { Transition.named "logout" with
        parameters := some [], precondition := some [⟨"open", [.var "A"]⟩] }
      (¬ w.Entered logout ∧ ¬ w.model.Declares logout.event ∧ logout.transition.formalParameters = []) ∧
        w.inputAction logout = "Bank.signOut()" ∧
        w.inputAction { logout with bindings := some (Dict.ofList [("A", "acc1")]) } = "Bank.signOut" ∧
        w.language.isObjectOriented = true ∧ endsStatement "Bank.signOut" = false := by
  refine ⟨_, rfl, ⟨fun h => h.2 rfl, ?_, rfl⟩, by decide +kernel, by decide +kernel, rfl, by decide⟩
  rintro ⟨_, _, h⟩
  cases h

end StepWriter

end TestScribe

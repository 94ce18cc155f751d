import TestScribe.Predicate.Parser

/-!
# Scanning an argument list

Both scanners of an argument list carry a `Nesting` from character to character. `Nesting.Avoids` says
that a scan does not meet certain characters outside of quotes and parentheses; `cutAtClose` and `pieces`
are determined by it. `Clean` texts are what a scan leaves between commas, and `clean_iff` says the same
by counting: quotes are paired, parentheses outside of quotes balance (`Text.Balanced`), and every comma
outside of quotes is in parentheses (`Text.NoOuterComma`).
-/

namespace TestScribe

namespace Text

/-- What stands outside of double quotes; `quoted` tells whether the text starts inside of them. -/
def bare (quoted : Bool) : List Char → List Char
  | [] => []
  | c :: cs =>
    if c = '"' then bare (!quoted) cs
    else if quoted then bare quoted cs
    else c :: bare quoted cs

def opened (quoted : Bool) (cs : List Char) : Nat :=
  (bare quoted cs).count '('

def closed (quoted : Bool) (cs : List Char) : Nat :=
  (bare quoted cs).count ')'

structure Balanced (cs : List Char) : Prop where
  /-- Double quotes come in pairs. -/
  quotes : cs.count '"' % 2 = 0
  /-- No parenthesis is closed before it is opened. -/
  closed_le : ∀ u v, cs = u ++ v → closed false u ≤ opened false u
  closed_eq : closed false cs = opened false cs

/-- A comma outside of quotes stands in parentheses. -/
def NoOuterComma (cs : List Char) : Prop :=
  ∀ u v, cs = u ++ ',' :: v → u.count '"' % 2 = 0 → closed false u ≠ opened false u

end Text

open Text

namespace Nesting

def run (n : Nesting) (cs : List Char) : Nesting :=
  cs.foldl step n

/-- A scan of the text meets no character of `s` outside of quotes and parentheses. -/
def Avoids (s : Char → Prop) (n : Nesting) : List Char → Prop
  | [] => True
  | c :: cs => ¬ (s c ∧ n.isOutside = true) ∧ (n.step c).Avoids s cs

variable {n : Nesting} {s : Char → Prop} {c : Char} {cs u v : List Char}

theorem run_cons (n : Nesting) (c : Char) (cs : List Char) : n.run (c :: cs) = (n.step c).run cs :=
  rfl

theorem run_append (n : Nesting) (u v : List Char) : n.run (u ++ v) = (n.run u).run v :=
  List.foldl_append

theorem isOutside_iff : n.isOutside = true ↔ n = outside := by
  obtain ⟨depth, quoted⟩ := n
  cases quoted <;> simp [isOutside, outside]

theorem step_quote (n : Nesting) : n.step '"' = ⟨n.depth, !n.quoted⟩ := by
  simp [step]

theorem step_of_quoted (hq : n.quoted = true) (hc : c ≠ '"') : n.step c = n := by
  simp [step, hc, hq]

theorem step_open (hq : n.quoted = false) : n.step '(' = ⟨n.depth + 1, false⟩ := by
  simp [step, hq]

theorem step_close (hq : n.quoted = false) : n.step ')' = ⟨n.depth - 1, false⟩ := by
  simp [step, hq]

theorem step_other (hc : c ≠ '"') (ho : c ≠ '(') (hx : c ≠ ')') : n.step c = n := by
  simp [step, hc, ho, hx]

/-! ### What a scan avoids -/

theorem avoids_append : n.Avoids s (u ++ v) ↔ n.Avoids s u ∧ (n.run u).Avoids s v := by
  induction u generalizing n with
  | nil => simp [Avoids, run]
  | cons c u ih => rw [List.cons_append, Avoids, Avoids, ih, run_cons, and_assoc]

theorem Avoids.imp {s' : Char → Prop} (hs : ∀ c, s' c → s c) (h : n.Avoids s cs) :
    n.Avoids s' cs := by
  induction cs generalizing n with
  | nil => trivial
  | cons c cs ih => exact ⟨fun hc => h.1 ⟨hs c hc.1, hc.2⟩, ih h.2⟩

theorem avoids_or {s' : Char → Prop} (h : n.Avoids s cs) (h' : n.Avoids s' cs) :
    n.Avoids (fun c => s c ∨ s' c) cs := by
  induction cs generalizing n with
  | nil => trivial
  | cons c cs ih =>
    refine ⟨fun hc => ?_, ih h.2 h'.2⟩
    rcases hc.1 with hs | hs
    · exact h.1 ⟨hs, hc.2⟩
    · exact h'.1 ⟨hs, hc.2⟩

theorem avoids_iff :
    n.Avoids s cs ↔ ∀ u c v, cs = u ++ c :: v → s c → (n.run u).isOutside = false := by
  constructor
  · intro h u c v hcs hc
    rw [hcs, avoids_append] at h
    rw [Bool.eq_false_iff]
    exact fun hout => h.2.1 ⟨hc, hout⟩
  · intro h
    induction cs generalizing n with
    | nil => trivial
    | cons c cs ih =>
      refine ⟨fun hc => ?_, ih fun u d v hcs hd => ?_⟩
      · have hout : n.isOutside = false := h [] c cs rfl hc.1
        rw [hc.2] at hout; cases hout
      · exact h (c :: u) d v (by rw [hcs, List.cons_append]) hd

/-! ### Cuts -/

theorem cutAtClose_append (h : n.Avoids (· = ')') u) (hend : (n.run u).isOutside = true) :
    n.cutAtClose (u ++ ')' :: v) = some (u, v) := by
  induction u generalizing n with
  | nil => rw [List.nil_append, cutAtClose, if_pos ⟨rfl, hend⟩]
  | cons c u ih => rw [List.cons_append, cutAtClose, if_neg h.1, ih h.2 hend, Option.map_some]

theorem cutAtClose_sound (h : n.cutAtClose cs = some (u, v)) :
    cs = u ++ ')' :: v ∧ n.Avoids (· = ')') u ∧ (n.run u).isOutside = true := by
  induction cs generalizing n u with
  | nil => cases h
  | cons c cs ih =>
    rw [cutAtClose] at h
    split at h
    · next hc =>
      cases h
      exact ⟨by rw [hc.1, List.nil_append], trivial, hc.2⟩
    · next hc =>
      obtain ⟨⟨u', v'⟩, hcut, he⟩ := Option.map_eq_some_iff.mp h
      cases he
      obtain ⟨hcs, havoid, hend⟩ := ih hcut
      exact ⟨by rw [hcs, List.cons_append], ⟨hc, havoid⟩, hend⟩

theorem pieces_of_avoids (h : n.Avoids (· = ',') u) : n.pieces u = [u] := by
  induction u generalizing n with
  | nil => rfl
  | cons c u ih => rw [pieces, if_neg h.1, ih h.2]

theorem pieces_append (h : n.Avoids (· = ',') u) (hend : (n.run u).isOutside = true) :
    n.pieces (u ++ ',' :: v) = u :: outside.pieces v := by
  induction u generalizing n with
  | nil =>
    have hn : n = outside := isOutside_iff.mp hend
    rw [List.nil_append, pieces, if_pos ⟨rfl, hend⟩, hn]
  | cons c u ih => rw [List.cons_append, pieces, if_neg h.1, ih h.2 hend]

/-! ### Clean texts -/

/-- Scanned from outside, the text ends outside, and before that every comma and every closing
parenthesis is in quotes or in parentheses. -/
structure Clean (cs : List Char) : Prop where
  ends : outside.run cs = outside
  avoids : outside.Avoids (fun c => c = ',' ∨ c = ')') cs

theorem Clean.avoids_comma (h : Clean cs) : outside.Avoids (· = ',') cs :=
  h.avoids.imp fun _ => .inl

theorem Clean.avoids_close (h : Clean cs) : outside.Avoids (· = ')') cs :=
  h.avoids.imp fun _ => .inr

/-- The pieces of what precedes the closing parenthesis are clean. -/
theorem pieces_sound (h : n.Avoids (· = ')') cs) (hend : (n.run cs).isOutside = true) :
    ∃ p ps, n.pieces cs = p :: ps ∧ n.Avoids (fun c => c = ',' ∨ c = ')') p ∧
      (n.run p).isOutside = true ∧ ∀ q ∈ ps, Clean q := by
  induction cs generalizing n with
  | nil => exact ⟨[], [], rfl, trivial, hend, by simp⟩
  | cons c cs ih =>
    obtain ⟨p, ps, hpieces, havoid, hout, hclean⟩ := ih h.2 hend
    rw [pieces]
    split
    · next hc =>
      obtain ⟨rfl, hn⟩ := hc
      rw [step_other (by decide) (by decide) (by decide)] at hpieces havoid hout
      refine ⟨[], p :: ps, by rw [hpieces], trivial, hn, fun q hq => ?_⟩
      rcases List.mem_cons.mp hq with rfl | hq
      · obtain rfl := isOutside_iff.mp hn
        exact ⟨isOutside_iff.mp hout, havoid⟩
      · exact hclean q hq
    · next hc =>
      refine ⟨c :: p, ps, by rw [hpieces], ⟨fun hx => ?_, havoid⟩, hout, hclean⟩
      rcases hx.1 with hcomma | hclose
      · exact hc ⟨hcomma, hx.2⟩
      · exact h.1 ⟨hclose, hx.2⟩

theorem clean_of_mem_pieces (h : outside.Avoids (· = ')') cs)
    (hend : (outside.run cs).isOutside = true) : ∀ p ∈ outside.pieces cs, Clean p := by
  obtain ⟨p, ps, hpieces, havoid, hout, hclean⟩ := pieces_sound h hend
  rw [hpieces]
  intro q hq
  rcases List.mem_cons.mp hq with rfl | hq
  · exact ⟨isOutside_iff.mp hout, havoid⟩
  · exact hclean q hq

/-! ### Counting -/

theorem quoted_run (n : Nesting) (cs : List Char) :
    (n.run cs).quoted = (n.quoted ^^ decide (cs.count '"' % 2 = 1)) := by
  induction cs generalizing n with
  | nil => simp [run]
  | cons c cs ih =>
    rw [run_cons, ih]
    by_cases hc : c = '"'
    · subst hc
      have hparity : (cs.count '"' + 1) % 2 = 1 ↔ ¬ cs.count '"' % 2 = 1 := by omega
      rw [step_quote, List.count_cons_self, decide_eq_decide.mpr hparity, decide_not]
      cases n.quoted <;> simp
    · rw [List.count_cons_of_ne hc]
      congr 1
      by_cases ho : c = '(' <;> by_cases hx : c = ')' <;> cases hq : n.quoted <;>
        simp [step, hc, ho, hx, hq]

/-- One step of the scan, and the two counts of a text that starts with its character. -/
theorem count_step (n : Nesting) (c : Char) (cs : List Char) (hc : ¬ (c = ')' ∧ n.isOutside = true)) :
    (n.step c).depth + opened (n.step c).quoted cs + closed n.quoted (c :: cs) =
      n.depth + opened n.quoted (c :: cs) + closed (n.step c).quoted cs := by
  by_cases hquote : c = '"'
  · subst hquote
    simp only [step_quote, opened, closed, bare, if_true]
  cases hq : n.quoted with
  | true =>
    rw [step_of_quoted hq hquote, hq]
    simp only [opened, closed, bare, if_neg hquote, if_true]
  | false =>
    simp only [opened, closed, bare, if_neg hquote, Bool.false_eq_true, if_false]
    by_cases ho : c = '('
    · subst ho
      simp only [step_open hq, List.count_cons_self, List.count_cons_of_ne (show '(' ≠ ')' by decide)]
      omega
    by_cases hx : c = ')'
    · subst hx
      have hdepth : n.depth ≠ 0 := fun hd => hc ⟨rfl, by simp [isOutside, hd, hq]⟩
      simp only [step_close hq, List.count_cons_self, List.count_cons_of_ne (show ')' ≠ '(' by decide)]
      omega
    · rw [step_other hquote ho hx, hq, List.count_cons_of_ne ho, List.count_cons_of_ne hx]

theorem depth_run (h : n.Avoids (· = ')') cs) :
    (n.run cs).depth + closed n.quoted cs = n.depth + opened n.quoted cs := by
  induction cs generalizing n with
  | nil => rfl
  | cons c cs ih =>
    have hrun := ih h.2
    have hstep := count_step n c cs h.1
    rw [run_cons]
    omega

/-- A scan meets no closing parenthesis outside when at no point more were closed than opened. -/
theorem avoids_close_iff :
    n.Avoids (· = ')') cs ↔ ∀ u v, cs = u ++ v → closed n.quoted u ≤ n.depth + opened n.quoted u := by
  constructor
  · intro h u v hcs
    rw [hcs, avoids_append] at h
    have hdepth := depth_run h.1
    omega
  · intro h
    induction cs generalizing n with
    | nil => trivial
    | cons c cs ih =>
      have hc : ¬ (c = ')' ∧ n.isOutside = true) := by
        rintro ⟨rfl, hout⟩
        obtain rfl := isOutside_iff.mp hout
        have hone := h [')'] cs rfl
        exact absurd hone (by decide)
      refine ⟨hc, ih fun u v hcs => ?_⟩
      have hle := h (c :: u) v (by rw [hcs, List.cons_append])
      have hstep := count_step n c u hc
      omega

theorem isOutside_run_iff (h : outside.Avoids (· = ')') cs) :
    (outside.run cs).isOutside = true ↔ cs.count '"' % 2 = 0 ∧ closed false cs = opened false cs := by
  have hquoted := quoted_run outside cs
  have hdepth := depth_run h
  simp only [outside, Bool.false_bne, Nat.zero_add] at hquoted hdepth
  rw [isOutside, Bool.and_eq_true, beq_iff_eq, Bool.not_eq_true', outside, hquoted,
    decide_eq_false_iff_not]
  constructor
  · rintro ⟨hd, hq⟩
    exact ⟨by omega, by omega⟩
  · rintro ⟨hq, he⟩
    exact ⟨by omega, by omega⟩

/-- A text is clean when its quotes are paired, its parentheses balance and its commas are inside. -/
theorem clean_iff : Clean cs ↔ Balanced cs ∧ NoOuterComma cs := by
  constructor
  · intro h
    have hends := (isOutside_run_iff h.avoids_close).mp (isOutside_iff.mpr h.ends)
    refine ⟨⟨hends.1, fun u v hcs => ?_, hends.2⟩, fun u v hcs hquotes heq => ?_⟩
    · simpa [outside] using avoids_close_iff.mp h.avoids_close u v hcs
    · have havoids := h.avoids_close
      rw [hcs, avoids_append] at havoids
      have hout := avoids_iff.mp h.avoids_comma u ',' v hcs rfl
      rw [(isOutside_run_iff havoids.1).mpr ⟨hquotes, heq⟩] at hout
      cases hout
  · rintro ⟨hbal, hcomma⟩
    have hclose : outside.Avoids (· = ')') cs := avoids_close_iff.mpr fun u v hcs => by
      simpa [outside] using hbal.closed_le u v hcs
    refine ⟨isOutside_iff.mp ((isOutside_run_iff hclose).mpr ⟨hbal.quotes, hbal.closed_eq⟩),
      avoids_or (avoids_iff.mpr fun u c v hcs hc => ?_) hclose⟩
    subst hc
    rw [Bool.eq_false_iff]
    intro hout
    have hu := hclose
    rw [hcs, avoids_append] at hu
    obtain ⟨hquotes, heq⟩ := (isOutside_run_iff hu.1).mp hout
    exact hcomma u v hcs hquotes heq

/-! ### Blanks -/

theorem ne_of_isBlank (h : isBlank c = true) : c ≠ '"' ∧ c ≠ '(' ∧ c ≠ ')' ∧ c ≠ ',' := by
  refine ⟨?_, ?_, ?_, ?_⟩ <;> rintro rfl <;> exact absurd h (by decide)

theorem run_of_blank (h : blank cs = true) : n.run cs = n := by
  induction cs with
  | nil => rfl
  | cons c cs ih =>
    rw [blank, List.all_cons, Bool.and_eq_true] at h
    obtain ⟨hq, ho, hx, -⟩ := ne_of_isBlank h.1
    rw [run_cons, step_other hq ho hx, ih h.2]

theorem avoids_of_blank (h : blank cs = true) : n.Avoids (fun c => c = ',' ∨ c = ')') cs := by
  rw [avoids_iff]
  intro u c v hcs hc
  have hblank : isBlank c = true := List.all_eq_true.mp h c (by simp [hcs])
  obtain ⟨-, -, hx, hcomma⟩ := ne_of_isBlank hblank
  rcases hc with hc | hc
  · exact absurd hc hcomma
  · exact absurd hc hx

theorem clean_blank_append_iff {front back : List Char} (hfront : blank front = true)
    (hback : blank back = true) : Clean (front ++ (cs ++ back)) ↔ Clean cs := by
  have hrun : outside.run (front ++ (cs ++ back)) = outside.run cs := by
    rw [run_append, run_append, run_of_blank hfront, run_of_blank hback]
  constructor
  · rintro ⟨hends, havoids⟩
    rw [avoids_append, avoids_append, run_of_blank hfront] at havoids
    exact ⟨hrun ▸ hends, havoids.2.1⟩
  · rintro ⟨hends, havoids⟩
    refine ⟨hrun ▸ hends, ?_⟩
    rw [avoids_append, avoids_append, run_of_blank hfront]
    exact ⟨avoids_of_blank hfront, havoids, avoids_of_blank hback⟩

end Nesting

end TestScribe

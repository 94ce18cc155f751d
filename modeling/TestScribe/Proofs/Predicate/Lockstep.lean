import TestScribe.Proofs.Predicate.Cuts

/-!
# Two scans of one argument list

An argument list is scanned twice: for the parenthesis that closes it, and for the commas to cut it at. Here both scans
are loops over the characters, each with a `Nesting` of its own. The one for the closing parenthesis (`seek`) never
takes a parenthesis away where none is open, for there it ends; the one for the commas (`Splitting.step`) goes on with
none open. Up to the closing parenthesis they stand alike at every character, so the second never gets there
(`pieces_of_cutAtClose`).
-/

namespace TestScribe

open Text

namespace Nesting

/-- Where the scan for the closing parenthesis stands after a character; nowhere if it ends there. -/
def seek (n : Nesting) (c : Char) : Option Nesting :=
  if c = '"' then some { n with quoted := !n.quoted }
  else if n.quoted then some n
  else if c = '(' then some { n with depth := n.depth + 1 }
  else if c = ')' then
    match n.depth with
    | 0 => none
    | depth + 1 => some { n with depth }
  else some n

end Nesting

/-- Where the scan for the commas stands: the pieces that are complete, the one it is in, and how it is nested. -/
structure Splitting where
  complete : List (List Char)
  current : List Char
  nesting : Nesting
deriving DecidableEq

namespace Splitting

def start : Splitting :=
  ⟨[], [], .outside⟩

/-- A comma outside of quotes and parentheses ends a piece, and any other character belongs to one. -/
def step (k : Splitting) (c : Char) : Splitting :=
  if c = ',' ∧ k.nesting.isOutside then { k with complete := k.complete ++ [k.current], current := [] }
  else { k with current := k.current ++ [c], nesting := k.nesting.step c }

def run (k : Splitting) (cs : List Char) : Splitting :=
  cs.foldl step k

def pieces (k : Splitting) : List (List Char) :=
  k.complete ++ [k.current]

variable {k : Splitting} {c : Char} {cs p : List Char} {ps : List (List Char)}

theorem run_cons (k : Splitting) (c : Char) (cs : List Char) : k.run (c :: cs) = (k.step c).run cs :=
  rfl

theorem nesting_step (k : Splitting) (c : Char) : (k.step c).nesting = k.nesting.step c := by
  rw [step]
  split
  · next hc => rw [hc.1, Nesting.step_other (by decide) (by decide) (by decide)]
  · rfl

theorem nesting_run (k : Splitting) (cs : List Char) : (k.run cs).nesting = k.nesting.run cs := by
  induction cs generalizing k with
  | nil => rfl
  | cons c cs ih => rw [run_cons, ih, nesting_step, Nesting.run_cons]

/-- The first piece of the rest of the text is the end of the one that the scan is in. -/
theorem pieces_run (h : k.nesting.pieces cs = p :: ps) : (k.run cs).pieces = k.complete ++ (k.current ++ p) :: ps := by
  induction cs generalizing k p ps with
  | nil =>
    obtain ⟨rfl, rfl⟩ := List.cons.inj h
    rw [List.append_nil]
    rfl
  | cons c cs ih =>
    obtain ⟨q, qs, hpieces⟩ : ∃ q qs, (k.step c).nesting.pieces cs = q :: qs :=
      List.exists_cons_of_ne_nil Nesting.pieces_ne_nil
    rw [run_cons, ih hpieces]
    rw [step] at hpieces ⊢
    rw [Nesting.pieces] at h
    by_cases hc : c = ',' ∧ k.nesting.isOutside = true
    · rw [if_pos hc] at h hpieces ⊢
      obtain ⟨rfl, rfl⟩ := List.cons.inj h
      rw [show k.nesting.pieces cs = q :: qs from hpieces, List.append_nil]
      exact List.append_assoc ..
    · rw [if_neg hc] at h hpieces ⊢
      rw [show (k.nesting.step c).pieces cs = q :: qs from hpieces] at h
      obtain ⟨rfl, rfl⟩ := List.cons.inj h
      rw [List.append_assoc, List.singleton_append]

theorem pieces_run_start (cs : List Char) : (start.run cs).pieces = Nesting.outside.pieces cs := by
  obtain ⟨p, ps, hpieces⟩ : ∃ p ps, Nesting.outside.pieces cs = p :: ps :=
    List.exists_cons_of_ne_nil Nesting.pieces_ne_nil
  rw [pieces_run hpieces, hpieces]
  rfl

end Splitting

namespace Nesting

variable {n : Nesting} {c : Char} {cs rest inner after u v : List Char}

theorem seek_eq_some (h : ¬ (c = ')' ∧ n.isOutside = true)) : n.seek c = some (n.step c) := by
  rw [seek, step]
  by_cases hquote : c = '"'
  · rw [if_pos hquote, if_pos hquote]
  rw [if_neg hquote, if_neg hquote]
  by_cases hq : n.quoted = true
  · rw [if_pos hq, if_pos hq]
  rw [if_neg hq, if_neg hq]
  by_cases ho : c = '('
  · rw [if_pos ho, if_pos ho]
  rw [if_neg ho, if_neg ho]
  by_cases hx : c = ')'
  · rw [if_pos hx, if_pos hx]
    cases hd : n.depth with
    | zero => exact absurd ⟨hx, by simpa [isOutside, hd] using hq⟩ h
    | succ depth => rfl
  · rw [if_neg hx, if_neg hx]

theorem seek_close_of_isOutside (h : n.isOutside = true) : n.seek ')' = none := by
  rw [isOutside_iff.mp h]
  rfl

/-- Where no parenthesis is closed that was not opened, the scan for it goes on to the end of the text. -/
theorem foldlM_seek (h : n.Avoids (· = ')') cs) : cs.foldlM seek n = some (n.run cs) := by
  induction cs generalizing n with
  | nil => rfl
  | cons c cs ih =>
    rw [List.foldlM_cons, seek_eq_some h.1]
    exact ih h.2

theorem depth_pos_of_avoids (h : n.Avoids (· = ')') (u ++ ')' :: v)) (hq : (n.run u).quoted = false) :
    0 < (n.run u).depth := by
  refine Nat.pos_of_ne_zero fun hd => (avoids_append.mp h).2.1 ⟨rfl, ?_⟩
  rw [isOutside, hd, hq]
  rfl

/-- Before the parenthesis that closes an argument list both scans stand alike after every character, and there the
one for the closing parenthesis ends. The one for the commas never meets a closing parenthesis with none open, and
it ends outside of quotes and parentheses. Its pieces, of which there is at least one, are the text again when they
are joined by commas, and each of them by itself has paired quotes, balanced parentheses and no comma outside. -/
theorem pieces_of_cutAtClose (h : outside.cutAtClose rest = some (inner, after)) :
    rest = inner ++ ')' :: after ∧
      (∀ u, u <+: inner → u.foldlM seek outside = some (Splitting.start.run u).nesting) ∧
      (Splitting.start.run inner).nesting.seek ')' = none ∧
      (∀ u v, inner = u ++ ')' :: v → (Splitting.start.run u).nesting.quoted = false →
        0 < (Splitting.start.run u).nesting.depth) ∧
      (Splitting.start.run inner).nesting = ⟨0, false⟩ ∧
      (Splitting.start.run inner).pieces = outside.pieces inner ∧
      outside.pieces inner ≠ [] ∧
      [','].intercalate (outside.pieces inner) = inner ∧
      ∀ p ∈ outside.pieces inner, Balanced p ∧ NoOuterComma p := by
  obtain ⟨hrest, havoids, hend⟩ := cutAtClose_sound h
  have hstands (u : List Char) : (Splitting.start.run u).nesting = outside.run u := Splitting.nesting_run _ u
  have hcut := cutAtCommas_pieces havoids
  refine ⟨hrest, ?_, ?_, ?_, ?_, Splitting.pieces_run_start inner, hcut.ne_nil, hcut.joined, fun p hp => ?_⟩
  · rintro u ⟨v, rfl⟩
    rw [hstands]
    exact foldlM_seek (avoids_append.mp havoids).1
  · rw [hstands]
    exact seek_close_of_isOutside hend
  · rintro u v rfl hq
    rw [hstands] at hq ⊢
    exact depth_pos_of_avoids havoids hq
  · rw [hstands]
    exact isOutside_iff.mp hend
  · exact clean_iff.mp (clean_of_mem_pieces havoids hend p hp)

/-- The first closing parenthesis is in quotes and the second closes one that was opened. -/
theorem pieces_of_cutAtClose_quoted :
    let inner := "\"),\", f(x, y), z".toList
    outside.cutAtClose ("\"),\", f(x, y), z) now".toList) = some (inner, " now".toList) ∧
      "\"),\", f(x, y".toList.foldlM seek outside = some (Splitting.start.run "\"),\", f(x, y".toList).nesting ∧
      0 < (Splitting.start.run "\"),\", f(x, y".toList).nesting.depth ∧
      (Splitting.start.run inner).nesting = ⟨0, false⟩ ∧
      outside.pieces inner = ["\"),\"".toList, " f(x, y)".toList, " z".toList] ∧
      Balanced " f(x, y)".toList ∧ NoOuterComma " f(x, y)".toList := by
  intro inner
  have hcut : outside.cutAtClose ("\"),\", f(x, y), z) now".toList) = some (inner, " now".toList) := by decide +kernel
  have hpieces : outside.pieces inner = ["\"),\"".toList, " f(x, y)".toList, " z".toList] := by decide +kernel
  obtain ⟨-, hsteps, -, hopen, hend, -, -, -, hclean⟩ := pieces_of_cutAtClose hcut
  refine ⟨hcut, hsteps _ ⟨"), z".toList, rfl⟩, hopen _ ", z".toList rfl rfl, hend, hpieces, hclean _ ?_⟩
  rw [hpieces]
  simp

end Nesting

end TestScribe

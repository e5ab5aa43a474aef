import FieldFill.Lexical.Scan
import FieldFill.Proofs.Text.Lines
import FieldFill.Proofs.Text.Trim

/-!
# Carriage returns in front of newlines

A text gets Windows line endings by a carriage return in front of every newline. Some of the texts
that are read off it have lost a few of them: a carriage return at the end of a comment belongs to the
comment and goes with it, while the newline behind it stays. `Returns` covers both kinds. What reading
does by blanks, names and quotes is the same for the two texts that it relates.

Main definitions:

* `crlf` — a text with a carriage return in front of every newline.
* `Returns` — a text with a carriage return in front of all or some of its newlines.

Main results:

* `returns_true_iff` — with all of them there, it is the text with Windows line endings.
* `lines_crlf`, `breakLine_crlf` — the lines of a text with Windows line endings.
* `Returns.trim` — trimming.
-/

namespace FieldFill

/-- A text with a carriage return in front of every newline. -/
def crlf (text : Text) : Text :=
  text.flatMap fun c => if c = '\n' then ['\r', '\n'] else [c]

/-! ## Texts with Windows line endings -/

theorem crlf_newline (a : Text) : crlf ('\n' :: a) = '\r' :: '\n' :: crlf a := rfl

theorem crlf_cons {c : Char} (hc : c ≠ '\n') (a : Text) : crlf (c :: a) = c :: crlf a := by
  rw [crlf, List.flatMap_cons, if_neg hc]
  rfl

theorem crlf_append (a b : Text) : crlf (a ++ b) = crlf a ++ crlf b :=
  List.flatMap_append

theorem crlf_of_not_mem {a : Text} (h : '\n' ∉ a) : crlf a = a := by
  induction a with
  | nil => rfl
  | cons c a ih =>
    have hc : c ≠ '\n' := fun hEq => h (hEq ▸ List.mem_cons_self ..)
    rw [crlf_cons hc, ih fun hMem => h (List.mem_cons_of_mem _ hMem)]

theorem crlf_eq_nil_iff {a : Text} : crlf a = [] ↔ a = [] := by
  cases a with
  | nil => exact Iff.rfl
  | cons c a =>
    by_cases hc : c = '\n'
    · subst hc
      simp [crlf_newline]
    · simp [crlf_cons hc]

theorem mem_crlf_of_mem {c : Char} {a : Text} (h : c ∈ a) : c ∈ crlf a := by
  refine List.mem_flatMap.2 ⟨c, h, ?_⟩
  split
  · rename_i hc
    simp [hc]
  · simp

/-- Any other character stands between texts with Windows line endings. -/
theorem eq_crlf_append {a u v : Text} {c : Char} (h : crlf a = u ++ c :: v) (hReturn : c ≠ '\r')
    (hNewline : c ≠ '\n') : ∃ x y, a = x ++ c :: y ∧ u = crlf x ∧ v = crlf y := by
  induction a generalizing u with
  | nil => simp [crlf] at h
  | cons d a ih =>
    by_cases hd : d = '\n'
    · subst hd
      rw [crlf_newline] at h
      -- neither of the two characters is `c`
      match u with
      | [] => exact absurd (List.cons.inj h).1.symm hReturn
      | [_] => exact absurd (List.cons.inj (List.cons.inj h).2).1.symm hNewline
      | e :: f :: u =>
        obtain ⟨rfl, hRest⟩ := List.cons.inj h
        obtain ⟨rfl, hBehind⟩ := List.cons.inj hRest
        obtain ⟨x, y, rfl, rfl, rfl⟩ := ih hBehind
        exact ⟨'\n' :: x, y, rfl, rfl, rfl⟩
    · rw [crlf_cons hd] at h
      cases u with
      | nil =>
        obtain ⟨rfl, hRest⟩ := List.cons.inj h
        exact ⟨[], a, rfl, rfl, hRest.symm⟩
      | cons e u =>
        obtain ⟨rfl, hRest⟩ := List.cons.inj h
        obtain ⟨x, y, rfl, rfl, rfl⟩ := ih hRest
        exact ⟨d :: x, y, rfl, (crlf_cons hd x).symm, rfl⟩

theorem breakLine_crlf (a : Text) :
    breakLine (crlf a) = (crlf (breakLine a).1, crlf (breakLine a).2) := by
  induction a with
  | nil => rfl
  | cons c a ih =>
    by_cases hc : c = '\n'
    · subst hc
      rfl
    · rw [crlf_cons hc, breakLine_cons hc, breakLine_cons hc, ih, crlf_cons hc]

theorem lines_crlf (a : Text) : lines (crlf a) = (lines a).map crlf := by
  induction a with
  | nil => rfl
  | cons c a ih =>
    by_cases hc : c = '\n'
    · subst hc
      rw [crlf_newline]
      simp only [lines, if_true, ih, show ¬ '\r' = '\n' from by decide, if_false, List.map_cons]
      rfl
    · rw [crlf_cons hc, lines, lines, if_neg hc, if_neg hc, ih]
      cases lines a with
      | nil =>
        rw [List.map_nil, List.map_singleton, crlf_cons hc]
        rfl
      | cons line more => rw [List.map_cons, List.map_cons, crlf_cons hc]

theorem endsInNewline_crlf (a : Text) : endsInNewline (crlf a) = endsInNewline a := by
  rcases List.eq_nil_or_concat a with rfl | ⟨x, c, rfl⟩
  · rfl
  · rw [List.concat_eq_append, crlf_append]
    by_cases hc : c = '\n'
    · subst hc
      simp [endsInNewline, crlf]
    · rw [crlf_cons hc]
      simp [endsInNewline, crlf]

/-! ## All or some carriage returns -/

/-- The second text is the first one with a carriage return in front of all or some of its newlines. -/
inductive Returns (all : Bool) : Text → Text → Prop where
  | nil : Returns all [] []
  | keep {a b : Text} (c : Char) (hc : all = true → c ≠ '\n') (h : Returns all a b) :
      Returns all (c :: a) (c :: b)
  | put {a b : Text} (h : Returns all a b) : Returns all ('\n' :: a) ('\r' :: '\n' :: b)

theorem returns_crlf (all : Bool) (a : Text) : Returns all a (crlf a) := by
  induction a with
  | nil => exact .nil
  | cons c a ih =>
    by_cases hc : c = '\n'
    · subst hc
      exact .put ih
    · rw [crlf_cons hc]
      exact .keep c (fun _ => hc) ih

theorem returns_true_iff {a b : Text} : Returns true a b ↔ b = crlf a := by
  constructor
  · intro h
    induction h with
    | nil => rfl
    | keep c hc h ih => rw [ih, crlf_cons (hc rfl)]
    | put h ih => rw [ih, crlf_newline]
  · rintro rfl
    exact returns_crlf true a

namespace Returns

variable {all : Bool} {a b : Text}

theorem all_eq (h : Returns all a b) {p : Char → Bool} (hp : p '\r' = p '\n') : b.all p = a.all p := by
  induction h with
  | nil => rfl
  | keep c hc h ih => rw [List.all_cons, List.all_cons, ih]
  | put h ih => rw [List.all_cons, List.all_cons, List.all_cons, ih, hp, ← Bool.and_assoc, Bool.and_self]

theorem head?_iff (h : Returns all a b) {c : Char} (hReturn : c ≠ '\r') (hNewline : c ≠ '\n') :
    b.head? = some c ↔ a.head? = some c := by
  cases h with
  | nil => rfl
  | keep d hd h => rfl
  | put h => simp [hReturn.symm, hNewline.symm]

theorem twoMore_eq (h : Returns all a b) {q : Char} (hq : isQuote q = true) :
    twoMore q b = twoMore q a := by
  have hReturn : '\r' ≠ q := by
    rintro rfl
    cases hq
  have hNewline : '\n' ≠ q := by
    rintro rfl
    cases hq
  cases h with
  | nil => rfl
  | keep c hc h =>
    cases h with
    | nil => rfl
    | keep d hd h => rfl
    | put h => simp [twoMore, hReturn, hNewline]
  | put h =>
    rename_i a b
    cases a <;> simp [twoMore, hReturn, hNewline]

theorem dropWhile (h : Returns all a b) {p : Char → Bool} (hp : p '\r' = p '\n') :
    Returns all (a.dropWhile p) (b.dropWhile p) := by
  induction h with
  | nil => exact .nil
  | keep c hc h ih =>
    rw [List.dropWhile_cons, List.dropWhile_cons]
    split
    · exact ih
    · exact .keep c hc h
  | put h ih =>
    rw [List.dropWhile_cons, List.dropWhile_cons, List.dropWhile_cons, hp]
    split
    · exact ih
    · exact .put h

/-- What is taken stops at a line end, in both texts. -/
theorem takeWhile_eq (h : Returns all a b) {p : Char → Bool} (hReturn : p '\r' = false)
    (hNewline : p '\n' = false) : b.takeWhile p = a.takeWhile p := by
  induction h with
  | nil => rfl
  | keep c hc h ih => rw [List.takeWhile_cons, List.takeWhile_cons, ih]
  | put h ih => simp [hReturn, hNewline]

theorem allBlank_eq (h : Returns all a b) : allBlank b = allBlank a :=
  h.all_eq rfl

theorem trimEnd (h : Returns all a b) : Returns all (trimEnd a) (trimEnd b) := by
  induction h with
  | nil => exact .nil
  | keep c hc h ih =>
    rw [trimEnd_cons, trimEnd_cons, allBlank, allBlank, List.all_cons, List.all_cons,
      h.all_eq (p := isBlank) rfl]
    split
    · exact .nil
    · exact .keep c hc ih
  | put h ih =>
    rename_i a b
    have hBlank : ∀ c, isBlank c = true → ∀ x : Text, allBlank (c :: x) = allBlank x := by
      intro c hc x
      rw [allBlank, List.all_cons, hc, Bool.true_and, allBlank]
    rw [trimEnd_cons, trimEnd_cons, trimEnd_cons, hBlank '\n' (by decide), hBlank '\r' (by decide),
      hBlank '\n' (by decide), h.allBlank_eq]
    split
    · exact .nil
    · exact .put ih

theorem trim (h : Returns all a b) : Returns all (trim a) (trim b) :=
  (h.dropWhile (p := isBlank) rfl).trimEnd

end Returns

end FieldFill

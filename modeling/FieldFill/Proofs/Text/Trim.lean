import FieldFill.Text.Letter
import Mathlib.Data.List.TakeWhile

/-!
# Trimming, and the characters of names

Trimming takes blanks away at the two ends and nothing else. No character of a name is a blank, so
a name is never cut.

* `exists_trim` — what trimming takes away.
* `trim_append_of_blank` — blanks around a text do not matter.
* `trimEnd_append` — a text that ends in no blank stays whole in front of another one.
* `not_isBlank_of_continuesName` — no character is both a blank and part of a name.
-/

namespace FieldFill

/-! ## Trimming -/

def Blank (text : Text) : Prop :=
  ∀ c ∈ text, isBlank c = true

instance (text : Text) : Decidable (Blank text) :=
  decidable_of_iff (allBlank text = true) List.all_eq_true

theorem trimStart_append_of_blank {w : Text} (hw : Blank w) (x : Text) :
    trimStart (w ++ x) = trimStart x :=
  List.dropWhile_append_of_pos hw

theorem trimStart_of_head {c : Char} (hc : isBlank c = false) (x : Text) :
    trimStart (c :: x) = c :: x := by
  rw [trimStart, List.dropWhile_cons_of_neg (by simp [hc])]

theorem exists_trimStart (x : Text) : ∃ front, Blank front ∧ x = front ++ trimStart x :=
  ⟨x.takeWhile isBlank, fun _ hc => List.mem_takeWhile_imp hc,
    List.takeWhile_append_dropWhile.symm⟩

theorem not_isBlank_of_trimStart {x y : Text} {c : Char} (h : trimStart x = c :: y) :
    isBlank c = false := by
  induction x with
  | nil => cases h
  | cons d x ih =>
    cases hd : isBlank d with
    | true =>
      rw [trimStart, List.dropWhile_cons_of_pos hd] at h
      exact ih h
    | false =>
      rw [trimStart_of_head hd] at h
      rw [← (List.cons.inj h).1, hd]

theorem trimEnd_append_of_blank {w : Text} (hw : Blank w) (x : Text) :
    trimEnd (x ++ w) = trimEnd x := by
  have hReverse : Blank w.reverse := fun c hc => hw c (List.mem_reverse.1 hc)
  rw [trimEnd, List.reverse_append, List.dropWhile_append_of_pos hReverse, trimEnd]

theorem exists_trimEnd (x : Text) : ∃ back, Blank back ∧ x = trimEnd x ++ back := by
  obtain ⟨front, hFront, hEq⟩ := exists_trimStart x.reverse
  refine ⟨front.reverse, fun c hc => hFront c (List.mem_reverse.1 hc), ?_⟩
  rw [trimEnd, ← List.reverse_append, ← trimStart, ← hEq, List.reverse_reverse]

theorem trimEnd_eq_nil_iff {text : Text} : trimEnd text = [] ↔ Blank text := by
  rw [trimEnd, List.reverse_eq_nil_iff, List.dropWhile_eq_nil_iff]
  exact ⟨fun h c hc => h c (List.mem_reverse.2 hc), fun h c hc => h c (List.mem_reverse.1 hc)⟩

theorem trimEnd_cons (c : Char) (x : Text) :
    trimEnd (c :: x) = if allBlank (c :: x) then [] else c :: trimEnd x := by
  by_cases hBlank : allBlank x = true
  · have hx : trimEnd x = [] := trimEnd_append_of_blank (List.all_eq_true.1 hBlank) []
    have hc : trimEnd (c :: x) = trimEnd [c] :=
      trimEnd_append_of_blank (List.all_eq_true.1 hBlank) [c]
    rw [hc, hx, allBlank, List.all_cons, ← allBlank, hBlank, Bool.and_true]
    cases h : isBlank c <;> simp [trimEnd, h]
  · -- the blanks at the end of `x` are not all of it
    have hDrop : x.reverse.dropWhile isBlank ≠ [] := by
      intro hNil
      refine hBlank (List.all_eq_true.2 fun d hd => ?_)
      exact List.dropWhile_eq_nil_iff.1 hNil d (List.mem_reverse.2 hd)
    have hCons : ¬ allBlank (c :: x) = true := fun h =>
      hBlank (List.all_eq_true.2 fun d hd => List.all_eq_true.1 h d (List.mem_cons_of_mem _ hd))
    rw [if_neg hCons, trimEnd, List.reverse_cons, List.dropWhile_append, if_neg (by simpa using hDrop),
      List.reverse_append, trimEnd]
    rfl

theorem trimEnd_append {c : Char} (hc : isBlank c = false) (x y : Text) :
    trimEnd (x ++ c :: y) = x ++ c :: trimEnd y := by
  obtain ⟨back, hBack, hy⟩ := exists_trimEnd y
  have hLast : trimEnd (x ++ c :: trimEnd y) = x ++ c :: trimEnd y := by
    -- the last character is `c`, or else the last one that trimming leaves of `y`
    rcases List.eq_nil_or_concat (trimEnd y) with hNil | ⟨z, d, hConcat⟩
    · rw [hNil, trimEnd, List.reverse_append, List.reverse_singleton, List.singleton_append,
        List.dropWhile_cons_of_neg (by simp [hc])]
      simp
    · have hReverse : trimStart y.reverse = d :: z.reverse := by
        have h := congrArg List.reverse hConcat
        rwa [trimEnd, List.reverse_reverse, List.concat_eq_append, List.reverse_append] at h
      have hd := not_isBlank_of_trimStart hReverse
      rw [hConcat, List.concat_eq_append, trimEnd, List.reverse_append, List.reverse_cons,
        List.reverse_append, List.reverse_singleton, List.singleton_append, List.cons_append,
        List.cons_append, List.dropWhile_cons_of_neg (by simp [hd])]
      simp
  calc trimEnd (x ++ c :: y) = trimEnd ((x ++ c :: trimEnd y) ++ back) := by
        rw [List.append_assoc, List.cons_append, ← hy]
    _ = x ++ c :: trimEnd y := by rw [trimEnd_append_of_blank hBack, hLast]

/-- The first character that is left of a text whose end is trimmed is its first character. -/
theorem head_of_head_trimEnd {x : Text} {c : Char} (h : (trimEnd x).head? = some c) :
    x.head? = some c := by
  obtain ⟨back, -, hx⟩ := exists_trimEnd x
  rw [hx, List.head?_append, h]
  rfl

theorem trim_append_of_blank {front back : Text} (hFront : Blank front) (hBack : Blank back)
    (x : Text) : trim (front ++ (x ++ back)) = trim x := by
  rw [trim, trimStart_append_of_blank hFront]
  obtain ⟨lead, hLead, hx⟩ := exists_trimStart x
  by_cases hNil : trimStart x = []
  · -- all of it is blank
    have hBlank : Blank (x ++ back) := by
      rw [hx, hNil, List.append_nil]
      exact fun c hc => (List.mem_append.1 hc).elim (hLead c) (hBack c)
    have hTrim := trimStart_append_of_blank hBlank []
    rw [List.append_nil] at hTrim
    rw [hTrim, trim, hNil]
    rfl
  · obtain ⟨c, y, hy⟩ := List.exists_cons_of_ne_nil hNil
    have hc := not_isBlank_of_trimStart hy
    rw [hx, hy, List.append_assoc, trimStart_append_of_blank hLead, List.cons_append,
      trimStart_of_head hc, ← List.cons_append, trimEnd_append_of_blank hBack, trim,
      trimStart_append_of_blank hLead, trimStart_of_head hc]

/-- What trimming takes away is blank. -/
theorem exists_trim (x : Text) :
    ∃ front back, Blank front ∧ Blank back ∧ x = front ++ (trim x ++ back) := by
  obtain ⟨front, hFront, hx⟩ := exists_trimStart x
  obtain ⟨back, hBack, hy⟩ := exists_trimEnd (trimStart x)
  refine ⟨front, back, hFront, hBack, ?_⟩
  rw [trim, ← hy, ← hx]

/-! ## Names -/

/-- The code points of all blanks. -/
def blankCodes : List Nat :=
  [0x9, 0xA, 0xB, 0xC, 0xD, 0x20, 0x85, 0xA0, 0x1680, 0x2000, 0x2001, 0x2002, 0x2003, 0x2004,
   0x2005, 0x2006, 0x2007, 0x2008, 0x2009, 0x200A, 0x2028, 0x2029, 0x202F, 0x205F, 0x3000]

theorem mem_blankCodes {c : Char} (h : isBlank c = true) : c.toNat ∈ blankCodes := by
  simp only [isBlank, inRanges, blankRanges, List.any_cons, List.any_nil, Bool.or_false,
    Bool.or_eq_true, Bool.and_eq_true, decide_eq_true_eq] at h
  simp only [blankCodes, List.mem_cons, List.not_mem_nil, or_false]
  omega

theorem continuesName_of_startsName {c : Char} (h : startsName c = true) :
    continuesName c = true := by
  simp only [startsName, continuesName, isAlphanumeric, Bool.or_eq_true] at h ⊢
  rcases h with h | h
  · exact .inl h
  · exact .inr (.inl (.inl h))

theorem not_isBlank_of_continuesName {c : Char} (h : continuesName c = true) :
    isBlank c = false := by
  rw [Bool.eq_false_iff]
  intro hBlank
  -- there are few blanks, and none of them is part of a name
  have hCodes : ∀ n ∈ blankCodes, continuesName (Char.ofNat n) = false := by decide +kernel
  have hNot := hCodes _ (mem_blankCodes hBlank)
  rw [Char.ofNat_toNat, h] at hNot
  cases hNot

theorem takeWhile_append_of_name {name rest : Text} (hName : ∀ c ∈ name, continuesName c = true)
    (hRest : ∀ c, rest.head? = some c → continuesName c = false) :
    (name ++ rest).takeWhile continuesName = name ∧
      (name ++ rest).dropWhile continuesName = rest := by
  rw [List.takeWhile_append_of_pos hName, List.dropWhile_append_of_pos hName]
  cases rest with
  | nil => simp
  | cons c rest =>
    have hc := hRest c rfl
    simp [hc]

theorem trimEnd_append_of_name {name : Text} (hName : ∀ c ∈ name, continuesName c = true)
    (hne : name ≠ []) (x y : Text) : trimEnd (x ++ (name ++ y)) = x ++ (name ++ trimEnd y) := by
  obtain ⟨init, last, rfl⟩ := (List.eq_nil_or_concat name).resolve_left hne
  have hLast := not_isBlank_of_continuesName (hName last (by simp))
  have hTrim := trimEnd_append hLast (x ++ init) y
  simpa using hTrim

end FieldFill

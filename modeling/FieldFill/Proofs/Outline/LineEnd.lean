import FieldFill.Outline.Header
import FieldFill.Plan.AtLine
import FieldFill.Proofs.Text.Trim

/-!
# Header lines and the blanks at their end

Whether a line is a header, and of what, does not depend on the blanks at its end. The words of a header
hold no blank, and neither a name nor a parenthesis is looked for in blanks alone.

Main results:

* `findInitializer?_append` — the header of an initializer in a line.
* `isFunctionHead_append`, `classHead?_append` — the headers of functions and classes.
* `Header.ofLine?_append` — what kind of header a line is.
* `enclosingClass_append` — the class around a line.
-/

namespace FieldFill

/-! ## Words and gaps -/

theorem not_isWord_of_isBlank {c : Char} (h : isBlank c = true) : isWord c = false := by
  have hCodes : ∀ n ∈ blankCodes, isWord (Char.ofNat n) = false := by decide +kernel
  have hNot := hCodes _ (mem_blankCodes h)
  rwa [Char.ofNat_toNat] at hNot

/-- Blanks behind a text stay where some of the text does. -/
theorem trimStart_append_cases {w : Text} (hw : Blank w) (x : Text) :
    (trimStart x = [] ∧ trimStart (x ++ w) = []) ∨
      (trimStart x ≠ [] ∧ trimStart (x ++ w) = trimStart x ++ w) := by
  obtain ⟨front, hFront, hx⟩ := exists_trimStart x
  cases hTrim : trimStart x with
  | nil =>
    have hBlank : Blank (x ++ w) := by
      rw [hx, hTrim, List.append_nil]
      exact fun c hc => (List.mem_append.1 hc).elim (hFront c) (hw c)
    have hAll := trimStart_append_of_blank hBlank []
    rw [List.append_nil] at hAll
    exact .inl ⟨rfl, hAll⟩
  | cons c y =>
    refine .inr ⟨by simp, ?_⟩
    rw [hx, hTrim, List.append_assoc, trimStart_append_of_blank hFront, List.cons_append,
      trimStart_of_head (not_isBlank_of_trimStart hTrim)]

section

variable {w : Text} (hw : Blank w)

include hw

theorem head?_trimStart_append (x : Text) :
    (trimStart (x ++ w)).head? = (trimStart x).head? := by
  rcases trimStart_append_cases hw x with ⟨hNil, hNil'⟩ | ⟨hne, hEq⟩
  · rw [hNil, hNil']
  · obtain ⟨c, y, hc⟩ := List.exists_cons_of_ne_nil hne
    rw [hEq, hc]
    rfl

theorem after?_append {word : Text} (hWord : word.any isBlank = false) (x : Text) :
    after? word (x ++ w) = (after? word x).map (· ++ w) := by
  induction word generalizing x with
  | nil => rfl
  | cons c word ih =>
    rw [List.any_cons, Bool.or_eq_false_iff] at hWord
    obtain ⟨hFirst, hMore⟩ := hWord
    cases x with
    | nil =>
      cases w with
      | nil => rfl
      | cons d w =>
        -- the word does not begin with a blank
        have hne : c ≠ d := by
          rintro rfl
          have hBlank := hw c (List.mem_cons_self ..)
          rw [hFirst] at hBlank
          cases hBlank
        simp [after?, hne]
    | cons d x =>
      rw [List.cons_append, after?, after?]
      split
      · exact ih hMore x
      · rfl

/-- Behind the gap stands what stood there before, or nothing at all. -/
theorem afterBlanks?_append_cases (x : Text) :
    afterBlanks? (x ++ w) = (afterBlanks? x).map (· ++ w) ∨
      (afterBlanks? (x ++ w) = none ∨ afterBlanks? (x ++ w) = some []) ∧
        (afterBlanks? x = none ∨ afterBlanks? x = some []) := by
  cases x with
  | nil =>
    refine .inr ⟨?_, .inl rfl⟩
    cases w with
    | nil => exact .inl rfl
    | cons d w =>
      have hRest : trimStart w = [] :=
        List.dropWhile_eq_nil_iff.2 fun c hc => hw c (List.mem_cons_of_mem _ hc)
      rw [List.nil_append, afterBlanks?, if_pos (hw d (List.mem_cons_self ..)), hRest]
      exact .inr rfl
  | cons c x =>
    rw [List.cons_append, afterBlanks?, afterBlanks?]
    split
    · rcases trimStart_append_cases hw x with ⟨hNil, hNil'⟩ | ⟨-, hEq⟩
      · rw [hNil, hNil']
        exact .inr ⟨.inr rfl, .inr rfl⟩
      · rw [hEq]
        exact .inl rfl
    · exact .inl rfl

/-- What is read behind a word and a gap is read alike, when nothing is read off an empty text. -/
theorem behindWord_append {α : Type} {word : Text} (hWord : word.any isBlank = false)
    {f : Text → Option α} {g : α → α} (hNil : f [] = none) (hf : ∀ y, f (y ++ w) = (f y).map g)
    (x : Text) :
    ((after? word (x ++ w)).bind afterBlanks?).bind f =
      (((after? word x).bind afterBlanks?).bind f).map g := by
  rw [after?_append hw hWord]
  cases after? word x with
  | none => rfl
  | some rest =>
    have hSome : ∀ y : Option Text, (y = none ∨ y = some []) → y.bind f = none := by
      rintro y (rfl | rfl)
      · rfl
      · exact hNil
    rw [Option.map_some, Option.bind_some, Option.bind_some]
    rcases afterBlanks?_append_cases hw rest with hEq | ⟨hRight, hLeft⟩
    · rw [hEq]
      cases afterBlanks? rest with
      | none => rfl
      | some y => exact hf y
    · rw [hSome _ hRight, hSome _ hLeft]
      rfl

theorem takeWhile_isWord_append (x : Text) : (x ++ w).takeWhile isWord = x.takeWhile isWord := by
  rw [List.takeWhile_append]
  split
  · have hNone : w.takeWhile isWord = [] := by
      cases w with
      | nil => rfl
      | cons d w =>
        rw [List.takeWhile_cons, not_isWord_of_isBlank (hw d (List.mem_cons_self ..))]
        rfl
    rename_i hAll
    rw [hNone, List.append_nil]
    exact ((List.takeWhile_prefix isWord).eq_of_length hAll).symm
  · rfl

theorem dropWhile_isWord_append (x : Text) :
    (x ++ w).dropWhile isWord = x.dropWhile isWord ++ w := by
  have hSplit := List.takeWhile_append_dropWhile (p := isWord) (l := x ++ w)
  rw [takeWhile_isWord_append hw] at hSplit
  have hOwn := congrArg (· ++ w) (List.takeWhile_append_dropWhile (p := isWord) (l := x))
  rw [List.append_assoc] at hOwn
  exact List.append_cancel_left (hSplit.trans hOwn.symm)

/-! ## Headers of initializers -/

theorem initializerHead?_append (x : Text) :
    initializerHead? (x ++ w) = (initializerHead? x).map (· ++ w) := by
  rw [initializerHead?_eq, initializerHead?_eq]
  refine behindWord_append hw (by decide) rfl (fun y => ?_) x
  rw [after?_append hw (by decide)]
  cases after? initializerName y with
  | none => rfl
  | some rest =>
    rw [Option.map_some, Option.bind_some, Option.bind_some, head?_trimStart_append hw]
    split
    · rename_i hParen
      -- where the parenthesis stands, something is left of the text
      rcases trimStart_append_cases hw rest with ⟨hNil, -⟩ | ⟨-, hEq⟩
      · rw [hNil] at hParen
        cases hParen
      · rw [hEq, Option.map_some]
    · rfl

theorem findInitializer?_append (x : Text) :
    findInitializer? (x ++ w) =
      (findInitializer? x).map fun found => (found.1, found.2 ++ w) := by
  induction x with
  | nil =>
    -- in blanks alone there is no header
    have hNone : ∀ v : Text, Blank v → findInitializer? v = none := by
      intro v hv
      induction v with
      | nil => rfl
      | cons d v ih =>
        have hHead : initializerHead? (d :: v) = none := by
          rw [initializerHead?, show after? ['d', 'e', 'f'] (d :: v) = none from ?_]
          · rfl
          · have hne : 'd' ≠ d := by
              rintro rfl
              exact absurd (hv 'd' (List.mem_cons_self ..)) (by decide)
            rw [after?, if_neg hne]
        rw [findInitializer?, hHead, ih fun c hc => hv c (List.mem_cons_of_mem _ hc)]
        rfl
    exact hNone w hw
  | cons c x ih =>
    have hHead := initializerHead?_append hw (c :: x)
    rw [List.cons_append] at hHead ⊢
    rw [findInitializer?, findInitializer?, hHead, ih]
    cases initializerHead? (c :: x) with
    | some tail =>
      have hLength : (c :: (x ++ w)).length - (tail ++ w).length = (c :: x).length - tail.length := by
        simp only [List.length_cons, List.length_append]
        omega
      simp only [Option.map_some]
      rw [hLength, ← List.cons_append, List.take_append_of_le_length (Nat.sub_le ..)]
    | none =>
      cases findInitializer? x with
      | none => rfl
      | some found => rfl

/-! ## Headers of functions and classes -/

theorem isDefinition_append (x : Text) : isDefinition (x ++ w) = isDefinition x := by
  let named (name : Text) : Bool :=
    name.head?.any isWord && (trimStart (name.dropWhile isWord)).head? = some '('
  have hShape : ∀ text, isDefinition text =
      (((after? ['d', 'e', 'f'] text).bind afterBlanks?).bind fun name =>
        if named name then some () else none).isSome := by
    intro text
    unfold isDefinition
    cases (after? ['d', 'e', 'f'] text).bind afterBlanks? with
    | none => rfl
    | some name =>
      show named name = _
      rw [Option.bind_some]
      cases named name <;> rfl
  have hNamed : ∀ y, named (y ++ w) = named y := by
    intro y
    have hHead : (y ++ w).head?.any isWord = y.head?.any isWord := by
      cases y with
      | nil =>
        cases w with
        | nil => rfl
        | cons d w => exact not_isWord_of_isBlank (hw d (List.mem_cons_self ..))
      | cons c y => rfl
    show ((y ++ w).head?.any isWord && _) = _
    rw [hHead, dropWhile_isWord_append hw, head?_trimStart_append hw]
  rw [hShape, hShape, behindWord_append hw (by decide) (g := id) rfl fun y => ?_]
  · rw [Option.map_id]
    rfl
  · rw [hNamed, Option.map_id]
    rfl

theorem isFunctionHead_append (x : Text) : isFunctionHead (x ++ w) = isFunctionHead x := by
  rcases trimStart_append_cases hw x with ⟨hNil, hNil'⟩ | ⟨-, hEq⟩
  · rw [isFunctionHead, isFunctionHead, hNil, hNil']
  · have hAsync : ∀ text : Text,
        ((after? ['a', 's', 'y', 'n', 'c'] text).bind afterBlanks?).any isDefinition =
          (((after? ['a', 's', 'y', 'n', 'c'] text).bind afterBlanks?).bind fun rest =>
            if isDefinition rest then some () else none).isSome := by
      intro text
      cases (after? ['a', 's', 'y', 'n', 'c'] text).bind afterBlanks? with
      | none => rfl
      | some rest =>
        rw [Option.any_some, Option.bind_some]
        cases isDefinition rest <;> rfl
    rw [isFunctionHead, isFunctionHead, hEq, isDefinition_append hw, hAsync, hAsync,
      behindWord_append hw (by decide) (g := id) rfl fun y => ?_]
    · rw [Option.map_id]
      rfl
    · rw [isDefinition_append hw, Option.map_id]
      rfl

theorem classHead?_append (x : Text) : classHead? (x ++ w) = classHead? x := by
  have hShape : ∀ text, classHead? text =
      ((after? ['c', 'l', 'a', 's', 's'] (trimStart text)).bind afterBlanks?).bind fun rest =>
        if (rest.takeWhile isWord).isEmpty then none else some (rest.takeWhile isWord) := by
    intro text
    unfold classHead?
    cases (after? ['c', 'l', 'a', 's', 's'] (trimStart text)).bind afterBlanks? <;> rfl
  rw [hShape, hShape]
  rcases trimStart_append_cases hw x with ⟨hNil, hNil'⟩ | ⟨-, hEq⟩
  · rw [hNil, hNil']
  · rw [hEq, behindWord_append hw (by decide) (g := id) rfl fun y => ?_]
    · rw [Option.map_id]
      rfl
    · rw [takeWhile_isWord_append hw, Option.map_id]
      rfl

/-- **What kind of header a line is does not depend on the blanks at its end.** -/
theorem Header.ofLine?_append (x : Text) : Header.ofLine? (x ++ w) = Header.ofLine? x := by
  unfold Header.ofLine?
  rw [findInitializer?_append hw, isFunctionHead_append hw, classHead?_append hw]
  cases findInitializer? x <;> rfl

end

/-! ## The class around a line -/

/-- The header of a class is indented by the blanks in front of its text. -/
theorem blankLead_append {x : Text} (h : classHead? x ≠ none) (w : Text) :
    blankLead (x ++ w) = blankLead x := by
  have hne : trimStart x ≠ [] := by
    intro hNil
    refine h ?_
    rw [classHead?, hNil]
    rfl
  have hShort : (x.takeWhile isBlank).length ≠ x.length := by
    intro hLength
    have hAll := (List.takeWhile_prefix (l := x) isBlank).eq_of_length hLength
    exact hne (List.dropWhile_eq_nil_iff.2 (List.takeWhile_eq_self_iff.1 hAll))
  rw [blankLead, blankLead, List.takeWhile_append, if_neg hShort]

/-- The class around a line does not depend on the blanks at the ends of the lines above. -/
theorem enclosingClass_append {above : List Text} {f : Text → Text}
    (h : ∀ l ∈ above, ∃ x w w', Blank w ∧ Blank w' ∧ l = x ++ w ∧ f l = x ++ w') (indent : Nat) :
    enclosingClass (above.map f) indent = enclosingClass above indent := by
  have hLine : ∀ {x w : Text}, Blank w →
      (if blankLead (x ++ w) < indent then classHead? (x ++ w) else none) =
        if blankLead x < indent then classHead? x else none := by
    intro x w hw
    rw [classHead?_append hw]
    by_cases hNone : classHead? x = none
    · rw [hNone, ite_self, ite_self]
    · rw [blankLead_append hNone]
  unfold enclosingClass
  dsimp only
  rw [List.findSome?_map]
  congr 1
  induction above with
  | nil => rfl
  | cons l above ih =>
    obtain ⟨x, w, w', hw, hw', hl, hfl⟩ := h l (List.mem_cons_self ..)
    rw [List.findSome?_cons, List.findSome?_cons, ih fun k hk => h k (List.mem_cons_of_mem _ hk),
      Function.comp_apply, hfl, hl, hLine hw, hLine hw']

end FieldFill

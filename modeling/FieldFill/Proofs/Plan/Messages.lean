import FieldFill.Plan.Fault

/-!
# Messages tell faults apart

A fault of a parameter list can be read off its message, also when the message stands in that of a
plan, behind the name of the class.

* `SignatureFault.message_injective` — different faults have different messages.
* `PlanFault.signature_message_injective` — also in the message of a plan for a given class.
-/

namespace FieldFill

/-! ## Numbers in a text -/

/-- The digits of a number. -/
def digitsOf (n : Nat) : Text :=
  (toString n).toList

theorem digitsOf_eq (n : Nat) : digitsOf n = Nat.toDigits 10 n := by
  rw [digitsOf, Nat.toString_eq_repr, Nat.toList_repr]

theorem isDigit_of_mem_digitsOf {n : Nat} {c : Char} (h : c ∈ digitsOf n) : c.isDigit = true := by
  rw [digitsOf_eq] at h
  exact Nat.isDigit_of_mem_toDigits (by omega) (by omega) h

theorem digitsOf_injective {m n : Nat} (h : digitsOf m = digitsOf n) : m = n := by
  rw [digitsOf_eq, digitsOf_eq] at h
  rw [← @Nat.ofDigitChars_ten_toDigits m, h, Nat.ofDigitChars_ten_toDigits]

/-- What a text begins with, up to the first character of another kind. -/
theorem append_inj_of_all {p : Char → Bool} {a b x y : Text} {c d : Char}
    (ha : ∀ e ∈ a, p e = true) (hb : ∀ e ∈ b, p e = true) (hc : p c = false) (hd : p d = false)
    (h : a ++ c :: x = b ++ d :: y) : a = b ∧ c :: x = d :: y := by
  have hTake := congrArg (List.takeWhile p) h
  rw [List.takeWhile_append_of_pos ha, List.takeWhile_append_of_pos hb,
    List.takeWhile_cons_of_neg (by simp [hc]), List.takeWhile_cons_of_neg (by simp [hd]),
    List.append_nil, List.append_nil] at hTake
  subst hTake
  exact ⟨rfl, List.append_cancel_left h⟩

theorem digitsOf_append_inj {m n : Nat} {x y : Text}
    (h : digitsOf m ++ ' ' :: x = digitsOf n ++ ' ' :: y) : m = n ∧ x = y := by
  obtain ⟨hDigits, hRest⟩ := append_inj_of_all (fun _ => isDigit_of_mem_digitsOf)
    (fun _ => isDigit_of_mem_digitsOf) rfl rfl h
  exact ⟨digitsOf_injective hDigits, (List.cons.inj hRest).2⟩

/-- A number at the end of a text is all digits behind the last blank. -/
theorem append_digitsOf_inj {m n : Nat} {x y : Text}
    (h : x ++ ' ' :: digitsOf m = y ++ ' ' :: digitsOf n) : x = y ∧ m = n := by
  have hReversed : (digitsOf m).reverse ++ ' ' :: x.reverse =
      (digitsOf n).reverse ++ ' ' :: y.reverse := by
    simpa using congrArg List.reverse h
  obtain ⟨hDigits, hRest⟩ := append_inj_of_all
    (fun _ he => isDigit_of_mem_digitsOf (List.mem_reverse.1 he))
    (fun _ he => isDigit_of_mem_digitsOf (List.mem_reverse.1 he)) rfl rfl hReversed
  exact ⟨List.reverse_inj.1 (List.cons.inj hRest).2,
    digitsOf_injective (List.reverse_inj.1 hDigits)⟩

/-! ## Messages -/

namespace SignatureFault

/-- A message is a text of its own, the parts that the fault names, and its place. -/
theorem toList_message (fault : SignatureFault) :
    fault.message.toList = match fault with
      | unterminatedNesting depth offset => "unterminated nesting: ".toList ++ (digitsOf depth ++
          ' ' :: ("bracket(s) still open, outermost opened at offset".toList ++ ' ' ::
            digitsOf offset))
      | unterminatedString quote offset => "unterminated string literal opened with ".toList ++
          (quote ++ " at offset".toList ++ ' ' :: digitsOf offset)
      | unbalancedCloser closer offset => "unbalanced closing '".toList ++ (closer ::
          ("' at offset".toList ++ ' ' :: digitsOf offset)) := by
  cases fault with
  | unterminatedNesting depth offset =>
    have hMiddle : " bracket(s) still open, outermost opened at offset ".toList =
        ' ' :: ("bracket(s) still open, outermost opened at offset".toList ++ [' ']) := by decide
    show ("unterminated nesting: " ++ toString depth ++
      " bracket(s) still open, outermost opened at offset " ++ toString offset).toList = _
    simp only [String.toList_append, hMiddle, List.append_assoc, List.cons_append, List.nil_append,
      digitsOf]
  | unterminatedString quote offset =>
    have hMiddle : " at offset ".toList = " at offset".toList ++ [' '] := by decide
    show ("unterminated string literal opened with " ++ String.ofList quote ++ " at offset " ++
      toString offset).toList = _
    simp only [String.toList_append, String.toList_ofList, hMiddle, List.append_assoc,
      List.cons_append, List.nil_append, digitsOf]
  | unbalancedCloser closer offset =>
    have hMiddle : "' at offset ".toList = "' at offset".toList ++ [' '] := by decide
    show ("unbalanced closing '" ++ String.singleton closer ++ "' at offset " ++
      toString offset).toList = _
    simp only [String.toList_append, String.toList_singleton, hMiddle, List.append_assoc,
      List.cons_append, List.nil_append, digitsOf]

theorem message_injective {a b : SignatureFault} (h : a.message = b.message) : a = b := by
  have hText := congrArg String.toList h
  rw [toList_message, toList_message] at hText
  -- messages of two kinds differ in what they begin with
  cases a with
  | unterminatedNesting depth offset =>
    cases b with
    | unterminatedNesting depth' offset' =>
      obtain ⟨rfl, hRest⟩ := digitsOf_append_inj (List.append_cancel_left hText)
      obtain ⟨-, rfl⟩ := append_digitsOf_inj hRest
      rfl
    | unterminatedString quote offset' => simp at hText
    | unbalancedCloser closer offset' => simp at hText
  | unterminatedString quote offset =>
    cases b with
    | unterminatedNesting depth offset' => simp at hText
    | unterminatedString quote' offset' =>
      -- the place is behind the last blank, and the quote is what is left
      obtain ⟨hQuote, rfl⟩ := append_digitsOf_inj (List.append_cancel_left hText)
      rw [List.append_cancel_right hQuote]
    | unbalancedCloser closer offset' => simp at hText
  | unbalancedCloser closer offset =>
    cases b with
    | unterminatedNesting depth offset' => simp at hText
    | unterminatedString quote offset' => simp at hText
    | unbalancedCloser closer' offset' =>
      obtain ⟨rfl, hRest⟩ := List.cons.inj (List.append_cancel_left hText)
      obtain ⟨-, rfl⟩ := append_digitsOf_inj hRest
      rfl

end SignatureFault

theorem PlanFault.signature_message_injective (className : Text) {a b : SignatureFault}
    (h : (PlanFault.signature className a).message = (PlanFault.signature className b).message) :
    a = b :=
  SignatureFault.message_injective ((String.append_right_inj _).1 h)

end FieldFill

import FieldFill.Proofs.Layout.Physical
import FieldFill.Proofs.Outline.Growth
import FieldFill.Proofs.Parameter.Names

/-!
# The lines of assignments

A generated statement, written on a line with blanks in front, is a logical line of five tokens: the
receiver, a period, the attribute, an equals sign and the value. So it is the header of nothing and no
placeholder, and it stands as deep as any other line with the same blanks in front.

Main results:

* `Assignment.Named.exists_ownLine?` — the line of an assignment.
* `indentation_lead` — the blanks in front of the code decide the indentation.
-/

namespace FieldFill

/-! ## Indentation -/

/-- Two lines with the same blanks in front stand at the same indentation. -/
theorem indent_eq_of_lead {l l' lead code code' : Text} {own own' : Line} (h : IsLogicalLine l)
    (h' : IsLogicalLine l') (hOwn : ownLine? l = some own) (hOwn' : ownLine? l' = some own')
    (hLead : splitAt? l own.start = some (lead, code))
    (hLead' : splitAt? l' own'.start = some (lead, code')) : own.indent = own'.indent := by
  have hFront : ∀ {k : Text} {line : Line} {rest : Text} {front back : List Scanned}
      {first : Scanned}, IsLogicalLine k → marksOf k = front ++ first :: back →
      line.start = first.offset → splitAt? k line.start = some (lead, rest) →
      front.map Scanned.char = lead := by
    intro k line rest front back first hk hMarks hStart hSplit
    have hText := hk.map_char_marksOf
    rw [hMarks, List.map_append] at hText
    rw [hStart, hk.offset_of_marksOf hMarks, ← hText, splitAt?_byteLength] at hSplit
    exact (Prod.mk.inj (Option.some.inj hSplit)).1
  obtain ⟨front, first, back, hMarks, -, hCode, hStart, -, hIndent⟩ := exists_of_ownLine? hOwn
  obtain ⟨front', first', back', hMarks', -, hCode', hStart', -, hIndent'⟩ :=
    exists_of_ownLine? hOwn'
  rw [hIndent, hIndent', hMarks, hMarks']
  refine indentation_lead ?_ hCode hCode' 0
  rw [hFront h hMarks hStart hLead, hFront h' hMarks' hStart' hLead']

/-! ## The line of an assignment -/

/-- The tokens of an assignment. -/
structure IsAssignment (list : List Token) : Prop where
  exists_tokens : ∃ receiver dot target equals value : Token, ∃ a b c : Text,
    list = [receiver, dot, target, equals, value] ∧ receiver.lexeme = .word a ∧
      dot.lexeme = .mark '.' ∧ target.lexeme = .word b ∧ equals.lexeme = .mark '=' ∧
      value.lexeme = .word c

theorem IsAssignment.isStatement {y : Line} (h : IsAssignment y.tokens) : IsStatement y := by
  obtain ⟨receiver, ⟨start, stop, depth, lexeme⟩, target, equals, value, a, b, c, hTokens,
    hReceiver, hDot, -⟩ := h.exists_tokens
  obtain rfl : lexeme = .mark '.' := hDot
  refine ⟨?_, ?_, ?_⟩
  · rw [hTokens]
    rfl
  · rw [hTokens, FunctionHeader.ofTokens?_eq, fromDef]
    split
    · -- a receiver of the name `async` leaves the period in front
      obtain ⟨start', stop', depth', lexeme⟩ := target
      unfold FunctionHeader.ofDef?
      split
      · rename_i hEq
        obtain ⟨rfl, -⟩ := List.cons.inj hEq
        rfl
      · rfl
    · rfl
  · rw [hTokens]
    simp [isPlaceholder, isStrings, Token.isLiteral, hReceiver]

/-- The line of an assignment, with blanks in front and behind. -/
def Assignment.row (lead : Text) (a : Assignment) (tail : Text) : Text :=
  lead ++ (a.receiver ++ (['.'] ++ (a.target ++ ([' '] ++ (['='] ++ ([' '] ++
    (a.value ++ tail)))))))

theorem Assignment.row_eq (lead : Text) (a : Assignment) (tail : Text) :
    a.row lead tail = lead ++ a.render ++ tail := by
  simp [Assignment.row, Assignment.render]

/-- Blanks on one line. -/
structure BlankInLine (text : Text) : Prop where
  blank : Blank text
  line : '\n' ∉ text

theorem BlankInLine.staysPlain {text : Text} (h : BlankInLine text) :
    ∀ c ∈ text, staysPlain c = true :=
  fun c hc => staysPlain_of_isBlank (h.blank c hc) fun hEq => h.line (hEq ▸ hc)

namespace Assignment.Named

variable {a : Assignment} {lead tail : Text}

theorem staysPlain_row (h : a.Named) (hLead : BlankInLine lead) (hTail : BlankInLine tail) :
    ∀ c ∈ a.row lead tail, staysPlain c = true := by
  have hName : ∀ {name : Text}, IsName name → ∀ c ∈ name, staysPlain c = true :=
    fun hName c hc => staysPlain_of_continuesName (hName.2 c hc)
  simp only [row, List.forall_mem_append]
  exact ⟨hLead.staysPlain, hName h.receiver, List.all_eq_true.1 rfl, hName h.target,
    List.all_eq_true.1 rfl, List.all_eq_true.1 rfl, List.all_eq_true.1 rfl, hName h.value,
    hTail.staysPlain⟩

theorem isAssignment_tokens (h : a.Named) (hLead : BlankInLine lead) (hTail : BlankInLine tail) :
    IsAssignment (tokens (unread 0 (a.row lead tail))) := by
  have hName : ∀ {name : Text}, IsName name → ∀ c ∈ name, isNameChar c = true :=
    fun hName c hc => isNameChar_of_continuesName (hName.2 c hc)
  have hSpace : Blank [' '] := List.all_eq_true.1 rfl
  have hTokens : tokens (unread 0 (a.row lead tail)) =
      joinKinds (pushAll (unread 0 (a.row lead tail)) []) := rfl
  rw [hTokens]
  simp only [row, unread_append, pushAll_append]
  rw [pushAll_blank hTail.blank, pushAll_name (hName h.value) h.value.1 _ (noWordAt_nil _),
    pushAll_blank hSpace, pushAll_mark (c := '=') rfl rfl (by decide) (by decide),
    pushAll_blank hSpace, pushAll_name (hName h.target) h.target.1 _ (noWordAt_mark rfl _ _),
    pushAll_mark (c := '.') rfl rfl (by decide) (by decide),
    pushAll_name (hName h.receiver) h.receiver.1 _ (noWordAt_mark rfl _ _),
    pushAll_blank hLead.blank]
  exact ⟨_, _, _, _, _, _, _, _, rfl, rfl, rfl, rfl, rfl, rfl⟩

/-- The line of code of an assignment begins behind the blanks in front. -/
theorem exists_ownLine? (h : a.Named) (hLead : BlankInLine lead) (hTail : BlankInLine tail) :
    IsLogicalLine (a.row lead tail) ∧ ∃ own code, ownLine? (a.row lead tail) = some own ∧
      splitAt? (a.row lead tail) own.start = some (lead, code) ∧ own.row = 0 ∧
      IsAssignment own.tokens := by
  obtain ⟨hLine, hMarks⟩ := isLogicalLine_plain (h.staysPlain_row hLead hTail)
  refine ⟨hLine, ?_⟩
  obtain ⟨c, more, hReceiver⟩ := List.exists_cons_of_ne_nil h.receiver.1
  obtain ⟨rest, hRow⟩ : ∃ rest, a.row lead tail = lead ++ c :: rest := by
    rw [row, hReceiver]
    exact ⟨_, rfl⟩
  have hSplit : marksOf (a.row lead tail) = unread 0 lead ++
      ⟨byteLength lead, c, .code, 0, 0⟩ :: unread (byteLength lead + c.utf8Size) rest := by
    rw [hMarks, hRow, unread_append, Nat.zero_add]
    rfl
  have hc : continuesName c = true := h.receiver.2 c (by simp [hReceiver])
  have hCode : beginsCode ⟨byteLength lead, c, .code, 0, 0⟩ = true := by
    have hEscape : c ≠ '\\' := (staysPlain_iff.1 (staysPlain_of_continuesName hc)).2.2
    have hMark : c ≠ '\uFEFF' := by
      rintro rfl
      exact absurd hc (by decide +kernel)
    simp [beginsCode, not_isBlank_of_continuesName hc, hEscape, hMark]
  have hOwn := ownLine?_eq_some hSplit (not_beginsCode_unread hLead.blank 0) hCode
  refine ⟨_, c :: rest, hOwn, ?_, ?_, ?_⟩
  · rw [hRow]
    exact splitAt?_byteLength lead (c :: rest)
  · rw [map_char_unread]
    exact List.count_eq_zero.2 hLead.line
  · rw [hMarks]
    exact h.isAssignment_tokens hLead hTail

end Assignment.Named

end FieldFill

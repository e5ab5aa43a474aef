import FieldFill.Outline.Locate
import FieldFill.Proofs.Layout.LogicalLine

/-!
# The tokens of a line, wherever it stands

A logical line that is moved has the same tokens at other places, so it is a header or a placeholder
in one place when it is in another. Tokens start and stop at the ends of scanned characters.

Main definitions:

* `Token.shift`, `Line.moved`, `ClassHeader.shift`, `FunctionHeader.shift` — the same, further on.

Main results:

* `tokens_shift`, `lineOf?_shift` — the tokens and the line of code of a moved logical line.
* `ClassHeader.ofTokens?_shift`, `FunctionHeader.ofTokens?_shift` — headers move with their line.
* `place_of_mem_tokens` — where a token starts and stops.
-/

namespace FieldFill

/-! ## Places -/

def Token.shift (distance : Nat) (t : Token) : Token :=
  { t with start := t.start + distance, stop := t.stop + distance }

def Line.moved (offset row : Nat) (l : Line) : Line :=
  ⟨l.start + offset, l.row + row, l.indent, l.tokens.map (Token.shift offset)⟩

namespace Token

variable (distance : Nat) (t : Token)

@[simp] theorem start_shift : (t.shift distance).start = t.start + distance := rfl

@[simp] theorem isLiteral_shift : (t.shift distance).isLiteral = t.isLiteral := rfl

@[simp] theorem isMark_shift (c : Char) : (t.shift distance).isMark c = t.isMark c := rfl

@[simp] theorem isWord_shift (name : String) : (t.shift distance).isWord name = t.isWord name := rfl

end Token

theorem pushChar_shift (distance : Nat) (s : Scanned) (following : List Token) :
    pushChar (s.shift distance) (following.map (Token.shift distance)) =
      (pushChar s following).map (Token.shift distance) := by
  obtain ⟨offset, c, region, depth, depthAfter⟩ := s
  have hStop : offset + distance + c.utf8Size = offset + c.utf8Size + distance := by omega
  cases region with
  | comment => rfl
  | literal =>
    cases following with
    | nil => simp [pushChar, Scanned.shift, Token.shift, hStop]
    | cons t more =>
      simp only [pushChar, Scanned.shift, List.map_cons, Token.isLiteral_shift, Token.start_shift,
        hStop, Nat.add_right_cancel_iff]
      split
      · rfl
      · simp only [List.map_cons, Token.shift]
  | code =>
    simp only [pushChar, Scanned.shift, hStop]
    by_cases hName : isNameChar c = true
    · simp only [hName, if_true]
      -- only a word that starts right behind the character takes it in
      cases following with
      | nil => rfl
      | cons t more =>
        obtain ⟨start, stop, depth', lexeme⟩ := t
        cases lexeme with
        | literal => rfl
        | mark d => rfl
        | word text =>
          simp only [List.map_cons, Token.shift, Nat.add_right_cancel_iff]
          split <;> rfl
    · simp only [hName, Bool.false_eq_true, if_false]
      rw [apply_ite (List.map (Token.shift distance))]
      rfl

theorem joinKinds_shift (distance : Nat) (list : List Token) :
    joinKinds (list.map (Token.shift distance)) =
      (joinKinds list).map (Token.shift distance) := by
  fun_induction joinKinds list with
  | case1 start stop depth name next more hJoin ih =>
    have hMoved : ((next.shift distance).isLiteral &&
        (next.shift distance).start = stop + distance && isStringKind name) = true := by
      simpa using hJoin
    show joinKinds (⟨start + distance, stop + distance, depth, .word name⟩ ::
      next.shift distance :: more.map (Token.shift distance)) = _
    rw [joinKinds, if_pos hMoved, ih]
    rfl
  | case2 start stop depth name next more hJoin ih =>
    have hMoved : ¬ ((next.shift distance).isLiteral &&
        (next.shift distance).start = stop + distance && isStringKind name) = true := by
      simpa using hJoin
    show joinKinds (⟨start + distance, stop + distance, depth, .word name⟩ ::
      next.shift distance :: more.map (Token.shift distance)) = _
    rw [List.map_cons] at ih
    rw [joinKinds, if_neg hMoved, ih]
    rfl
  | case3 t more hOther ih =>
    rw [List.map_cons, List.map_cons, ← ih, joinKinds]
    -- moving makes no word in front of another token
    intro start stop depth name next more' hWord hMore
    obtain ⟨next', more'', hEq, -, -⟩ := List.map_eq_cons_iff.1 hMore
    obtain ⟨start', stop', depth', lexeme⟩ := t
    obtain ⟨-, -, rfl, rfl⟩ := Token.mk.inj hWord
    exact hOther start' stop' depth' name next' more'' rfl hEq
  | case4 => rfl

theorem tokens_shift (distance : Nat) (marks : List Scanned) :
    tokens (marks.map (Scanned.shift distance)) = (tokens marks).map (Token.shift distance) := by
  have hFold : (marks.map (Scanned.shift distance)).foldr pushChar [] =
      (marks.foldr pushChar []).map (Token.shift distance) := by
    induction marks with
    | nil => rfl
    | cons s marks ih => rw [List.map_cons, List.foldr_cons, List.foldr_cons, ih, pushChar_shift]
  rw [tokens, hFold, joinKinds_shift, tokens]

/-! ## Headers and placeholders -/

def ClassHeader.shift (distance : Nat) (h : ClassHeader) : ClassHeader :=
  { h with nameEnd := h.nameEnd + distance }

def FunctionHeader.shift (distance : Nat) (h : FunctionHeader) : FunctionHeader :=
  ⟨h.name, h.openParen + distance, h.rest.map (Token.shift distance)⟩

theorem afterColon?_shift (distance lambdas : Nat) (list : List Token) :
    afterColon? lambdas (list.map (Token.shift distance)) =
      (afterColon? lambdas list).map (List.map (Token.shift distance)) := by
  induction list generalizing lambdas with
  | nil => rfl
  | cons t rest ih =>
    have hDepth : (t.shift distance).depth = t.depth := rfl
    simp only [List.map_cons, afterColon?, Token.isWord_shift, Token.isMark_shift, hDepth, ih]
    split
    · rfl
    · split
      · cases lambdas <;> rfl
      · rfl

/-- What follows the colon that ends a header. -/
theorem exists_of_afterColon? {lambdas : Nat} {list rest : List Token}
    (h : afterColon? lambdas list = some rest) :
    ∃ front u, list = front ++ u :: rest ∧ u.isMark ':' = true := by
  induction list generalizing lambdas with
  | nil => cases h
  | cons t list ih =>
    have hLater : ∀ {k : Nat}, afterColon? k list = some rest →
        ∃ front u, t :: list = front ++ u :: rest ∧ u.isMark ':' = true := by
      intro k hRest
      obtain ⟨front, u, rfl, hMark⟩ := ih hRest
      exact ⟨t :: front, u, rfl, hMark⟩
    unfold afterColon? at h
    split at h
    · exact hLater h
    · split at h
      · rename_i hMark
        split at h
        · obtain rfl := Option.some.inj h
          exact ⟨[], t, rfl, hMark⟩
        · exact hLater h
      · exact hLater h

theorem ClassHeader.ofTokens?_shift (distance : Nat) (list : List Token) :
    ClassHeader.ofTokens? (list.map (Token.shift distance)) =
      (ClassHeader.ofTokens? list).map (ClassHeader.shift distance) := by
  match list with
  | [] => rfl
  | [_] => rfl
  | _ :: ⟨_, _, _, .literal⟩ :: _ => rfl
  | _ :: ⟨_, _, _, .mark _⟩ :: _ => rfl
  | keyword :: ⟨start, stop, depth, .word name⟩ :: rest =>
    show (if (keyword.shift distance).isWord "class" then
        (afterColon? 0 (rest.map (Token.shift distance))).map fun _ =>
          (⟨name, stop + distance⟩ : ClassHeader)
      else none) = _
    rw [ClassHeader.ofTokens?, Token.isWord_shift, afterColon?_shift]
    split
    · cases afterColon? 0 rest <;> rfl
    · rfl

/-- The tokens of a function header from `def` on. -/
def fromDef : List Token → List Token
  | [] => []
  | first :: rest => if first.isWord "async" then rest else first :: rest

/-- The header of a function whose first token is `def`. -/
def FunctionHeader.ofDef? : List Token → Option FunctionHeader
  | keyword :: ⟨_, _, _, .word name⟩ :: signature =>
    if keyword.isWord "def" then do
      let paren ← signature.find? (Token.isMark '(')
      let rest ← afterColon? 0 signature
      some ⟨name, paren.start, rest⟩
    else none
  | _ => none

theorem FunctionHeader.ofTokens?_eq (list : List Token) :
    FunctionHeader.ofTokens? list = FunctionHeader.ofDef? (fromDef list) := by
  cases list <;> rfl

theorem fromDef_suffix (list : List Token) : fromDef list <:+ list := by
  cases list with
  | nil => exact List.suffix_rfl
  | cons first rest =>
    rw [fromDef]
    split
    · exact List.suffix_cons first rest
    · exact List.suffix_rfl

/-- The parts of a header. -/
theorem FunctionHeader.exists_parts {list : List Token} {header : FunctionHeader}
    (h : FunctionHeader.ofTokens? list = some header) :
    ∃ keyword name signature paren, fromDef list = keyword :: name :: signature ∧
      keyword.isWord "def" = true ∧ name.lexeme = .word header.name ∧
      signature.find? (Token.isMark '(') = some paren ∧ header.openParen = paren.start ∧
      afterColon? 0 signature = some header.rest := by
  rw [FunctionHeader.ofTokens?_eq] at h
  unfold FunctionHeader.ofDef? at h
  split at h
  · rename_i keyword start stop depth name signature hTokens
    split at h
    · rename_i hDef
      obtain ⟨paren, hParen, h⟩ := Option.bind_eq_some_iff.1 h
      obtain ⟨rest, hRest, h⟩ := Option.bind_eq_some_iff.1 h
      obtain rfl := Option.some.inj h
      exact ⟨keyword, ⟨start, stop, depth, .word name⟩, signature, paren, hTokens, hDef, rfl, hParen,
        rfl, hRest⟩
    · cases h
  · cases h

theorem FunctionHeader.ofTokens?_shift (distance : Nat) (list : List Token) :
    FunctionHeader.ofTokens? (list.map (Token.shift distance)) =
      (FunctionHeader.ofTokens? list).map (FunctionHeader.shift distance) := by
  have hFrom : fromDef (list.map (Token.shift distance)) =
      (fromDef list).map (Token.shift distance) := by
    cases list with
    | nil => rfl
    | cons first rest =>
      simp only [List.map_cons, fromDef, Token.isWord_shift]
      rw [apply_ite (List.map (Token.shift distance))]
      rfl
  rw [FunctionHeader.ofTokens?_eq, FunctionHeader.ofTokens?_eq, hFrom]
  match fromDef list with
  | [] => rfl
  | [_] => rfl
  | _ :: ⟨_, _, _, .literal⟩ :: _ => rfl
  | _ :: ⟨_, _, _, .mark _⟩ :: _ => rfl
  | keyword :: ⟨start, stop, depth, .word name⟩ :: signature =>
    have hParen : Token.isMark '(' ∘ Token.shift distance = Token.isMark '(' := rfl
    show (if (keyword.shift distance).isWord "def" then do
        let paren ← (signature.map (Token.shift distance)).find? (Token.isMark '(')
        let rest ← afterColon? 0 (signature.map (Token.shift distance))
        some (⟨name, paren.start, rest⟩ : FunctionHeader)
      else none) = _
    rw [FunctionHeader.ofDef?, Token.isWord_shift, afterColon?_shift, List.find?_map, hParen]
    split
    · cases signature.find? (Token.isMark '(') with
      | none => rfl
      | some paren => cases afterColon? 0 signature <;> rfl
    · rfl

theorem isStrings_shift (distance : Nat) (list : List Token) :
    isStrings (list.map (Token.shift distance)) = isStrings list := by
  have hLiteral : Token.isLiteral ∘ Token.shift distance = Token.isLiteral := rfl
  rw [isStrings, isStrings, List.all_map, hLiteral, List.isEmpty_map]

theorem isPlaceholder_shift (distance : Nat) (list : List Token) :
    isPlaceholder (list.map (Token.shift distance)) = isPlaceholder list := by
  match list with
  | [] => rfl
  | [_] => rfl
  | [_, _] => rfl
  | [_, _, _] => rfl
  | a :: b :: c :: d :: more => exact isStrings_shift distance (a :: b :: c :: d :: more)

theorem indentation_shift (distance width : Nat) (marks : List Scanned) :
    indentation width (marks.map (Scanned.shift distance)) = indentation width marks := by
  induction marks generalizing width with
  | nil => rfl
  | cons s marks ih => simp only [List.map_cons, indentation, Scanned.shift, ih]

theorem lineOf?_shift (distance row : Nat) (marks : List Scanned) (list : List Token) :
    lineOf? row (marks.map (Scanned.shift distance)) (list.map (Token.shift distance)) =
      (lineOf? 0 marks list).map (Line.moved distance row) := by
  have hBegins : beginsCode ∘ Scanned.shift distance = beginsCode := rfl
  have hLead : (fun s => !beginsCode s) ∘ Scanned.shift distance = fun s => !beginsCode s := rfl
  have hNewline : (fun s : Scanned => decide (s.char = '\n')) ∘ Scanned.shift distance =
      fun s => decide (s.char = '\n') := rfl
  rw [lineOf?, lineOf?, List.find?_map, hBegins, indentation_shift, List.takeWhile_map, hLead]
  cases marks.find? beginsCode with
  | none => rfl
  | some first =>
    simp only [Option.map_some, List.countP_map, hNewline, Line.moved, Nat.zero_add]
    rw [Nat.add_comm row]
    rfl

/-! ## Where tokens start and stop -/

/-- A character adds nothing, or a token of its own, or goes to the token behind it. -/
theorem pushChar_cases (s : Scanned) (following : List Token) :
    pushChar s following = following ∨
    (∃ lexeme, pushChar s following =
      ⟨s.offset, s.offset + s.char.utf8Size, s.depth, lexeme⟩ :: following) ∨
    ∃ t more lexeme, following = t :: more ∧
      pushChar s following = ⟨s.offset, t.stop, t.depth, lexeme⟩ :: more := by
  obtain ⟨offset, c, region, depth, depthAfter⟩ := s
  cases region with
  | comment => exact .inl rfl
  | literal =>
    cases following with
    | nil => exact .inr (.inl ⟨.literal, rfl⟩)
    | cons t more =>
      simp only [pushChar]
      split
      · exact .inr (.inr ⟨t, more, t.lexeme, rfl, rfl⟩)
      · exact .inr (.inl ⟨.literal, rfl⟩)
  | code =>
    by_cases hName : isNameChar c = true
    · simp only [pushChar, hName, if_true]
      match following with
      | [] => exact .inr (.inl ⟨_, rfl⟩)
      | ⟨start, stop, depth', .literal⟩ :: more => exact .inr (.inl ⟨_, rfl⟩)
      | ⟨start, stop, depth', .mark d⟩ :: more => exact .inr (.inl ⟨_, rfl⟩)
      | ⟨start, stop, depth', .word text⟩ :: more =>
        dsimp only
        split
        · exact .inr (.inr ⟨_, more, .word (c :: text), rfl, rfl⟩)
        · exact .inr (.inl ⟨_, rfl⟩)
    · simp only [pushChar, hName, Bool.false_eq_true, if_false]
      split
      · exact .inl rfl
      · exact .inr (.inl ⟨_, rfl⟩)

theorem mem_pushChar {s : Scanned} {following : List Token} {t : Token}
    (h : t ∈ pushChar s following) :
    (t.start = s.offset ∨ ∃ u ∈ following, u.start = t.start) ∧
      (t.stop = s.offset + s.char.utf8Size ∨ ∃ u ∈ following, u.stop = t.stop) := by
  rcases pushChar_cases s following with hEq | ⟨lexeme, hEq⟩ | ⟨u, more, lexeme, rfl, hEq⟩
  · rw [hEq] at h
    exact ⟨.inr ⟨t, h, rfl⟩, .inr ⟨t, h, rfl⟩⟩
  · rw [hEq, List.mem_cons] at h
    rcases h with rfl | hLater
    · exact ⟨.inl rfl, .inl rfl⟩
    · exact ⟨.inr ⟨t, hLater, rfl⟩, .inr ⟨t, hLater, rfl⟩⟩
  · rw [hEq, List.mem_cons] at h
    rcases h with rfl | hLater
    · exact ⟨.inl rfl, .inr ⟨u, List.mem_cons_self .., rfl⟩⟩
    · have hMem := List.mem_cons_of_mem u hLater
      exact ⟨.inr ⟨t, hMem, rfl⟩, .inr ⟨t, hMem, rfl⟩⟩

theorem mem_joinKinds {list : List Token} {t : Token} (h : t ∈ joinKinds list) :
    (∃ u ∈ list, u.start = t.start) ∧ ∃ u ∈ list, u.stop = t.stop := by
  have hLater : ∀ {first : Token} {more : List Token}, ((∃ u ∈ more, u.start = t.start) ∧
      ∃ u ∈ more, u.stop = t.stop) →
      (∃ u ∈ first :: more, u.start = t.start) ∧ ∃ u ∈ first :: more, u.stop = t.stop := by
    rintro first more ⟨⟨u, hu, hStart⟩, ⟨v, hv, hStop⟩⟩
    exact ⟨⟨u, List.mem_cons_of_mem _ hu, hStart⟩, ⟨v, List.mem_cons_of_mem _ hv, hStop⟩⟩
  fun_induction joinKinds list with
  | case1 start stop depth name next more hJoin ih =>
    rcases List.mem_cons.1 h with rfl | hMore
    · exact ⟨⟨_, List.mem_cons_self .., rfl⟩,
        ⟨next, List.mem_cons_of_mem _ (List.mem_cons_self ..), rfl⟩⟩
    · exact hLater (hLater (ih hMore))
  | case2 start stop depth name next more hJoin ih =>
    rcases List.mem_cons.1 h with rfl | hMore
    · exact ⟨⟨_, List.mem_cons_self .., rfl⟩, ⟨_, List.mem_cons_self .., rfl⟩⟩
    · exact hLater (ih hMore)
  | case3 first more hOther ih =>
    rcases List.mem_cons.1 h with rfl | hMore
    · exact ⟨⟨t, List.mem_cons_self .., rfl⟩, ⟨t, List.mem_cons_self .., rfl⟩⟩
    · exact hLater (ih hMore)
  | case4 => cases h

/-- A token starts and stops at the ends of scanned characters. -/
theorem place_of_mem_tokens {marks : List Scanned} {t : Token} (h : t ∈ tokens marks) :
    (∃ m ∈ marks, t.start = m.offset) ∧ ∃ m ∈ marks, t.stop = m.offset + m.char.utf8Size := by
  have hPushed : ∀ u ∈ marks.foldr pushChar [], (∃ m ∈ marks, u.start = m.offset) ∧
      ∃ m ∈ marks, u.stop = m.offset + m.char.utf8Size := by
    clear h
    induction marks with
    | nil => intro u hu; cases hu
    | cons s marks ih =>
      intro u hu
      obtain ⟨hStart, hStop⟩ := mem_pushChar hu
      constructor
      · rcases hStart with hHere | ⟨v, hv, hEq⟩
        · exact ⟨s, List.mem_cons_self .., hHere⟩
        · obtain ⟨m, hm, hPlace⟩ := (ih v hv).1
          exact ⟨m, List.mem_cons_of_mem _ hm, by rw [← hEq, hPlace]⟩
      · rcases hStop with hHere | ⟨v, hv, hEq⟩
        · exact ⟨s, List.mem_cons_self .., hHere⟩
        · obtain ⟨m, hm, hPlace⟩ := (ih v hv).2
          exact ⟨m, List.mem_cons_of_mem _ hm, by rw [← hEq, hPlace]⟩
  obtain ⟨⟨u, hu, hStart⟩, ⟨v, hv, hStop⟩⟩ := mem_joinKinds h
  obtain ⟨m, hm, hPlace⟩ := (hPushed u hu).1
  obtain ⟨n, hn, hEnd⟩ := (hPushed v hv).2
  exact ⟨⟨m, hm, by rw [← hStart, hPlace]⟩, ⟨n, hn, by rw [← hStop, hEnd]⟩⟩

end FieldFill

import FieldFill.Proofs.Layout.Tokens
import FieldFill.Proofs.Outline.Classes
import Mathlib.Data.List.Forall2

/-!
# Lines that grow

A program whose initializers are filled has the lines it had before, elsewhere, and new statements
beside some of them. New statements stand at the indentation of the line they are beside, which does
nothing, and are headers of nothing. So the blocks, the direct statements and the initializers of the
grown lines are those of the lines before, grown.

Main definitions:

* `Alike` — the same line at another place.
* `Grows` — a line, elsewhere, with statements beside it.
* `Expands` — lines each of which grows.

Main results:

* `Expands.takeWhile_indent` — a block grows to a block.
* `Expands.classes`, `Expands.initializers` — the classes and the initializers of grown lines.
* `Expands.exists_of_direct` — the direct statements of grown lines.
-/

namespace FieldFill

/-! ## One line -/

/-- The same line at another place. -/
def Alike (x y : Line) : Prop :=
  ∃ own offset row offset' row', x = Line.moved offset row own ∧ y = Line.moved offset' row' own

namespace Alike

variable {x y : Line}

theorem indent_eq (h : Alike x y) : y.indent = x.indent := by
  obtain ⟨own, offset, row, offset', row', rfl, rfl⟩ := h
  rfl

theorem isPlaceholder_eq (h : Alike x y) : isPlaceholder y.tokens = isPlaceholder x.tokens := by
  obtain ⟨own, offset, row, offset', row', rfl, rfl⟩ := h
  rw [Line.moved, Line.moved, isPlaceholder_shift, isPlaceholder_shift]

/-- Where one of them is the header of a class, so is the other. -/
theorem classHeader (h : Alike x y) :
    (ClassHeader.ofTokens? y.tokens).map ClassHeader.name =
      (ClassHeader.ofTokens? x.tokens).map ClassHeader.name := by
  obtain ⟨own, offset, row, offset', row', rfl, rfl⟩ := h
  rw [Line.moved, Line.moved, ClassHeader.ofTokens?_shift, ClassHeader.ofTokens?_shift,
    Option.map_map, Option.map_map]
  rfl

end Alike

/-- The same function header at another place. -/
def AlikeHeader (h k : FunctionHeader) : Prop :=
  ∃ (own : FunctionHeader) (offset offset' : Nat), h = own.shift offset ∧ k = own.shift offset'

theorem Alike.functionHeader {x y : Line} (h : Alike x y) :
    (FunctionHeader.ofTokens? x.tokens = none ∧ FunctionHeader.ofTokens? y.tokens = none) ∨
      ∃ header header', FunctionHeader.ofTokens? x.tokens = some header ∧
        FunctionHeader.ofTokens? y.tokens = some header' ∧ AlikeHeader header header' := by
  obtain ⟨own, offset, row, offset', row', rfl, rfl⟩ := h
  rw [Line.moved, Line.moved, FunctionHeader.ofTokens?_shift, FunctionHeader.ofTokens?_shift]
  cases FunctionHeader.ofTokens? own.tokens with
  | none => exact .inl ⟨rfl, rfl⟩
  | some header => exact .inr ⟨_, _, rfl, rfl, header, offset, offset', rfl, rfl⟩

/-- The line of a statement that does something and is the header of nothing. -/
structure IsStatement (y : Line) : Prop where
  noClass : ClassHeader.ofTokens? y.tokens = none
  noFunction : FunctionHeader.ofTokens? y.tokens = none
  noPlaceholder : isPlaceholder y.tokens = false

/-- A line, elsewhere, with statements in front of it and behind it. -/
def Grows (x : Line) (ys : List Line) : Prop :=
  ∃ front y back, ys = front ++ y :: back ∧ Alike x y ∧
    (∀ z ∈ front ++ back, IsStatement z ∧ z.indent = x.indent) ∧
    (front ++ back ≠ [] → isPlaceholder x.tokens = true)

/-- A placeholder of several tokens begins with no word. -/
theorem ne_word_of_isPlaceholder {t t' : Token} {rest : List Token}
    (h : isPlaceholder (t :: t' :: rest) = true) (text : Text) : t.lexeme ≠ .word text := by
  intro hWord
  have hLiteral : t.isLiteral = false := by
    rw [Token.isLiteral, hWord]
    rfl
  have hDot : t.isMark '.' = false := by
    rw [Token.isMark, hWord]
    simp
  match rest with
  | [] => simp [isPlaceholder, isStrings, hLiteral] at h
  | [u] => simp [isPlaceholder, isStrings, hLiteral, hDot] at h
  | u :: v :: more => simp [isPlaceholder, isStrings, hLiteral] at h

theorem classHeader_of_isPlaceholder {list : List Token} (h : isPlaceholder list = true) :
    ClassHeader.ofTokens? list = none := by
  match list with
  | [] => rfl
  | [_] => rfl
  | _ :: ⟨_, _, _, .literal⟩ :: _ => rfl
  | _ :: ⟨_, _, _, .mark _⟩ :: _ => rfl
  | keyword :: ⟨_, _, _, .word name⟩ :: rest =>
    have hWord : keyword.isWord "class" = false := by
      rw [Token.isWord, decide_eq_false_iff_not]
      exact ne_word_of_isPlaceholder h _
    rw [ClassHeader.ofTokens?, hWord, if_neg Bool.false_ne_true]

theorem functionHeader_of_isPlaceholder {list : List Token} (h : isPlaceholder list = true) :
    FunctionHeader.ofTokens? list = none := by
  rw [FunctionHeader.ofTokens?_eq]
  match list with
  | [] => rfl
  | [t] =>
    rw [fromDef]
    split <;> rfl
  | t :: t' :: rest =>
    have hAsync : t.isWord "async" = false := by
      rw [Token.isWord, decide_eq_false_iff_not]
      exact ne_word_of_isPlaceholder h _
    have hDef : t.isWord "def" = false := by
      rw [Token.isWord, decide_eq_false_iff_not]
      exact ne_word_of_isPlaceholder h _
    rw [fromDef, hAsync, if_neg Bool.false_ne_true]
    unfold FunctionHeader.ofDef?
    split
    · rename_i keyword _ _ _ name signature hEq
      obtain ⟨rfl, -⟩ := List.cons.inj hEq
      rw [hDef, if_neg Bool.false_ne_true]
    · rfl

namespace Grows

variable {x : Line} {ys : List Line}

theorem indent_eq (h : Grows x ys) : ∀ y ∈ ys, y.indent = x.indent := by
  obtain ⟨front, y, back, rfl, hAlike, hNew, -⟩ := h
  intro z hz
  rcases List.mem_append.1 hz with hFront | hBack
  · exact (hNew z (List.mem_append_left _ hFront)).2
  · rcases List.mem_cons.1 hBack with rfl | hBack
    · exact hAlike.indent_eq
    · exact (hNew z (List.mem_append_right _ hBack)).2

theorem exists_cons (h : Grows x ys) : ∃ y more, ys = y :: more := by
  obtain ⟨front, y, back, rfl, -⟩ := h
  exact List.exists_cons_of_ne_nil (by simp)

/-- A line that is no placeholder gets nothing beside it, and a placeholder is no header. -/
theorem cases (h : Grows x ys) :
    (∃ y, ys = [y] ∧ Alike x y) ∨
      (isPlaceholder x.tokens = true ∧ ∀ y ∈ ys, ClassHeader.ofTokens? y.tokens = none ∧
        FunctionHeader.ofTokens? y.tokens = none) := by
  obtain ⟨front, y, back, rfl, hAlike, hNew, hPlaceholder⟩ := h
  by_cases hNone : front ++ back = []
  · obtain ⟨rfl, rfl⟩ := List.append_eq_nil_iff.1 hNone
    exact .inl ⟨y, rfl, hAlike⟩
  · refine .inr ⟨hPlaceholder hNone, fun z hz => ?_⟩
    have hy : isPlaceholder y.tokens = true := by
      rw [hAlike.isPlaceholder_eq]
      exact hPlaceholder hNone
    rcases List.mem_cons.1 (List.perm_middle.mem_iff.1 hz) with rfl | hMem
    · exact ⟨classHeader_of_isPlaceholder hy, functionHeader_of_isPlaceholder hy⟩
    · exact ⟨(hNew z hMem).1.noClass, (hNew z hMem).1.noFunction⟩

/-- When everything that a line grows to does nothing, nothing was put beside it. -/
theorem alike_of_isPlaceholder (h : Grows x ys) (hAll : ∀ y ∈ ys, isPlaceholder y.tokens = true) :
    ∃ y, ys = [y] ∧ Alike x y := by
  obtain ⟨front, y, back, rfl, hAlike, hNew, -⟩ := h
  have hNone : front ++ back = [] := by
    refine List.eq_nil_iff_forall_not_mem.2 fun z hz => ?_
    have hMem : z ∈ front ++ y :: back := List.perm_middle.mem_iff.2 (List.mem_cons_of_mem _ hz)
    have hDoes := (hNew z hz).1.noPlaceholder
    rw [hAll z hMem] at hDoes
    cases hDoes
  obtain ⟨rfl, rfl⟩ := List.append_eq_nil_iff.1 hNone
  exact ⟨y, rfl, hAlike⟩

end Grows

/-! ## Many lines -/

/-- Lines each of which is replaced by some. -/
inductive Expands (E : Line → List Line → Prop) : List Line → List Line → Prop where
  | nil : Expands E [] []
  | cons {x : Line} {ys xs zs : List Line} :
    E x ys → Expands E xs zs → Expands E (x :: xs) (ys ++ zs)

namespace Expands

variable {E : Line → List Line → Prop} {M N : List Line}

theorem takeWhile_indent (hE : ∀ x ys, E x ys → Grows x ys) (h : Expands E M N) (n : Nat) :
    Expands E (M.takeWhile fun l => n < l.indent) (N.takeWhile fun l => n < l.indent) := by
  induction h with
  | nil => exact .nil
  | @cons x ys xs zs hx hMore ih =>
    have hIndent := (hE x ys hx).indent_eq
    by_cases hn : n < x.indent
    · have hAll : ∀ y ∈ ys, decide (n < y.indent) = true := by
        intro y hy
        rw [hIndent y hy]
        exact decide_eq_true hn
      rw [List.takeWhile_cons_of_pos (by simpa using hn), List.takeWhile_append_of_pos hAll]
      exact .cons hx ih
    · obtain ⟨y, more, rfl⟩ := (hE x ys hx).exists_cons
      have hy : ¬ n < y.indent := by
        rw [hIndent y (List.mem_cons_self ..)]
        exact hn
      rw [List.takeWhile_cons_of_neg (by simpa using hn), List.cons_append,
        List.takeWhile_cons_of_neg (by simpa using hy)]
      exact .nil

theorem classesIn_append_of_none {ys : List Line}
    (h : ∀ y ∈ ys, ClassHeader.ofTokens? y.tokens = none) (zs : List Line) :
    classesIn (ys ++ zs) = classesIn zs := by
  induction ys with
  | nil => rfl
  | cons y ys ih =>
    obtain ⟨hy, hMore⟩ := List.forall_mem_cons.1 h
    rw [List.cons_append, classesIn, hy]
    exact ih hMore

/-- A class of grown lines: its header, elsewhere, and its block, grown. -/
structure SameClass (E : Line → List Line → Prop) (c c' : ClassBlock) : Prop where
  name : c'.header.name = c.header.name
  block : Expands E c.block c'.block

/-- Grown lines have the classes they had. -/
theorem classes (hE : ∀ x ys, E x ys → Grows x ys) (h : Expands E M N) :
    List.Forall₂ (SameClass E) (classesIn M) (classesIn N) := by
  induction h with
  | nil => exact .nil
  | @cons x ys xs zs hx hMore ih =>
    rcases (hE x ys hx).cases with ⟨y, rfl, hAlike⟩ | ⟨hPlaceholder, hNone⟩
    · have hHeader := hAlike.classHeader
      rw [List.singleton_append, classesIn, classesIn]
      cases hClass : ClassHeader.ofTokens? x.tokens with
      | none =>
        cases hClass' : ClassHeader.ofTokens? y.tokens with
        | none => exact ih
        | some header' => rw [hClass, hClass'] at hHeader; cases hHeader
      | some header =>
        cases hClass' : ClassHeader.ofTokens? y.tokens with
        | none => rw [hClass, hClass'] at hHeader; cases hHeader
        | some header' =>
          rw [hClass, hClass'] at hHeader
          refine .cons ⟨Option.some.inj hHeader, ?_⟩ ih
          dsimp only
          rw [hAlike.indent_eq]
          exact hMore.takeWhile_indent hE x.indent
    · rw [classesIn, classHeader_of_isPlaceholder hPlaceholder,
        classesIn_append_of_none fun y hy => (hNone y hy).1]
      exact ih

/-! ## Direct statements -/

/-- The initializer that a direct statement of a class is, if it is one. -/
def asInitializer? (statement : Line × List Line) : Option (Line × FunctionHeader × List Line) :=
  match FunctionHeader.ofTokens? statement.1.tokens with
  | some header =>
    if header.name = initializerName then some (statement.1, header, statement.2) else none
  | none => none

theorem asInitializer?_none {line : Line} {inner : List Line}
    (h : FunctionHeader.ofTokens? line.tokens = none) : asInitializer? (line, inner) = none := by
  rw [asInitializer?, h]

theorem asInitializer?_some {line : Line} {inner : List Line} {header : FunctionHeader}
    (h : FunctionHeader.ofTokens? line.tokens = some header) :
    asInitializer? (line, inner) =
      if header.name = initializerName then some (line, header, inner) else none := by
  rw [asInitializer?, h]

theorem initializersIn_eq (block : List Line) :
    initializersIn block = (FieldFill.directStatements block).filterMap asInitializer? :=
  rfl

theorem filterMap_statementsAt_of_none {ys : List Line}
    (h : ∀ y ∈ ys, FunctionHeader.ofTokens? y.tokens = none) (n : Nat) (zs : List Line) :
    (statementsAt n (ys ++ zs)).filterMap asInitializer? =
      (statementsAt n zs).filterMap asInitializer? := by
  induction ys with
  | nil => rfl
  | cons y ys ih =>
    obtain ⟨hy, hMore⟩ := List.forall_mem_cons.1 h
    rw [List.cons_append, statementsAt]
    split
    · rw [List.filterMap_cons, asInitializer?_none hy]
      exact ih hMore
    · exact ih hMore

/-- An initializer of grown lines: its line, elsewhere, and the lines below it, grown. -/
structure SameInitializer (E : Line → List Line → Prop)
    (one other : Line × FunctionHeader × List Line) : Prop where
  line : E one.1 [other.1]
  header : FunctionHeader.ofTokens? one.1.tokens = some one.2.1
  name : one.2.1.name = initializerName
  alike : AlikeHeader one.2.1 other.2.1
  inner : Expands E one.2.2 other.2.2

theorem filterMap_statementsAt (hE : ∀ x ys, E x ys → Grows x ys) (h : Expands E M N) (n : Nat) :
    List.Forall₂ (SameInitializer E) ((statementsAt n M).filterMap asInitializer?)
      ((statementsAt n N).filterMap asInitializer?) := by
  induction h with
  | nil => exact .nil
  | @cons x ys xs zs hx hMore ih =>
    rcases (hE x ys hx).cases with ⟨y, rfl, hAlike⟩ | ⟨hPlaceholder, hNone⟩
    · rw [List.singleton_append, statementsAt, statementsAt, hAlike.indent_eq]
      split
      · have hInner := hMore.takeWhile_indent hE n
        rw [List.filterMap_cons, List.filterMap_cons]
        rcases hAlike.functionHeader with ⟨hHeader, hHeader'⟩ | ⟨_, _, hHeader, hHeader', hSame⟩
        · rw [asInitializer?_none hHeader, asInitializer?_none hHeader']
          exact ih
        · obtain ⟨own, offset, offset', rfl, rfl⟩ := hSame
          rw [asInitializer?_some hHeader, asInitializer?_some hHeader']
          -- the name is the same in both places
          by_cases hName : own.name = initializerName
          · rw [if_pos (show (own.shift offset).name = initializerName from hName),
              if_pos (show (own.shift offset').name = initializerName from hName)]
            exact .cons ⟨hx, hHeader, hName, ⟨own, offset, offset', rfl, rfl⟩, hInner⟩ ih
          · rw [if_neg (show ¬ (own.shift offset).name = initializerName from hName),
              if_neg (show ¬ (own.shift offset').name = initializerName from hName)]
            exact ih
      · exact ih
    · have hOne : ∀ y ∈ [x], FunctionHeader.ofTokens? y.tokens = none := by
        intro y hy
        rw [List.mem_singleton.1 hy]
        exact functionHeader_of_isPlaceholder hPlaceholder
      rw [← List.singleton_append, filterMap_statementsAt_of_none hOne,
        filterMap_statementsAt_of_none fun y hy => (hNone y hy).2]
      exact ih

theorem directStatements_eq (hE : ∀ x ys, E x ys → Grows x ys) (h : Expands E M N) {x : Line}
    {xs : List Line} (hM : M = x :: xs) :
    FieldFill.directStatements N = statementsAt x.indent N := by
  subst hM
  cases h with
  | cons hx hMore =>
    obtain ⟨y, more, rfl⟩ := (hE _ _ hx).exists_cons
    have hy := (hE _ _ hx).indent_eq y (List.mem_cons_self ..)
    rw [List.cons_append, FieldFill.directStatements, hy]

/-- Grown lines have the initializers they had. -/
theorem initializers (hE : ∀ x ys, E x ys → Grows x ys) (h : Expands E M N) :
    List.Forall₂ (SameInitializer E) (initializersIn M) (initializersIn N) := by
  cases hM : M with
  | nil =>
    subst hM
    cases h
    exact .nil
  | cons x xs =>
    rw [initializersIn_eq, initializersIn_eq, h.directStatements_eq hE hM, ← hM,
      show FieldFill.directStatements M = statementsAt x.indent M by rw [hM]; rfl]
    exact h.filterMap_statementsAt hE x.indent

theorem mem_statementsAt_append {ys zs : List Line} {n : Nat} {y : Line} (hy : y ∈ ys)
    (hIndent : y.indent = n) : ∃ inner, (y, inner) ∈ statementsAt n (ys ++ zs) := by
  obtain ⟨front, back, rfl⟩ := List.append_of_mem hy
  subst hIndent
  rw [List.append_assoc, List.cons_append]
  exact ⟨_, mem_statementsAt front (back ++ zs) y⟩

theorem mem_statementsAt_of_mem {ys zs : List Line} {n : Nat} {s : Line × List Line}
    (h : s ∈ statementsAt n zs) : s ∈ statementsAt n (ys ++ zs) := by
  induction ys with
  | nil => exact h
  | cons y ys ih =>
    rw [List.cons_append, statementsAt]
    split
    · exact List.mem_cons_of_mem _ ih
    · exact ih

/-- What a direct statement grows to are direct statements. -/
theorem exists_of_direct (hE : ∀ x ys, E x ys → Grows x ys) (h : Expands E M N) {n : Nat}
    {s : Line × List Line} (hs : s ∈ statementsAt n M) :
    ∃ ys, E s.1 ys ∧ ∀ y ∈ ys, ∃ inner, (y, inner) ∈ statementsAt n N := by
  induction h with
  | nil => cases hs
  | @cons x ys xs zs hx hMore ih =>
    have hLater : s ∈ statementsAt n xs → ∃ ys', E s.1 ys' ∧
        ∀ y ∈ ys', ∃ inner, (y, inner) ∈ statementsAt n (ys ++ zs) := by
      intro hMem
      obtain ⟨ys', hs', hAll⟩ := ih hMem
      refine ⟨ys', hs', fun y hy => ?_⟩
      obtain ⟨inner, hInner⟩ := hAll y hy
      exact ⟨inner, mem_statementsAt_of_mem hInner⟩
    rw [statementsAt] at hs
    split at hs
    · rename_i hIndent
      rcases List.mem_cons.1 hs with rfl | hMem
      · refine ⟨ys, hx, fun y hy => ?_⟩
        exact mem_statementsAt_append hy (((hE _ _ hx).indent_eq y hy).trans hIndent)
      · exact hLater hMem
    · exact hLater hs

end Expands

end FieldFill

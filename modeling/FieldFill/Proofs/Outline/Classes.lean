import FieldFill.Plan.Document

/-!
# The classes of a program and what is filled in them

A class is filled when it has one initializer with a body on lines of its own, when there is
something to assign, and when the settings allow it. Everything that makes the difference is stated
once here, so that no later argument takes the plan of a class apart.

Main definitions:

* `ClassBlock`, `classesIn` — the classes among the lines of a program, with their blocks.
* `Site` — an initializer, its body, and the assignments for it.
* `Site.Fills`, `Site.insertion` — what is filled, and with what.

Main results:

* `locate_eq` — the outline has one entry for every class.
* `planClass_eq_some_iff` — a class has an insertion when there is a site that is filled.
-/

namespace FieldFill

/-! ## Classes -/

/-- A class of a program: the line of its header, the header, and the lines of its block. -/
structure ClassBlock where
  line : Line
  header : ClassHeader
  block : List Line
  deriving DecidableEq, Repr

def ClassBlock.entry (source : Text) (c : ClassBlock) : ClassEntry :=
  ⟨c.header.name, c.line.row, lookupIn source c.line.start c.header c.block⟩

def classesIn : List Line → List ClassBlock
  | [] => []
  | line :: rest =>
    match ClassHeader.ofTokens? line.tokens with
    | some header => ⟨line, header, rest.takeWhile fun l => line.indent < l.indent⟩ :: classesIn rest
    | none => classesIn rest

theorem entries_eq (source : Text) (ls : List Line) :
    entries source ls = (classesIn ls).map (ClassBlock.entry source) := by
  induction ls with
  | nil => rfl
  | cons line rest ih =>
    rw [entries, classesIn]
    cases ClassHeader.ofTokens? line.tokens with
    | none => exact ih
    | some header => rw [List.map_cons, ← ih]; rfl

theorem exists_of_mem_classesIn {ls : List Line} {c : ClassBlock} (h : c ∈ classesIn ls) :
    ∃ done rest, ls = done ++ c.line :: rest ∧
      ClassHeader.ofTokens? c.line.tokens = some c.header ∧
      c.block = rest.takeWhile fun l => c.line.indent < l.indent := by
  induction ls with
  | nil => cases h
  | cons line rest ih =>
    have hLater : c ∈ classesIn rest → ∃ done more, line :: rest = done ++ c.line :: more ∧
        ClassHeader.ofTokens? c.line.tokens = some c.header ∧
        c.block = more.takeWhile fun l => c.line.indent < l.indent := by
      intro hMem
      obtain ⟨done, more, hRest, hHeader, hBlock⟩ := ih hMem
      exact ⟨line :: done, more, by rw [hRest]; rfl, hHeader, hBlock⟩
    rw [classesIn] at h
    split at h
    · rename_i header hHeader
      rcases List.mem_cons.1 h with rfl | hMem
      · exact ⟨[], rest, rfl, hHeader, rfl⟩
      · exact hLater hMem
    · exact hLater h

/-- The outline of a program has one entry for each class, in order. -/
theorem locate_eq (source : Text) :
    locate source = (classesIn (layout source)).map (ClassBlock.entry source) :=
  entries_eq source (layout source)

/-- A line is a statement at its own indentation. -/
theorem mem_statementsAt (before after : List Line) (line : Line) :
    (line, after.takeWhile fun l => line.indent < l.indent) ∈
      statementsAt line.indent (before ++ line :: after) := by
  induction before with
  | nil =>
    rw [List.nil_append, statementsAt, if_pos rfl]
    exact List.mem_cons_self ..
  | cons first before ih =>
    rw [List.cons_append, statementsAt]
    split
    · exact List.mem_cons_of_mem _ ih
    · exact ih

theorem exists_of_mem_statementsAt {n : Nat} {lines : List Line} {s : Line × List Line}
    (h : s ∈ statementsAt n lines) :
    ∃ front back, lines = front ++ s.1 :: back ∧ s.1.indent = n ∧
      s.2 = back.takeWhile fun l => n < l.indent := by
  induction lines with
  | nil => cases h
  | cons x lines ih =>
    have hLater : s ∈ statementsAt n lines → ∃ front back, x :: lines = front ++ s.1 :: back ∧
        s.1.indent = n ∧ s.2 = back.takeWhile fun l => n < l.indent := by
      intro hMem
      obtain ⟨front, back, rfl, hInner⟩ := ih hMem
      exact ⟨x :: front, back, rfl, hInner⟩
    rw [statementsAt] at h
    split at h
    · rename_i hIndent
      rcases List.mem_cons.1 h with rfl | hMem
      · exact ⟨[], lines, rfl, hIndent, rfl⟩
      · exact hLater hMem
    · exact hLater h

/-- A direct statement of a block stands in front of the lines below it, as deep as the first line of
the block. -/
theorem exists_of_mem_directStatements {block : List Line} {s : Line × List Line}
    (h : s ∈ directStatements block) :
    ∃ front back, block = front ++ s.1 :: (s.2 ++ back) ∧
      ∀ first ∈ block.head?, s.1.indent = first.indent := by
  cases block with
  | nil => cases h
  | cons first block =>
    obtain ⟨front, back, hBlock, hIndent, hInner⟩ := exists_of_mem_statementsAt h
    refine ⟨front, back.dropWhile fun l => first.indent < l.indent, ?_, fun x hx => ?_⟩
    · rw [hBlock, hInner, List.takeWhile_append_dropWhile]
    · rw [hIndent, Option.some.inj hx]

/-- An initializer of a class is one of its direct statements. -/
theorem mem_directStatements_of_initializer {block inner : List Line} {line : Line}
    {header : FunctionHeader} (h : (line, header, inner) ∈ initializersIn block) :
    (line, inner) ∈ directStatements block ∧
      FunctionHeader.ofTokens? line.tokens = some header ∧ header.name = initializerName := by
  obtain ⟨⟨line', inner'⟩, hMem, hSome⟩ := List.mem_filterMap.1 h
  dsimp only at hSome
  split at hSome
  · rename_i hHeader
    split at hSome
    · rename_i hName
      obtain ⟨rfl, hEq⟩ := Prod.mk.inj (Option.some.inj hSome)
      obtain ⟨rfl, rfl⟩ := Prod.mk.inj hEq
      exact ⟨hMem, hHeader, hName⟩
    · cases hSome
  · cases hSome

/-- An initializer of a class stands in front of the lines below it. -/
theorem exists_of_mem_initializersIn {block inner : List Line} {line : Line}
    {header : FunctionHeader} (h : (line, header, inner) ∈ initializersIn block) :
    FunctionHeader.ofTokens? line.tokens = some header ∧ header.name = initializerName ∧
      ∃ front back, block = front ++ line :: (inner ++ back) := by
  obtain ⟨hDirect, hHeader, hName⟩ := mem_directStatements_of_initializer h
  obtain ⟨front, back, hBlock, -⟩ := exists_of_mem_directStatements hDirect
  exact ⟨hHeader, hName, front, back, hBlock⟩

/-- The initializer of a class stands among the lines of the program. -/
theorem exists_layout_of_initializer {ls inner : List Line} {c : ClassBlock} {line : Line}
    {header : FunctionHeader} (hClass : c ∈ classesIn ls)
    (h : (line, header, inner) ∈ initializersIn c.block) :
    FunctionHeader.ofTokens? line.tokens = some header ∧ header.name = initializerName ∧
      ∃ front back, ls = front ++ line :: (inner ++ back) := by
  obtain ⟨done, rest, hLines, -, hBlock⟩ := exists_of_mem_classesIn hClass
  obtain ⟨hHeader, hName, front, back, hSplit⟩ := exists_of_mem_initializersIn h
  obtain ⟨tail, hTail⟩ : ∃ tail, rest = c.block ++ tail :=
    ⟨_, by rw [hBlock, List.takeWhile_append_dropWhile]⟩
  refine ⟨hHeader, hName, done ++ c.line :: front, back ++ tail, ?_⟩
  rw [hLines, hTail, hSplit]
  simp

/-! ## Sites -/

/-- The statements of the body of an initializer, each with the place where it starts. -/
def bodyStatements (header : FunctionHeader) (inner : List Line) : List (Nat × List Token) :=
  match header.rest with
  | [] => (directStatements inner).map fun s => (s.1.start, s.1.tokens)
  | first :: rest => [(first.start, first :: rest)]

/-- A body on lines of its own begins with the first of these lines. -/
theorem bodyStatements_cons {header : FunctionHeader} (h : header.rest = []) (x : Line)
    (xs : List Line) :
    bodyStatements header (x :: xs) =
      (x.start, x.tokens) :: (statementsAt x.indent xs).map fun s => (s.1.start, s.1.tokens) := by
  rw [bodyStatements, h]
  dsimp only
  rw [directStatements, statementsAt, if_pos rfl, List.map_cons]

theorem initializerOf?_eq (source : Text) (line : Line) (header : FunctionHeader)
    (inner : List Line) :
    initializerOf? source line header inner =
      (bodyOf source (bodyStatements header inner)).map fun body =>
        ⟨line.row, header.openParen, body⟩ := by
  unfold initializerOf? bodyStatements
  cases header.rest <;> rfl

/-- Where statements go into a body that starts with these tokens: behind them when they are strings,
or else to the start of their line. -/
def placeOf (source : Text) (start : Nat) (first : List Token) : Nat :=
  match stringsEnd? (first.takeWhile fun t => !t.isMark ';') with
  | some stop => nextLineStart source stop
  | none => start - byteLength (leadAt source start)

/-- An initializer, the statements of its body, and the assignments for it. -/
structure Site where
  line : Line
  header : FunctionHeader
  inner : List Line
  start : Nat
  first : List Token
  more : List (Nat × List Token)
  made : List Assignment

namespace Site

/-- The site is the one of the class with this block, and it is filled. -/
structure Fills (source : Text) (settings : Settings) (block : List Line) (s : Site) : Prop where
  only : initializersIn block = [(s.line, s.header, s.inner)]
  body : bodyStatements s.header s.inner = (s.start, s.first) :: s.more
  /-- The body does not start on the line of the header. -/
  lead : allBlank (leadAt source s.start) = true
  placeholders : settings.bodyPolicy = .trivialOnly →
    ∀ statement ∈ (s.start, s.first) :: s.more, isPlaceholder statement.2 = true
  signature : signatureFrom source s.header.openParen >>= assignments settings = .ok s.made
  made_ne : s.made ≠ []

def insertion (source : Text) (s : Site) : Insertion :=
  ⟨placeOf source s.start s.first, leadAt source s.start, s.made.map Assignment.render⟩

end Site

/-! ## The plan of a class -/

section

variable {source : Text} {settings : Settings} {c : ClassBlock}

/-- The body made of some statements: its shape and the place for new statements. -/
theorem bodyOf_cons (source : Text) (start : Nat) (first : List Token)
    (more : List (Nat × List Token)) :
    bodyOf source ((start, first) :: more) =
      some (if allBlank (leadAt source start) then
        .block (placeOf source start first) (leadAt source start)
          (if ((start, first) :: more).all fun s => isPlaceholder s.2 then .trivial else .nonTrivial)
      else .inline) := by
  unfold bodyOf
  simp only [List.head?_cons, Option.map_some]
  by_cases hLead : allBlank (leadAt source start) = true
  · simp only [hLead, Bool.not_true, Bool.false_eq_true, if_false, if_true]
    rfl
  · simp only [hLead, Bool.not_false, if_true, Bool.false_eq_true, if_false]

/-- A class with one initializer is planned by its body. -/
theorem planClass_of_only {line : Line} {header : FunctionHeader} {inner : List Line}
    (h : initializersIn c.block = [(line, header, inner)]) :
    planClass source settings (c.entry source) =
      match bodyOf source (bodyStatements header inner) with
      | some body =>
        let (outcome, insertion) :=
          planInitializer source settings c.header.name ⟨line.row, header.openParen, body⟩
        (⟨c.header.name, line.row, outcome⟩, insertion)
      | none => (⟨c.header.name, c.line.row, .noInitializer⟩, none) := by
  unfold planClass ClassBlock.entry lookupIn
  simp only [h, initializerOf?_eq]
  cases bodyOf source (bodyStatements header inner) <;> rfl

theorem Site.Fills.planClass_eq {s : Site} (h : s.Fills source settings c.block) :
    planClass source settings (c.entry source) =
      (⟨c.header.name, s.line.row, .generated (s.made.map Assignment.render)⟩,
        some (s.insertion source)) := by
  rw [planClass_of_only h.only, h.body, bodyOf_cons, if_pos h.lead]
  obtain ⟨first, made, hMade⟩ := List.exists_cons_of_ne_nil h.made_ne
  have hSignature := h.signature
  rw [hMade] at hSignature
  have hShape : ((if (((s.start, s.first) :: s.more).all fun x => isPlaceholder x.2) = true
      then Shape.trivial else .nonTrivial) = .nonTrivial && settings.bodyPolicy = .trivialOnly) =
      false := by
    by_cases hPolicy : settings.bodyPolicy = .trivialOnly
    · rw [if_pos (List.all_eq_true.2 (h.placeholders hPolicy))]
      rfl
    · simp [hPolicy]
  simp only [planInitializer, hSignature, fillBody]
  rw [if_neg (by simpa using hShape), Site.insertion, hMade]

/-- A plan of a class that puts nothing in. -/
def IsIdle (planned : Report × Option Insertion) : Prop :=
  planned.2 = none ∧ ∀ statements, planned.1.outcome ≠ .generated statements

/-- A class without an initializer, or with several, is left alone. -/
theorem isIdle_of_not_only (h : ∀ one, initializersIn c.block ≠ [one]) :
    IsIdle (planClass source settings (c.entry source)) := by
  unfold planClass ClassBlock.entry lookupIn
  match hList : initializersIn c.block with
  | [one] => exact absurd hList (h one)
  | a :: b :: more => exact ⟨rfl, fun _ => nofun⟩
  | [] =>
    unfold recover
    dsimp only
    -- the search of the lines of the class finds no body
    match recoveredHeaders source c.line.start c.header.nameEnd with
    | [] => exact ⟨rfl, fun _ => nofun⟩
    | [openParen] => exact ⟨rfl, fun _ => nofun⟩
    | a :: b :: more => exact ⟨rfl, fun _ => nofun⟩

theorem isIdle_planInitializer {className : Text} {row : Nat} {initializer : Initializer}
    (h : ∀ made, signatureFrom source initializer.openParen >>= assignments settings = .ok made →
      made ≠ [] → initializer.body = .inline ∨ ∃ insertAt indent,
        initializer.body = .block insertAt indent .nonTrivial ∧
        settings.bodyPolicy = .trivialOnly) :
    IsIdle (⟨className, row, (planInitializer source settings className initializer).1⟩,
      (planInitializer source settings className initializer).2) := by
  unfold planInitializer
  match hMade : signatureFrom source initializer.openParen >>= assignments settings with
  | .error fault => exact ⟨rfl, fun _ => nofun⟩
  | .ok [] => exact ⟨rfl, fun _ => nofun⟩
  | .ok (first :: made) =>
    rcases h _ hMade (List.cons_ne_nil first made) with hBody | ⟨insertAt, indent, hBody, hPolicy⟩
    · simp only [hBody, fillBody]
      exact ⟨rfl, fun _ => nofun⟩
    · simp only [hBody, fillBody, hPolicy, decide_true, Bool.and_self, if_true]
      exact ⟨rfl, fun _ => nofun⟩

/-- **A class is filled at a site, or left alone.** -/
theorem exists_fills_or_isIdle (source : Text) (settings : Settings) (c : ClassBlock) :
    (∃ s : Site, s.Fills source settings c.block) ∨
      IsIdle (planClass source settings (c.entry source)) := by
  by_cases hOnly : ∃ one, initializersIn c.block = [one]
  · obtain ⟨⟨line, header, inner⟩, hOnly⟩ := hOnly
    rw [planClass_of_only hOnly]
    match hBody : bodyStatements header inner with
    | [] => exact .inr ⟨rfl, fun _ => nofun⟩
    | (start, first) :: more =>
      rw [bodyOf_cons]
      by_cases hLead : allBlank (leadAt source start) = true
      · by_cases hMade : ∃ made,
            signatureFrom source header.openParen >>= assignments settings = .ok made ∧ made ≠ []
        · obtain ⟨made, hMade, hne⟩ := hMade
          by_cases hShape : settings.bodyPolicy = .trivialOnly →
              ∀ statement ∈ (start, first) :: more, isPlaceholder statement.2 = true
          · exact .inl ⟨⟨line, header, inner, start, first, more, made⟩, hOnly, hBody, hLead,
              hShape, hMade, hne⟩
          · -- the body does something, and the settings ask for one that does not
            obtain ⟨hPolicy, hAll⟩ := Classical.not_imp.1 hShape
            refine .inr (isIdle_planInitializer fun _ _ _ => .inr
              ⟨placeOf source start first, leadAt source start, ?_, hPolicy⟩)
            dsimp only
            rw [if_pos hLead, if_neg fun h => hAll (List.all_eq_true.1 h)]
        · exact .inr (isIdle_planInitializer fun made h hne => absurd ⟨made, h, hne⟩ hMade)
      · exact .inr (isIdle_planInitializer fun _ _ _ => .inl (if_neg hLead))
  · exact .inr (isIdle_of_not_only fun one hOne => hOnly ⟨one, hOne⟩)

/-- A class has an insertion when there is a site that is filled. -/
theorem planClass_eq_some_iff {i : Insertion} :
    (planClass source settings (c.entry source)).2 = some i ↔
      ∃ s : Site, s.Fills source settings c.block ∧ i = s.insertion source := by
  constructor
  · intro h
    rcases exists_fills_or_isIdle source settings c with ⟨s, hs⟩ | hIdle
    · rw [hs.planClass_eq] at h
      exact ⟨s, hs, (Option.some.inj h).symm⟩
    · rw [hIdle.1] at h
      cases h
  · rintro ⟨s, hs, rfl⟩
    rw [hs.planClass_eq]

theorem planClass_className (source : Text) (settings : Settings) (entry : ClassEntry) :
    (planClass source settings entry).1.className = entry.name := by
  unfold planClass
  split <;> rfl

/-- The reports of a plan, by the classes of the document. -/
theorem reports_eq (source : Text) (settings : Settings) :
    (planDocument source settings).reports = (classesIn (layout source)).map fun c =>
      (planClass source settings (c.entry source)).1 := by
  simp only [planDocument, planEntries, locate_eq, List.map_map]
  rfl

/-- The insertions of a plan, by the classes of the document. -/
theorem insertions_eq (source : Text) (settings : Settings) :
    (planDocument source settings).insertions = (classesIn (layout source)).filterMap fun c =>
      (planClass source settings (c.entry source)).2 := by
  simp only [planDocument, planEntries, locate_eq, List.map_map, List.filterMap_map]
  rfl

theorem mem_insertions_iff {i : Insertion} :
    i ∈ (planDocument source settings).insertions ↔
      ∃ c ∈ classesIn (layout source), ∃ s : Site, s.Fills source settings c.block ∧
        i = s.insertion source := by
  rw [insertions_eq, List.mem_filterMap]
  exact exists_congr fun c => and_congr_right fun _ => planClass_eq_some_iff

end

end FieldFill

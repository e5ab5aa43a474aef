import FieldFill.Proofs.Plan.Filled

/-!
# A second run

In a program whose lines are settled, the statements of a plan land in the bodies they are for. Each
of these bodies then begins with a statement that does something, so the next plan leaves it alone,
and every other class is what it was.

Main results:

* `Growing.leadAt_eq`, `Growing.signatureFrom_eq` — what a plan reads at a line, before and after.
* `not_fills` — no class of a filled program is filled.
* `planClass_of_fills` — a class that was filled is skipped.
* `Program.document_mode_idempotent` — the second run changes nothing.
-/

namespace FieldFill

/-! ## What is read at a line, before and after -/

section

variable {p q : Program} {list : List Insertion} {s : Spot p} {t : Spot q} {front back : List Line}
  {x y inner : Text} {place : Nat}

/-- What follows a logical line begins with no quote, also when a carriage return ends the line. -/
theorem apart_behind (l : Text) (more : List Text) :
    Apart l (behind more) ∧ Apart l ('\r' :: behind more) := by
  have hApart : ∀ {c : Char} {rest : Text}, isQuote c = false → Apart l (c :: rest) := by
    intro c rest hc d hd _ hHead
    obtain rfl := Option.some.inj hHead
    rw [hc] at hd
    cases hd
  refine ⟨?_, hApart rfl⟩
  cases more with
  | nil => exact Apart.nil_right l
  | cons m more => exact hApart rfl

theorem Growing.exists_tail (h : Growing list s t front back) :
    ∃ tail, q.text = ahead t.before ++ (s.text ++ tail) ∧ Apart s.text tail := by
  obtain ⟨hBehind, hReturn⟩ := apart_behind s.text t.more
  rcases h.text with hSame | hEnded
  · exact ⟨behind t.more, by rw [t.text_eq, hSame], hBehind⟩
  · exact ⟨'\r' :: behind t.more, by rw [t.text_eq, hEnded, List.append_assoc]; rfl, hReturn⟩

theorem Growing.leadAt_eq (h : Growing list s t front back)
    (hSplit : splitAt? s.text place = some (x, y)) :
    leadAt q.text (place + t.offset) = leadAt p.text (place + s.offset) := by
  obtain ⟨tail, hText, -⟩ := h.exists_tail
  rw [s.leadAt_eq hSplit, hText, Spot.offset, leadAt_inside hSplit]

theorem Growing.signatureFrom_eq (h : Growing list s t front back)
    (hSignature : signatureFrom s.text place = .ok inner) :
    signatureFrom q.text (place + t.offset) = signatureFrom p.text (place + s.offset) := by
  obtain ⟨tail, hText, hApart⟩ := h.exists_tail
  rw [hText, s.text_eq, Spot.offset, Spot.offset, signatureFrom_inside hSignature _ hApart,
    signatureFrom_inside hSignature _ (apart_behind s.text s.more).1]

end

/-! ## Initializers, before and after -/

/-- A line that has nothing beside it in the filled program. -/
theorem Growth.exists_alone {p q : Program} {list : List Insertion} {x y : Line}
    (h : Growth p q list x [y]) :
    ∃ (s : Spot p) (t : Spot q), x = s.line ∧ y = t.line ∧ Growing list s t [] [] := by
  obtain ⟨s, t, front, back, hx, hy, hGrowing⟩ := h
  cases front with
  | nil =>
    obtain ⟨rfl, hBack⟩ := List.cons.inj hy
    rw [← hBack] at hGrowing
    exact ⟨s, t, hx, rfl, hGrowing⟩
  | cons z front => simp at hy

section

variable {p q : Program} {list : List Insertion} {settings : Settings} {c c' : ClassBlock}

/-- The header of an initializer in both programs, at its places. -/
structure Twin (p q : Program) (list : List Insertion) (s : Spot p) (t : Spot q)
    (own header header' : FunctionHeader) : Prop where
  growing : Growing list s t [] []
  tokens : FunctionHeader.ofTokens? s.own.tokens = some own
  before : header = own.shift s.offset
  after : header' = own.shift t.offset

theorem exists_twin {line line' : Line} {header header' : FunctionHeader}
    (h : Growth p q list line [line']) (hHeader : FunctionHeader.ofTokens? line.tokens = some header)
    (hHeader' : FunctionHeader.ofTokens? line'.tokens = some header') :
    ∃ s t own, line = s.line ∧ line' = t.line ∧ Twin p q list s t own header header' := by
  obtain ⟨s, t, rfl, rfl, hGrowing⟩ := h.exists_alone
  rw [Spot.line, Line.moved, FunctionHeader.ofTokens?_shift] at hHeader hHeader'
  obtain ⟨own, hOwn, hBefore⟩ := Option.map_eq_some_iff.1 hHeader
  rw [hGrowing.own, hOwn] at hHeader'
  exact ⟨s, t, own, rfl, rfl, hGrowing, hOwn, hBefore.symm, (Option.some.inj hHeader').symm⟩

namespace Twin

variable {s : Spot p} {t : Spot q} {own header header' : FunctionHeader}

theorem rest_eq_nil_iff (h : Twin p q list s t own header header') :
    header'.rest = [] ↔ header.rest = [] := by
  rw [h.before, h.after, FunctionHeader.shift, FunctionHeader.shift, List.map_eq_nil_iff,
    List.map_eq_nil_iff]

theorem name_eq (h : Twin p q list s t own header header')
    (hName : header.name = initializerName) : own.name = initializerName := by
  rw [← hName, h.before]
  rfl

theorem signatureFrom_eq (h : Twin p q list s t own header header')
    (hSettled : ∀ l ∈ p.lines, Settled l) (hName : header.name = initializerName) :
    signatureFrom q.text header'.openParen = signatureFrom p.text header.openParen := by
  have hOk := (hSettled s.text s.mem_lines).signature s.own s.code own h.tokens (h.name_eq hName)
  cases hSignature : signatureFrom s.text own.openParen with
  | error fault => rw [hSignature] at hOk; cases hOk
  | ok inner =>
    rw [h.before, h.after]
    exact h.growing.signatureFrom_eq hSignature

/-- A body on the line of the header is not on a line of its own afterwards. -/
theorem leadAt_rest (h : Twin p q list s t own header header')
    (hSettled : ∀ l ∈ p.lines, Settled l) (hName : header.name = initializerName) :
    ∀ u ∈ header'.rest.head?, allBlank (leadAt q.text u.start) = false := by
  intro u hu
  rw [h.after, FunctionHeader.shift, List.head?_map] at hu
  obtain ⟨v, hv, rfl⟩ := Option.map_eq_some_iff.1 hu
  have hMem : v ∈ s.own.tokens := mem_of_mem_rest h.tokens (List.mem_of_head? hv)
  obtain ⟨⟨x, y, hStart⟩, -⟩ := s.isLogicalLine.splitAt?_of_mem_tokens s.code hMem
  have hNot :=
    (hSettled s.text s.mem_lines).body s.own s.code own h.tokens (h.name_eq hName) v hv
  rw [Token.start_shift, h.growing.leadAt_eq hStart, s.leadAt_eq hStart]
  exact hNot

end Twin

/-! ## First statements, before and after -/

/-- The text in front of a first statement is the same, when nothing was put in front of it. -/
theorem Growing.leadAt_line {s : Spot p} {t : Spot q} {front back : List Line}
    (h : Growing list s t front back) : leadAt q.text t.line.start = leadAt p.text s.line.start := by
  obtain ⟨lead, code, hLead, -⟩ := s.isLogicalLine.exists_lead s.code
  have hOwn : t.line.start = s.own.start + t.offset := by rw [← h.own]; rfl
  rw [hOwn]
  exact h.leadAt_eq hLead

/-- In a class with one initializer, it is the one that the class has in the filled program. -/
theorem exists_twin_of_only (h : Expands.SameClass (Growth p q list) c c')
    {line line' : Line} {header header' : FunctionHeader} {inner inner' : List Line}
    (hOnly : initializersIn c.block = [(line, header, inner)])
    (hOnly' : initializersIn c'.block = [(line', header', inner')]) :
    ∃ s t own, line = s.line ∧ line' = t.line ∧ Twin p q list s t own header header' ∧
      header.name = initializerName ∧ Expands (Growth p q list) inner inner' := by
  have hBoth := h.block.initializers (fun _ _ => Growth.grows)
  rw [hOnly, hOnly'] at hBoth
  obtain ⟨hOne, -⟩ := List.forall₂_cons.1 hBoth
  obtain ⟨hHeader', -⟩ := exists_of_mem_initializersIn (hOnly' ▸ List.mem_singleton_self _)
  obtain ⟨s, t, own, hLine, hLine', hTwin⟩ := exists_twin hOne.line hOne.header hHeader'
  exact ⟨s, t, own, hLine, hLine', hTwin, hOne.name, hOne.inner⟩

theorem exists_only_iff (h : Expands.SameClass (Growth p q list) c c') :
    (∃ one, initializersIn c'.block = [one]) ↔ ∃ one, initializersIn c.block = [one] := by
  have hLength := (h.block.initializers fun _ _ => Growth.grows).length_eq
  rw [← List.length_eq_one_iff, ← List.length_eq_one_iff, hLength]

/-! ## Bodies, before and after -/

section

variable {inner inner' xs : List Line} {x : Line}

/-- The first statement of a body in both programs: it grows to the first statements. -/
theorem exists_first (h : Expands (Growth p q list) (x :: xs) inner') :
    ∃ y ys zs, inner' = y :: (ys ++ zs) ∧ Growth p q list x (y :: ys) ∧
      ∀ z ∈ y :: ys, ∃ below, (z, below) ∈ directStatements inner' := by
  have hDirect := h.directStatements_eq (fun _ _ => Growth.grows) rfl
  rw [hDirect]
  cases h with
  | @cons _ ys _ zs hx _ =>
    obtain ⟨y, more, rfl⟩ := hx.grows.exists_cons
    refine ⟨y, more, zs, rfl, hx, fun z hz => ?_⟩
    exact Expands.mem_statementsAt_append hz (hx.grows.indent_eq z hz)

/-- Where all statements of a body do nothing, they did nothing before. -/
theorem isPlaceholder_of_direct (h : Expands (Growth p q list) (x :: xs) inner')
    (hAll : ∀ s ∈ directStatements inner', isPlaceholder s.1.tokens = true) :
    ∀ s ∈ directStatements (x :: xs), isPlaceholder s.1.tokens = true := by
  intro s hs
  obtain ⟨ys, hGrowth, hDirect⟩ := h.exists_of_direct (fun _ _ => Growth.grows) hs
  rw [← h.directStatements_eq (fun _ _ => Growth.grows) rfl] at hDirect
  have hPlaceholders : ∀ y ∈ ys, isPlaceholder y.tokens = true := by
    intro y hy
    obtain ⟨below, hMem⟩ := hDirect y hy
    exact hAll _ hMem
  obtain ⟨y, rfl, hAlike⟩ := hGrowth.grows.alike_of_isPlaceholder hPlaceholders
  rw [← hAlike.isPlaceholder_eq]
  exact hPlaceholders y (List.mem_singleton_self y)

end

/-! ## The plan of a filled program -/

/-- A body that is filled in the filled program is on lines of its own, and all of it does
nothing. -/
theorem Twin.exists_body {s : Spot p} {t : Spot q} {own header : FunctionHeader} {site' : Site}
    (hTwin : Twin p q list s t own header site'.header) (hSettled : ∀ l ∈ p.lines, Settled l)
    (hName : header.name = initializerName) (hPolicy : settings.bodyPolicy = .trivialOnly)
    (h' : site'.Fills q.text settings c'.block) :
    header.rest = [] ∧ (∃ y ys, site'.inner = y :: ys ∧ y.start = site'.start) ∧
      ∀ st ∈ directStatements site'.inner, isPlaceholder st.1.tokens = true := by
  have hBody := h'.body
  have hRest : site'.header.rest = [] := by
    cases hRest : site'.header.rest with
    | nil => rfl
    | cons u rest =>
      have hNot := hTwin.leadAt_rest hSettled hName u (by rw [hRest]; rfl)
      rw [bodyStatements, hRest] at hBody
      obtain ⟨hStart, -⟩ := Prod.mk.inj (List.cons.inj hBody).1
      rw [hStart, h'.lead] at hNot
      cases hNot
  refine ⟨hTwin.rest_eq_nil_iff.1 hRest, ?_, fun st hst => ?_⟩
  · cases hInner : site'.inner with
    | nil =>
      rw [bodyStatements, hRest, hInner] at hBody
      cases hBody
    | cons y ys =>
      rw [hInner, bodyStatements_cons hRest] at hBody
      exact ⟨y, ys, rfl, (Prod.mk.inj (List.cons.inj hBody).1).1⟩
  · refine h'.placeholders hPolicy (st.1.start, st.1.tokens) ?_
    rw [← hBody, bodyStatements, hRest]
    exact List.mem_map_of_mem hst

/-- **No class of a filled program is filled**: it would have been filled at its first statement
before, and the new lines there do something. -/
theorem not_fills (hSettled : ∀ l ∈ p.lines, Settled l)
    (hPolicy : settings.bodyPolicy = .trivialOnly) (hDefault : IsName settings.defaultReceiver)
    (hc : c ∈ classesIn (layout p.text)) (hSame : Expands.SameClass (Growth p q list) c c')
    (hList : ∀ site : Site, site.Fills p.text settings c.block → site.insertion p.text ∈ list)
    (site' : Site) : ¬ site'.Fills q.text settings c'.block := by
  intro h'
  obtain ⟨⟨line, header, inner⟩, hOnly⟩ := (exists_only_iff hSame).1 ⟨_, h'.only⟩
  obtain ⟨s, t, own, -, -, hTwin, hName, hInner⟩ := exists_twin_of_only hSame hOnly h'.only
  obtain ⟨hRest, ⟨y, ys, hInner', hStart⟩, hNothing⟩ :=
    hTwin.exists_body hSettled hName hPolicy h'
  generalize site'.inner = inner' at hInner hInner' hNothing
  cases inner with
  | nil =>
    cases hInner
    cases hInner'
  | cons x xs =>
    obtain ⟨y', front, zs, hFirst, hGrowth, hDirect⟩ := exists_first hInner
    obtain ⟨rfl, -⟩ := List.cons.inj (hInner'.symm.trans hFirst)
    -- all of what the first statement grew to does nothing, so nothing was put beside it
    obtain ⟨z, hAlone, -⟩ := hGrowth.grows.alike_of_isPlaceholder fun z hz => by
      obtain ⟨below, hMem⟩ := hDirect z hz
      exact hNothing _ hMem
    obtain ⟨rfl, rfl⟩ := List.cons.inj hAlone
    obtain ⟨u, v, rfl, rfl, hGrowing⟩ := hGrowth.exists_alone
    let site : Site := ⟨line, header, u.line :: xs, u.line.start, u.line.tokens,
      (statementsAt u.line.indent xs).map fun s => (s.1.start, s.1.tokens), site'.made⟩
    have hFills : site.Fills p.text settings c.block := by
      refine ⟨hOnly, bodyStatements_cons hRest _ _, ?_, fun _ st hst => ?_, ?_, h'.made_ne⟩
      · rw [← hGrowing.leadAt_line, hStart]
        exact h'.lead
      · have hMem : st ∈ bodyStatements header (u.line :: xs) := by
          rw [bodyStatements_cons hRest]
          exact hst
        rw [bodyStatements, hRest] at hMem
        obtain ⟨d, hd, rfl⟩ := List.mem_map.1 hMem
        exact isPlaceholder_of_direct hInner hNothing d hd
      · rw [← hTwin.signatureFrom_eq hSettled hName]
        exact h'.signature
    obtain ⟨w, more, hw, -, hFits⟩ := hFills.exists_fits hSettled hPolicy hDefault hc
    obtain rfl : u = w := Spot.eq_of_line_eq (List.cons.inj hw).1
    exact hGrowing.filled _ (hList site hFills) hFits rfl

/-- What a first statement with new lines beside it grows to: the first of the lines is on a line of
its own, and one of them does something. -/
theorem Growing.exists_statement {s : Spot p} {t : Spot q} {front back : List Line}
    (h : Growing list s t front back) (hNew : front ++ back ≠ [])
    (hLead : allBlank (leadAt p.text s.line.start) = true) {y : Line} {ys : List Line}
    (hLines : y :: ys = front ++ t.line :: back) :
    allBlank (leadAt q.text y.start) = true ∧ ∃ z ∈ y :: ys, isPlaceholder z.tokens = false := by
  constructor
  · cases front with
    | nil =>
      obtain ⟨rfl, -⟩ := List.cons.inj hLines
      rw [h.leadAt_line]
      exact hLead
    | cons z front =>
      obtain ⟨rfl, -⟩ := List.cons.inj hLines
      exact (h.new y (by simp)).2.2
  · obtain ⟨z, hz⟩ := List.exists_mem_of_ne_nil _ hNew
    refine ⟨z, ?_, (h.new z hz).1.noPlaceholder⟩
    rw [hLines]
    exact List.perm_middle.mem_iff.2 (List.mem_cons_of_mem _ hz)

/-- **A class that was filled is skipped**, since the body of its initializer does something now. -/
theorem planClass_of_fills (hSettled : ∀ l ∈ p.lines, Settled l)
    (hPolicy : settings.bodyPolicy = .trivialOnly) (hDefault : IsName settings.defaultReceiver)
    (hc : c ∈ classesIn (layout p.text)) (hSame : Expands.SameClass (Growth p q list) c c')
    {site : Site} (h : site.Fills p.text settings c.block) (hList : site.insertion p.text ∈ list) :
    (planClass q.text settings (c'.entry q.text)).1.outcome = .skipped .nonTrivialBody := by
  obtain ⟨⟨line', header', inner'⟩, hOnly'⟩ := (exists_only_iff hSame).2 ⟨_, h.only⟩
  obtain ⟨s, t, own, -, -, hTwin, hName, hInner⟩ := exists_twin_of_only hSame h.only hOnly'
  obtain ⟨u, more, hFirst, hStart, hFits⟩ := h.exists_fits hSettled hPolicy hDefault hc
  have hRest' : header'.rest = [] := hTwin.rest_eq_nil_iff.2 (h.rest_eq_nil hSettled hc)
  rw [hFirst] at hInner
  obtain ⟨y, ys, zs, hInner', hGrowth, hDirect⟩ := exists_first hInner
  obtain ⟨u', v, front, back, hu, hLines, hGrowing⟩ := hGrowth
  obtain rfl : u = u' := Spot.eq_of_line_eq hu
  have hLead : allBlank (leadAt p.text u.line.start) = true := hStart ▸ h.lead
  obtain ⟨hLead', z, hz, hDoes⟩ :=
    hGrowing.exists_statement (hGrowing.filled _ hList hFits) hLead hLines
  -- the statement that does something is one of the body
  let body := bodyStatements header' inner'
  have hBody : body = (y.start, y.tokens) ::
      (statementsAt y.indent (ys ++ zs)).map fun s => (s.1.start, s.1.tokens) := by
    show bodyStatements header' inner' = _
    rw [hInner', bodyStatements_cons hRest']
  have hShape : (body.all fun s => isPlaceholder s.2) = false := by
    obtain ⟨below, hMem⟩ := hDirect z hz
    refine List.all_eq_false.2 ⟨(z.start, z.tokens), ?_, by simp [hDoes]⟩
    show _ ∈ bodyStatements header' inner'
    rw [bodyStatements, hRest']
    exact List.mem_map_of_mem (f := fun s : Line × List Line => (s.1.start, s.1.tokens)) hMem
  have hMade : signatureFrom q.text header'.openParen >>= assignments settings = .ok site.made := by
    rw [hTwin.signatureFrom_eq hSettled hName]
    exact h.signature
  obtain ⟨first, others, hOthers⟩ := List.exists_cons_of_ne_nil h.made_ne
  have hBodyOf : bodyOf q.text body = some (.block (placeOf q.text y.start y.tokens)
      (leadAt q.text y.start) .nonTrivial) := by
    rw [hBody, bodyOf_cons, if_pos hLead', ← hBody, hShape, if_neg Bool.false_ne_true]
  rw [planClass_of_only hOnly', hBodyOf]
  simp only [planInitializer, hMade, hOthers, fillBody, hPolicy, decide_true, Bool.and_self, if_true]

end

/-! ## The second run -/

theorem forall_of_forall₂ {α β : Type} {R : α → β → Prop} {P : β → Prop} {a : List α} {b : List β}
    (h : List.Forall₂ R a b) (hP : ∀ x y, R x y → P y) : ∀ y ∈ b, P y := by
  induction h with
  | nil => exact fun y hy => absurd hy List.not_mem_nil
  | cons hxy _ ih => exact List.forall_mem_cons.2 ⟨hP _ _ hxy, ih⟩

/-- **Filling a document is done in one run.** For a program whose lines are settled, bodies that do
nothing and a receiver that is a name: the statements of the plan are made, and the plan of the new
text changes nothing. It has the same classes, and each class that was filled is skipped for a body
that does something. -/
theorem Program.document_mode_idempotent (p : Program) (settings : Settings)
    (hSettled : ∀ l ∈ p.lines, Settled l) (hPolicy : settings.bodyPolicy = .trivialOnly)
    (hDefault : IsName settings.defaultReceiver) :
    ∃ out, (planDocument p.text settings).apply p.text = some out ∧
      (planDocument out settings).insertions = [] ∧
      (planDocument out settings).apply out = some out ∧
      List.Forall₂ (fun before after => after.className = before.className ∧
          ∀ statements, before.outcome = .generated statements →
            after.outcome = .skipped .nonTrivialBody)
        (planDocument p.text settings).reports (planDocument out settings).reports := by
  let plan := planDocument p.text settings
  have hMem : ∀ i, i ∈ plan.ordered.reverse ↔ i ∈ plan.insertions := fun i =>
    List.mem_reverse.trans (List.mergeSort_perm _ _).mem_iff
  have hFits : ∀ i ∈ plan.ordered.reverse, ∃ s : Spot p, Fits s i := by
    intro i hi
    obtain ⟨c, hc, site, hSite, rfl⟩ := mem_insertions_iff.1 ((hMem i).1 hi)
    obtain ⟨s, -, -, -, hFits⟩ := hSite.exists_fits hSettled hPolicy hDefault hc
    exact ⟨s, hFits⟩
  obtain ⟨q, hApply, hGrown⟩ :=
    exists_filled hSettled (List.pairwise_reverse.2 (pairwise_le_ordered plan)) hFits
  have hList : ∀ c ∈ classesIn (layout p.text), ∀ site : Site,
      site.Fills p.text settings c.block → site.insertion p.text ∈ plan.ordered.reverse :=
    fun c hc site h => (hMem _).2 (mem_insertions_iff.2 ⟨c, hc, site, h, rfl⟩)
  have hClasses := (List.forall₂_and_left _ _).2
    ⟨fun c (hc : c ∈ classesIn (layout p.text)) => hc, hGrown.classes fun _ _ => Growth.grows⟩
  have hIdle : (planDocument q.text settings).insertions = [] := by
    refine List.eq_nil_iff_forall_not_mem.2 fun i hi => ?_
    obtain ⟨c', hc', site', hSite', -⟩ := mem_insertions_iff.1 hi
    refine forall_of_forall₂ (P := fun c' => ∀ site' : Site, ¬ site'.Fills q.text settings c'.block)
      hClasses (fun c c' h => ?_) c' hc' site' hSite'
    exact not_fills hSettled hPolicy hDefault h.1 h.2 (hList c h.1)
  refine ⟨q.text, ?_, hIdle, apply_of_insertions_eq_nil hIdle q.text, ?_⟩
  · rw [List.foldrM_reverse] at hApply
    exact hApply
  · rw [reports_eq, reports_eq, List.forall₂_map_left_iff, List.forall₂_map_right_iff]
    refine hClasses.imp fun c c' h => ?_
    constructor
    · rw [planClass_className, planClass_className]
      exact h.2.name
    · intro statements hGenerated
      rcases exists_fills_or_isIdle p.text settings c with ⟨site, hSite⟩ | hIdle
      · exact planClass_of_fills hSettled hPolicy hDefault h.1 h.2 hSite (hList c h.1 site hSite)
      · exact absurd hGenerated (hIdle.2 statements)

/-- A class in a class, with a docstring over two lines at the end of the text. -/
theorem Program.document_mode_idempotent_nested :
    ∃ p : Program, p.text = ("class A:\n def __init__(self, a):\n  pass\n" ++
        " class B:\n  def __init__(self, b):\n   \"\"\"One\n   two.\"\"\"").toList ∧
      (∀ l ∈ p.lines, Settled l) ∧
      Settings.default.bodyPolicy = .trivialOnly ∧ IsName Settings.default.defaultReceiver ∧
      (planDocument p.text .default).insertions =
        [⟨33, "  ".toList, ["self.a = a".toList]⟩, ⟨95, "   ".toList, ["self.b = b".toList]⟩] ∧
      ∃ out, (planDocument p.text .default).apply p.text = some out ∧
        (planDocument out .default).insertions = [] ∧
        (planDocument out .default).apply out = some out := by
  let p : Program := ⟨["class A:".toList, " def __init__(self, a):".toList, "  pass".toList,
    " class B:".toList, "  def __init__(self, b):".toList,
    "   \"\"\"One\n   two.\"\"\"".toList], by decide +kernel⟩
  have hText : p.text = ("class A:\n def __init__(self, a):\n  pass\n" ++
      " class B:\n  def __init__(self, b):\n   \"\"\"One\n   two.\"\"\"").toList := by
    decide +kernel
  have hSettled : ∀ l ∈ p.lines, Settled l := by decide +kernel
  have hDefault : IsName Settings.default.defaultReceiver :=
    ⟨List.cons_ne_nil _ _, List.all_eq_true.1 rfl⟩
  have hLocate : locate p.text =
      [⟨['A'], 1, .found ⟨2, 22, .block 33 "  ".toList .trivial⟩⟩,
        ⟨['B'], 4, .found ⟨5, 64, .block 95 "   ".toList .trivial⟩⟩] := by
    rw [locate, p.layout_text]
    decide +kernel
  have hPlan : (planDocument p.text .default).insertions =
      [⟨33, "  ".toList, ["self.a = a".toList]⟩, ⟨95, "   ".toList, ["self.b = b".toList]⟩] := by
    rw [planDocument, hLocate, hText]
    decide +kernel
  obtain ⟨out, hApply, hIdle, hAgain, -⟩ :=
    p.document_mode_idempotent .default hSettled rfl hDefault
  exact ⟨p, hText, hSettled, rfl, hDefault, hPlan, out, hApply, hIdle, hAgain⟩

/-- A body that a backslash joins to its header gets its statements behind it, outside of the
initializer, and the same statements again in a second run. -/
theorem joined_body_filled_again :
    ∃ p q : Program, p.text = "class A:\n    def __init__(self, a): \\\n    \"doc\"\n".toList ∧
      q.text = p.text ++ "    self.a = a\n".toList ∧
      Settings.default.bodyPolicy = .trivialOnly ∧ IsName Settings.default.defaultReceiver ∧
      (planDocument p.text .default).apply p.text = some q.text ∧
      (planDocument q.text .default).insertions ≠ [] ∧
      (planDocument q.text .default).apply q.text = some (q.text ++ "    self.a = a\n".toList) := by
  let header := "    def __init__(self, a): \\\n    \"doc\"".toList
  let p : Program := ⟨["class A:".toList, header, []], by decide +kernel⟩
  let q : Program := ⟨["class A:".toList, header, "    self.a = a".toList, []], by decide +kernel⟩
  have hDefault : IsName Settings.default.defaultReceiver :=
    ⟨List.cons_ne_nil _ _, List.all_eq_true.1 rfl⟩
  -- both programs have the same outline
  let outline : List ClassEntry := [⟨['A'], 1, .found ⟨2, 25, .block 48 "    ".toList .trivial⟩⟩]
  have hFirst : locate p.text = outline := by
    rw [locate, p.layout_text]
    decide +kernel
  have hSecond : locate q.text = outline := by
    rw [locate, q.layout_text]
    decide +kernel
  have hPlan : ∀ source : Text, locate source = outline →
      (planEntries source .default outline).insertions = [⟨48, "    ".toList,
        ["self.a = a".toList]⟩] →
      (planDocument source .default).insertions = [⟨48, "    ".toList, ["self.a = a".toList]⟩] := by
    intro source hOutline hEntries
    rw [planDocument, hOutline, hEntries]
  have hFirst' := hPlan p.text hFirst (by decide +kernel)
  have hSecond' := hPlan q.text hSecond (by decide +kernel)
  refine ⟨p, q, by decide +kernel, by decide +kernel, rfl, hDefault, ?_, ?_, ?_⟩
  · rw [apply_singleton hFirst']
    decide +kernel
  · rw [hSecond']
    exact List.cons_ne_nil _ _
  · rw [apply_singleton hSecond']
    decide +kernel

end FieldFill

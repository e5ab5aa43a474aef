import FieldFill.Proofs.Plan.Order

/-!
# The reports of a document and its insertions

The plan of a document has one report for each class, in the order of the classes, and one insertion
for each report that lists statements. Each insertion goes behind the parameter list of its own
initializer, to a place of its own where whole lines can go, so the plan can be applied, and no line
of the document is lost.

Main definitions:

* `ClassEntry.reportedLine` — the line that the report of a class names.
* `ClassBlock.BodyStartsAt` — where the body of the only initializer of a class starts.
* `Insertion.IsFor` — an insertion and the report that lists its statements.

Main results:

* `forall₂_reports` — the reports of the classes.
* `forall₂_insertions` — the insertions of the reports that list statements.
* `planDocument_keeps_lines` — what the plan of a document is made of, and that it can be applied.
-/

namespace FieldFill

/-! ## Reports -/

/-- The line that the report of a class names: that of its initializer, or its own without one. -/
def ClassEntry.reportedLine (entry : ClassEntry) : Nat :=
  match entry.lookup with
  | .found initializer => initializer.line
  | .unparsed line _ => line
  | .missing => entry.line
  | .multiple _ => entry.line

theorem planClass_line (source : Text) (settings : Settings) (entry : ClassEntry) :
    (planClass source settings entry).1.line = entry.reportedLine := by
  unfold planClass ClassEntry.reportedLine
  cases entry.lookup <;> rfl

theorem forall₂_reports (source : Text) (settings : Settings) :
    List.Forall₂ (fun (entry : ClassEntry) (report : Report) =>
        report.className = entry.name ∧ report.line = entry.reportedLine)
      (locate source) (planDocument source settings).reports := by
  rw [locate_eq, reports_eq, List.forall₂_map_left_iff, List.forall₂_map_right_iff]
  exact List.forall₂_same.2 fun c _ => ⟨planClass_className _ _ _, planClass_line _ _ _⟩

theorem sublist_classesIn (ls : List Line) : ((classesIn ls).map ClassBlock.line).Sublist ls := by
  induction ls with
  | nil => exact .slnil
  | cons line rest ih =>
    rw [classesIn]
    split
    · exact ih.cons_cons line
    · exact ih.cons line

/-- The classes of a program stand on different lines, in order. -/
theorem pairwise_locate (source : Text) :
    (locate source).Pairwise fun entry later => entry.line < later.line := by
  have hLines := (pairwise_layout source).sublist (sublist_classesIn (layout source))
  rw [locate_eq, List.pairwise_map]
  exact (List.pairwise_map.1 hLines).imp fun hFront => hFront.row_lt

/-! ## Insertions -/

/-- The body of the only initializer of a class starts with a statement at a byte position. -/
def ClassBlock.BodyStartsAt (c : ClassBlock) (start : Nat) : Prop :=
  ∃ line header inner first more, initializersIn c.block = [(line, header, inner)] ∧
    bodyStatements header inner = (start, first) :: more

/-- The text in front of a place on its physical line, all of it blank. -/
def IsLead (source : Text) (place : Nat) (lead : Text) : Prop :=
  ∃ front after, splitAt? source place = some (front ++ lead, after) ∧
    (front = [] ∨ endsInNewline front = true) ∧ allBlank lead = true ∧ '\n' ∉ lead

def Outcome.isGenerated : Outcome → Bool
  | generated _ => true
  | _ => false

/-- An insertion for a class: it puts in what the report lists, where the body starts. -/
structure Insertion.IsFor (source : Text) (entry : ClassEntry) (report : Report) (i : Insertion) :
    Prop where
  statements : report.outcome = .generated i.lines
  /-- It goes behind the parenthesis that opens the parameter list of the initializer. -/
  openParen : ∃ initializer, entry.lookup = .found initializer ∧ initializer.openParen < i.offset
  place : TakesLines source i.offset
  /-- It is indented like the first statement of the body. -/
  lead : ∃ c ∈ classesIn (layout source), c.entry source = entry ∧
    ∃ start, c.BodyStartsAt start ∧ IsLead source start i.indent

section

variable {source : Text} {settings : Settings} {c : ClassBlock} {site : Site}

theorem Site.Fills.lookup_eq (h : site.Fills source settings c.block) :
    ∃ body, (c.entry source).lookup =
      .found ⟨site.line.row, site.header.openParen, body⟩ := by
  obtain ⟨body, hBody⟩ : ∃ body, bodyOf source (bodyStatements site.header site.inner) = some body :=
    ⟨_, by rw [h.body, bodyOf_cons]⟩
  refine ⟨body, ?_⟩
  unfold ClassBlock.entry lookupIn
  simp only [h.only, initializerOf?_eq, hBody, Option.map_some]

theorem Site.Fills.isFor (hSource : WellFormed source) (hClass : c ∈ classesIn (layout source))
    (h : site.Fills source settings c.block) :
    (site.insertion source).IsFor source (c.entry source)
      (planClass source settings (c.entry source)).1 := by
  obtain ⟨body, hLookup⟩ := h.lookup_eq
  refine ⟨?_, ⟨_, hLookup, h.openParen_lt hSource hClass⟩, h.takesLines hSource hClass, c, hClass,
    rfl, site.start, ⟨_, _, _, _, _, h.only, h.body⟩, h.exists_lead hClass⟩
  rw [h.planClass_eq]
  rfl

end

/-- The images of a list that are kept, and those that a partial map has. -/
theorem forall₂_filterMap {α β γ : Type} {f : α → β} {keep : β → Bool} {g : α → Option γ}
    {R : β → γ → Prop} {list : List α}
    (hSome : ∀ a ∈ list, ∀ c, g a = some c → keep (f a) = true ∧ R (f a) c)
    (hNone : ∀ a ∈ list, g a = none → keep (f a) = false) :
    List.Forall₂ R ((list.map f).filter keep) (list.filterMap g) := by
  induction list with
  | nil => exact .nil
  | cons a list ih =>
    obtain ⟨ha, hMore⟩ := List.forall_mem_cons.1 hSome
    obtain ⟨ha', hMore'⟩ := List.forall_mem_cons.1 hNone
    rw [List.map_cons, List.filter_cons, List.filterMap_cons]
    cases hg : g a with
    | none =>
      rw [ha' hg, if_neg Bool.false_ne_true]
      exact ih hMore hMore'
    | some c =>
      obtain ⟨hKeep, hR⟩ := ha c hg
      rw [if_pos hKeep]
      exact .cons hR (ih hMore hMore')

/-- **The insertions of a document** are those of the reports that list statements, in order. -/
theorem forall₂_insertions {source : Text} (settings : Settings) (hSource : WellFormed source) :
    List.Forall₂ (fun (planned : ClassEntry × Report) (i : Insertion) =>
        i.IsFor source planned.1 planned.2)
      (((locate source).zip (planDocument source settings).reports).filter
        fun planned => planned.2.outcome.isGenerated)
      (planDocument source settings).insertions := by
  rw [locate_eq, reports_eq, insertions_eq, List.zip_map']
  refine forall₂_filterMap (fun c hc i hi => ?_) fun c hc hNone => ?_
  · obtain ⟨site, hSite, rfl⟩ := planClass_eq_some_iff.1 hi
    refine ⟨?_, hSite.isFor hSource hc⟩
    dsimp only
    rw [hSite.planClass_eq]
    rfl
  · -- a class that has no insertion has a report without statements
    rcases exists_fills_or_isIdle source settings c with ⟨site, hSite⟩ | hIdle
    · rw [hSite.planClass_eq] at hNone
      cases hNone
    · dsimp only
      cases hOutcome : (planClass source settings (c.entry source)).1.outcome with
      | generated statements => exact absurd hOutcome (hIdle.2 statements)
      | _ => rfl

theorem pairwise_insertions {source : Text} (settings : Settings) (hSource : WellFormed source) :
    (planDocument source settings).insertions.Pairwise fun i j => i.offset ≠ j.offset := by
  rw [insertions_eq, List.pairwise_filterMap]
  refine (pairwise_offset settings hSource).imp fun hApart i hi j hj => ?_
  obtain ⟨site, hSite, rfl⟩ := planClass_eq_some_iff.1 hi
  obtain ⟨site', hSite', rfl⟩ := planClass_eq_some_iff.1 hj
  exact hApart site site' hSite hSite'

/-- **The plan of a document is well formed.** In a program that is indented consistently and has its
parameter lists in front of its bodies, there is one report for each class, in order, and one
insertion for each report that lists statements, in order, with these statements. Each insertion goes
to a place of its own behind the parameter list of its initializer, at the start of a line or the end
of the text, and is indented like the first statement of the body. So the plan can be applied, and
every line of the program stays, in order; a last line that is not complete may be ended. -/
theorem planDocument_keeps_lines {source : Text} (settings : Settings)
    (hSource : WellFormed source) :
    ((locate source).Pairwise fun entry later => entry.line < later.line) ∧
    List.Forall₂ (fun (entry : ClassEntry) (report : Report) =>
        report.className = entry.name ∧ report.line = entry.reportedLine)
      (locate source) (planDocument source settings).reports ∧
    List.Forall₂ (fun (planned : ClassEntry × Report) (i : Insertion) =>
        i.IsFor source planned.1 planned.2)
      (((locate source).zip (planDocument source settings).reports).filter
        fun planned => planned.2.outcome.isGenerated)
      (planDocument source settings).insertions ∧
    ((planDocument source settings).insertions.Pairwise fun i j => i.offset ≠ j.offset) ∧
    ∃ out, (planDocument source settings).apply source = some out ∧
      ∃ ending, MayEnd source ending ∧ (lines (source ++ ending)).Sublist (lines out) := by
  have hInsertions := forall₂_insertions settings hSource
  have hDistinct := pairwise_insertions settings hSource
  have hPlaces : ∀ i ∈ (planDocument source settings).insertions, TakesLines source i.offset := by
    intro i hi
    obtain ⟨c, hc, site, hSite, rfl⟩ := mem_insertions_iff.1 hi
    exact hSite.takesLines hSource hc
  exact ⟨pairwise_locate source, forall₂_reports source settings, hInsertions, hDistinct,
    exists_apply hDistinct hPlaces⟩

/-- A class in front of the initializer of the class it is in: its statements come second in the plan
and first in the text. The last line of the text is not complete, and the statements go behind it. -/
theorem planDocument_keeps_lines_nested :
    ∃ source : Text, source = ("class A:\n class B:\n  def __init__(self, b):\n   \"\"\"One\n" ++
        "   two.\"\"\"\n def __init__(self, a):\n  \"\"\"Doc.\"\"\"").toList ∧ WellFormed source ∧
      (planDocument source .default).insertions =
        [⟨101, "  ".toList, ["self.a = a".toList]⟩, ⟨65, "   ".toList, ["self.b = b".toList]⟩] ∧
      ((planDocument source .default).insertions.Pairwise fun i j => i.offset ≠ j.offset) ∧
      ∃ out, (planDocument source .default).apply source = some out ∧
        ∃ ending, MayEnd source ending ∧ (lines (source ++ ending)).Sublist (lines out) := by
  let p : Program := ⟨["class A:".toList, " class B:".toList, "  def __init__(self, b):".toList,
    "   \"\"\"One\n   two.\"\"\"".toList, " def __init__(self, a):".toList,
    "  \"\"\"Doc.\"\"\"".toList], by decide +kernel⟩
  have hText : p.text = ("class A:\n class B:\n  def __init__(self, b):\n   \"\"\"One\n" ++
      "   two.\"\"\"\n def __init__(self, a):\n  \"\"\"Doc.\"\"\"").toList := by
    decide +kernel
  have hSource : WellFormed p.text := by
    constructor
    · rw [p.layout_text]
      decide +kernel
    · rw [p.layout_text]
      decide +kernel
  have hLocate : locate p.text =
      [⟨['A'], 1, .found ⟨6, 78, .block 101 "  ".toList .trivial⟩⟩,
        ⟨['B'], 2, .found ⟨3, 33, .block 65 "   ".toList .trivial⟩⟩] := by
    rw [locate, p.layout_text]
    decide +kernel
  have hPlan : (planDocument p.text .default).insertions =
      [⟨101, "  ".toList, ["self.a = a".toList]⟩, ⟨65, "   ".toList, ["self.b = b".toList]⟩] := by
    rw [planDocument, hLocate, hText]
    decide +kernel
  obtain ⟨-, -, -, hDistinct, hApply⟩ := planDocument_keeps_lines .default hSource
  exact ⟨p.text, hText, hSource, hPlan, hDistinct, hApply⟩

end FieldFill

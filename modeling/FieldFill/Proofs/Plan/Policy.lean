import FieldFill.Proofs.Plan.Reports

/-!
# Allowing every body

The settings may leave bodies with statements alone, or allow them to be filled. Two plans of one
document that differ in this only agree on every class but those with such a body. There the one has
skipped what the other one fills.

Main definitions:

* `Outcome.isLeftAlone` — a body with statements was skipped.
* `Unlocks` — the plans of one class without and with the permission to fill every body.
* `ReportUnlocks` — the same for its two reports.
* `Plan.pairsFilled` — the reports of two plans for the classes that the second one fills.

Main results:

* `unlocks_planClass` — the two plans of a class.
* `always_fills_what_was_left` — the two plans of a document, report by report and insertion by
  insertion.
-/

namespace FieldFill

/-- A body with statements was skipped. -/
def Outcome.isLeftAlone : Outcome → Bool
  | skipped .nonTrivialBody => true
  | _ => false

theorem Outcome.isLeftAlone_iff {outcome : Outcome} :
    outcome.isLeftAlone = true ↔ outcome = .skipped .nonTrivialBody := by
  constructor
  · intro h
    unfold isLeftAlone at h
    split at h
    · rfl
    · cases h
  · rintro rfl
    rfl

/-! ## One class -/

/-- The plans of one class without and with the permission to fill every body: the same plan, or a
body left alone and the statements for it. -/
inductive Unlocks : Report × Option Insertion → Report × Option Insertion → Prop
  | unchanged (report : Report) (hGenerated : report.outcome.isGenerated = false)
      (hLeft : report.outcome.isLeftAlone = false) : Unlocks (report, none) (report, none)
  | filledBoth (className : Text) (line : Nat) (i : Insertion) :
      Unlocks (⟨className, line, .generated i.lines⟩, some i)
        (⟨className, line, .generated i.lines⟩, some i)
  | filledNow (className : Text) (line : Nat) (i : Insertion) (hLines : i.lines ≠ []) :
      Unlocks (⟨className, line, .skipped .nonTrivialBody⟩, none)
        (⟨className, line, .generated i.lines⟩, some i)

/-- The policy decides on nothing but whether a body that may take statements gets them. -/
theorem unlocks_fillBody (settings : Settings) (className : Text) (line : Nat) {lines : List Text}
    (hLines : lines ≠ []) (body : Body) :
    Unlocks (⟨className, line, (fillBody (settings.withBodyPolicy .trivialOnly) lines body).1⟩,
        (fillBody (settings.withBodyPolicy .trivialOnly) lines body).2)
      (⟨className, line, (fillBody (settings.withBodyPolicy .always) lines body).1⟩,
        (fillBody (settings.withBodyPolicy .always) lines body).2) := by
  cases body with
  | inline => exact .unchanged _ rfl rfl
  | block insertAt indent shape =>
    cases shape with
    | trivial => exact .filledBoth className line ⟨insertAt, indent, lines⟩
    | nonTrivial => exact .filledNow className line ⟨insertAt, indent, lines⟩ hLines

/-- **The two plans of a class.** The parameter list is read before the body is looked at, and the
same way under both policies. -/
theorem unlocks_planClass (source : Text) (settings : Settings) (entry : ClassEntry) :
    Unlocks (planClass source (settings.withBodyPolicy .trivialOnly) entry)
      (planClass source (settings.withBodyPolicy .always) entry) := by
  have hSame : ∀ policy, assignments (settings.withBodyPolicy policy) = assignments settings :=
    fun _ => rfl
  unfold planClass
  cases entry.lookup with
  | missing => exact .unchanged _ rfl rfl
  | multiple count => exact .unchanged _ rfl rfl
  | unparsed line openParen => exact .unchanged _ rfl rfl
  | found initializer =>
    simp only [planInitializer, hSame]
    cases signatureFrom source initializer.openParen >>= assignments settings with
    | error fault => exact .unchanged _ rfl rfl
    | ok made =>
      cases made with
      | nil => exact .unchanged _ rfl rfl
      | cons first made =>
        exact unlocks_fillBody settings entry.name initializer.line (by simp) initializer.body

/-! ## All classes -/

section

variable (source : Text) (settings : Settings)

/-- What the two reports of a class say: the same, unless a body was left alone, which now has
statements. -/
def ReportUnlocks (before after : Report) : Prop :=
  after.className = before.className ∧
    (before.outcome ≠ .skipped .nonTrivialBody → after = before) ∧
    (before.outcome = .skipped .nonTrivialBody → after.line = before.line ∧
      ∃ statements, statements ≠ [] ∧ after.outcome = .generated statements)

theorem Unlocks.reports {before after : Report × Option Insertion} (h : Unlocks before after) :
    ReportUnlocks before.1 after.1 := by
  cases h with
  | unchanged report hGenerated hLeft =>
    refine ⟨rfl, fun _ => rfl, ?_⟩
    intro hSkipped
    rw [← Outcome.isLeftAlone_iff, hLeft] at hSkipped
    cases hSkipped
  | filledBoth className line i => exact ⟨rfl, fun _ => rfl, nofun⟩
  | filledNow className line i hLines =>
    exact ⟨rfl, fun hOther => absurd rfl hOther, fun _ => ⟨rfl, i.lines, hLines, rfl⟩⟩

/-- The reports of two plans for the classes that the second one has statements for. -/
def Plan.pairsFilled (left filled : Plan) : List (Report × Report) :=
  (left.reports.zip filled.reports).filter fun r => r.2.outcome.isGenerated

theorem planEntries_cons (entry : ClassEntry) (entries : List ClassEntry) :
    planEntries source settings (entry :: entries) =
      ⟨(planClass source settings entry).1 :: (planEntries source settings entries).reports,
        (planClass source settings entry).2.toList ++
          (planEntries source settings entries).insertions⟩ := by
  show Plan.mk (((entry :: entries).map (planClass source settings)).map Prod.fst)
    (((entry :: entries).map (planClass source settings)).filterMap Prod.snd) = _
  rw [List.map_cons, List.map_cons, List.filterMap_cons]
  cases (planClass source settings entry).2 <;> rfl

theorem forall₂_reportUnlocks (entries : List ClassEntry) :
    List.Forall₂ ReportUnlocks
      (planEntries source (settings.withBodyPolicy .trivialOnly) entries).reports
      (planEntries source (settings.withBodyPolicy .always) entries).reports := by
  induction entries with
  | nil => exact .nil
  | cons entry entries ih =>
    rw [planEntries_cons, planEntries_cons]
    exact .cons (unlocks_planClass source settings entry).reports ih

/-- **Each insertion of the second plan belongs to a report**, and those whose report does not take
the place of a body left alone are the insertions of the first plan. -/
theorem insertions_of_pairsFilled (entries : List ClassEntry) :
    let left := planEntries source (settings.withBodyPolicy .trivialOnly) entries
    let filled := planEntries source (settings.withBodyPolicy .always) entries
    List.Forall₂ (fun (r : Report × Report) (i : Insertion) => r.2.outcome = .generated i.lines)
        (left.pairsFilled filled) filled.insertions ∧
      (((left.pairsFilled filled).zip filled.insertions).filter
        fun f => !f.1.1.outcome.isLeftAlone).map Prod.snd = left.insertions := by
  induction entries with
  | nil => exact ⟨.nil, rfl⟩
  | cons entry entries ih =>
    obtain ⟨hPairs, hLeft⟩ := ih
    have hUnlocks := unlocks_planClass source settings entry
    simp only [planEntries_cons, Plan.pairsFilled, List.zip_cons_cons, List.filter_cons]
    generalize planClass source (settings.withBodyPolicy .trivialOnly) entry = before at hUnlocks ⊢
    generalize planClass source (settings.withBodyPolicy .always) entry = after at hUnlocks ⊢
    cases hUnlocks with
    | unchanged report hGenerated hAlone =>
      -- neither plan has an insertion for the class
      rw [if_neg (ne_true_of_eq_false hGenerated)]
      exact ⟨hPairs, hLeft⟩
    | filledBoth className line i =>
      refine ⟨.cons rfl hPairs, ?_⟩
      exact congrArg (i :: ·) hLeft
    | filledNow className line i hLines =>
      -- the second plan has one, and it is dropped with its report
      exact ⟨.cons rfl hPairs, hLeft⟩

end

/-- **Allowing every body only fills what was left alone.** The plan of a document under the policy
that fills every body has a report for each report of the plan that leaves bodies with statements
alone, for the same class. Both reports are equal, unless the body was left alone: then the second
one lists statements, at the same line. The insertions of the first plan are among those of the
second in their order, and the other ones belong to the bodies left alone. -/
theorem always_fills_what_was_left (source : Text) (settings : Settings) :
    let left := planDocument source (settings.withBodyPolicy .trivialOnly)
    let filled := planDocument source (settings.withBodyPolicy .always)
    List.Forall₂ ReportUnlocks left.reports filled.reports ∧
    left.insertions.Sublist filled.insertions ∧
    List.Forall₂ (fun (r : Report × Report) (i : Insertion) => r.2.outcome = .generated i.lines)
      (left.pairsFilled filled) filled.insertions ∧
    (((left.pairsFilled filled).zip filled.insertions).filter
      fun f => !f.1.1.outcome.isLeftAlone).map Prod.snd = left.insertions := by
  intro left filled
  obtain ⟨hPairs, hLeft⟩ : _ ∧ _ := insertions_of_pairsFilled source settings (locate source)
  have hSublist : left.insertions.Sublist filled.insertions := by
    -- what is dropped from the insertions of the second plan leaves the others in order
    have hAll : ((left.pairsFilled filled).zip filled.insertions).map Prod.snd =
        filled.insertions := List.map_snd_zip (Nat.le_of_eq hPairs.length_eq.symm)
    have hSome : (((left.pairsFilled filled).zip filled.insertions).filter
        fun f => !f.1.1.outcome.isLeftAlone).Sublist _ := List.filter_sublist
    have hMapped := hSome.map Prod.snd
    rw [hAll] at hMapped
    exact hLeft ▸ hMapped
  exact ⟨forall₂_reportUnlocks source settings (locate source), hSublist, hPairs, hLeft⟩

end FieldFill

import FieldFill.Parameter.Assignment
import FieldFill.Proofs.Parameter.Classify

/-!
# The names in assignments

Whatever the signature is, what an assignment is made of are names of parameters. Only the receiver can
be another text: the one of the settings, when the signature names none.

Main definitions:

* `IsName` — a word that can be a name in a program.
* `Assignment.Named` — an assignment of names.

Main results:

* `exists_of_assignments` — the texts in the assignments for a signature.
* `named_of_assignments`, `forall_mem_of_assignments` — names, and their characters.
-/

namespace FieldFill

/-- A word that can be a name in a program. -/
def IsName (text : Text) : Prop :=
  text ≠ [] ∧ ∀ c ∈ text, continuesName c = true

structure Assignment.Named (a : Assignment) : Prop where
  receiver : IsName a.receiver
  target : IsName a.target
  value : IsName a.value

theorem isName_of_ofSegment? {receivers : List Text} {segment : Segment} {p : Parameter}
    (h : Parameter.ofSegment? receivers segment = some p) : IsName p.name := by
  unfold Parameter.ofSegment? at h
  dsimp only at h
  split at h
  · cases h
  · rename_i hNonempty
    rw [← Option.some.inj h]
    exact ⟨by simpa using hNonempty, fun c hc => Parameter.continuesName_of_mem_leadingName hc⟩

/-- The assignments for a signature are made of the names of its parameters, but for the receiver to
fall back on. -/
theorem exists_of_assignments {settings : Settings} {text : Text} {made : List Assignment}
    (h : assignments settings text = .ok made) {a : Assignment} (ha : a ∈ made) :
    (IsName a.receiver ∨ a.receiver = settings.defaultReceiver) ∧ IsName a.target ∧
      IsName a.value := by
  unfold assignments parameters at h
  cases hSegments : segments text with
  | error fault =>
    rw [hSegments] at h
    cases h
  | ok list =>
    rw [hSegments] at h
    obtain rfl := Except.ok.inj h
    have hNames : ∀ p ∈ list.filterMap (Parameter.ofSegment? settings.receiverNames),
        IsName p.name := by
      intro p hp
      obtain ⟨segment, -, hSegment⟩ := List.mem_filterMap.1 hp
      exact isName_of_ofSegment? hSegment
    obtain ⟨p, hp, rfl⟩ := List.mem_map.1 ha
    have hName := hNames p ((List.mem_filter.1 hp).1)
    refine ⟨?_, hName, hName⟩
    unfold receiverOf
    split
    · rename_i q hFind
      exact .inl (hNames q (List.mem_of_find?_eq_some hFind))
    · exact .inr rfl

/-- The assignments for a signature are assignments of names, when the receiver to fall back on is a
name. -/
theorem named_of_assignments {settings : Settings} (hDefault : IsName settings.defaultReceiver)
    {text : Text} {made : List Assignment} (h : assignments settings text = .ok made) :
    ∀ a ∈ made, a.Named := by
  intro a ha
  obtain ⟨hReceiver, hTarget, hValue⟩ := exists_of_assignments h ha
  exact ⟨hReceiver.elim id fun hEq => hEq ▸ hDefault, hTarget, hValue⟩

/-- What the characters of names and of the receiver to fall back on have in common, the characters
of all assignments have. -/
theorem forall_mem_of_assignments {settings : Settings} {p : Char → Prop}
    (hName : ∀ c, continuesName c = true → p c) (hDefault : ∀ c ∈ settings.defaultReceiver, p c)
    {text : Text} {made : List Assignment} (h : assignments settings text = .ok made)
    {a : Assignment} (ha : a ∈ made) :
    (∀ c ∈ a.receiver, p c) ∧ (∀ c ∈ a.target, p c) ∧ ∀ c ∈ a.value, p c := by
  obtain ⟨hReceiver, hTarget, hValue⟩ := exists_of_assignments h ha
  refine ⟨fun c hc => ?_, fun c hc => hName c (hTarget.2 c hc), fun c hc => hName c (hValue.2 c hc)⟩
  rcases hReceiver with hReceiver | hEq
  · exact hName c (hReceiver.2 c hc)
  · exact hDefault c (hEq ▸ hc)

end FieldFill

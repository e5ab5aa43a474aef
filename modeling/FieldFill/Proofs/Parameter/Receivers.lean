import FieldFill.Parameter.Assignment
import FieldFill.Proofs.Parameter.Classify
import Mathlib.Data.List.Basic

/-!
# More receivers

What happens to the assignments of a signature when more names count as receivers. A receiver is never
assigned, so names that are added take statements away and put none in. Which name stands on the left
may change, too: the first receiver of the signature may be a new one. So the statements are compared
by what they assign to.

Main definition:

* `attributeOf?` — the attribute that a segment of a list gives.

Main results:

* `receiverNames_withReceivers` — what adding names does to the names that are there.
* `attributeOf?_of_more` — with more receivers, a segment gives the same attribute or none.
* `assignments_congr` — the order and the number of the names do not matter.
* `receivers_only_remove` — all of this for a whole signature.
-/

namespace FieldFill

/-! ## Names that are added -/

namespace Settings

/-- **New names go behind those that are there**, each of them once, in the order in which they first
come. -/
theorem receiverNames_withReceivers (settings : Settings) (names : List Text) :
    (settings.withReceivers names).receiverNames =
      settings.receiverNames ++ (names.filter (· ∉ settings.receiverNames)).eraseDups := by
  rw [withReceivers]
  generalize settings.receiverNames = known
  dsimp only
  induction names generalizing known with
  | nil => rw [List.foldl_nil, List.filter_nil, List.eraseDups_nil, List.append_nil]
  | cons name names ih =>
    rw [List.foldl_cons]
    by_cases hKnown : name ∈ known
    · rw [if_pos (List.contains_iff_mem.2 hKnown), List.filter_cons_of_neg (by simpa using hKnown), ih]
    · -- the name is one of the known ones from here on, and is left out behind
      have hLater : names.filter (· ∉ known ++ [name]) =
          (names.filter (· ∉ known)).filter fun other => !other == name := by
        rw [List.filter_filter]
        refine List.filter_congr fun other _ => ?_
        by_cases hOther : other = name <;> simp [hOther]
      rw [if_neg (by simpa using hKnown), List.filter_cons_of_pos (by simpa using hKnown),
        List.eraseDups_cons, ih, hLater, List.append_assoc, List.singleton_append]

theorem withReceivers_append (settings : Settings) (a b : List Text) :
    settings.withReceivers (a ++ b) = (settings.withReceivers a).withReceivers b := by
  rw [withReceivers, List.foldl_append]
  rfl

theorem mem_receiverNames_withReceivers {settings : Settings} {names : List Text} {name : Text} :
    name ∈ (settings.withReceivers names).receiverNames ↔
      name ∈ settings.receiverNames ∨ name ∈ names := by
  rw [receiverNames_withReceivers, List.mem_append, List.mem_eraseDups, List.mem_filter]
  by_cases hKnown : name ∈ settings.receiverNames <;> simp [hKnown]

end Settings

/-! ## The attribute of a segment -/

/-- The attribute that a segment of a parameter list gives, if its parameter is an ordinary one. -/
def attributeOf? (receivers : List Text) (segment : Segment) : Option Text :=
  ((Parameter.ofSegment? receivers segment).filter Parameter.isOrdinary).map Parameter.name

theorem contains_congr {known more : List Text} (h : ∀ name, name ∈ more ↔ name ∈ known)
    (name : Text) : more.contains name = known.contains name := by
  rw [Bool.eq_iff_iff, List.contains_iff_mem, List.contains_iff_mem, h]

theorem Parameter.ofSegment?_congr {known more : List Text} (h : ∀ name, name ∈ more ↔ name ∈ known)
    (segment : Segment) : ofSegment? more segment = ofSegment? known segment := by
  rw [ofSegment?_eq, ofSegment?_eq, contains_congr h]

/-- A star makes no ordinary parameter. -/
theorem Parameter.stars_ne_ordinary {code : Text} {role : Role} (h : (stars code).1 = some role) :
    role ≠ .ordinary := by
  rintro rfl
  unfold stars at h
  split at h <;> cases h

/-- An ordinary parameter is one without stars whose name is no receiver. -/
theorem attributeOf?_eq (receivers : List Text) (segment : Segment) :
    attributeOf? receivers segment =
      if (Parameter.nameOf segment.code).isEmpty = false ∧ (Parameter.stars segment.code).1 = none ∧
          Parameter.nameOf segment.code ∉ receivers then
        some (Parameter.nameOf segment.code)
      else none := by
  rw [attributeOf?, Parameter.ofSegment?_eq]
  cases hName : (Parameter.nameOf segment.code).isEmpty with
  | true => simp
  | false =>
    cases hStars : (Parameter.stars segment.code).1 with
    | some role =>
      simp [Option.filter, Parameter.isOrdinary, Parameter.stars_ne_ordinary hStars]
    | none =>
      by_cases hKnown : Parameter.nameOf segment.code ∈ receivers <;>
        simp [Option.filter, Parameter.isOrdinary, hKnown]

/-- **With more receivers, a segment gives the same attribute, or none** if its name is a new receiver. -/
theorem attributeOf?_of_more {known names more : List Text}
    (h : ∀ name, name ∈ more ↔ name ∈ known ∨ name ∈ names) (segment : Segment) :
    attributeOf? more segment = (attributeOf? known segment).filter (· ∉ names) := by
  rw [attributeOf?_eq, attributeOf?_eq]
  simp only [h, not_or]
  by_cases hNew : Parameter.nameOf segment.code ∈ names
  · -- the name is kept out on both sides
    rw [if_neg (by simp [hNew])]
    split <;> simp [Option.filter, hNew]
  · simp only [hNew, not_false_eq_true, and_true]
    split <;> simp [Option.filter, hNew]

/-! ## The assignments of a signature -/

theorem map_target_assign (receivers : List Text) (receiver : Text) (list : List Segment) :
    (assign receiver (list.filterMap (Parameter.ofSegment? receivers))).map Assignment.target =
      list.filterMap (attributeOf? receivers) := by
  rw [assign, List.map_map, List.filter_filterMap]
  exact List.map_filterMap

/-- What a signature assigns to, by its segments. -/
theorem map_target_assignments (settings : Settings) (text : Text) :
    (assignments settings text).map (List.map Assignment.target) =
      (segments text).map (List.filterMap (attributeOf? settings.receiverNames)) := by
  rw [assignments, parameters]
  cases segments text with
  | error fault => rfl
  | ok list => exact congrArg Except.ok (map_target_assign ..)

theorem isOk_assignments (settings : Settings) (text : Text) :
    (assignments settings text).isOk = (segments text).isOk := by
  rw [assignments, parameters]
  cases segments text <;> rfl

theorem targets_of_more (settings other : Settings) {names : List Text}
    (h : ∀ name, name ∈ other.receiverNames ↔ name ∈ settings.receiverNames ∨ name ∈ names)
    (text : Text) :
    (assignments other text).map (List.map Assignment.target) =
      (assignments settings text).map fun list =>
        (list.map Assignment.target).filter (· ∉ names) := by
  have hTargets : (assignments settings text).map (fun list =>
        (list.map Assignment.target).filter (· ∉ names)) =
      ((assignments settings text).map (List.map Assignment.target)).map
        (List.filter (· ∉ names)) := by
    cases assignments settings text <;> rfl
  rw [hTargets, map_target_assignments, map_target_assignments]
  cases segments text with
  | error fault => rfl
  | ok list =>
    refine congrArg Except.ok ?_
    rw [List.filter_filterMap]
    exact List.filterMap_congr fun segment _ => attributeOf?_of_more h segment

/-- No receiver is assigned: naming the receivers once more takes no statement away. -/
theorem target_not_mem_receiverNames {settings : Settings} {text : Text} {list : List Assignment}
    (h : assignments settings text = .ok list) {a : Assignment} (ha : a ∈ list) :
    a.target ∉ settings.receiverNames := by
  have hTwice : ∀ name, name ∈ settings.receiverNames ↔
      name ∈ settings.receiverNames ∨ name ∈ settings.receiverNames := fun name => or_self_iff.symm
  have hSame := targets_of_more settings settings hTwice text
  rw [h] at hSame
  have hTargets : list.map Assignment.target =
      (list.map Assignment.target).filter (· ∉ settings.receiverNames) := Except.ok.inj hSame
  have hMem := List.mem_map_of_mem (f := Assignment.target) ha
  rw [hTargets, List.mem_filter] at hMem
  simpa using hMem.2

/-- Only which names are receivers matters, and not their order or how often they are named. -/
theorem assignments_congr (settings other : Settings)
    (hNames : ∀ name, name ∈ other.receiverNames ↔ name ∈ settings.receiverNames)
    (hDefault : other.defaultReceiver = settings.defaultReceiver) (text : Text) :
    assignments other text = assignments settings text := by
  have hParameters : parameters other.receiverNames text =
      parameters settings.receiverNames text := by
    rw [parameters, parameters, funext fun segment => Parameter.ofSegment?_congr hNames segment]
  rw [assignments, assignments, hParameters]
  simp only [receiverOf, hDefault]

/-- **More receivers only remove statements.** For every text, all settings and all names:
* with the names as further receivers the text can be read as before, and its attributes are those from
  before, in order, without the names;
* no receiver is an attribute;
* the assignments depend on which names are receivers, and on nothing else of their list;
* names can be added in steps, and each new one comes once behind those that are there, in the order in
  which they first come. -/
theorem receivers_only_remove (settings : Settings) (text : Text) (names : List Text) :
    ((assignments (settings.withReceivers names) text).isOk = (assignments settings text).isOk ∧
      (assignments (settings.withReceivers names) text).map (List.map Assignment.target) =
        (assignments settings text).map fun list =>
          (list.map Assignment.target).filter (· ∉ names)) ∧
    (∀ list, assignments settings text = .ok list →
      ∀ a ∈ list, a.target ∉ settings.receiverNames) ∧
    (∀ known, (∀ name, name ∈ known ↔ name ∈ settings.receiverNames) →
      assignments { settings with receiverNames := known } text = assignments settings text) ∧
    (∀ more, (settings.withReceivers names).withReceivers more =
      settings.withReceivers (names ++ more)) ∧
    settings.withReceivers names = { settings with
      receiverNames := settings.receiverNames ++
        (names.filter (· ∉ settings.receiverNames)).eraseDups } := by
  have hTargets := targets_of_more settings (settings.withReceivers names)
    (fun name => Settings.mem_receiverNames_withReceivers) text
  have hSame : ∀ known, (∀ name, name ∈ known ↔ name ∈ settings.receiverNames) →
      assignments { settings with receiverNames := known } text = assignments settings text := by
    intro known hKnown
    exact assignments_congr settings { settings with receiverNames := known } hKnown rfl text
  refine ⟨⟨?_, hTargets⟩, fun list hList a ha => target_not_mem_receiverNames hList ha, hSame,
    fun more => (settings.withReceivers_append names more).symm, ?_⟩
  · rw [isOk_assignments, isOk_assignments]
  · rw [← Settings.receiverNames_withReceivers]
    rfl

/-- A new receiver stands on the left, a name that is added twice is a receiver once, and one with a
star was no attribute before. -/
theorem receivers_only_remove_new_left :
    let names := ["this".toList, "a".toList, "this".toList]
    let text := "this, self, *a, a, b, a".toList
    assignments .default text = .ok [⟨"self".toList, "this".toList, "this".toList⟩,
        ⟨"self".toList, "a".toList, "a".toList⟩, ⟨"self".toList, "b".toList, "b".toList⟩,
        ⟨"self".toList, "a".toList, "a".toList⟩] ∧
      assignments (Settings.default.withReceivers names) text =
        .ok [⟨"this".toList, "b".toList, "b".toList⟩] ∧
      (assignments (Settings.default.withReceivers names) text).map (List.map Assignment.target) =
        .ok ["b".toList] ∧
      (∀ a ∈ [(⟨"this".toList, "b".toList, "b".toList⟩ : Assignment)],
        a.target ∉ (Settings.default.withReceivers names).receiverNames) ∧
      assignments { Settings.default with receiverNames := ["cls".toList, "self".toList, "cls".toList] }
        text = assignments .default text ∧
      (Settings.default.withReceivers names).receiverNames =
        ["self".toList, "cls".toList, "this".toList, "a".toList] := by
  intro names text
  have hBefore : assignments .default text = .ok [⟨"self".toList, "this".toList, "this".toList⟩,
      ⟨"self".toList, "a".toList, "a".toList⟩, ⟨"self".toList, "b".toList, "b".toList⟩,
      ⟨"self".toList, "a".toList, "a".toList⟩] := by decide +kernel
  have hAfter : assignments (Settings.default.withReceivers names) text =
      .ok [⟨"this".toList, "b".toList, "b".toList⟩] := by decide +kernel
  obtain ⟨⟨-, hTargets⟩, -, hSame, -, hNames⟩ := receivers_only_remove .default text names
  obtain ⟨-, hReceivers, -⟩ := receivers_only_remove (Settings.default.withReceivers names) text []
  refine ⟨hBefore, hAfter, ?_, hReceivers _ hAfter, hSame _ (fun name => ?_), ?_⟩
  · rw [hTargets, hBefore]
    decide
  · -- the two names, one of them twice and in another order
    simp only [Settings.default, List.mem_cons, List.not_mem_nil, or_false]
    exact ⟨by rintro (h | h | h) <;> simp [h], by rintro (h | h) <;> simp [h]⟩
  · rw [hNames]
    decide

end FieldFill

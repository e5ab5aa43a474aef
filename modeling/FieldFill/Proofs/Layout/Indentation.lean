import FieldFill.Proofs.Layout.Program
import Mathlib.Data.List.TakeWhile

/-!
# Indentation

A line is compared with the indentations that are still open: it goes deeper than the innermost of
them, or it goes back to one of them. Its indentation can be counted in two ways, with a tab as eight
spaces or as one, and both have to agree on what is deeper, or else the program would be read in two
ways.

Main definitions:

* `Depth` — how deep a line stands, counted in both ways.
* `openAfter?` — the open indentations after a line.
* `Program.WellIndented` — every line goes deeper, or back to an open indentation.

Main results:

* `openAfter?_cases` — what a line can do to the open indentations.
* `exists_opened` — the indentation of a line is open behind it.
* `below_of_run` — lines that stay deeper than an open one, and at least as deep as the last of them,
  stand at or below the first of them, and the last stands beside the first.
-/

namespace FieldFill

/-! ## Open indentations -/

structure Depth where
  /-- With a tab as eight spaces. -/
  indent : Nat
  /-- The number of spaces and tabs. -/
  width : Nat
  deriving DecidableEq, Repr

/-- The number of spaces and tabs that a text begins with. -/
def leadWidth (text : Text) : Nat :=
  (text.takeWhile isIndent).length

/-- The open indentations after a line, the innermost first; none when the line goes back to an
indentation that is not open, or when the two ways of counting differ. -/
def openAfter? (stack : List Depth) (d : Depth) : Option (List Depth) :=
  match stack.dropWhile fun s => d.indent < s.indent with
  | [] => if stack.isEmpty then some [d] else none
  | s :: outer =>
    if s.indent = d.indent then if s.width = d.width then some (s :: outer) else none
    else if outer.length + 1 = stack.length ∧ s.width < d.width then some (d :: stack) else none

/-- A stack of open indentations, the innermost first. -/
def Nested (stack : List Depth) : Prop :=
  stack.Pairwise fun inner outer => outer.indent < inner.indent ∧ outer.width < inner.width

theorem openAfter?_cases {stack after : List Depth} {d : Depth}
    (h : openAfter? stack d = some after) :
    (stack = [] ∧ after = [d]) ∨
    (∃ s outer, stack = s :: outer ∧ s.indent < d.indent ∧ s.width < d.width ∧
      after = d :: stack) ∨
    (∃ inner outer, stack = inner ++ d :: outer ∧ (∀ s ∈ inner, d.indent < s.indent) ∧
      after = d :: outer) := by
  have hSplit := List.takeWhile_append_dropWhile (p := fun s => decide (d.indent < s.indent))
    (l := stack)
  have hInner : ∀ s ∈ stack.takeWhile fun s => d.indent < s.indent, d.indent < s.indent := by
    intro s hs
    simpa using List.mem_takeWhile_imp hs
  unfold openAfter? at h
  split at h
  · split at h
    · rename_i hEmpty
      exact .inl ⟨List.isEmpty_iff.1 hEmpty, (Option.some.inj h).symm⟩
    · cases h
  · rename_i s outer hDrop
    rw [hDrop] at hSplit
    have hHead : ¬ d.indent < s.indent := by
      have hNot := List.head_dropWhile_not (fun s : Depth => decide (d.indent < s.indent))
        (l := stack) (by simp [hDrop])
      simpa [hDrop] using hNot
    split at h
    · rename_i hSame
      split at h
      · rename_i hWidth
        obtain rfl : s = d := by
          cases s
          cases d
          simp_all
        exact .inr (.inr ⟨_, outer, hSplit.symm, hInner, (Option.some.inj h).symm⟩)
      · cases h
    · rename_i hDiffer
      split at h
      · rename_i hDeeper
        obtain ⟨hLength, hWidth⟩ := hDeeper
        -- nothing was dropped
        have hTotal := congrArg List.length hSplit
        rw [List.length_append, List.length_cons, hLength] at hTotal
        have hNil : (stack.takeWhile fun s => d.indent < s.indent) = [] :=
          List.eq_nil_of_length_eq_zero (by omega)
        rw [hNil, List.nil_append] at hSplit
        exact .inr (.inl ⟨s, outer, hSplit.symm, by omega, hWidth, (Option.some.inj h).symm⟩)
      · cases h

theorem Nested.openAfter? {stack after : List Depth} {d : Depth} (hStack : Nested stack)
    (h : openAfter? stack d = some after) : Nested after ∧ after.head? = some d := by
  unfold Nested at hStack ⊢
  rcases openAfter?_cases h with ⟨rfl, rfl⟩ | ⟨s, outer, rfl, hIndent, hWidth, rfl⟩ |
    ⟨inner, outer, rfl, -, rfl⟩
  · exact ⟨List.pairwise_singleton _ _, rfl⟩
  · refine ⟨List.pairwise_cons.2 ⟨fun x hx => ?_, hStack⟩, rfl⟩
    rcases List.mem_cons.1 hx with rfl | hOuter
    · exact ⟨hIndent, hWidth⟩
    · have hBelow := (List.pairwise_cons.1 hStack).1 x hOuter
      omega
  · exact ⟨(List.pairwise_append.1 hStack).2.1, rfl⟩

theorem Nested.of_run {stack after : List Depth} {ds : List Depth} (hStack : Nested stack)
    (h : ds.foldlM FieldFill.openAfter? stack = some after) : Nested after := by
  induction ds generalizing stack with
  | nil =>
    obtain rfl : stack = after := Option.some.inj h
    exact hStack
  | cons d ds ih =>
    obtain ⟨next, hStep, hRest⟩ := Option.bind_eq_some_iff.1 h
    exact ih (hStack.openAfter? hStep).1 hRest

/-- A line leaves its own indentation innermost. -/
theorem exists_opened {ds rest after : List Depth} {c : Depth}
    (h : (ds ++ c :: rest).foldlM openAfter? [] = some after) :
    ∃ outer, Nested (c :: outer) ∧ rest.foldlM openAfter? (c :: outer) = some after := by
  rw [List.foldlM_append] at h
  obtain ⟨outside, hBefore, hRun⟩ := Option.bind_eq_some_iff.1 h
  rw [List.foldlM_cons] at hRun
  obtain ⟨opened, hStep, hRest⟩ := Option.bind_eq_some_iff.1 hRun
  have hOutside : Nested outside := Nested.of_run List.Pairwise.nil hBefore
  obtain ⟨hOpened, hHead⟩ := hOutside.openAfter? hStep
  cases opened with
  | nil => cases hHead
  | cons x outer =>
    obtain rfl := Option.some.inj hHead
    exact ⟨outer, hOpened, hRest⟩

/-! ## Lines below an open indentation -/

section

variable {inner outer after : List Depth} {c d f : Depth}

theorem width_le_of_mem (hStack : Nested (c :: outer)) (hd : d ∈ c :: outer) :
    d.width ≤ c.width := by
  rcases List.mem_cons.1 hd with rfl | hOuter
  · exact Nat.le_refl _
  · exact Nat.le_of_lt ((List.pairwise_cons.1 hStack).1 d hOuter).2

/-- The first line of a block opens a deeper indentation. -/
theorem openAfter?_first (hStack : Nested (c :: outer))
    (h : openAfter? (c :: outer) d = some after) (hWidth : c.width < d.width) :
    after = d :: c :: outer ∧ c.indent < d.indent := by
  rcases openAfter?_cases h with ⟨hNil, -⟩ | ⟨s, rest, hEq, hIndent, -, hAfter⟩ |
    ⟨inner, rest, hEq, -, -⟩
  · cases hNil
  · obtain ⟨rfl, rfl⟩ := List.cons.inj hEq
    exact ⟨hAfter, hIndent⟩
  · -- it does not go back to an open one
    have hMem : d ∈ c :: outer := by simp [hEq]
    have hle := width_le_of_mem hStack hMem
    omega

/-- A line deeper than `c` leaves the first indentation inside of `c` open. -/
theorem openAfter?_above (hStack : Nested (inner ++ f :: c :: outer))
    (h : openAfter? (inner ++ f :: c :: outer) d = some after) (hWidth : c.width < d.width) :
    (∃ inner', after = inner' ++ f :: c :: outer) ∧ f.indent ≤ d.indent ∧
      (d.width ≤ f.width → d = f) := by
  obtain ⟨hInner, hTail, hCross⟩ := List.pairwise_append.1 hStack
  have hOuter : Nested (c :: outer) := (List.pairwise_cons.1 hTail).2
  rcases openAfter?_cases h with ⟨hNil, -⟩ | ⟨s, rest, hEq, hIndent, hDeeper, rfl⟩ |
    ⟨inner', outer', hEq, -, rfl⟩
  · simp at hNil
  · -- deeper than the innermost one, which is `f` or inside of it
    have hBelow : f.indent ≤ s.indent ∧ f.width ≤ s.width := by
      cases inner with
      | nil =>
        obtain ⟨rfl, -⟩ := List.cons.inj hEq
        omega
      | cons x inner =>
        obtain ⟨rfl, -⟩ := List.cons.inj hEq
        have hx := hCross x (List.mem_cons_self ..) f (List.mem_cons_self ..)
        omega
    refine ⟨⟨d :: inner, rfl⟩, by omega, fun hle => ?_⟩
    omega
  · rcases List.append_eq_append_iff.1 hEq with ⟨gap, -, hGap⟩ | ⟨gap, hGap, hRest⟩
    · cases gap with
      | nil =>
        obtain ⟨rfl, rfl⟩ := List.cons.inj hGap
        exact ⟨⟨[], rfl⟩, Nat.le_refl _, fun _ => rfl⟩
      | cons x gap =>
        -- back to `c` or further out
        obtain ⟨-, hBack⟩ := List.cons.inj hGap
        have hMem : d ∈ c :: outer := by simp [hBack]
        have hle := width_le_of_mem hOuter hMem
        omega
    · cases gap with
      | nil =>
        obtain ⟨rfl, rfl⟩ := List.cons.inj hRest
        exact ⟨⟨[], rfl⟩, Nat.le_refl _, fun _ => rfl⟩
      | cons x gap =>
        obtain ⟨rfl, rfl⟩ := List.cons.inj hRest
        have hd := hCross d (hGap ▸ by simp) f (List.mem_cons_self ..)
        exact ⟨⟨d :: gap, rfl⟩, by omega, fun hle => by omega⟩

theorem foldlM_above {ds : List Depth} (hStack : Nested (inner ++ f :: c :: outer))
    (hRun : ds.foldlM openAfter? (inner ++ f :: c :: outer) = some after)
    (hWidth : ∀ d ∈ ds, c.width < d.width) :
    ∀ d ∈ ds, f.indent ≤ d.indent ∧ (d.width ≤ f.width → d = f) := by
  induction ds generalizing inner with
  | nil => intro d hd; cases hd
  | cons x ds ih =>
    obtain ⟨next, hStep, hRest⟩ := Option.bind_eq_some_iff.1 hRun
    obtain ⟨hx, hMore⟩ := List.forall_mem_cons.1 hWidth
    obtain ⟨⟨inner', rfl⟩, hAbove⟩ := openAfter?_above hStack hStep hx
    have hLater := ih (hStack.openAfter? hStep).1 hRest hMore
    exact List.forall_mem_cons.2 ⟨hAbove, hLater⟩

/-- **The lines of a block.** Lines that are all deeper than an open indentation by the count of
their spaces and tabs are deeper by indentation, too; and when none of them has fewer spaces and tabs
than the last one, the last one stands beside the first. -/
theorem below_of_run {ds : List Depth} {m : Depth} (hStack : Nested (c :: outer))
    (hRun : (ds ++ [m]).foldlM openAfter? (c :: outer) = some after)
    (hWidth : ∀ d ∈ ds ++ [m], c.width < d.width ∧ m.width ≤ d.width) :
    (∀ d ∈ ds ++ [m], c.indent < d.indent) ∧
      ∀ f, (ds ++ [m]).head? = some f → m.indent = f.indent := by
  obtain ⟨f, more, hList⟩ : ∃ f more, ds ++ [m] = f :: more :=
    List.exists_cons_of_ne_nil (by simp)
  rw [hList] at hRun hWidth ⊢
  obtain ⟨next, hStep, hRest⟩ := Option.bind_eq_some_iff.1 hRun
  obtain ⟨hFirst, hMore⟩ := List.forall_mem_cons.1 hWidth
  obtain ⟨rfl, hDeeper⟩ := openAfter?_first hStack hStep hFirst.1
  have hOpen : Nested ([] ++ f :: c :: outer) := (hStack.openAfter? hStep).1
  have hAbove := foldlM_above hOpen hRest fun d hd => (hMore d hd).1
  refine ⟨List.forall_mem_cons.2 ⟨hDeeper, fun d hd => ?_⟩, ?_⟩
  · have hBelow := (hAbove d hd).1
    omega
  · intro f' hHead
    obtain rfl : f = f' := by simpa using hHead
    -- the last one is the first one, or stands as deep as it
    have hLast : m = f ∨ m ∈ more := by
      have hMem : m ∈ ds ++ [m] := by simp
      rwa [hList, List.mem_cons] at hMem
    rcases hLast with rfl | hMem
    · rfl
    · rw [(hAbove m hMem).2 hFirst.2]

end

/-! ## Programs -/

/-- How deep the code of a logical line stands. -/
def depth? (l : Text) : Option Depth :=
  (ownLine? l).map fun own => ⟨own.indent, leadWidth l⟩

/-- Every line of code goes deeper than the one before, or back to an indentation that is open. -/
def Program.WellIndented (p : Program) : Prop :=
  ((p.lines.filterMap depth?).foldlM openAfter? []).isSome = true

instance : DecidablePred Program.WellIndented := fun p =>
  inferInstanceAs (Decidable (((p.lines.filterMap depth?).foldlM openAfter? []).isSome = true))

end FieldFill

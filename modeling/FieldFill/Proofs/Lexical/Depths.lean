import FieldFill.Proofs.Lexical.Matching

/-!
# Depths and pairs

A scan gives depths and no pairs, and whoever looks for the end of a list goes by the depths. That is
right because the depths tell the pairs: behind an opening bracket everything is deeper than it, up to
the bracket that closes it and no further.

Main definitions:

* `Levels` — the depths of marks that are read behind open brackets.
* `Encloses` — two brackets at one depth with only deeper marks in between.

Main results:

* `mem_pairsFrom_iff` — an open bracket goes with the first mark that is not deeper than it.
* `levels_scanFrom` — a scan has the depths of its open brackets.
* `encloses_iff` — two brackets enclose what is between them exactly when they are a pair.
* `depths_identify_pairs` — what the depths say of an opening bracket and of a closing one.
-/

namespace FieldFill

/-- Marks with the depths that they have behind the open brackets of a stack: each has the smaller one
of the depths before and after it. -/
def Levels : List Scanned → List Scanned → Prop
  | _, [] => True
  | stack, m :: rest =>
    m.depth = min stack.length (restack stack m).length ∧
      m.depthAfter = (restack stack m).length ∧ Levels (restack stack m) rest

/-- An opening bracket, and a closing one behind it at the same depth, with only deeper marks in
between. -/
structure Encloses (marks : List Scanned) (opener closer : Scanned) : Prop where
  mem_opener : opener ∈ marks
  mem_closer : closer ∈ marks
  opens : opener.opens = true
  closes : closer.closes = true
  behind : opener.offset < closer.offset
  depth_eq : closer.depth = opener.depth
  inside : ∀ m ∈ marks, opener.offset < m.offset → m.offset < closer.offset → opener.depth < m.depth

section

variable {m k o x : Scanned} {stack inner outer marks rest front back : List Scanned}

/-! ## One mark behind a stack -/

theorem restack_of_opens (h : m.opens = true) : restack stack m = m :: stack := by
  rw [restack, if_pos h]

theorem restack_of_closes (h : m.closes = true) : restack stack m = stack.tail := by
  rw [restack, Scanned.not_opens_of_closes h, if_neg Bool.false_ne_true, if_pos h]

theorem restack_of_neither (hOpens : m.opens = false) (hCloses : m.closes = false) :
    restack stack m = stack := by
  rw [restack, hOpens, if_neg Bool.false_ne_true, hCloses, if_neg Bool.false_ne_true]

theorem pairsFrom_of_opens (h : m.opens = true) :
    pairsFrom stack (m :: rest) = pairsFrom (m :: stack) rest := by
  cases stack <;> rw [pairsFrom, if_pos h]

theorem pairsFrom_of_closes (h : m.closes = true) :
    pairsFrom (x :: outer) (m :: rest) = (x, m) :: pairsFrom outer rest := by
  rw [pairsFrom, Scanned.not_opens_of_closes h, if_neg Bool.false_ne_true, if_pos h]

theorem pairsFrom_of_stray (h : m.closes = true) :
    pairsFrom [] (m :: rest) = pairsFrom [] rest := by
  rw [pairsFrom, Scanned.not_opens_of_closes h, if_neg Bool.false_ne_true, if_pos h]

theorem pairsFrom_of_neither (hOpens : m.opens = false) (hCloses : m.closes = false) :
    pairsFrom stack (m :: rest) = pairsFrom stack rest := by
  cases stack <;>
    rw [pairsFrom, hOpens, if_neg Bool.false_ne_true, hCloses, if_neg Bool.false_ne_true]

theorem Levels.depth_of_opens (h : Levels stack (m :: rest)) (hOpens : m.opens = true) :
    m.depth = stack.length ∧ Levels (m :: stack) rest := by
  obtain ⟨hDepth, -, hRest⟩ := h
  rw [restack_of_opens hOpens] at hDepth hRest
  rw [List.length_cons] at hDepth
  exact ⟨by omega, hRest⟩

theorem Levels.depth_of_closes (h : Levels stack (m :: rest)) (hCloses : m.closes = true) :
    m.depth = stack.length - 1 ∧ m.depthAfter = stack.length - 1 ∧ Levels stack.tail rest := by
  obtain ⟨hDepth, hAfter, hRest⟩ := h
  rw [restack_of_closes hCloses] at hDepth hAfter hRest
  rw [List.length_tail] at hDepth hAfter
  exact ⟨by omega, hAfter, hRest⟩

theorem Levels.depth_of_neither (h : Levels stack (m :: rest)) (hOpens : m.opens = false)
    (hCloses : m.closes = false) : m.depth = stack.length ∧ Levels stack rest := by
  obtain ⟨hDepth, -, hRest⟩ := h
  rw [restack_of_neither hOpens hCloses] at hDepth hRest
  exact ⟨by omega, hRest⟩

/-! ## Marks behind a stack -/

theorem Levels.of_append (h : Levels stack (front ++ back)) : Levels (stackAfter stack front) back := by
  induction front generalizing stack with
  | nil => exact h
  | cons m front ih => exact ih h.2.2

theorem pairsFrom_append (stack front back : List Scanned) :
    pairsFrom stack (front ++ back) =
      pairsFrom stack front ++ pairsFrom (stackAfter stack front) back := by
  induction front generalizing stack with
  | nil => rfl
  | cons m front ih =>
    rw [List.cons_append, stackAfter]
    cases hOpens : m.opens with
    | true => rw [pairsFrom_of_opens hOpens, pairsFrom_of_opens hOpens, restack_of_opens hOpens, ih]
    | false =>
      cases hCloses : m.closes with
      | false =>
        rw [pairsFrom_of_neither hOpens hCloses, pairsFrom_of_neither hOpens hCloses,
          restack_of_neither hOpens hCloses, ih]
      | true =>
        rw [restack_of_closes hCloses]
        cases stack with
        | nil => rw [pairsFrom_of_stray hCloses, pairsFrom_of_stray hCloses, List.tail_nil, ih]
        | cons x outer =>
          rw [pairsFrom_of_closes hCloses, pairsFrom_of_closes hCloses, List.tail_cons, ih,
            List.cons_append]

/-- A pair is an opening bracket and a closing one, unless the first was open before. -/
theorem opens_of_mem_pairsFrom {p : Scanned × Scanned} (h : p ∈ pairsFrom stack marks) :
    (p.1 ∈ stack ∨ p.1.opens = true) ∧ p.2.closes = true := by
  induction marks generalizing stack with
  | nil => cases stack <;> cases h
  | cons m rest ih =>
    cases hOpens : m.opens with
    | true =>
      rw [pairsFrom_of_opens hOpens] at h
      obtain ⟨hFirst, hSecond⟩ := ih h
      refine ⟨hFirst.elim (fun hMem => ?_) .inr, hSecond⟩
      rcases List.mem_cons.1 hMem with hEq | hStack
      · exact .inr (hEq ▸ hOpens)
      · exact .inl hStack
    | false =>
      cases hCloses : m.closes with
      | false =>
        rw [pairsFrom_of_neither hOpens hCloses] at h
        exact ih h
      | true =>
        cases stack with
        | nil =>
          rw [pairsFrom_of_stray hCloses] at h
          exact ih h
        | cons x outer =>
          rw [pairsFrom_of_closes hCloses] at h
          rcases List.mem_cons.1 h with rfl | hRest
          · exact ⟨.inl (List.mem_cons_self ..), hCloses⟩
          · obtain ⟨hFirst, hSecond⟩ := ih hRest
            exact ⟨hFirst.imp_left (List.mem_cons_of_mem x), hSecond⟩

/-! ## The first mark that is not deeper -/

/-- A mark that is not deeper than a given depth. -/
def Scanned.within (depth : Nat) (m : Scanned) : Bool :=
  decide (m.depth ≤ depth)

theorem find?_within_of_deeper {depth : Nat} (h : depth < m.depth) :
    (m :: rest).find? (Scanned.within depth) = rest.find? (Scanned.within depth) :=
  List.find?_cons_of_neg (by simpa [Scanned.within] using h)

/-- **An open bracket goes with the first mark that is not deeper than it.** -/
theorem mem_pairsFrom_iff (hNodup : ((inner ++ o :: outer) ++ marks).Nodup)
    (h : Levels (inner ++ o :: outer) marks) :
    (o, k) ∈ pairsFrom (inner ++ o :: outer) marks ↔
      marks.find? (Scanned.within outer.length) = some k := by
  have hLength : ∀ inner : List Scanned, outer.length < (inner ++ o :: outer).length := by
    intro inner
    rw [List.length_append, List.length_cons]
    omega
  induction marks generalizing inner with
  | nil => simp [pairsFrom]
  | cons m rest ih =>
    have hLater := hNodup.sublist ((List.sublist_cons_self m rest).append_left _)
    cases hOpens : m.opens with
    | true =>
      obtain ⟨hDepth, hNext⟩ := h.depth_of_opens hOpens
      rw [pairsFrom_of_opens hOpens, find?_within_of_deeper (hDepth ▸ hLength inner)]
      exact @ih (m :: inner) (List.perm_middle.nodup_iff.1 hNodup) hNext
    | false =>
      cases hCloses : m.closes with
      | false =>
        obtain ⟨hDepth, hNext⟩ := h.depth_of_neither hOpens hCloses
        rw [pairsFrom_of_neither hOpens hCloses, find?_within_of_deeper (hDepth ▸ hLength inner)]
        exact ih hLater hNext
      | true =>
        obtain ⟨hDepth, -, hNext⟩ := h.depth_of_closes hCloses
        cases inner with
        | nil =>
          -- this mark closes it, and nothing behind does
          have hOnce : (o, k) ∉ pairsFrom outer rest := by
            intro hMem
            have hTwice := (mem_of_mem_pairsFrom hMem).1
            exact (List.nodup_cons.1 hLater).1 (List.mem_append.2 hTwice)
          have hHere : m.within outer.length = true := by simp [Scanned.within, hDepth]
          rw [List.nil_append, pairsFrom_of_closes hCloses, List.find?_cons_of_pos hHere]
          simp [hOnce, eq_comm]
        | cons x inner =>
          obtain ⟨hFresh, hRest⟩ := List.nodup_cons.1 hLater
          have hOther : o ≠ x := by
            rintro rfl
            exact hFresh (by simp)
          have hDeeper : outer.length < m.depth := by
            have hInner := hLength inner
            rw [hDepth, List.cons_append, List.length_cons]
            omega
          rw [List.cons_append, pairsFrom_of_closes hCloses, find?_within_of_deeper hDeeper]
          refine Iff.trans ?_ (ih hRest hNext)
          simp [hOther]

/-- The first mark that is not deeper than an open bracket is a closing one at its depth. -/
theorem Levels.closes_of_find? {depth : Nat} (h : Levels stack marks) (hLt : depth < stack.length)
    (hFind : marks.find? (Scanned.within depth) = some k) : k.closes = true ∧ k.depth = depth := by
  induction marks generalizing stack with
  | nil => cases hFind
  | cons m rest ih =>
    cases hOpens : m.opens with
    | true =>
      obtain ⟨hDepth, hNext⟩ := h.depth_of_opens hOpens
      rw [find?_within_of_deeper (hDepth ▸ hLt)] at hFind
      exact ih hNext (Nat.lt_succ_of_lt hLt) hFind
    | false =>
      cases hCloses : m.closes with
      | false =>
        obtain ⟨hDepth, hNext⟩ := h.depth_of_neither hOpens hCloses
        rw [find?_within_of_deeper (hDepth ▸ hLt)] at hFind
        exact ih hNext hLt hFind
      | true =>
        obtain ⟨hDepth, -, hNext⟩ := h.depth_of_closes hCloses
        by_cases hHere : depth < m.depth
        · rw [find?_within_of_deeper hHere] at hFind
          exact ih hNext (by rw [List.length_tail]; omega) hFind
        · rw [List.find?_cons_of_pos (by simpa [Scanned.within] using hHere)] at hFind
          obtain rfl := Option.some.inj hFind
          exact ⟨hCloses, by omega⟩

end

/-! ## Depths of a scan -/

section

variable {s : State} {offset : Nat} {text : Text} {stack front back : List Scanned} {m k n : Scanned}

/-- A scan has the depths of its open brackets. -/
theorem levels_scanFrom (hStack : s.openers = stack.map Scanned.offset) :
    Levels stack (scanFrom s offset text) := by
  induction text generalizing s offset stack with
  | nil => trivial
  | cons c rest ih =>
    obtain ⟨region, next, hRead⟩ := exists_reads s offset c rest
    obtain ⟨hOpeners, -⟩ := hRead.restack hStack
    rw [hRead.scanFrom_cons]
    have hDepth : s.depth = stack.length := by rw [State.depth, hStack, List.length_map]
    have hAfter := congrArg List.length hOpeners
    rw [List.length_map, ← State.depth] at hAfter
    refine ⟨?_, hAfter, ih hOpeners⟩
    rw [← hAfter, ← hDepth]

theorem levels_scan (h : scan text = front ++ back) : Levels (stackAfter [] front) back := by
  have hLevels : Levels [] (scan text) := levels_scanFrom rfl
  rw [h] at hLevels
  exact hLevels.of_append

/-- The marks behind a mark are those that stand further on in the text. -/
theorem mem_back_iff (h : scan text = front ++ m :: back) :
    n ∈ back ↔ n ∈ scan text ∧ m.offset < n.offset := by
  have hOrder := pairwise_offset_scanFrom .start 0 text
  rw [← scan, h, List.pairwise_append, List.pairwise_cons] at hOrder
  obtain ⟨-, ⟨hBehind, -⟩, hBefore⟩ := hOrder
  rw [h]
  constructor
  · intro hn
    exact ⟨by simp [hn], hBehind n hn⟩
  · rintro ⟨hMem, hLt⟩
    rcases List.mem_append.1 hMem with hFront | hCons
    · have hBefore := hBefore n hFront m (List.mem_cons_self ..)
      omega
    · rcases List.mem_cons.1 hCons with rfl | hBack
      · omega
      · exact hBack

/-- The open brackets in front of a mark are marks in front of it, each of them once. -/
theorem nodup_stackAfter (h : scan text = front ++ back) : (stackAfter [] front ++ back).Nodup := by
  have hNodup := nodup_scan text
  rw [h] at hNodup
  have hFront : ([] ++ front).Nodup := (List.nodup_append.1 hNodup).1
  have hStack : (stackAfter [] front).reverse.Sublist front := by
    rw [reverse_stackAfter hFront]
    exact List.filter_sublist.trans List.filter_sublist
  exact (((List.reverse_perm _).append_right back).nodup_iff).1
    (hNodup.sublist (hStack.append_right back))

/-- **The pair of an opening bracket** is the first mark behind it that is not deeper. -/
theorem mem_pairs_iff (h : scan text = front ++ m :: back) (hOpens : m.opens = true) :
    (m, k) ∈ pairs (scan text) ↔ back.find? (Scanned.within m.depth) = some k := by
  have hNodup := nodup_stackAfter h
  obtain ⟨hDepth, hNext⟩ := (levels_scan h).depth_of_opens hOpens
  have hFront : (m, k) ∉ pairsFrom [] front := by
    intro hMem
    have hTwice := (mem_of_mem_pairsFrom hMem).1.resolve_left List.not_mem_nil
    have hOnce := nodup_scan text
    rw [h, List.perm_middle.nodup_iff] at hOnce
    exact (List.nodup_cons.1 hOnce).1 (List.mem_append_left back hTwice)
  have hBack := @mem_pairsFrom_iff k m [] (stackAfter [] front) back
    (List.perm_middle.nodup_iff.1 hNodup) hNext
  rw [pairs, h, pairsFrom_append, pairsFrom_of_opens hOpens, List.mem_append, hDepth]
  simp only [hFront, false_or]
  exact hBack

/-- What stands between an opening bracket and its pair is deeper than both. -/
theorem encloses_of_find? (h : scan text = front ++ m :: back) (hOpens : m.opens = true)
    (hFind : back.find? (Scanned.within m.depth) = some k) : Encloses (scan text) m k := by
  obtain ⟨hDepth, hNext⟩ := (levels_scan h).depth_of_opens hOpens
  rw [hDepth] at hFind
  obtain ⟨hCloses, hSame⟩ := hNext.closes_of_find? (by rw [List.length_cons]; omega) hFind
  obtain ⟨-, inside, behind, rfl, hInside⟩ := List.find?_eq_some_iff_append.1 hFind
  have hBehind := (mem_back_iff h).1 (List.mem_append_right inside (List.mem_cons_self ..))
  refine ⟨by simp [h], hBehind.1, hOpens, hCloses, hBehind.2, hSame.trans hDepth.symm, ?_⟩
  intro n hn hAfter hBefore
  have hBack := (mem_back_iff h).2 ⟨hn, hAfter⟩
  -- it is not behind the pair, so it was passed over
  have hInsideOf : n ∈ inside := by
    have hSplit : scan text = (front ++ m :: inside) ++ k :: behind := by rw [h]; simp
    rcases List.mem_append.1 hBack with hIn | hCons
    · exact hIn
    · rcases List.mem_cons.1 hCons with rfl | hOut
      · omega
      · have hLater := ((mem_back_iff hSplit).1 hOut).2
        omega
  have hDeeper := hInside n hInsideOf
  simp only [Scanned.within, Bool.not_eq_true', decide_eq_false_iff_not, Nat.not_le] at hDeeper
  omega

theorem find?_of_encloses (h : scan text = front ++ m :: back) (hEncloses : Encloses (scan text) m k) :
    back.find? (Scanned.within m.depth) = some k := by
  have hk := (mem_back_iff h).2 ⟨hEncloses.mem_closer, hEncloses.behind⟩
  obtain ⟨inside, behind, rfl⟩ := List.append_of_mem hk
  refine List.find?_eq_some_iff_append.2
    ⟨by simp [Scanned.within, hEncloses.depth_eq], inside, behind, rfl, fun n hn => ?_⟩
  have hSplit : scan text = (front ++ m :: inside) ++ k :: behind := by rw [h]; simp
  have hAfter := (mem_back_iff h).1 (List.mem_append_left _ hn)
  -- a mark in front of the pair stands before it
  have hOrder := pairwise_offset_scanFrom .start 0 text
  rw [← scan, hSplit, List.pairwise_append] at hOrder
  have hBefore := hOrder.2.2 n (by simp [hn]) k (List.mem_cons_self ..)
  have hDeeper := hEncloses.inside n hAfter.1 hAfter.2 hBefore
  simpa [Scanned.within] using hDeeper

/-- **Two brackets enclose what is between them exactly when they are a pair.** -/
theorem encloses_iff : Encloses (scan text) m k ↔ (m, k) ∈ pairs (scan text) := by
  constructor
  · intro hEncloses
    obtain ⟨front, back, hSplit⟩ := List.append_of_mem hEncloses.mem_opener
    exact (mem_pairs_iff hSplit hEncloses.opens).2 (find?_of_encloses hSplit hEncloses)
  · intro hPair
    have hMem := (mem_of_mem_pairsFrom hPair).1.resolve_left List.not_mem_nil
    have hOpens := (opens_of_mem_pairsFrom hPair).1.resolve_left List.not_mem_nil
    obtain ⟨front, back, hSplit⟩ := List.append_of_mem hMem
    exact encloses_of_find? hSplit hOpens ((mem_pairs_iff hSplit hOpens).1 hPair)

/-- An opening bracket that is in no pair: everything behind it is deeper. -/
theorem deeper_of_unmatched (hm : m ∈ scan text) (hOpens : m.opens = true)
    (h : ∀ k, (m, k) ∉ pairs (scan text)) : ∀ n ∈ scan text, m.offset < n.offset → m.depth < n.depth := by
  obtain ⟨front, back, hSplit⟩ := List.append_of_mem hm
  have hNone : back.find? (Scanned.within m.depth) = none := by
    rw [Option.eq_none_iff_forall_ne_some]
    exact fun k hFind => h k ((mem_pairs_iff hSplit hOpens).2 hFind)
  intro n hn hAfter
  have hDeeper := List.find?_eq_none.1 hNone n ((mem_back_iff hSplit).2 ⟨hn, hAfter⟩)
  simpa [Scanned.within] using hDeeper

/-- A closing bracket that is in no pair stands outside of all brackets, and leaves the text there. -/
theorem depth_eq_zero_of_stray (hk : k ∈ scan text) (hCloses : k.closes = true)
    (h : ∀ m, (m, k) ∉ pairs (scan text)) : k.depth = 0 ∧ k.depthAfter = 0 := by
  obtain ⟨front, back, hSplit⟩ := List.append_of_mem hk
  obtain ⟨hDepth, hAfter, -⟩ := (levels_scan hSplit).depth_of_closes hCloses
  cases hStack : stackAfter [] front with
  | nil =>
    rw [hStack] at hDepth hAfter
    exact ⟨hDepth, hAfter⟩
  | cons opener outer =>
    -- an open bracket would be its pair
    refine absurd ?_ (h opener)
    rw [pairs, hSplit, pairsFrom_append, hStack, pairsFrom_of_closes hCloses]
    exact List.mem_append_right _ (List.mem_cons_self ..)

end

/-- **Depths identify the matched brackets of a text.** For an opening bracket in code there are two
ways:
* some later bracket in code closes it at the same depth, with only deeper characters in between, and
  the two are a pair of the stack rule;
* or everything behind it is deeper, and it is one of the brackets that are open at the end, whose
  number is the depth there.

No other brackets than those of a pair enclose what is between them in this way. A closing bracket
that is not matched so stands at depth zero and leaves the depth there. -/
theorem depths_identify_pairs (text : Text) :
    (∀ m ∈ scan text, m.opens = true →
      (∃ k, Encloses (scan text) m k ∧ (m, k) ∈ pairs (scan text)) ∨
      ((∀ n ∈ scan text, m.offset < n.offset → m.depth < n.depth) ∧
        m ∈ unmatchedOpeners (scan text) ∧ m.offset ∈ (endState text).openers)) ∧
    (endState text).depth = (unmatchedOpeners (scan text)).length ∧
    (∀ m k, Encloses (scan text) m k ↔ (m, k) ∈ pairs (scan text)) ∧
    ∀ k ∈ scan text, k.closes = true → (∀ m, ¬ Encloses (scan text) m k) →
      k.depth = 0 ∧ k.depthAfter = 0 := by
  have hOpeners := openers_endState text
  refine ⟨fun m hm hOpens => ?_, ?_, fun m k => encloses_iff, fun k hk hCloses hNone => ?_⟩
  · by_cases hPair : ∃ k, (m, k) ∈ pairs (scan text)
    · obtain ⟨k, hk⟩ := hPair
      exact .inl ⟨k, encloses_iff.2 hk, hk⟩
    · have hNone : ∀ k, (m, k) ∉ pairs (scan text) := fun k hk => hPair ⟨k, hk⟩
      have hUnmatched : m ∈ unmatchedOpeners (scan text) := by
        rw [unmatchedOpeners, List.mem_filter]
        simpa [hOpens, hm] using hNone
      refine .inr ⟨deeper_of_unmatched hm hOpens hNone, hUnmatched, ?_⟩
      rw [← List.mem_reverse, hOpeners]
      exact List.mem_map_of_mem hUnmatched
  · rw [State.depth, ← List.length_reverse, hOpeners, List.length_map]
  · exact depth_eq_zero_of_stray hk hCloses fun m hPair => hNone m (encloses_iff.2 hPair)

/-- A bracket that closes nothing, one that encloses a string, a comment and another pair, a second stray
one, and a bracket that stays open. -/
theorem depths_identify_pairs_around_string :
    let text := ")(\"(\"#]\n[b])]\x7b".toList
    Encloses (scan text) ⟨1, '(', .code, 0, 1⟩ ⟨11, ')', .code, 0, 0⟩ ∧
      (⟨8, '[', .code, 1, 2⟩, ⟨10, ']', .code, 1, 1⟩) ∈ pairs (scan text) ∧
      (⟨13, '\x7b', .code, 0, 1⟩ : Scanned) ∈ unmatchedOpeners (scan text) ∧
      (endState text).depth = (unmatchedOpeners (scan text)).length ∧
      ∃ k ∈ scan text, k.offset = 12 ∧ k.depth = 0 ∧ k.depthAfter = 0 := by
  intro text
  obtain ⟨hOpener, hDepth, hPairs, hStray⟩ := depths_identify_pairs text
  have hInner : (⟨8, '[', .code, 1, 2⟩, ⟨10, ']', .code, 1, 1⟩) ∈ pairs (scan text) := by
    decide +kernel
  have hOuter : (⟨1, '(', .code, 0, 1⟩, ⟨11, ')', .code, 0, 0⟩) ∈ pairs (scan text) := by
    decide +kernel
  have hUnclosed : (⟨13, '\x7b', .code, 0, 1⟩ : Scanned) ∉ (pairs (scan text)).map Prod.fst := by
    decide +kernel
  have hOpen := (hOpener ⟨13, '\x7b', .code, 0, 1⟩ (by decide +kernel) rfl).resolve_left
    fun ⟨_, _, hPair⟩ => hUnclosed (List.mem_map_of_mem (f := Prod.fst) hPair)
  have hUnopened : (⟨12, ']', .code, 0, 0⟩ : Scanned) ∉ (pairs (scan text)).map Prod.snd := by
    decide +kernel
  have hFree : ∀ m, ¬ Encloses (scan text) m ⟨12, ']', .code, 0, 0⟩ := fun m hEncloses =>
    hUnopened (List.mem_map_of_mem (f := Prod.snd) ((hPairs _ _).1 hEncloses))
  have hMem : (⟨12, ']', .code, 0, 0⟩ : Scanned) ∈ scan text := by decide +kernel
  exact ⟨(hPairs _ _).2 hOuter, hInner, hOpen.2.1, hDepth, _, hMem, rfl, hStray _ hMem rfl hFree⟩

end FieldFill

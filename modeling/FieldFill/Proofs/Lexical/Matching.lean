import FieldFill.Proofs.Lexical.Reads

/-!
# Brackets that match

A closing bracket goes with the last opening one that is still without its closing one, whatever
their kinds are. The scan keeps no pairs, only where the open brackets stand and which bracket first
closed nothing; this is what the pairs leave over.

Main definitions:

* `pairs` — the matched brackets of a scan.
* `unmatchedOpeners`, `strayClosers` — the brackets that are in no pair, in the order of the text.

Main results:

* `reverse_stackAfter`, `straysFrom_eq` — what the stack rule leaves over are the unmatched ones.
* `openers_endState`, `unbalanced_endState` — the state at the end of a text holds them.
-/

namespace FieldFill

namespace Scanned

/-- An opening bracket in code. -/
def opens (m : Scanned) : Bool :=
  m.isCode && isOpener m.char

/-- A closing bracket in code. -/
def closes (m : Scanned) : Bool :=
  m.isCode && isCloser m.char

end Scanned

/-- The pairs of brackets in a scan behind open ones, the last of them first. -/
def pairsFrom : List Scanned → List Scanned → List (Scanned × Scanned)
  | _, [] => []
  | stack, m :: rest =>
    if m.opens then pairsFrom (m :: stack) rest
    else if m.closes then
      match stack with
      | [] => pairsFrom [] rest
      | opener :: outer => (opener, m) :: pairsFrom outer rest
    else pairsFrom stack rest

def pairs (marks : List Scanned) : List (Scanned × Scanned) :=
  pairsFrom [] marks

/-- The opening brackets that no bracket closes. -/
def unmatchedOpeners (marks : List Scanned) : List Scanned :=
  marks.filter fun m => m.opens && m ∉ (pairs marks).map Prod.fst

/-- The closing brackets that close nothing. -/
def strayClosers (marks : List Scanned) : List Scanned :=
  marks.filter fun m => m.closes && m ∉ (pairs marks).map Prod.snd

/-! ## What is left over -/

/-- The open brackets behind a mark, the last one first. -/
def restack (stack : List Scanned) (m : Scanned) : List Scanned :=
  if m.opens then m :: stack else if m.closes then stack.tail else stack

def stackAfter : List Scanned → List Scanned → List Scanned
  | stack, [] => stack
  | stack, m :: rest => stackAfter (restack stack m) rest

/-- The brackets of a scan that close nothing. -/
def straysFrom : List Scanned → List Scanned → List Scanned
  | _, [] => []
  | stack, m :: rest =>
    if m.closes && stack.isEmpty then m :: straysFrom (restack stack m) rest
    else straysFrom (restack stack m) rest

section

variable {m : Scanned} {stack marks rest : List Scanned}

theorem Scanned.not_opens_of_closes (h : m.closes = true) : m.opens = false := by
  rw [closes, Bool.and_eq_true] at h
  rw [opens, not_isOpener_of_isCloser h.2, Bool.and_false]

theorem Scanned.not_closes_of_opens (h : m.opens = true) : m.closes = false := by
  cases hCloses : m.closes with
  | false => rfl
  | true => exact absurd h (by simp [not_opens_of_closes hCloses])

/-- Each bracket of a pair was open or is one of the scan. -/
theorem mem_of_mem_pairsFrom {p : Scanned × Scanned} (h : p ∈ pairsFrom stack marks) :
    (p.1 ∈ stack ∨ p.1 ∈ marks) ∧ p.2 ∈ marks := by
  induction stack, marks using pairsFrom.induct with
  | case1 stack => simp [pairsFrom] at h
  | case2 stack m rest hOpens ih =>
    simp only [pairsFrom, hOpens, if_true] at h
    obtain ⟨hFirst, hSecond⟩ := ih h
    simp only [List.mem_cons] at hFirst ⊢
    exact ⟨by grind, .inr hSecond⟩
  | case3 m rest hOpens hCloses ih =>
    simp only [pairsFrom, hOpens, hCloses, Bool.false_eq_true, if_false, if_true] at h
    obtain ⟨hFirst, hSecond⟩ := ih h
    exact ⟨hFirst.imp_right (List.mem_cons_of_mem _), List.mem_cons_of_mem _ hSecond⟩
  | case4 m rest hOpens hCloses opener outer ih =>
    simp only [pairsFrom, hOpens, hCloses, Bool.false_eq_true, if_false, if_true] at h
    rcases List.mem_cons.1 h with rfl | hRest
    · exact ⟨.inl (List.mem_cons_self ..), List.mem_cons_self ..⟩
    · obtain ⟨hFirst, hSecond⟩ := ih hRest
      exact ⟨hFirst.imp (List.mem_cons_of_mem _) (List.mem_cons_of_mem _),
        List.mem_cons_of_mem _ hSecond⟩
  | case5 stack m rest hOpens hCloses ih =>
    simp only [pairsFrom, hOpens, hCloses, Bool.false_eq_true, if_false] at h
    obtain ⟨hFirst, hSecond⟩ := ih h
    exact ⟨hFirst.imp_right (List.mem_cons_of_mem _), List.mem_cons_of_mem _ hSecond⟩

/-- **The stack keeps the opening brackets that are in no pair.** -/
theorem reverse_stackAfter (h : (stack ++ marks).Nodup) :
    (stackAfter stack marks).reverse =
      (stack.reverse ++ marks.filter Scanned.opens).filter
        fun m => m ∉ (pairsFrom stack marks).map Prod.fst := by
  induction stack, marks using pairsFrom.induct with
  | case1 stack =>
    simp only [stackAfter, pairsFrom, List.filter_nil, List.append_nil, List.map_nil]
    exact (List.filter_eq_self.2 fun m _ => by simp).symm
  | case2 stack m rest hOpens ih =>
    -- from here on, the bracket is one of the open ones
    have hTail := ih (List.perm_middle.nodup_iff.1 h)
    simp only [stackAfter, restack, pairsFrom, hOpens, if_true, hTail, List.reverse_cons,
      List.filter_cons_of_pos, List.append_assoc, List.singleton_append]
  | case3 m rest hOpens hCloses ih =>
    have hTail := ih (List.nodup_cons.1 h).2
    simp only [stackAfter, restack, pairsFrom, hOpens, hCloses, Bool.false_eq_true, if_false, if_true,
      List.tail_nil, hTail, List.filter_cons_of_neg, not_false_eq_true]
  | case4 m rest hOpens hCloses opener outer ih =>
    obtain ⟨hFresh, hNodup⟩ := List.nodup_cons.1 h
    have hTail := ih (hNodup.sublist ((List.sublist_cons_self m rest).append_left outer))
    -- the bracket that is closed is in a pair, and occurs nowhere else
    have hOther : ∀ k ∈ outer.reverse ++ rest.filter Scanned.opens, k ≠ opener := by
      rintro k hk rfl
      simp only [List.mem_append, List.mem_reverse, List.mem_filter] at hk
      exact hFresh (List.mem_append.2 (hk.imp_right fun hRest => List.mem_cons_of_mem _ hRest.1))
    have hKept : (outer.reverse ++ rest.filter Scanned.opens).filter
          (fun k => k ∉ (pairsFrom outer rest).map Prod.fst) =
        (outer.reverse ++ rest.filter Scanned.opens).filter
          fun k => k ∉ opener :: (pairsFrom outer rest).map Prod.fst :=
      List.filter_congr fun k hk => by simp [hOther k hk]
    simp only [stackAfter, restack, pairsFrom, hOpens, hCloses, Bool.false_eq_true, if_false, if_true,
      List.tail_cons, hTail, hKept, List.map_cons]
    simp [hOpens]
  | case5 stack m rest hOpens hCloses ih =>
    have hTail := ih (h.sublist ((List.sublist_cons_self m rest).append_left stack))
    simp only [stackAfter, restack, pairsFrom, hOpens, hCloses, Bool.false_eq_true, if_false, hTail,
      List.filter_cons_of_neg, not_false_eq_true]

/-- What the stack rule finds to close nothing are the closing brackets that are in no pair. -/
theorem straysFrom_eq (h : marks.Nodup) :
    straysFrom stack marks =
      marks.filter fun m => m.closes && m ∉ (pairsFrom stack marks).map Prod.snd := by
  induction stack, marks using pairsFrom.induct with
  | case1 stack => rfl
  | case2 stack m rest hOpens ih =>
    have hCloses : m.closes = false := Scanned.not_closes_of_opens hOpens
    simp only [straysFrom, restack, pairsFrom, hOpens, if_true, ih (List.nodup_cons.1 h).2,
      hCloses, Bool.false_and, Bool.false_eq_true, if_false, List.filter_cons_of_neg,
      not_false_eq_true]
  | case3 m rest hOpens hCloses ih =>
    obtain ⟨hFresh, hNodup⟩ := List.nodup_cons.1 h
    -- nothing behind the bracket pairs it
    have hStray : m ∉ (pairsFrom [] rest).map Prod.snd := by
      intro hMem
      obtain ⟨p, hp, rfl⟩ := List.mem_map.1 hMem
      exact hFresh (mem_of_mem_pairsFrom hp).2
    simp only [straysFrom, restack, pairsFrom, hOpens, hCloses, Bool.false_eq_true, if_false,
      if_true, List.isEmpty_nil, Bool.and_self, List.tail_nil, ih hNodup]
    rw [List.filter_cons_of_pos (by simp [hCloses, hStray])]
  | case4 m rest hOpens hCloses opener outer ih =>
    obtain ⟨hFresh, hNodup⟩ := List.nodup_cons.1 h
    have hOther : ∀ k ∈ rest, k ≠ m := by
      rintro k hk rfl
      exact hFresh hk
    simp only [straysFrom, restack, pairsFrom, hOpens, hCloses, Bool.false_eq_true, if_false,
      if_true, List.isEmpty_cons, Bool.and_false, List.tail_cons, ih hNodup, List.map_cons]
    rw [List.filter_cons_of_neg (by simp)]
    exact List.filter_congr fun k hk => by simp only [List.mem_cons, hOther k hk, false_or]
  | case5 stack m rest hOpens hCloses ih =>
    simp only [straysFrom, restack, pairsFrom, hOpens, hCloses, Bool.false_eq_true, if_false,
      ih (List.nodup_cons.1 h).2, Bool.false_and, List.filter_cons_of_neg, not_false_eq_true]

end

/-! ## The state at the end -/

theorem not_isCloser_of_isOpener {c : Char} (h : isOpener c = true) : isCloser c = false := by
  rcases isOpener_iff.1 h with rfl | rfl | rfl <;> rfl

section

variable {s next : State} {offset depth depthAfter : Nat} {c : Char} {rest : Text}
  {region : Region} {stack : List Scanned}

theorem opens_mk :
    (Scanned.mk offset c region depth depthAfter).opens = (region = .code && isOpener c) := rfl

theorem closes_mk :
    (Scanned.mk offset c region depth depthAfter).closes = (region = .code && isCloser c) := rfl

/-- **One step of the stack rule.** The state has the places of the stack, and it keeps the first
bracket that closes nothing. -/
theorem Reads.restack (h : Reads offset c rest s region next)
    (hStack : s.openers = stack.map Scanned.offset) :
    next.openers =
        (FieldFill.restack stack ⟨offset, c, region, depth, depthAfter⟩).map Scanned.offset ∧
      next.unbalanced = (s.unbalanced <|>
        if (Scanned.mk offset c region depth depthAfter).closes && stack.isEmpty then
          some (c, offset)
        else none) := by
  rw [FieldFill.restack, opens_mk, closes_mk]
  cases h with
  | opener hc =>
    simpa [hc, not_isCloser_of_isOpener hc] using hStack
  | closer inner outer hc =>
    -- as many brackets are open, so one is
    cases stack with
    | nil => cases hStack
    | cons m stack =>
      obtain ⟨-, hOuter⟩ := List.cons.inj hStack
      simp [hc, not_isOpener_of_isCloser hc, hOuter]
  | stray hc =>
    obtain rfl : stack = [] := List.map_eq_nil_iff.1 hStack.symm
    simp [hc, not_isOpener_of_isCloser hc]
  | plain hc =>
    obtain ⟨-, -, hOpener, hCloser⟩ := isPlain_iff.1 hc
    simpa [hOpener, hCloser] using hStack
  | newline hc =>
    have hPlain : isPlain c = true := hc ▸ rfl
    obtain ⟨-, -, hOpener, hCloser⟩ := isPlain_iff.1 hPlain
    simpa [hOpener, hCloser] using hStack
  | delimiter | remark | escaped | escape | endQuote | inside | hash | quote => simpa using hStack

/-- **The state at the end of a text.** Its open brackets are those that the stack rule leaves, and it
keeps the first one that closes nothing. -/
theorem brackets_endFrom (text : Text) (hStack : s.openers = stack.map Scanned.offset) :
    (endFrom s offset text).openers =
        (stackAfter stack (scanFrom s offset text)).map Scanned.offset ∧
      (endFrom s offset text).unbalanced = (s.unbalanced <|>
        (straysFrom stack (scanFrom s offset text)).head?.map fun m => (m.char, m.offset)) := by
  induction text generalizing s offset stack with
  | nil => simp [endFrom, scanFrom, stackAfter, straysFrom, hStack]
  | cons c rest ih =>
    obtain ⟨region, next, hRead⟩ := exists_reads s offset c rest
    obtain ⟨hOpeners, hUnbalanced⟩ := hRead.restack hStack
    obtain ⟨hEndOpeners, hEndUnbalanced⟩ := ih hOpeners
    rw [hRead.endFrom_cons, hRead.scanFrom_cons, stackAfter, straysFrom]
    refine ⟨hEndOpeners, ?_⟩
    rw [hEndUnbalanced, hUnbalanced]
    -- the first one that closes nothing is this bracket or stands behind it
    split
    · cases s.unbalanced <;> rfl
    · cases s.unbalanced <;> rfl

end

section

variable (text : Text)

/-- **The brackets that are open at the end of a text are the unmatched ones**, the last one first. -/
theorem openers_endState :
    (endState text).openers.reverse = (unmatchedOpeners (scan text)).map Scanned.offset := by
  have hOpeners : (endState text).openers = (stackAfter [] (scan text)).map Scanned.offset :=
    (brackets_endFrom text rfl).1
  have hLeft : (stackAfter [] (scan text)).reverse =
      ((scan text).filter Scanned.opens).filter
        fun m => m ∉ (pairsFrom [] (scan text)).map Prod.fst :=
    reverse_stackAfter (nodup_scan text)
  rw [hOpeners, ← List.map_reverse, hLeft, List.filter_filter, unmatchedOpeners, pairs]
  simp only [Bool.and_comm]

/-- The first bracket that closes nothing is the first stray one. -/
theorem unbalanced_endState :
    (endState text).unbalanced =
      (strayClosers (scan text)).head?.map fun m => (m.char, m.offset) := by
  have hUnbalanced : (endState text).unbalanced =
      (straysFrom [] (scan text)).head?.map fun m => (m.char, m.offset) :=
    (@brackets_endFrom .start 0 [] text rfl).2
  rw [hUnbalanced, straysFrom_eq (nodup_scan text), strayClosers, pairs]

end

end FieldFill

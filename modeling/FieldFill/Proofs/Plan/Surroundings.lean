import FieldFill.Proofs.Layout.Physical
import FieldFill.Proofs.Lexical.Closed
import FieldFill.Proofs.Outline.Classes

/-!
# What the plan reads at a logical line

The plan reads the text of a program at the places of its lines: the indentation of a statement, the
line start behind it, and the parameter list of an initializer. What it reads at a place in a logical
line depends on this logical line only, as long as the parameter list is closed in it.

Main results:

* `leadAt_inside`, `signatureFrom_inside` — what is read in a program is read in the logical line.
* `nextLineStart_inside` — behind the end of a logical line, the next one starts.
-/

namespace FieldFill

/-! ## The text in front of a place -/

variable {l x y : Text} {place : Nat}

theorem leadAt_eq (h : splitAt? l place = some (x, y)) : leadAt l place = lastLine x := by
  rw [leadAt, h]

theorem leadAt_inside (h : splitAt? l place = some (x, y)) (before : List Text) (rest : Text) :
    leadAt (ahead before ++ (l ++ rest)) (place + byteLength (ahead before)) = leadAt l place := by
  rw [leadAt_eq h, leadAt_eq (splitAt?_inside h), lastLine_append (ahead_ends before)]

/-! ## The line start behind a place -/

theorem nextLineStart_inside (h : splitAt? l place = some (x, y)) (hLine : '\n' ∉ y)
    (before more : List Text) :
    nextLineStart (ahead before ++ (l ++ behind more)) (place + byteLength (ahead before)) =
      if more = [] then byteLength (ahead before) + byteLength l
      else byteLength (ahead (before ++ [l])) := by
  obtain ⟨rfl, rfl⟩ := eq_of_splitAt? h
  rw [nextLineStart, splitAt?_inside h]
  dsimp only
  cases more with
  | nil =>
    rw [behind, if_pos rfl, List.append_nil, breakLine_of_not_mem hLine, byteLength_append]
    dsimp only
    omega
  | cons m more =>
    rw [behind, if_neg (by simp), breakLine_newline hLine, ahead_append, ahead_singleton]
    simp only [byteLength_append]
    omega

/-! ## Parameter lists -/

theorem closingFrom?_append {s : State} (hs : s.Proper) {offset : Nat} {opened : Bool}
    {a b u v : Text} (hSeam : Apart a b) (h : closingFrom? s offset opened a = some (u, v)) :
    closingFrom? s offset opened (a ++ b) = some (u, v ++ b) := by
  induction a generalizing s offset opened u with
  | nil => cases h
  | cons c a ih =>
    rw [List.cons_append, closingFrom?, step_append hs offset hSeam]
    rw [closingFrom?] at h
    dsimp only at h ⊢
    split at h
    · rename_i hClose
      rw [if_pos hClose]
      obtain ⟨rfl, rfl⟩ := Prod.mk.inj (Option.some.inj h)
      rfl
    · rename_i hClose
      rw [if_neg hClose]
      obtain ⟨⟨u', v'⟩, hRest, hEq⟩ := Option.map_eq_some_iff.1 h
      obtain ⟨rfl, rfl⟩ := Prod.mk.inj hEq
      rw [ih ((reads_step s offset c a).proper hs) hSeam.tail hRest]
      rfl

/-- A bracket that is closed in a text is closed there whatever follows. -/
theorem toClosing_append {a b u v : Text} (hSeam : Apart a b) (h : toClosing a = .ok (u, v)) :
    toClosing (a ++ b) = .ok (u, v ++ b) := by
  unfold toClosing at h ⊢
  split at h
  · rename_i parts hParts
    obtain rfl : parts = (u, v) := Except.ok.inj h
    rw [closingFrom?_append State.proper_start hSeam hParts]
  · cases h

theorem signatureFrom_inside {inner : Text} (h : signatureFrom l place = .ok inner)
    (before : List Text) {rest : Text} (hSeam : Apart l rest) :
    signatureFrom (ahead before ++ (l ++ rest)) (place + byteLength (ahead before)) =
      .ok inner := by
  unfold signatureFrom at h
  split at h
  · rename_i front tail hSplit
    split at h
    · rename_i enclosed after hClosing
      obtain ⟨rfl, -⟩ := eq_of_splitAt? hSplit
      have hTail : Apart tail rest := by
        intro c hc hLast
        refine hSeam c hc ?_
        rw [List.getLast?_append, hLast]
        rfl
      rw [signatureFrom, splitAt?_inside hSplit]
      dsimp only
      rw [toClosing_append hTail hClosing]
      exact h
    · cases h
  · cases h

end FieldFill

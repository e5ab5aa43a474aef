import FieldFill.Proofs.Lexical.Reads

/-!
# Scans at any place

A scan keeps byte positions for its reports and decides nothing by them. So two states that differ in
positions only read a text alike, at whatever places it stands. A text that is moved together with
everything in front of it has all its positions shifted alike; here they may differ freely, as they do
when something is put into the middle of a string.

Main results:

* `Reads.alike` — the step: a character is read alike from states that differ in positions only.
* `scanFrom_alike`, `endFrom_alike` — the run: the marks and the end differ in positions only.
* `State.InString.scanFrom_plain` — plain text inside of a string leaves it open.
-/

namespace FieldFill

/-! ## States without their positions -/

def Mode.unplaced : Mode → Mode
  | .literal quote escaped => .literal { quote with start := 0 } escaped
  | .code => .code
  | .comment => .comment

/-- A state without the places it keeps. -/
def State.unplaced (s : State) : State :=
  ⟨s.mode.unplaced, s.skip, s.openers.map fun _ => 0, s.unbalanced.map fun stray => (stray.1, 0)⟩

@[simp] theorem State.depth_unplaced (s : State) : s.unplaced.depth = s.depth := by
  simp [State.unplaced, State.depth]

theorem Reads.unplaced {offset : Nat} {c : Char} {rest : Text} {s next : State} {region : Region}
    (h : Reads offset c rest s region next) : Reads 0 c rest s.unplaced region next.unplaced := by
  cases h with
  | delimiter more => exact .delimiter more
  | newline hc => exact .newline hc
  | remark hc => exact .remark hc
  | escaped quote => exact .escaped { quote with start := 0 }
  | escape quote hc => exact .escape { quote with start := 0 } hc
  | endQuote quote hc hChar hTriple => exact .endQuote { quote with start := 0 } hc hChar hTriple
  | inside quote hc hChar => exact .inside { quote with start := 0 } hc hChar
  | hash hc => exact .hash hc
  | quote hc => exact .quote hc
  | opener hc => exact .opener hc
  | closer inner outer hc => exact .closer 0 (outer.map fun _ => 0) hc
  | @stray unbalanced hc => cases unbalanced <;> exact .stray hc
  | plain hc => exact .plain hc

/-- A character is read alike from states that differ in positions only. -/
theorem Reads.alike {offset : Nat} {c : Char} {rest : Text} {s next s' : State} {region : Region}
    (h : Reads offset c rest s region next) (hs : s'.unplaced = s.unplaced) (offset' : Nat) :
    ∃ next', Reads offset' c rest s' region next' ∧ next'.unplaced = next.unplaced := by
  have h' := reads_step s' offset' c rest
  have hEq := h'.unplaced.step_eq
  -- without the positions, both are the same step
  rw [hs, h.unplaced.step_eq] at hEq
  obtain ⟨hRegion, hNext⟩ := Prod.mk.inj hEq
  refine ⟨_, ?_, hNext.symm⟩
  rw [hRegion]
  exact h'

theorem scanFrom_alike {s s' : State} (hs : s'.unplaced = s.unplaced) (offset offset' : Nat)
    (text : Text) :
    (scanFrom s' offset' text).map Scanned.unplaced =
      (scanFrom s offset text).map Scanned.unplaced := by
  induction text generalizing s s' offset offset' with
  | nil => rfl
  | cons c rest ih =>
    have h := reads_step s offset c rest
    obtain ⟨next', h', hNext⟩ := h.alike hs offset'
    rw [h.scanFrom_cons, h'.scanFrom_cons, List.map_cons, List.map_cons, ih hNext]
    simp only [Scanned.unplaced]
    rw [← State.depth_unplaced s', ← State.depth_unplaced next', hs, hNext, State.depth_unplaced,
      State.depth_unplaced]

theorem endFrom_alike {s s' : State} (hs : s'.unplaced = s.unplaced) (offset offset' : Nat)
    (text : Text) : (endFrom s' offset' text).unplaced = (endFrom s offset text).unplaced := by
  induction text generalizing s s' offset offset' with
  | nil => exact hs
  | cons c rest ih =>
    have h := reads_step s offset c rest
    obtain ⟨next', h', hNext⟩ := h.alike hs offset'
    rw [h.endFrom_cons, h'.endFrom_cons, ih hNext]

/-! ## Plain text in a string -/

/-- A state inside of a string, between two of its characters. -/
def State.InString (s : State) : Prop :=
  ∃ quote, isQuote quote.char = true ∧ s.mode = .literal quote false ∧ s.skip = 0

theorem State.InString.reads_plain {s : State} (hs : s.InString) {c : Char}
    (hc : isPlain c = true) (hEscape : c ≠ '\\') (offset : Nat) (rest : Text) :
    Reads offset c rest s .literal s := by
  obtain ⟨mode, skip, openers, unbalanced⟩ := s
  obtain ⟨quote, hQuote, rfl, rfl⟩ := hs
  exact .inside quote hEscape fun hEq => absurd hEq (ne_of_isPlain_of_isQuote hc hQuote)

/-- Plain text inside of a string belongs to it and leaves it open. -/
theorem State.InString.scanFrom_plain {s : State} (hs : s.InString) {text : Text}
    (h : ∀ c ∈ text, isPlain c = true ∧ c ≠ '\\') (offset : Nat) :
    (∀ m ∈ scanFrom s offset text, m.region = .literal) ∧ endFrom s offset text = s := by
  induction text generalizing offset with
  | nil => exact ⟨fun m hm => absurd hm List.not_mem_nil, rfl⟩
  | cons c rest ih =>
    obtain ⟨⟨hc, hEscape⟩, hRest⟩ := List.forall_mem_cons.1 h
    have hRead := hs.reads_plain hc hEscape offset rest
    obtain ⟨hMarks, hEnd⟩ := ih hRest (offset + c.utf8Size)
    rw [hRead.scanFrom_cons, hRead.endFrom_cons]
    exact ⟨List.forall_mem_cons.2 ⟨rfl, hMarks⟩, hEnd⟩

theorem State.Proper.endFrom {s : State} (hs : s.Proper) (offset : Nat) (text : Text) :
    (endFrom s offset text).Proper := by
  induction text generalizing s offset with
  | nil => exact hs
  | cons c rest ih => exact ih ((reads_step s offset c rest).proper hs) _

/-- A newline in a string is escaped, or a character like others: it does not end the string. -/
theorem Reads.inString_of_newline {offset : Nat} {rest : Text} {s next : State}
    (h : Reads offset '\n' rest s .literal next) (hs : s.Proper) (hSkip : s.skip = 0) :
    next.InString := by
  cases h with
  | delimiter more => cases hSkip
  | escaped quote => exact ⟨quote, hs quote true rfl, rfl, rfl⟩
  | inside quote => exact ⟨quote, hs quote false rfl, rfl, rfl⟩
  | endQuote quote hc hChar =>
    have hQuote := hs quote false rfl
    rw [← hChar] at hQuote
    cases hQuote
  | escape quote hc => cases hc
  | quote hc => cases hc

/-- Where the newline at the end of a text belongs to a string, the string goes on behind it. -/
theorem inString_of_newline {text : Text} (h : ∀ m ∈ scan (text ++ ['\n']), m.region = .literal) :
    (endState (text ++ ['\n'])).InString := by
  have hSeam : Apart text ['\n'] := Apart.cons_right text [] rfl
  obtain ⟨region, next, hRead⟩ := exists_reads (endState text) (byteLength text) '\n' []
  rw [scan_append hSeam, hRead.scanFrom_cons] at h
  obtain rfl : region = .literal := h _ (List.mem_append_right _ (List.mem_cons_self ..))
  rw [endState_append hSeam, hRead.endFrom_cons]
  exact hRead.inString_of_newline (State.proper_start.endFrom 0 text) (endFrom_skip 0 (Nat.zero_le _))

end FieldFill

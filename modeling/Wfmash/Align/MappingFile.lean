import Wfmash.Align.RefWindow
import Mathlib.Data.List.Basic
import Wfmash.Align.Pipeline
import Mathlib.Algebra.Ring.Int.Defs
import Mathlib.Algebra.BigOperators.Group.List

/-!
# Reading the mapping file

`Aligner::computeAlignments` reads the mapping file twice with the same loop: once to
count the bases to align, for the `ProgressMeter`, and once in `reader_thread`, which
also pushes every record onto `seq_queue`:

    std::ifstream mappingListStream(param.mashmapPafFile);
    while (!mappingListStream.eof()) {
        std::getline(mappingListStream, mappingRecordLine);
        if (!mappingRecordLine.empty()) {
            parseMashmapRow(mappingRecordLine, currentRecord);
            total_alignment_length += currentRecord.qEndPos - currentRecord.qStartPos;
            ...
        }
    }

Both loops add to the one `uint64_t total_alignment_length`, which is printed at the
end as the total aligned.

## The model

A stream (`MappingStream`) holds the characters not yet extracted and the three state
bits. `std::getline` is modelled from the C++ library: when the stream is not `good()`
its sentry fails, `failbit` is set and the line is left as it was; otherwise the line
becomes the characters up to the next `'\n'`, which is extracted and dropped, or up to
the end of input, which sets `eofbit` (and `failbit` when nothing was extracted). A read
that fails (an I/O error, such as reading a directory) sets `badbit` where the end of
input would set `eofbit`. A file that cannot be opened leaves `failbit` set. The loops
take a fuel, the number of evaluations of `!eof()` they may make, and return `none` when
it runs out; an exception out of `parseMashmapRow` ends them with its `ParseFault`. The
records `reader_thread` pushes are the envelopes of `Wfmash.Align.Pipeline`.

## What is proved

* `computeAlignments_loops_spin` — on a stream that is not `good()` and not at end of
  file, which a file that cannot be opened and a failed read leave, both loops run out
  of every fuel: `eof()` never becomes true and no error is reported.
* `computeAlignments_eq` — for every file and fuel, both passes are projections of one
  pass over the records (`mappingRecords`): the `ProgressMeter` gets the records' sum `S`
  of `qEndPos - qStartPos`, `reader_thread` pushes the records, and the total printed at
  the end is `2·S` modulo `2^64`.
* `computeAlignments_reports_twice` — on a file that reads to its end and whose
  non-empty lines all parse, both loops end, the records pushed are the lines' in order,
  the meter gets their sum `S` and the total printed is `2·S`.
* `computeAlignments_progress_increments` — run the pipeline of `Wfmash.Align.Pipeline`
  on the records pushed: once it has drained, the workers' increments sum to the meter's
  total, and the total printed is twice it.
-/

namespace Wfmash.Align

/-- An `std::ifstream` on the mapping file. -/
structure MappingStream where
  /-- The characters not yet extracted. -/
  rest : List Char
  /-- Whether reading past `rest` fails with an I/O error instead of reaching end of
  file. -/
  readError : Bool
  eofbit : Bool
  failbit : Bool
  badbit : Bool
  deriving DecidableEq, Repr

/-- `std::ifstream mappingListStream(param.mashmapPafFile)`: `none` is a file that cannot
be opened, which leaves `failbit` set; `some (chars, readError)` a file of `chars`, after
which a read fails when `readError`. -/
def MappingStream.ofFile : Option (List Char × Bool) → MappingStream
  | none => ⟨[], false, false, true, false⟩
  | some (chars, readError) => ⟨chars, readError, false, false, false⟩

/-- `good()`. -/
def MappingStream.good (s : MappingStream) : Bool := !s.eofbit && !s.failbit && !s.badbit

/-- Modelled from the C++ library: `std::getline(s, line)`. -/
def getline (s : MappingStream) (line : String) : MappingStream × String :=
  if s.good then
    match s.rest.span (· != '\n') with
    | (l, _ :: rest) => ({ s with rest }, String.mk l)
    | (l, []) =>
      if s.readError then ({ s with rest := [], badbit := true, failbit := l.isEmpty }, String.mk l)
      else ({ s with rest := [], eofbit := true, failbit := l.isEmpty }, String.mk l)
  else ({ s with failbit := true }, line)

/-! ### `std::getline` on the mapping file -/

theorem getline_of_good_false {s : MappingStream} (h : s.good = false) (line : String) :
    getline s line = ({ s with failbit := true }, line) := by
  simp [getline, h]

theorem ne_newline_of_not_mem {l : List Char} (hl : '\n' ∉ l) {c : Char} (hc : c ∈ l) :
    c ≠ '\n' :=
  fun e => hl (e ▸ hc)

theorem getline_newline {l : List Char} (hl : '\n' ∉ l) (r : List Char) (readError : Bool)
    (line : String) :
    getline (.ofFile (some (l ++ '\n' :: r, readError))) line =
      (.ofFile (some (r, readError)), String.mk l) := by
  have hp : ∀ c ∈ l, (c != '\n') = true := fun c hc => by
    simpa using ne_newline_of_not_mem hl hc
  simp [getline, MappingStream.ofFile, MappingStream.good, List.takeWhile_append_of_pos hp,
    List.dropWhile_append_of_pos hp]

theorem getline_last {chars : List Char} (h : '\n' ∉ chars) (readError : Bool) (line : String) :
    getline (.ofFile (some (chars, readError))) line =
      (⟨[], readError, !readError, chars.isEmpty, readError⟩, String.mk chars) := by
  have hp : ∀ c ∈ chars, (c != '\n') = true := fun c hc => by
    simpa using ne_newline_of_not_mem h hc
  have h1 : chars.takeWhile (· != '\n') = chars := List.takeWhile_eq_self_iff.mpr hp
  have h2 : chars.dropWhile (· != '\n') = [] := List.dropWhile_eq_nil_iff.mpr hp
  cases readError <;> simp [getline, MappingStream.ofFile, MappingStream.good, h1, h2]

/-! ### Lines -/

/-- A text is one last line, or a first line and a newline before the rest. -/
theorem last_or_newline (chars : List Char) :
    '\n' ∉ chars ∨ ∃ l r, '\n' ∉ l ∧ chars = l ++ '\n' :: r := by
  induction chars with
  | nil => exact Or.inl (List.not_mem_nil _)
  | cons c cs ih =>
    by_cases hc : c = '\n'
    · exact Or.inr ⟨[], cs, List.not_mem_nil _, by rw [hc]; rfl⟩
    · rcases ih with h | ⟨l, r, hl, rfl⟩
      · exact Or.inl (by simp [Ne.symm hc, h])
      · exact Or.inr ⟨c :: l, r, by simp [Ne.symm hc, hl], rfl⟩

/-- The file's non-empty lines: the texts between newlines, those that are not empty. -/
def nonEmptyLines (chars : List Char) : List String :=
  ((chars.splitOn '\n').map String.mk).filter (· ≠ "")

theorem mk_eq_empty {l : List Char} : String.mk l = "" ↔ l = [] :=
  ⟨fun h => congrArg String.data h, fun h => h ▸ rfl⟩

theorem nonEmptyLines_newline {l : List Char} (hl : '\n' ∉ l) (r : List Char) :
    nonEmptyLines (l ++ '\n' :: r) =
      (if l = [] then [] else [String.mk l]) ++ nonEmptyLines r := by
  have hp : ∀ c ∈ l, ¬(c == '\n') = true := fun c hc => by
    simpa using ne_newline_of_not_mem hl hc
  simp only [nonEmptyLines, List.splitOn, List.map_cons, List.filter_cons,
    List.splitOnP_first (· == '\n') l hp '\n' (by decide) r]
  by_cases h : l = [] <;> simp [h, mk_eq_empty]

theorem nonEmptyLines_last {chars : List Char} (h : '\n' ∉ chars) :
    nonEmptyLines chars = if chars = [] then [] else [String.mk chars] := by
  have hp : ∀ c ∈ chars, ¬(c == '\n') = true := fun c hc => by
    simpa using ne_newline_of_not_mem h hc
  simp only [nonEmptyLines, List.splitOn, List.splitOnP_eq_single (· == '\n') chars hp,
    List.map_cons, List.map_nil, List.filter_cons, List.filter_nil]
  by_cases h : chars = [] <;> simp [h, mk_eq_empty]

/-! ### The loops -/

/-- `currentRecord.qEndPos - currentRecord.qStartPos`, the bases of the query a record
maps. -/
def alignmentLength {F : Type} (r : MappingBoundaryRow F) : Int := r.qEndPos - r.qStartPos

/-- `total_alignment_length += currentRecord.qEndPos - currentRecord.qStartPos`, in
`uint64_t`. -/
def addAlignmentLength {F : Type} (total : Nat) (r : MappingBoundaryRow F) : Nat :=
  toU64 (total + alignmentLength r)

/-- The sum of `qEndPos - qStartPos` over records. -/
def totalLength {F : Type} (es : List (MappingBoundaryRow F × String)) : Int :=
  (es.map fun e => alignmentLength e.1).sum

/-- What `computeAlignments` makes of the mapping file: the total the `ProgressMeter` is
created with, the records `reader_thread` pushes onto `seq_queue`, in order, with their
lines, and the `total_alignment_length` printed at the end. -/
structure MappingTotals (F : Type) where
  progressTotal : Nat
  records : List (MappingBoundaryRow F × String)
  reportedTotal : Nat

section Loops

variable {F : Type} (split : String → Char → List String) (isANumber : String → Bool)
  (stof : String → Except ParseFault F) (percentageIdentity : F)

/-- The loop of both passes, with `body` what the pass does with a parsed record and its
line. The fuel counts the evaluations of `!eof()`. -/
def readMappingLines {σ : Type} (body : σ → MappingBoundaryRow F → String → σ) :
    Nat → MappingStream → String → σ → Option (Except ParseFault σ)
  | 0, _, _, _ => none
  | fuel + 1, s, line, acc =>
    if s.eofbit then some (.ok acc)
    else
      let (s, line) := getline s line
      if line = "" then readMappingLines body fuel s line acc
      else
        match parseMashmapRow split isANumber stof percentageIdentity line with
        | .error e => some (.error e)
        | .ok r => readMappingLines body fuel s line (body acc r line)

/-- The counting pass of `computeAlignments`. -/
def countingLoop : Nat → MappingStream → String → Nat → Option (Except ParseFault Nat) :=
  readMappingLines split isANumber stof percentageIdentity fun total r _ =>
    addAlignmentLength total r

/-- The loop of `reader_thread`: the records pushed onto `seq_queue`, with their lines, and
the total. -/
def readerLoop :
    Nat → MappingStream → String → List (MappingBoundaryRow F × String) × Nat →
      Option (Except ParseFault (List (MappingBoundaryRow F × String) × Nat)) :=
  readMappingLines split isANumber stof percentageIdentity fun acc r line =>
    (acc.1 ++ [(r, line)], addAlignmentLength acc.2 r)

/-- The reading parts of `computeAlignments`: the counting pass, then `reader_thread`,
each on a stream of its own, with `total_alignment_length` carried from one to the
other. -/
def computeAlignments (fuel : Nat) (file : Option (List Char × Bool)) :
    Option (Except ParseFault (MappingTotals F)) :=
  match countingLoop split isANumber stof percentageIdentity fuel (.ofFile file) "" 0 with
  | none => none
  | some (.error e) => some (.error e)
  | some (.ok total) =>
    (readerLoop split isANumber stof percentageIdentity fuel (.ofFile file) "" ([], total)).map
      (Except.map fun acc => ⟨total, acc.1, acc.2⟩)


variable {σ : Type} (body : σ → MappingBoundaryRow F → String → σ)

theorem readMappingLines_of_eof {s : MappingStream} (h : s.eofbit = true) (fuel : Nat)
    (line : String) (acc : σ) :
    readMappingLines split isANumber stof percentageIdentity body (fuel + 1) s line acc =
      some (.ok acc) := by
  simp [readMappingLines, h]

/-! One evaluation of the loop's body, by what `getline` returns. -/

theorem readMappingLines_step_empty {s s' : MappingStream} {line : String}
    (h : s.eofbit = false) (hg : getline s line = (s', "")) (fuel : Nat) (acc : σ) :
    readMappingLines split isANumber stof percentageIdentity body (fuel + 1) s line acc =
      readMappingLines split isANumber stof percentageIdentity body fuel s' "" acc := by
  rw [readMappingLines, if_neg (by simp [h]), hg]
  rfl

theorem readMappingLines_step_ok {s s' : MappingStream} {line l : String}
    {r : MappingBoundaryRow F} (h : s.eofbit = false) (hg : getline s line = (s', l))
    (hl : l ≠ "") (hp : parseMashmapRow split isANumber stof percentageIdentity l = .ok r)
    (fuel : Nat) (acc : σ) :
    readMappingLines split isANumber stof percentageIdentity body (fuel + 1) s line acc =
      readMappingLines split isANumber stof percentageIdentity body fuel s' l (body acc r l) := by
  rw [readMappingLines, if_neg (by simp [h]), hg]
  simp only [if_neg hl, hp]

theorem readMappingLines_step_error {s s' : MappingStream} {line l : String} {e : ParseFault}
    (h : s.eofbit = false) (hg : getline s line = (s', l)) (hl : l ≠ "")
    (hp : parseMashmapRow split isANumber stof percentageIdentity l = .error e)
    (fuel : Nat) (acc : σ) :
    readMappingLines split isANumber stof percentageIdentity body (fuel + 1) s line acc =
      some (.error e) := by
  rw [readMappingLines, if_neg (by simp [h]), hg]
  simp only [if_neg hl, hp]

/-- On a stream that is neither `good()` nor at end of file, the loop runs out of every
fuel, as long as the line it holds is empty or parses: `getline` leaves the stream and
the line as they are, and only `eofbit` ends the loop. -/
theorem readMappingLines_spins {s : MappingStream} (heof : s.eofbit = false)
    (hbad : s.failbit = true ∨ s.badbit = true) (line : String)
    (hline : line = "" ∨
      ∃ r, parseMashmapRow split isANumber stof percentageIdentity line = .ok r)
    (fuel : Nat) (acc : σ) :
    readMappingLines split isANumber stof percentageIdentity body fuel s line acc = none := by
  induction fuel generalizing s acc with
  | zero => rfl
  | succ fuel ih =>
    have hgood : s.good = false := by cases hbad <;> simp [MappingStream.good, *]
    have hg := getline_of_good_false hgood line
    by_cases h : line = ""
    · subst h
      rw [readMappingLines_step_empty _ _ _ _ _ heof hg]
      exact ih (s := { s with failbit := true }) heof (Or.inl rfl) _
    · obtain ⟨r, hr⟩ := hline.resolve_left h
      rw [readMappingLines_step_ok _ _ _ _ _ heof hg h hr]
      exact ih (s := { s with failbit := true }) heof (Or.inl rfl) _

/-- A non-empty line as the loop handles it: parsed, then handed to `body`. -/
def handleLine (acc : σ) (line : String) : Except ParseFault σ :=
  (parseMashmapRow split isANumber stof percentageIdentity line).map (body acc · line)

theorem foldlM_handleLine_cons_of_ok {line : String} {r : MappingBoundaryRow F}
    (h : parseMashmapRow split isANumber stof percentageIdentity line = .ok r)
    (ls : List String) (acc : σ) :
    (line :: ls).foldlM (handleLine split isANumber stof percentageIdentity body) acc =
      ls.foldlM (handleLine split isANumber stof percentageIdentity body) (body acc r line) := by
  rw [List.foldlM_cons, handleLine, h]
  rfl

theorem foldlM_handleLine_cons_of_error {line : String} {e : ParseFault}
    (h : parseMashmapRow split isANumber stof percentageIdentity line = .error e)
    (ls : List String) (acc : σ) :
    (line :: ls).foldlM (handleLine split isANumber stof percentageIdentity body) acc =
      .error e := by
  rw [List.foldlM_cons, handleLine, h]
  rfl

/-- **A file read to its end.** On a stream that reads to its end, with a fuel of at least
its length plus two (each line takes one evaluation of `!eof()` and at least one
character, the last line and the final check one more each), the loop handles the
file's non-empty lines in order, and stops at the first that throws. -/
theorem readMappingLines_to_end (fuel : Nat) :
    ∀ chars : List Char, chars.length + 2 ≤ fuel → ∀ (line : String) (acc : σ),
      readMappingLines split isANumber stof percentageIdentity body fuel
          (.ofFile (some (chars, false))) line acc =
        some ((nonEmptyLines chars).foldlM
          (handleLine split isANumber stof percentageIdentity body) acc) := by
  induction fuel with
  | zero => intro chars h; omega
  | succ fuel ih =>
    intro chars hfuel line acc
    rcases last_or_newline chars with h | ⟨l, r, hl, rfl⟩
    · -- the last line: `eofbit` is set
      obtain ⟨fuel, rfl⟩ : ∃ k, fuel = k + 1 := ⟨fuel - 1, by omega⟩
      have hg := getline_last h false line
      rw [nonEmptyLines_last h]
      by_cases hc : chars = []
      · subst hc
        rw [readMappingLines_step_empty _ _ _ _ _ rfl hg]
        exact readMappingLines_of_eof _ _ _ _ _ (s := ⟨[], false, true, true, false⟩) rfl _ _ _
      · rw [if_neg hc]
        cases hp : parseMashmapRow split isANumber stof percentageIdentity (String.mk chars) with
        | error e =>
          rw [readMappingLines_step_error _ _ _ _ _ rfl hg (mt mk_eq_empty.mp hc) hp,
            foldlM_handleLine_cons_of_error _ _ _ _ _ hp]
        | ok row =>
          rw [readMappingLines_step_ok _ _ _ _ _ rfl hg (mt mk_eq_empty.mp hc) hp,
            foldlM_handleLine_cons_of_ok _ _ _ _ _ hp]
          exact readMappingLines_of_eof _ _ _ _ _ (s := ⟨[], false, true, chars.isEmpty, false⟩)
            rfl _ _ _
    · -- a line and its newline
      have ih' := ih r (by simp at hfuel; omega)
      have hg := getline_newline hl r false line
      rw [nonEmptyLines_newline hl]
      by_cases hc : l = []
      · subst hc
        rw [readMappingLines_step_empty _ _ _ _ _ rfl hg, if_pos rfl, List.nil_append, ih']
      · rw [if_neg hc, List.singleton_append]
        cases hp : parseMashmapRow split isANumber stof percentageIdentity (String.mk l) with
        | error e =>
          rw [readMappingLines_step_error _ _ _ _ _ rfl hg (mt mk_eq_empty.mp hc) hp,
            foldlM_handleLine_cons_of_error _ _ _ _ _ hp]
        | ok row =>
          rw [readMappingLines_step_ok _ _ _ _ _ rfl hg (mt mk_eq_empty.mp hc) hp,
            foldlM_handleLine_cons_of_ok _ _ _ _ _ hp, ih']

/-- **A read that fails.** On a stream whose read fails after `chars`, whose non-empty
lines all parse, the loop handles the lines and then runs out of every fuel. -/
theorem readMappingLines_readError (fuel : Nat) :
    ∀ chars : List Char, (∀ l ∈ nonEmptyLines chars,
        ∃ r, parseMashmapRow split isANumber stof percentageIdentity l = .ok r) →
      ∀ (line : String) (acc : σ),
        readMappingLines split isANumber stof percentageIdentity body fuel
          (.ofFile (some (chars, true))) line acc = none := by
  induction fuel with
  | zero => intros; rfl
  | succ fuel ih =>
    intro chars hparse line acc
    rcases last_or_newline chars with h | ⟨l, r, hl, rfl⟩
    · -- the read fails after the last line: `badbit`, and `eofbit` is never set
      have hg := getline_last h true line
      have hspin := readMappingLines_spins split isANumber stof percentageIdentity body
        (s := ⟨[], true, false, chars.isEmpty, true⟩) rfl (Or.inr rfl)
      by_cases hc : chars = []
      · subst hc
        rw [readMappingLines_step_empty _ _ _ _ _ rfl hg]
        exact hspin "" (Or.inl rfl) fuel acc
      · obtain ⟨row, hrow⟩ := hparse (String.mk chars) (by simp [nonEmptyLines_last h, hc])
        rw [readMappingLines_step_ok _ _ _ _ _ rfl hg (mt mk_eq_empty.mp hc) hrow]
        exact hspin _ (Or.inr ⟨row, hrow⟩) fuel _
    · -- a line and its newline
      rw [nonEmptyLines_newline hl] at hparse
      have ih' := ih r fun l' hl' => hparse l' (List.mem_append_right _ hl')
      have hg := getline_newline hl r true line
      by_cases hc : l = []
      · subst hc
        rw [readMappingLines_step_empty _ _ _ _ _ rfl hg, ih']
      · obtain ⟨row, hrow⟩ := hparse (String.mk l) (by simp [hc])
        rw [readMappingLines_step_ok _ _ _ _ _ rfl hg (mt mk_eq_empty.mp hc) hrow, ih']

/-- Over lines that all parse, handling them is `body` over the records and their lines. -/
theorem foldlM_handleLine (ls : List String) :
    ∀ rows, ls.mapM (parseMashmapRow split isANumber stof percentageIdentity) = .ok rows →
      ∀ acc : σ, ls.foldlM (handleLine split isANumber stof percentageIdentity body) acc =
          .ok ((rows.zip ls).foldl (fun acc e => body acc e.1 e.2) acc) ∧
        rows.length = ls.length := by
  induction ls with
  | nil =>
    intro rows h acc
    cases h
    exact ⟨rfl, rfl⟩
  | cons l ls ih =>
    intro rows h acc
    cases hp : parseMashmapRow split isANumber stof percentageIdentity l with
    | error e => rw [List.mapM_cons, hp] at h; cases h
    | ok row =>
      cases hq : ls.mapM (parseMashmapRow split isANumber stof percentageIdentity) with
      | error e => rw [List.mapM_cons, hp, hq] at h; cases h
      | ok rs =>
        rw [List.mapM_cons, hp, hq] at h
        cases h
        obtain ⟨h1, h2⟩ := ih rs hq (body acc row l)
        simp [handleLine, hp, Except.map, bind, Except.bind, h1, h2]

/-! ### Both passes over one -/

/-- The records the loop yields, with their lines: what both passes are projections of. -/
def mappingRecords :
    Nat → MappingStream → String → List (MappingBoundaryRow F × String) →
      Option (Except ParseFault (List (MappingBoundaryRow F × String))) :=
  readMappingLines split isANumber stof percentageIdentity fun es r line => es ++ [(r, line)]

/-- The loop commutes with a map `g` of its accumulator that takes one body to the
other. -/
theorem readMappingLines_map {τ : Type} (body' : τ → MappingBoundaryRow F → String → τ)
    (g : τ → σ) (hg : ∀ acc r line, g (body' acc r line) = body (g acc) r line) (fuel : Nat)
    (s : MappingStream) (line : String) (acc : τ) :
    readMappingLines split isANumber stof percentageIdentity body fuel s line (g acc) =
      (readMappingLines split isANumber stof percentageIdentity body' fuel s line acc).map
        (Except.map g) := by
  induction fuel generalizing s line acc with
  | zero => rfl
  | succ fuel ih =>
    simp only [readMappingLines]
    split
    · rfl
    · obtain ⟨s', l'⟩ := getline s line
      by_cases hl : l' = ""
      · simp only [hl, if_true, ih]
      · cases hp : parseMashmapRow split isANumber stof percentageIdentity l' with
        | error e => simp only [hl, hp, if_false]; rfl
        | ok r => simp only [hl, hp, if_false, ← hg, ih]

end Loops

/-! ### Totals -/

theorem toU64_add_toU64 (a b : Int) : toU64 ((toU64 a : Int) + b) = toU64 (a + b) := by
  unfold toU64
  rw [Int.toNat_of_nonneg (Int.emod_nonneg _ (by decide)), Int.emod_add_emod]

theorem totalLength_append_singleton {F : Type} (es : List (MappingBoundaryRow F × String))
    (e : MappingBoundaryRow F × String) :
    totalLength (es ++ [e]) = totalLength es + alignmentLength e.1 := by
  simp [totalLength]

theorem foldl_append_pair {β γ : Type} (ps es : List (β × γ)) :
    ps.foldl (fun es e => es ++ [(e.1, e.2)]) es = es ++ ps := by
  induction ps generalizing es with
  | nil => simp
  | cons p ps ih => rw [List.foldl_cons, ih, List.append_assoc, List.singleton_append]

section Totals

variable {F : Type} (split : String → Char → List String) (isANumber : String → Bool)
  (stof : String → Except ParseFault F) (percentageIdentity : F)

/-- **Both passes over one.** For every file and fuel, `computeAlignments` is the records
the loop yields: the `ProgressMeter` gets their sum `S` of `qEndPos - qStartPos`,
`reader_thread` pushes them, and the total printed is `2·S` (modulo `2^64`). -/
theorem computeAlignments_eq (fuel : Nat) (file : Option (List Char × Bool)) :
    computeAlignments split isANumber stof percentageIdentity fuel file =
      (mappingRecords split isANumber stof percentageIdentity fuel (.ofFile file) "" []).map
        (Except.map fun es => ⟨toU64 (totalLength es), es, toU64 (2 * totalLength es)⟩) := by
  -- the counting pass is the records' sum
  have hcount := readMappingLines_map split isANumber stof percentageIdentity
    (fun total r _ => addAlignmentLength total r) (fun es r line => es ++ [(r, line)])
    (fun es => toU64 (totalLength es))
    (fun es r line => by
      simp only [totalLength_append_singleton, addAlignmentLength, toU64_add_toU64])
    fuel (.ofFile file) "" []
  rw [show toU64 (totalLength ([] : List (MappingBoundaryRow F × String))) = 0 from rfl] at hcount
  unfold computeAlignments
  rw [countingLoop, hcount, mappingRecords]
  rcases hr : readMappingLines split isANumber stof percentageIdentity
    (fun es r line => es ++ [(r, line)]) fuel (.ofFile file) "" [] with _ | _ | es
  · rfl
  · rfl
  -- `reader_thread` yields the records again and adds their sum to the counted one
  have hreader := readMappingLines_map split isANumber stof percentageIdentity
    (fun acc r line => (acc.1 ++ [(r, line)], addAlignmentLength acc.2 r))
    (fun es r line => es ++ [(r, line)])
    (fun es' => (es', toU64 (totalLength es + totalLength es')))
    (fun es' r line => by
      simp only [totalLength_append_singleton, addAlignmentLength, toU64_add_toU64, add_assoc])
    fuel (.ofFile file) "" []
  rw [hr, show totalLength ([] : List (MappingBoundaryRow F × String)) = 0 from rfl,
    add_zero] at hreader
  simp only [Option.map_some', Except.map, readerLoop, hreader, two_mul]

/-- **Both loops spin on a failed stream.** On every stream that is neither `good()` nor
at end of file, holding a line that is empty or parses, the counting loop and the loop of
`reader_thread` run out of every fuel: `getline` changes nothing, `eof()` stays false and
nothing reports an error. A file that cannot be opened starts in such a state, and a file
whose read fails reaches one after its lines. -/
theorem computeAlignments_loops_spin :
    (∀ s : MappingStream, s.eofbit = false → (s.failbit = true ∨ s.badbit = true) →
      ∀ line, (line = "" ∨
          ∃ r, parseMashmapRow split isANumber stof percentageIdentity line = .ok r) →
        ∀ fuel total acc,
          countingLoop split isANumber stof percentageIdentity fuel s line total = none ∧
            readerLoop split isANumber stof percentageIdentity fuel s line acc = none) ∧
      (∀ fuel, computeAlignments split isANumber stof percentageIdentity fuel none = none) ∧
      (∀ chars, (∀ l ∈ nonEmptyLines chars,
          ∃ r, parseMashmapRow split isANumber stof percentageIdentity l = .ok r) →
        ∀ fuel,
          computeAlignments split isANumber stof percentageIdentity fuel (some (chars, true)) =
            none) := by
  refine ⟨fun s heof hbad line hline fuel total acc =>
    ⟨readMappingLines_spins _ _ _ _ _ heof hbad line hline fuel total,
      readMappingLines_spins _ _ _ _ _ heof hbad line hline fuel acc⟩, fun fuel => ?_,
    fun chars hparse fuel => ?_⟩
  · have h := readMappingLines_spins split isANumber stof percentageIdentity
      (fun total r _ => addAlignmentLength total r) (s := .ofFile none) rfl (Or.inl rfl) ""
      (Or.inl rfl) fuel 0
    simp only [computeAlignments, countingLoop, h]
  · have h := readMappingLines_readError split isANumber stof percentageIdentity
      (fun total r _ => addAlignmentLength total r) fuel chars hparse "" 0
    simp only [computeAlignments, countingLoop, h]

/-- A file that cannot be opened, and a file whose first read fails (a directory): both
passes spin. -/
theorem computeAlignments_loops_spin_unopened :
    (MappingStream.ofFile none).eofbit = false ∧ (MappingStream.ofFile none).failbit = true ∧
      countingLoop (fun s _ => [s]) (fun _ => true) lengthStof (100 : Nat) 1000
        (.ofFile none) "" 0 = none ∧
      computeAlignments (fun s _ => [s]) (fun _ => true) lengthStof (100 : Nat) 1000 none =
        none ∧
      computeAlignments (fun s _ => [s]) (fun _ => true) lengthStof (100 : Nat) 1000
        (some ([], true)) = none :=
  have h := computeAlignments_loops_spin (fun s _ => [s]) (fun _ => true) lengthStof
    (100 : Nat)
  ⟨rfl, rfl, (h.1 _ rfl (Or.inl rfl) "" (Or.inl rfl) 1000 0 ([], 0)).1, h.2.1 1000,
    h.2.2 [] (fun l hl => absurd hl (List.not_mem_nil l)) 1000⟩

/-- A mapping file of one line, of 100 query bases. -/
def oneMappingFile : List Char := "q0 1000 0 100 + r0 1000 0 100 100 100 60 id:f:99\n".toList

/-- Its record, with `split`, `is_a_number` and `stof` as below. -/
def oneMappingRow : MappingBoundaryRow Nat := ⟨"q0", 0, 100, .FWD, "r0", 0, 100, 7⟩

/-- **The total is counted twice.** On a file that reads to its end and whose non-empty
lines all parse, with a fuel of at least its length plus two, both loops end: the
`ProgressMeter` is created with the sum `S` of `qEndPos - qStartPos` over the lines
(modulo `2^64`), `reader_thread` pushes the lines' records in order, whose increments sum
to `S`, and the total printed at the end is `2·S`, since `reader_thread` adds each length
again to the counted total. -/
theorem computeAlignments_reports_twice (chars : List Char) (rows : List (MappingBoundaryRow F))
    (hrows : (nonEmptyLines chars).mapM
      (parseMashmapRow split isANumber stof percentageIdentity) = .ok rows)
    (fuel : Nat) (hfuel : chars.length + 2 ≤ fuel) :
    let S := (rows.map alignmentLength).sum
    ∃ t, computeAlignments split isANumber stof percentageIdentity fuel (some (chars, false)) =
        some (.ok t) ∧
      t.progressTotal = toU64 S ∧ t.records = rows.zip (nonEmptyLines chars) ∧
      (t.records.map fun e => alignmentLength e.1).sum = S ∧ t.reportedTotal = toU64 (2 * S) := by
  intro S
  obtain ⟨hc, hlen⟩ := foldlM_handleLine split isANumber stof percentageIdentity
    (fun es r line => es ++ [(r, line)]) _ rows hrows []
  have hrec : mappingRecords split isANumber stof percentageIdentity fuel
      (.ofFile (some (chars, false))) "" [] = some (.ok (rows.zip (nonEmptyLines chars))) := by
    rw [mappingRecords, readMappingLines_to_end _ _ _ _ _ fuel chars hfuel, hc, foldl_append_pair,
      List.nil_append]
  -- the records carry the lines' lengths
  have hS : totalLength (rows.zip (nonEmptyLines chars)) = S := by
    rw [totalLength, show (fun e : MappingBoundaryRow F × String => alignmentLength e.1) =
      alignmentLength ∘ Prod.fst from rfl, ← List.map_map, List.map_fst_zip _ _ (by omega)]
  rw [computeAlignments_eq, hrec]
  exact ⟨_, rfl, by rw [← hS], rfl, hS, by rw [← hS]⟩

/-- One line of 100 bases: the `ProgressMeter` gets 100, the total printed is 200. -/
theorem computeAlignments_reports_twice_one_line :
    (nonEmptyLines oneMappingFile).mapM
        (parseMashmapRow (fun s _ => [s]) (fun _ => true) lengthStof 100) =
      .ok [oneMappingRow] ∧ oneMappingFile.length + 2 ≤ 60 ∧
    ∃ t, computeAlignments (fun s _ => [s]) (fun _ => true) lengthStof 100 60
        (some (oneMappingFile, false)) = some (.ok t) ∧
      t.progressTotal = 100 ∧ t.reportedTotal = 200 := by
  have hrows : (nonEmptyLines oneMappingFile).mapM
      (parseMashmapRow (fun s _ => [s]) (fun _ => true) lengthStof 100) =
        .ok [oneMappingRow] := rfl
  obtain ⟨t, ht, h1, -, -, h4⟩ := computeAlignments_reports_twice (fun s _ => [s])
    (fun _ => true) lengthStof 100 oneMappingFile [oneMappingRow] hrows 60 (by decide)
  exact ⟨hrows, by decide, t, ht, h1.trans rfl, h4.trans rfl⟩

/-- **The workers' increments are the meter's total.** Whenever `computeAlignments` reads
the mapping file, run the pipeline on the records `reader_thread` pushed: after every
schedule that leaves no record to push, queued or held, the workers' increments
`progress.increment(qEndPos - qStartPos)` sum to the total the `ProgressMeter` was created
with, and the total printed is twice that sum. -/
theorem computeAlignments_progress_increments {fuel : Nat} {file : Option (List Char × Bool)}
    {t : MappingTotals F}
    (ht : computeAlignments split isANumber stof percentageIdentity fuel file = some (.ok t))
    (doAlignment : MappingBoundaryRow F × String → String) (n : Nat) (sched : List Thread)
    (s : Pipeline (MappingBoundaryRow F × String))
    (hrun : run doAlignment (Pipeline.init t.records n) sched = some s)
    (hp : s.pending = []) (hq : s.seqQueue = []) (hw : s.held = []) :
    toU64 (totalLength s.aligned) = t.progressTotal ∧
      t.reportedTotal = toU64 (2 * totalLength s.aligned) := by
  -- the workers aligned the records pushed, each once
  have hperm : s.aligned.Perm t.records := by
    simpa [hp, hq, hw] using
      (run_conserves_of (conserves_init doAlignment t.records n) hrun).envelopes_perm
  have hsum : totalLength s.aligned = totalLength t.records := (hperm.map _).sum_eq
  rw [computeAlignments_eq] at ht
  rcases hr : mappingRecords split isANumber stof percentageIdentity fuel (.ofFile file) "" []
    with _ | _ | es <;> rw [hr] at ht <;> cases ht
  exact ⟨by rw [hsum], by rw [hsum]⟩

/-- What `computeAlignments` makes of `oneMappingFile`. -/
def oneMappingTotals : MappingTotals Nat :=
  ⟨100, [(oneMappingRow, "q0 1000 0 100 + r0 1000 0 100 100 100 60 id:f:99")], 200⟩

/-- One worker aligns the one record: its increment, 100, is the meter's total. -/
theorem computeAlignments_progress_increments_one_line :
    computeAlignments (fun s _ => [s]) (fun _ => true) lengthStof 100 60
        (some (oneMappingFile, false)) = some (.ok oneMappingTotals) ∧
      run (fun _ => "aln") (Pipeline.init oneMappingTotals.records 1)
          [.reader, .reader, .worker 0, .worker 0, .worker 0, .writer] =
        some { pending := [], readerDone := true, seqQueue := [], workers := [.pop],
               working := [true], pafQueue := [], writer := .pop, output := ["aln"],
               aligned := oneMappingTotals.records } ∧
      toU64 (totalLength oneMappingTotals.records) = 100 ∧ (200 : Nat) = toU64 (2 * 100) := by
  have ht : computeAlignments (fun s _ => [s]) (fun _ => true) lengthStof 100 60
      (some (oneMappingFile, false)) = some (.ok oneMappingTotals) := rfl
  have hrun : run (fun _ => "aln") (Pipeline.init oneMappingTotals.records 1)
      [.reader, .reader, .worker 0, .worker 0, .worker 0, .writer] =
        some { pending := [], readerDone := true, seqQueue := [], workers := [.pop],
               working := [true], pafQueue := [], writer := .pop, output := ["aln"],
               aligned := oneMappingTotals.records } := rfl
  exact ⟨ht, hrun, computeAlignments_progress_increments _ _ _ _ ht _ 1 _ _ hrun rfl rfl rfl⟩

end Totals

end Wfmash.Align

import Wfmash.Sketch.Basic

/-!
# Parsing a mapping row

`Aligner::parseMashmapRow` splits a line of the mapping file into words with
`ss >> word`, asserts that there are at least nine, reads the estimated identity from
the text after the last `:` of word 12, and the coordinates from words 0 to 8:

    assert(tokens.size() >= 9);
    const vector<string> mm_id_vec = skch::CommonFunc::split(tokens[12], ':');
    const float mm_id = wfmash::is_a_number(mm_id_vec.back())
                        ? std::stof(mm_id_vec.back()) : skch::fixed::percentage_identity;
    currentRecord.qId = tokens[0];  currentRecord.qStartPos = std::stoi(tokens[2]); ...

`tokens[12]` is read whatever the number of words. Reading a vector past its end is
undefined behaviour; the model stops there (`ParseFault.indexPastEnd`), as it does at an
`assert` that fails and at the exceptions of `std::stoi` and `std::stof`.

`CommonFunc::split`, `is_a_number`, `std::stof` and `fixed::percentage_identity` are not
among the sources: they are parameters, and the identity's type `F` is left abstract.
`stof` returns a value of `F` or throws, as `std::stof` does, `std::invalid_argument` or
`std::out_of_range`.

## What is proved

* `parseMashmapRow_reads_past_end` — on every line with nine to twelve words, which the
  `assert` admits, `parseMashmapRow` reads `tokens[12]` past the end of the vector.
* `parseMashmapRow_coordinates` — on a line of at least 13 words whose coordinates are
  decimal numerals and whose identity `std::stof` reads without throwing, the four
  coordinates are stored exactly when each fits an `int`;
  otherwise `std::stoi` throws `std::out_of_range`, although `MappingBoundaryRow` holds
  them as 64-bit offsets.
-/

namespace Wfmash.Align

open Wfmash.Skch

/-- How `parseMashmapRow` stops without returning. -/
inductive ParseFault where
  /-- `assert(tokens.size() >= 9)` fails. -/
  | assertFailed
  /-- `tokens[i]` past the end of the vector: undefined behaviour. -/
  | indexPastEnd (i : Nat)
  /-- `back()` of an empty vector: undefined behaviour. -/
  | backOfEmpty
  /-- `std::stoi` or `std::stof` throws `std::invalid_argument`: nothing to convert. -/
  | invalidArgument
  /-- `std::stoi` or `std::stof` throws `std::out_of_range`: the value does not fit an `int`
  or a `float`. -/
  | outOfRange
  deriving DecidableEq, Repr

/-- `isspace` in the "C" locale, which `operator>>` uses to end a word. -/
def isCSpace (c : Char) : Bool :=
  c = ' ' || c = '\t' || c = '\n' || c = '\x0B' || c = '\x0C' || c = '\r'

/-- The words `while (ss >> word)` extracts, in order: the maximal runs of characters
that are not spaces. `word` holds the characters of the word being read, reversed. -/
def words : List Char → List Char → List String
  | [], word => if word = [] then [] else [String.mk word.reverse]
  | c :: cs, word =>
    if isCSpace c then (if word = [] then words cs [] else String.mk word.reverse :: words cs [])
    else words cs (c :: word)

/-- Every word is non-empty. -/
theorem words_ne_empty (cs word : List Char) : ∀ w ∈ words cs word, w ≠ "" := by
  have hmk : ∀ {word : List Char}, word ≠ [] → String.mk word.reverse ≠ "" :=
    fun hword h => hword (List.reverse_eq_nil_iff.mp (String.ext_iff.mp h))
  induction cs generalizing word with
  | nil =>
    intro w hw
    unfold words at hw
    split at hw
    · simp at hw
    · exact List.mem_singleton.mp hw ▸ hmk ‹_›
  | cons c cs ih =>
    intro w hw
    unfold words at hw
    split at hw
    · split at hw
      · exact ih [] w hw
      · rcases List.mem_cons.mp hw with rfl | hw
        · exact hmk ‹_›
        · exact ih [] w hw
    · exact ih _ w hw

/-- `tokens[i]`. -/
def tokenAt (tokens : List String) (i : Nat) : Except ParseFault String :=
  match tokens[i]? with
  | some t => .ok t
  | none => .error (.indexPastEnd i)

/-- The digits' value, most significant first. -/
def digitsValue (ds : List Char) : Nat := ds.foldl (fun n d => 10 * n + (d.toNat - '0'.toNat)) 0

/-- `std::stoi(str)`: leading spaces, an optional sign, and the longest run of decimal
digits after it, which must not be empty; the value must fit an `int`. -/
def stoi (str : String) : Except ParseFault Int :=
  let cs := str.toList.dropWhile isCSpace
  let (neg, cs) : Bool × List Char := match cs with
    | '-' :: r => (true, r)
    | '+' :: r => (false, r)
    | r => (false, r)
  let ds := cs.takeWhile Char.isDigit
  if ds = [] then .error .invalidArgument
  else
    let v : Int := if neg then -(digitsValue ds : Int) else digitsValue ds
    if v < -2 ^ 31 ∨ 2 ^ 31 ≤ v then .error .outOfRange else .ok v

theorem isCSpace_of_isDigit {c : Char} (h : c.isDigit = true) : isCSpace c = false := by
  refine Bool.eq_false_iff.mpr fun hs => ?_
  simp only [isCSpace, Bool.or_eq_true, decide_eq_true_eq] at hs
  rcases hs with (((((rfl | rfl) | rfl) | rfl) | rfl) | rfl) <;> exact absurd h (by decide)

/-- `t` is a decimal numeral, digits only, of value `v`. -/
def DecimalToken (t : String) (v : Nat) : Prop :=
  t.toList ≠ [] ∧ (∀ c ∈ t.toList, c.isDigit = true) ∧ digitsValue t.toList = v

instance (t : String) (v : Nat) : Decidable (DecimalToken t v) :=
  inferInstanceAs (Decidable (t.toList ≠ [] ∧ (∀ c ∈ t.toList, c.isDigit = true) ∧
    digitsValue t.toList = v))

/-- `std::stoi` on a decimal numeral: its value when it fits an `int`, else
`std::out_of_range`. -/
theorem stoi_of_decimalToken {t : String} {v : Nat} (h : DecimalToken t v) :
    stoi t = if v < 2 ^ 31 then .ok v else .error .outOfRange := by
  obtain ⟨hne, hd, rfl⟩ := h
  obtain ⟨c, cs, hcs⟩ := List.exists_cons_of_ne_nil hne
  have hc : c.isDigit = true := hd c (hcs ▸ List.mem_cons_self _ _)
  have hdrop : t.toList.dropWhile isCSpace = c :: cs := by
    rw [hcs, List.dropWhile_cons_of_neg (by simp [isCSpace_of_isDigit hc])]
  have htake : (c :: cs).takeWhile Char.isDigit = t.toList :=
    hcs ▸ List.takeWhile_eq_self_iff.mpr hd
  -- a digit is neither sign
  have h1 : c ≠ '-' := fun e => absurd (e ▸ hc) (by decide)
  have h2 : c ≠ '+' := fun e => absurd (e ▸ hc) (by decide)
  simp only [stoi, hdrop]
  delta stoi.match_1
  simp only [h1, h2, dite_false, htake, hne, Bool.false_eq_true, if_false]
  by_cases hv : digitsValue t.toList < 2 ^ 31
  · rw [if_neg (by omega), if_pos hv]
  · rw [if_pos (by omega), if_neg hv]

/-- `MappingBoundaryRow`, with the identity in `F`. -/
structure MappingBoundaryRow (F : Type) where
  qId : String
  qStartPos : Int
  qEndPos : Int
  strand : Strand
  refId : String
  rStartPos : Int
  rEndPos : Int
  mashmapEstimatedIdentity : F

section Parse

variable {F : Type} (split : String → Char → List String) (isANumber : String → Bool)
  (stof : String → Except ParseFault F) (percentageIdentity : F)

/-- `mm_id`: `std::stof` of the last piece of word 12 when `is_a_number` holds of it, else
`percentage_identity`. -/
def readIdentity (back : String) : Except ParseFault F :=
  if isANumber back then stof back else pure percentageIdentity

/-- `Aligner::parseMashmapRow`. -/
def parseMashmapRow (mappingRecordLine : String) : Except ParseFault (MappingBoundaryRow F) := do
  let tokens := words mappingRecordLine.toList []
  if tokens.length < 9 then throw .assertFailed
  let mmIdVec := split (← tokenAt tokens 12) ':'
  let back ← match mmIdVec.getLast? with
    | some b => pure b
    | none => throw .backOfEmpty
  let mmId ← readIdentity isANumber stof percentageIdentity back
  let qId ← tokenAt tokens 0
  let qStartPos ← stoi (← tokenAt tokens 2)
  let qEndPos ← stoi (← tokenAt tokens 3)
  let strand := if (← tokenAt tokens 4) = "+" then Strand.FWD else Strand.REV
  let refId ← tokenAt tokens 5
  let rStartPos ← stoi (← tokenAt tokens 7)
  let rEndPos ← stoi (← tokenAt tokens 8)
  pure { qId, qStartPos, qEndPos, strand, refId, rStartPos, rEndPos, mashmapEstimatedIdentity := mmId }

/-- A `stof` for concrete lines: the length of the text, never throwing. -/
def lengthStof (s : String) : Except ParseFault Nat := .ok s.length

theorem tokenAt_of_length_le {tokens : List String} {i : Nat} (h : tokens.length ≤ i) :
    tokenAt tokens i = .error (.indexPastEnd i) := by
  simp [tokenAt, List.getElem?_eq_none h]

theorem tokenAt_of_getElem? {tokens : List String} {i : Nat} {t : String}
    (h : tokens[i]? = some t) : tokenAt tokens i = .ok t := by
  simp [tokenAt, h]

/-- **Word 12 is read past the end.** On every line with nine to twelve words, which the
`assert` admits, `parseMashmapRow` reads `tokens[12]` past the end of the vector. -/
theorem parseMashmapRow_reads_past_end (mappingRecordLine : String)
    (h9 : 9 ≤ (words mappingRecordLine.toList []).length)
    (h13 : (words mappingRecordLine.toList []).length < 13) :
    parseMashmapRow split isANumber stof percentageIdentity mappingRecordLine =
      .error (.indexPastEnd 12) := by
  simp only [parseMashmapRow, if_neg (Nat.not_lt.mpr h9), tokenAt_of_length_le (Nat.le_of_lt_succ h13)]
  rfl

theorem parseMashmapRow_reads_past_end_nine_words :
    9 ≤ (words "q0 10000 0 100 + r0 2000 50 150".toList []).length ∧
    (words "q0 10000 0 100 + r0 2000 50 150".toList []).length < 13 ∧
    parseMashmapRow (fun s _ => [s]) (fun _ => true) lengthStof 100
        "q0 10000 0 100 + r0 2000 50 150" = .error (.indexPastEnd 12) :=
  ⟨by decide, by decide,
    parseMashmapRow_reads_past_end _ _ _ _ "q0 10000 0 100 + r0 2000 50 150" (by decide) (by decide)⟩

/-- **Coordinates past `int`.** On a line of at least 13 words whose words 2, 3, 7 and 8
are decimal numerals of `v₂`, `v₃`, `v₇`, `v₈`, and whose word 12 `split` cuts into at least
one piece whose last `std::stof` reads without throwing when `is_a_number` holds of it,
`parseMashmapRow` stores exactly those values when all four fit an `int`; when one does
not, `std::stoi` throws `std::out_of_range`, although the fields are 64-bit. -/
theorem parseMashmapRow_coordinates (hsplit : ∀ t, t ≠ "" → split t ':' ≠ [])
    (mappingRecordLine : String) {t₂ t₃ t₇ t₈ t₁₂ : String} {v₂ v₃ v₇ v₈ : Nat}
    (h₁₂ : (words mappingRecordLine.toList [])[12]? = some t₁₂)
    (hid : ∀ b, (split t₁₂ ':').getLast? = some b → isANumber b = true → ∃ x, stof b = .ok x)
    (h₂ : (words mappingRecordLine.toList [])[2]? = some t₂) (d₂ : DecimalToken t₂ v₂)
    (h₃ : (words mappingRecordLine.toList [])[3]? = some t₃) (d₃ : DecimalToken t₃ v₃)
    (h₇ : (words mappingRecordLine.toList [])[7]? = some t₇) (d₇ : DecimalToken t₇ v₇)
    (h₈ : (words mappingRecordLine.toList [])[8]? = some t₈) (d₈ : DecimalToken t₈ v₈) :
    (v₂ < 2 ^ 31 ∧ v₃ < 2 ^ 31 ∧ v₇ < 2 ^ 31 ∧ v₈ < 2 ^ 31 →
      ∃ r, parseMashmapRow split isANumber stof percentageIdentity mappingRecordLine = .ok r ∧
        r.qStartPos = v₂ ∧ r.qEndPos = v₃ ∧ r.rStartPos = v₇ ∧ r.rEndPos = v₈) ∧
    (2 ^ 31 ≤ v₂ ∨ 2 ^ 31 ≤ v₃ ∨ 2 ^ 31 ≤ v₇ ∨ 2 ^ 31 ≤ v₈ →
      parseMashmapRow split isANumber stof percentageIdentity mappingRecordLine =
        .error .outOfRange) := by
  set ws := words mappingRecordLine.toList []
  have h13 : 12 < ws.length := (List.getElem?_eq_some_iff.mp h₁₂).1
  have hget : ∀ i, i < ws.length → ∃ t, ws[i]? = some t :=
    fun i hi => ⟨_, List.getElem?_eq_getElem hi⟩
  obtain ⟨t₀, h₀⟩ := hget 0 (by omega)
  obtain ⟨t₄, h₄⟩ := hget 4 (by omega)
  obtain ⟨t₅, h₅⟩ := hget 5 (by omega)
  obtain ⟨b, hb⟩ : ∃ b, (split t₁₂ ':').getLast? = some b :=
    Option.ne_none_iff_exists'.mp (by
      rw [Ne, List.getLast?_eq_none_iff]
      exact hsplit _ (words_ne_empty _ _ _ (List.getElem?_mem h₁₂)))
  -- the identity is read without throwing
  obtain ⟨x, hx⟩ : ∃ x, readIdentity isANumber stof percentageIdentity b = .ok x := by
    unfold readIdentity
    cases hn : isANumber b
    · exact ⟨_, rfl⟩
    · exact hid b hb hn
  simp only [parseMashmapRow, if_neg (show ¬ ws.length < 9 by omega), tokenAt_of_getElem? h₀,
    tokenAt_of_getElem? h₂, tokenAt_of_getElem? h₃, tokenAt_of_getElem? h₄,
    tokenAt_of_getElem? h₅, tokenAt_of_getElem? h₇, tokenAt_of_getElem? h₈,
    tokenAt_of_getElem? h₁₂, hb, hx, stoi_of_decimalToken d₂, stoi_of_decimalToken d₃,
    stoi_of_decimalToken d₇, stoi_of_decimalToken d₈, bind, Except.bind, pure, Except.pure]
  refine ⟨fun ⟨a₂, a₃, a₇, a₈⟩ => ?_, fun h => ?_⟩
  · simp only [if_pos a₂, if_pos a₃, if_pos a₇, if_pos a₈]
    exact ⟨_, rfl, rfl, rfl, rfl, rfl⟩
  · -- the first coordinate, in the order they are read, that does not fit throws
    by_cases a₂ : v₂ < 2 ^ 31
    · by_cases a₃ : v₃ < 2 ^ 31
      · by_cases a₇ : v₇ < 2 ^ 31
        · have a₈ : ¬ v₈ < 2 ^ 31 := by omega
          simp only [if_pos a₂, if_pos a₃, if_pos a₇, if_neg a₈]
        · simp only [if_pos a₂, if_pos a₃, if_neg a₇]
      · simp only [if_pos a₂, if_neg a₃]
    · simp only [if_neg a₂]

/-- A mapping on a chromosome longer than `2^31` bases. -/
def longChromosomeRow : String :=
  "q0 3000000000 2500000000 2500010000 + r0 3000000000 2500000000 2500010000 9990 10000 60 id:f:99.9"

theorem parseMashmapRow_coordinates_long_chromosome :
    (words longChromosomeRow.toList [])[12]? = some "id:f:99.9" ∧
      DecimalToken "2500000000" 2500000000 ∧ DecimalToken "2500010000" 2500010000 ∧
      parseMashmapRow (fun s _ => [s]) (fun _ => true) lengthStof 100
        longChromosomeRow = .error .outOfRange :=
  ⟨by decide, by decide, by decide,
    (parseMashmapRow_coordinates (fun s _ => [s]) (fun _ => true) lengthStof 100
      (fun _ _ => List.cons_ne_nil _ _) longChromosomeRow (show _ = some "id:f:99.9" by decide)
      (fun b _ _ => ⟨b.length, rfl⟩)
      (show _ = some "2500000000" by decide) (show DecimalToken _ 2500000000 by decide)
      (show _ = some "2500010000" by decide) (show DecimalToken _ 2500010000 by decide)
      (show _ = some "2500000000" by decide) (show DecimalToken _ 2500000000 by decide)
      (show _ = some "2500010000" by decide) (show DecimalToken _ 2500010000 by decide)).2
      (Or.inl (by decide))⟩

end Parse

end Wfmash.Align

import Wfmash.Align.MappingRow

/-!
# The reference window of an alignment

`Aligner::doAlignment` fetches the reference bases of a mapping with flanks on both sides,
for the patching of the alignment's ends:

    const int64_t ref_size = faidx_seq_len(tfaid, currentRecord.refId.c_str());
    const uint64_t head_padding = currentRecord.rStartPos >= param.wflign_max_len_minor
        ? param.wflign_max_len_minor : currentRecord.rStartPos;
    const uint64_t tail_padding = ref_size - currentRecord.rEndPos >= param.wflign_max_len_minor
        ? param.wflign_max_len_minor : ref_size - currentRecord.rEndPos;
    char * ref_seq = faidx_fetch_seq64(tfaid, currentRecord.refId.c_str(),
        currentRecord.rStartPos - head_padding, currentRecord.rEndPos + tail_padding, &got_seq_len);
    skch::CommonFunc::makeUpperCaseAndValidDNA(ref_seq, got_seq_len);
    ref_seq = ref_seq + head_padding;

The coordinates are `int64_t`, `wflign_max_len_minor` is a `uint64_t`: the comparisons and
the paddings are in `uint64_t`, and the fetch bounds go back to `hts_pos_t` (`int64_t`).
The model keeps these conversions. `faidx_seq_len`, `faidx_fetch_seq64` (htslib) and
`makeUpperCaseAndValidDNA` are not among the sources: the first two are modelled from the
spec's indexed FASTA reader, the last is a parameter `canon` applied to each base.

## What is proved

* `fetchReference_window` — for every mapping with `0 ≤ rStartPos ≤ rEndPos ≤ ref_size`
  and every `wflign_max_len_minor`, the paddings are `min(rStartPos, max_minor)` and
  `min(ref_size − rEndPos, max_minor)`, the requested range lies in `[0, ref_size]`, and
  the shifted `ref_seq[i]` is the canonical base at `rStartPos + i` for every `i` in
  `[−head_padding, refLen + tail_padding)`.
* `fetchReference_past_end` — for a range that runs past the sequence's end, the negative
  `ref_size − rEndPos` wraps as a `uint64_t`, so `tail_padding` is the whole
  `wflign_max_len_minor`; the fetch stops at the sequence's end, and the window handed to
  the aligner has no base from `ref_size − rStartPos` on.
-/

namespace Wfmash.Align

/-- An `int64_t` converted to `uint64_t`: modulo `2^64`. -/
def toU64 (x : Int) : Nat := (x % 2 ^ 64).toNat

/-- A `uint64_t` passed as an `hts_pos_t` (`int64_t`): two's complement. -/
def toI64 (n : Nat) : Int :=
  if n % 2 ^ 64 < 2 ^ 63 then (n % 2 ^ 64 : Nat) else ((n % 2 ^ 64 : Nat) : Int) - 2 ^ 64

theorem toU64_of_lt {x : Int} (h0 : 0 ≤ x) (h : x < 2 ^ 64) : (toU64 x : Int) = x := by
  unfold toU64
  omega

/-- A negative `int64_t` converted to `uint64_t` wraps around by `2^64`. -/
theorem toU64_of_neg {x : Int} (h0 : -2 ^ 63 ≤ x) (h1 : x < 0) : (toU64 x : Int) = x + 2 ^ 64 := by
  unfold toU64
  omega

theorem toI64_of_lt {n : Nat} (h : n < 2 ^ 63) : toI64 n = n := by
  unfold toI64
  rw [if_pos (by omega)]
  omega

/-- `head_padding`: `rStartPos >= wflign_max_len_minor ? wflign_max_len_minor : rStartPos`,
compared and stored as `uint64_t`. -/
def headPadding (rStartPos : Int) (wflignMaxLenMinor : Nat) : Nat :=
  if toU64 rStartPos ≥ wflignMaxLenMinor then wflignMaxLenMinor else toU64 rStartPos

/-- `tail_padding`: the same with `ref_size - rEndPos`, an `int64_t`. -/
def tailPadding (refSize rEndPos : Int) (wflignMaxLenMinor : Nat) : Nat :=
  if toU64 (refSize - rEndPos) ≥ wflignMaxLenMinor then wflignMaxLenMinor
  else toU64 (refSize - rEndPos)

/-- Modelled from the spec: `faidx_fetch_seq64(fai, name, beg, end, &len)` on the sequence
`ref`: the bases `[beg, min(end, ref_size − 1)]`, an inclusive end clamped at the
sequence's end. -/
def faidxFetchSeq64 (ref : List Char) (beg endPos : Int) : List Char :=
  (ref.drop beg.toNat).take (min endPos (ref.length - 1) - beg + 1).toNat

/-- What `doAlignment` fetched of the reference. -/
structure RefFetch where
  headPadding : Nat
  tailPadding : Nat
  /-- The first position requested. -/
  beg : Int
  /-- The last position requested (inclusive). -/
  endPos : Int
  /-- The fetched bases after `makeUpperCaseAndValidDNA`, before the shift. -/
  bases : List Char

/-- The reference part of `doAlignment`: `ref_size` is the length of the sequence
`ref` (`faidx_seq_len`, modelled from the spec), `canon` is what
`makeUpperCaseAndValidDNA` does to one base. -/
def fetchReference (canon : Char → Char) (ref : List Char) (wflignMaxLenMinor : Nat)
    (rStartPos rEndPos : Int) : RefFetch :=
  let refSize : Int := ref.length
  let head := headPadding rStartPos wflignMaxLenMinor
  let tail := tailPadding refSize rEndPos wflignMaxLenMinor
  let beg := toI64 (toU64 (rStartPos - head))
  let endPos := toI64 (toU64 (rEndPos + tail))
  { headPadding := head, tailPadding := tail, beg, endPos,
    bases := (faidxFetchSeq64 ref beg endPos).map canon }

/-- `ref_seq[i]` after `ref_seq = ref_seq + head_padding`. -/
def RefFetch.at (f : RefFetch) (i : Int) : Option Char :=
  if 0 ≤ f.headPadding + i then f.bases[(f.headPadding + i).toNat]? else none

/-- A base of a fetched range, read back in the sequence. -/
theorem getElem?_faidxFetchSeq64 {ref : List Char} {beg endPos : Int} {j : Nat}
    (hj : j < min endPos (ref.length - 1) - beg + 1) :
    (faidxFetchSeq64 ref beg endPos)[j]? = ref[beg.toNat + j]? := by
  rw [faidxFetchSeq64, List.getElem?_take_of_lt (by omega), List.getElem?_drop]

section Window

variable (canon : Char → Char) (ref : List Char) {wflignMaxLenMinor : Nat}
  {rStartPos rEndPos : Int}

theorem headPadding_eq (hmax : wflignMaxLenMinor < 2 ^ 64) (h0 : 0 ≤ rStartPos)
    (h1 : rStartPos < 2 ^ 63) : headPadding rStartPos wflignMaxLenMinor =
      min rStartPos.toNat wflignMaxLenMinor := by
  have := toU64_of_lt h0 (by omega)
  unfold headPadding
  split <;> omega

theorem tailPadding_eq (hmax : wflignMaxLenMinor < 2 ^ 64) (h0 : rEndPos ≤ ref.length)
    (h1 : (ref.length : Int) < 2 ^ 63) (h2 : 0 ≤ rEndPos) :
    tailPadding ref.length rEndPos wflignMaxLenMinor =
      min (ref.length - rEndPos).toNat wflignMaxLenMinor := by
  have := toU64_of_lt (x := ref.length - rEndPos) (by omega) (by omega)
  unfold tailPadding
  split <;> omega

/-- **The padded reference window.** For every mapping with
`0 ≤ rStartPos ≤ rEndPos ≤ ref_size` and every `wflign_max_len_minor`: the paddings are
`min(rStartPos, max_minor)` and `min(ref_size − rEndPos, max_minor)`, the range requested
is `[rStartPos − head_padding, rEndPos + tail_padding]` within `[0, ref_size]`, and the
shifted `ref_seq[i]` is the canonical base at `rStartPos + i` for every `i` in
`[−head_padding, refLen + tail_padding)`. -/
theorem fetchReference_window (hmax : wflignMaxLenMinor < 2 ^ 64) (h0 : 0 ≤ rStartPos)
    (h1 : rStartPos ≤ rEndPos) (h2 : rEndPos ≤ ref.length) (hsize : (ref.length : Int) < 2 ^ 63)
    {f : RefFetch} (hf : fetchReference canon ref wflignMaxLenMinor rStartPos rEndPos = f) :
    f.headPadding = min rStartPos.toNat wflignMaxLenMinor ∧
      f.tailPadding = min (ref.length - rEndPos).toNat wflignMaxLenMinor ∧
      f.beg = rStartPos - f.headPadding ∧ f.endPos = rEndPos + f.tailPadding ∧
      0 ≤ f.beg ∧ f.endPos ≤ ref.length ∧
      ∀ i : Int, -(f.headPadding : Int) ≤ i → i < rEndPos - rStartPos + f.tailPadding →
        (rStartPos + i).toNat < ref.length ∧
          f.at i = ref[(rStartPos + i).toNat]?.map canon := by
  subst hf
  set f := fetchReference canon ref wflignMaxLenMinor rStartPos rEndPos
  have hh : f.headPadding = min rStartPos.toNat wflignMaxLenMinor :=
    headPadding_eq hmax h0 (by omega)
  have ht : f.tailPadding = min (ref.length - rEndPos).toNat wflignMaxLenMinor :=
    tailPadding_eq ref hmax h2 hsize (by omega)
  -- the paddings stay within the sequence
  have hhs : (f.headPadding : Int) ≤ rStartPos := by rw [hh]; omega
  have hts : (f.tailPadding : Int) ≤ ref.length - rEndPos := by rw [ht]; omega
  clear hh ht
  have hbeg : f.beg = rStartPos - f.headPadding := by
    show toI64 (toU64 (rStartPos - f.headPadding)) = _
    rw [toI64_of_lt (by unfold toU64; omega), toU64_of_lt (by omega) (by omega)]
  have hend : f.endPos = rEndPos + f.tailPadding := by
    show toI64 (toU64 (rEndPos + f.tailPadding)) = _
    rw [toI64_of_lt (by unfold toU64; omega), toU64_of_lt (by omega) (by omega)]
  refine ⟨headPadding_eq hmax h0 (by omega), tailPadding_eq ref hmax h2 hsize (by omega), hbeg,
    hend, by omega, by omega, fun i hi hi' => ⟨by omega, ?_⟩⟩
  -- `ref_seq + head_padding + i` is base `beg + head_padding + i = rStartPos + i`
  simp only [RefFetch.at, if_pos (show 0 ≤ (f.headPadding : Int) + i by omega)]
  show ((faidxFetchSeq64 ref f.beg f.endPos).map canon)[_]? = _
  rw [List.getElem?_map, getElem?_faidxFetchSeq64 (j := (f.headPadding + i).toNat) (by omega)]
  congr 2
  omega

/-- A mapping whose tail padding is cut short by the end of the sequence. -/
theorem fetchReference_window_at_end :
    (3 : Nat) < 2 ^ 64 ∧ (0 : Int) ≤ 2 ∧ (2 : Int) ≤ 9 ∧ (9 : Int) ≤ "acgtacgtac".toList.length ∧
      ("acgtacgtac".toList.length : Int) < 2 ^ 63 ∧
      (fetchReference Char.toUpper "acgtacgtac".toList 3 2 9).tailPadding =
        min (("acgtacgtac".toList.length : Int) - 9).toNat 3 :=
  ⟨by decide, by decide, by decide, by decide, by decide,
    (fetchReference_window Char.toUpper "acgtacgtac".toList (by decide) (by decide) (by decide)
      (by decide) (by decide) rfl).2.1⟩

/-- **A reference range past the sequence's end.** When `rEndPos` lies past the end of
the reference, `ref_size - rEndPos` is negative and wraps as a `uint64_t`, so
`tail_padding` is the whole `wflign_max_len_minor` instead of none, and the range
requested ends `wflign_max_len_minor` past `rEndPos`. The fetch stops at the sequence's
end: of the window `[−head_padding, refLen + tail_padding)` the aligner is handed, the
positions from `ref_size − rStartPos` on hold no base. -/
theorem fetchReference_past_end (hmax : wflignMaxLenMinor < 2 ^ 62) (h0 : 0 ≤ rStartPos)
    (h1 : rStartPos ≤ ref.length) (h2 : (ref.length : Int) < rEndPos) (h3 : rEndPos < 2 ^ 62)
    {f : RefFetch} (hf : fetchReference canon ref wflignMaxLenMinor rStartPos rEndPos = f) :
    f.tailPadding = wflignMaxLenMinor ∧ f.endPos = rEndPos + wflignMaxLenMinor ∧
      ∀ i : Int, -(f.headPadding : Int) ≤ i → (f.at i = none ↔ ref.length - rStartPos ≤ i) := by
  subst hf
  set f := fetchReference canon ref wflignMaxLenMinor rStartPos rEndPos
  -- the head padding stays within the sequence
  have hhs : (f.headPadding : Int) ≤ rStartPos := by
    rw [show f.headPadding = _ from headPadding_eq (by omega) h0 (by omega)]
    omega
  -- the negative `ref_size - rEndPos` wraps past every padding
  have ht : f.tailPadding = wflignMaxLenMinor := by
    have := toU64_of_neg (x := ref.length - rEndPos) (by omega) (by omega)
    show tailPadding ref.length rEndPos wflignMaxLenMinor = _
    unfold tailPadding
    rw [if_pos (by omega)]
  have hbeg : f.beg = rStartPos - f.headPadding := by
    have := toU64_of_lt (x := rStartPos - f.headPadding) (by omega) (by omega)
    show toI64 (toU64 (rStartPos - f.headPadding)) = _
    rw [toI64_of_lt (by omega), this]
  have hend : f.endPos = rEndPos + wflignMaxLenMinor := by
    have := toU64_of_lt (x := rEndPos + wflignMaxLenMinor) (by omega) (by omega)
    show toI64 (toU64 (rEndPos + f.tailPadding)) = _
    rw [ht, toI64_of_lt (by omega), this]
  -- so the fetch is everything from `beg` to the end
  have hlen : (f.bases.length : Int) = ref.length - f.beg := by
    have hmin : min f.endPos (ref.length - 1) = ref.length - 1 := min_eq_right (by omega)
    show ((((ref.drop f.beg.toNat).take (min f.endPos (ref.length - 1) - f.beg + 1).toNat).map
      canon).length : Int) = _
    rw [hmin, List.length_map, List.take_of_length_le (by rw [List.length_drop]; omega),
      List.length_drop]
    omega
  refine ⟨ht, hend, fun i hi => ?_⟩
  simp only [RefFetch.at, if_pos (show 0 ≤ (f.headPadding : Int) + i by omega),
    List.getElem?_eq_none_iff]
  omega

/-- A mapping that runs two bases past a sequence of four. -/
theorem fetchReference_past_end_two :
    (3 : Nat) < 2 ^ 62 ∧ (0 : Int) ≤ 2 ∧ (2 : Int) ≤ "acgt".toList.length ∧
      ("acgt".toList.length : Int) < 6 ∧ (6 : Int) < 2 ^ 62 ∧
      (fetchReference Char.toUpper "acgt".toList 3 2 6).tailPadding = 3 ∧
      (fetchReference Char.toUpper "acgt".toList 3 2 6).endPos = 6 + (3 : Nat) ∧
      ∀ i : Int, -((fetchReference Char.toUpper "acgt".toList 3 2 6).headPadding : Int) ≤ i →
        ((fetchReference Char.toUpper "acgt".toList 3 2 6).at i = none ↔
          ("acgt".toList.length : Int) - 2 ≤ i) :=
  ⟨by decide, by decide, by decide, by decide, by decide,
    fetchReference_past_end Char.toUpper "acgt".toList (by decide) (by decide) (by decide)
      (by decide) (by decide) rfl⟩

example : (fetchReference Char.toUpper "acgt".toList 3 2 6).at 1 = some 'T' ∧
    (fetchReference Char.toUpper "acgt".toList 3 2 6).at 2 = none := by decide

end Window

end Wfmash.Align

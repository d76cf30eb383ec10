import Wfmash.Align.RefWindow

/-!
# The call to the aligner

Besides the reference window (`Wfmash.Align.RefWindow`), `Aligner::doAlignment` fetches
the query bases of the mapping, without flanks, and hands them to the wavefront aligner
as they are on `+` and reverse-complemented on `-`:

    const int64_t query_size = faidx_seq_len(qfaid, currentRecord.qId.c_str());
    char* query_seq = faidx_fetch_seq64(qfaid, currentRecord.qId.c_str(),
        currentRecord.qStartPos, currentRecord.qEndPos, &got_query_len);
    query_seq[got_query_len] = '\0';
    skch::CommonFunc::makeUpperCaseAndValidDNA(query_seq, got_query_len);
    skch::offset_t queryLen = currentRecord.qEndPos - currentRecord.qStartPos;
    char* queryRegionStrand = new char[queryLen+1];
    if (currentRecord.strand == skch::strnd::FWD)
      strncpy(queryRegionStrand, query_seq, queryLen);
    else
      skch::CommonFunc::reverseComplement(query_seq, queryRegionStrand, queryLen);
    assert(queryLen <= query_size);
    ...
    wflign->wflign_affine_wavefront(currentRecord.qId + query_name_suffix,
        queryRegionStrand, query_size, currentRecord.qStartPos, queryLen,
        currentRecord.strand != skch::strnd::FWD,
        currentRecord.refId, ref_seq, ref_size, currentRecord.rStartPos, refLen);

`faidx_fetch_seq64` takes an inclusive end, so the buffer holds one base past `qEndPos`
whenever the mapping ends before the sequence does; only `queryLen` of its bases are
copied. `makeUpperCaseAndValidDNA` and `reverseComplement` (`commonFunc.hpp`) are not among
the sources: they are modelled from the spec (§4.4: "uppercased and non-{A,C,G,T,N} bytes
are replaced with N"; §4.5: "reverse-complement if strand=REV"), and `strncpy` from the C++
library. The aligner itself is a parameter: `doAlignment` returns what it writes for the
call. The `WFlign` constructor's parameters and the output flags come from `param` and are
passed through unchanged; they are not modelled.

## What is proved

* `kernelCall_query` — for every mapping whose sequences are known and whose query range
  satisfies `0 ≤ qStartPos ≤ qEndPos ≤ query_size`, the call is made, with `queryLen`
  the length of the range, the strand flag `strand != FWD`, and as query exactly the
  canonical bases of `[qStartPos, qEndPos)` on `+`, and their reverse complement on `-`:
  the base fetched past `qEndPos` never reaches the aligner, and the `assert` holds.
* `fetchQuery_past_end` — the `assert` checks the length of the range, not where it ends:
  a range that runs `k ≥ 1` bases past the sequence but whose length fits passes it, and
  the aligner gets the bases up to the sequence's end followed by `k` characters `'\0'`
  on `+`; on `-` the terminator, complemented, comes first when `k = 1`, and
  `reverseComplement` reads past the fetched bases when `k ≥ 2`.
-/

namespace Wfmash.Align

open Wfmash.Skch

/-- Modelled from the spec: `makeUpperCaseAndValidDNA` on one base: uppercased, and
anything but `A`, `C`, `G`, `T`, `N` replaced by `N`. -/
def makeUpperCaseAndValidDNA (c : Char) : Char :=
  if c.toUpper = 'A' ∨ c.toUpper = 'C' ∨ c.toUpper = 'G' ∨ c.toUpper = 'T' ∨ c.toUpper = 'N'
  then c.toUpper else 'N'

/-- Modelled from the spec: the complement of a base, `N` and anything else unchanged. -/
def complement : Char → Char
  | 'A' => 'T'
  | 'C' => 'G'
  | 'G' => 'C'
  | 'T' => 'A'
  | c => c

/-- Modelled from the spec: `reverseComplement(src, dest, len)`, the `len` bases of `src`
complemented, in reverse order. -/
def reverseComplement (src : List Char) (len : Nat) : List Char :=
  ((src.take len).map complement).reverse

/-- Modelled from the C++ library: the `n` characters `strncpy(dest, src, n)` writes:
those of `src` before its first `'\0'`, at most `n`, then `'\0'` up to `n`. -/
def strncpy (src : List Char) (n : Nat) : List Char :=
  let s := (src.takeWhile (· ≠ '\x00')).take n
  s ++ List.replicate (n - s.length) '\x00'

/-- How `doAlignment` stops before it calls the aligner. -/
inductive AlignFault where
  /-- `faidx_seq_len` and `faidx_fetch_seq64` on a name the index lacks: the fetch returns
  `NULL`, which `ref_seq[got_seq_len] = '\0'` writes through. -/
  | unknownSequence (name : String)
  /-- `queryLen < 0`: `new char[queryLen+1]` throws, or the copy writes past the array. -/
  | badLength
  /-- `reverseComplement` reads past the fetched bases and their terminator. -/
  | readPastEnd
  /-- `assert(queryLen <= query_size)` fails. -/
  | assertFailed
  deriving DecidableEq, Repr

/-- The query part of `doAlignment` on the sequence `query`: `queryRegionStrand`, the
`queryLen` characters handed to the aligner. -/
def fetchQuery (query : List Char) (strand : Strand) (qStartPos qEndPos : Int) :
    Except AlignFault (List Char) := do
  let querySeq := (faidxFetchSeq64 query qStartPos qEndPos).map makeUpperCaseAndValidDNA ++ ['\x00']
  let queryLen := qEndPos - qStartPos
  if queryLen < 0 then throw .badLength
  let region ← if strand = .FWD then pure (strncpy querySeq queryLen.toNat)
    else if queryLen.toNat ≤ querySeq.length then pure (reverseComplement querySeq queryLen.toNat)
    else throw .readPastEnd
  if (query.length : Int) < queryLen then throw .assertFailed
  pure region

/-- The arguments of `wflign_affine_wavefront`, and the mapping's identity, which goes to
the `WFlign` constructor. -/
structure KernelCall (F : Type) where
  queryName : String
  queryRegionStrand : List Char
  querySize : Int
  qStartPos : Int
  queryLen : Int
  queryIsRev : Bool
  refId : String
  /-- `ref_seq`, shifted by `head_padding`, over the fetched bases. -/
  ref : RefFetch
  refSize : Int
  rStartPos : Int
  refLen : Int
  mashmapEstimatedIdentity : F

section Call

variable {F : Type} (targets queries : String → Option (List Char))
  (wflignMaxLenMinor : Nat) (split samFormat : Bool) (rankMapping : Int)

/-- `doAlignment` up to the call: `targets` and `queries` are the sequences the thread's
`target_faidxs[tid]` and `query_faidxs[tid]` index, by name; `split`, `samFormat` and
`wflignMaxLenMinor` are `param`'s; `rankMapping` is the record's, which
`parseMashmapRow` does not set. -/
def kernelCall (r : MappingBoundaryRow F) : Except AlignFault (KernelCall F) := do
  let some ref := targets r.refId | throw (.unknownSequence r.refId)
  let refFetch := fetchReference makeUpperCaseAndValidDNA ref wflignMaxLenMinor r.rStartPos r.rEndPos
  let some query := queries r.qId | throw (.unknownSequence r.qId)
  let region ← fetchQuery query r.strand r.qStartPos r.qEndPos
  let queryNameSuffix := if split && samFormat then "_" ++ toString rankMapping else ""
  pure
    { queryName := r.qId ++ queryNameSuffix
      queryRegionStrand := region
      querySize := query.length
      qStartPos := r.qStartPos
      queryLen := r.qEndPos - r.qStartPos
      queryIsRev := r.strand != .FWD
      refId := r.refId
      ref := refFetch
      refSize := ref.length
      rStartPos := r.rStartPos
      refLen := r.rEndPos - r.rStartPos
      mashmapEstimatedIdentity := r.mashmapEstimatedIdentity }

/-- `Aligner::doAlignment`: what `wflignAffineWavefront` writes to `output` for the call. -/
def doAlignment (wflignAffineWavefront : KernelCall F → String) (r : MappingBoundaryRow F) :
    Except AlignFault String :=
  (kernelCall targets queries wflignMaxLenMinor split samFormat rankMapping r).map
    wflignAffineWavefront

end Call

/-! ### The query the aligner gets -/

theorem makeUpperCaseAndValidDNA_ne_nul (c : Char) : makeUpperCaseAndValidDNA c ≠ '\x00' := by
  unfold makeUpperCaseAndValidDNA
  split
  · rename_i h
    rcases h with h | h | h | h | h <;> rw [h] <;> decide
  · decide

/-- No canonical base is `'\0'`. -/
theorem ne_nul_of_mem_map_canon {l : List Char} :
    ∀ c ∈ l.map makeUpperCaseAndValidDNA, c ≠ '\x00' := fun c hc => by
  obtain ⟨a, -, rfl⟩ := List.mem_map.mp hc
  exact makeUpperCaseAndValidDNA_ne_nul a

/-- `strncpy` from a string with no `'\0'` before its terminator: its first `n` characters,
then `'\0'` up to `n`. -/
theorem strncpy_append_nul {s : List Char} (hs : ∀ c ∈ s, c ≠ '\x00') (n : Nat) :
    strncpy (s ++ ['\x00']) n = s.take n ++ List.replicate (n - s.length) '\x00' := by
  have hw : (s ++ ['\x00']).takeWhile (· ≠ '\x00') = s := by
    rw [List.takeWhile_append_of_pos (by simpa using hs)]
    simp
  simp only [strncpy, hw, List.length_take]
  rw [show n - min n s.length = n - s.length by omega]

/-- The bases `faidx_fetch_seq64` returns for `[beg, endPos]` with `endPos` at most the
sequence's length: the range `[beg, endPos)` and, before the sequence's end, one more. -/
theorem take_faidxFetchSeq64 {query : List Char} {beg endPos : Int} (h0 : 0 ≤ beg)
    (h1 : beg ≤ endPos) (h2 : endPos ≤ query.length) :
    (endPos - beg).toNat ≤ (faidxFetchSeq64 query beg endPos).length ∧
      (faidxFetchSeq64 query beg endPos).take (endPos - beg).toNat =
        (query.drop beg.toNat).take (endPos - beg).toNat := by
  unfold faidxFetchSeq64
  refine ⟨?_, by rw [List.take_take, Nat.min_eq_left (by omega)]⟩
  simp only [List.length_take, List.length_drop]
  omega

/-- The query handed to the aligner, for a range within the sequence: its canonical bases,
reverse-complemented off the `+` strand. -/
theorem fetchQuery_ok {query : List Char} (strand : Strand) {qStartPos qEndPos : Int}
    (h0 : 0 ≤ qStartPos) (h1 : qStartPos ≤ qEndPos) (h2 : qEndPos ≤ query.length) :
    fetchQuery query strand qStartPos qEndPos =
      .ok (let bases := ((query.drop qStartPos.toNat).take (qEndPos - qStartPos).toNat).map
                makeUpperCaseAndValidDNA
           if strand = .FWD then bases else (bases.map complement).reverse) := by
  obtain ⟨hlen, htake⟩ := take_faidxFetchSeq64 h0 h1 h2
  have hlen' : (qEndPos - qStartPos).toNat ≤
      ((faidxFetchSeq64 query qStartPos qEndPos).map makeUpperCaseAndValidDNA).length := by
    rw [List.length_map]; exact hlen
  -- either copy reads only the first `queryLen` canonical bases
  have hpre : ((faidxFetchSeq64 query qStartPos qEndPos).map makeUpperCaseAndValidDNA ++
      ['\x00']).take (qEndPos - qStartPos).toNat =
      ((query.drop qStartPos.toNat).take (qEndPos - qStartPos).toNat).map makeUpperCaseAndValidDNA := by
    rw [List.take_append_of_le_length hlen', ← List.map_take, htake]
  have hfwd : strncpy ((faidxFetchSeq64 query qStartPos qEndPos).map makeUpperCaseAndValidDNA ++
      ['\x00']) (qEndPos - qStartPos).toNat =
      ((query.drop qStartPos.toNat).take (qEndPos - qStartPos).toNat).map makeUpperCaseAndValidDNA := by
    rw [strncpy_append_nul ne_nul_of_mem_map_canon, Nat.sub_eq_zero_of_le hlen', List.replicate_zero,
      List.append_nil, ← List.map_take, htake]
  have hlt : ¬ qEndPos - qStartPos < 0 := by omega
  have hle : ¬ (query.length : Int) < qEndPos - qStartPos := by omega
  cases strand
  · simp [fetchQuery, hlt, hle, hfwd]
    rfl
  · have hn := Int.toNat_of_nonneg (show 0 ≤ qEndPos - qStartPos by omega)
    have hread : qEndPos ≤ ((faidxFetchSeq64 query qStartPos qEndPos).length : Int) + 1 + qStartPos := by
      have := Int.ofNat_le.mpr hlen
      omega
    simp [fetchQuery, hlt, hle, reverseComplement, hpre, hread]
    rfl

/-- **A query range past the sequence's end.** When `qEndPos` lies `k ≥ 1` bases past the
end of the query but `queryLen` still fits `query_size`, the `assert` holds and the fetch
stops at the sequence's end. On `+`, `strncpy` pads the bases with `k` characters `'\0'`;
on `-`, with `k = 1` `reverseComplement` reads the terminator, which comes first, and with
`k ≥ 2` it reads past the fetched bases. -/
theorem fetchQuery_past_end {query : List Char} (strand : Strand) {qStartPos qEndPos : Int}
    (h0 : 0 ≤ qStartPos) (h1 : qStartPos ≤ query.length) (h2 : (query.length : Int) < qEndPos)
    (h3 : qEndPos - qStartPos ≤ query.length) :
    fetchQuery query strand qStartPos qEndPos =
      (let bases := (query.drop qStartPos.toNat).map makeUpperCaseAndValidDNA
       if strand = .FWD then .ok (bases ++ List.replicate (qEndPos - query.length).toNat '\x00')
       else if qEndPos = query.length + 1 then .ok ('\x00' :: (bases.map complement).reverse)
       else .error .readPastEnd) := by
  -- the fetch is clamped at the sequence's end
  have hfetch : faidxFetchSeq64 query qStartPos qEndPos = query.drop qStartPos.toNat := by
    unfold faidxFetchSeq64
    exact List.take_of_length_le (by simp only [List.length_drop]; omega)
  have hs := Int.toNat_of_nonneg h0
  have hn := Int.toNat_of_nonneg (show 0 ≤ qEndPos - qStartPos by omega)
  have hlt : ¬ qEndPos - qStartPos < 0 := by omega
  have hle : ¬ (query.length : Int) < qEndPos - qStartPos := by omega
  cases strand
  · rw [fetchQuery]
    simp only [hfetch, hlt, hle, if_false, strncpy_append_nul ne_nul_of_mem_map_canon,
      List.length_map, List.length_drop, List.take_of_length_le (show ((query.drop qStartPos.toNat).map
        makeUpperCaseAndValidDNA).length ≤ (qEndPos - qStartPos).toNat by simp; omega)]
    rw [show (qEndPos - qStartPos).toNat - (query.length - qStartPos.toNat) =
      (qEndPos - query.length).toNat by omega]
    rfl
  · have hlen : ((query.length - qStartPos.toNat : Nat) : Int) = query.length - qStartPos := by
      omega
    simp only [fetchQuery, hfetch, hlt, hle, reduceCtorEq, ↓reduceIte, List.length_append,
      List.length_map, List.length_drop, List.length_singleton, reverseComplement]
    by_cases hk : qEndPos = query.length + 1
    · -- the copy reads the fetched bases and the terminator
      rw [if_pos (by omega), List.take_of_length_le (by simp; omega)]
      simp [hk]
      rfl
    · rw [if_neg (by omega)]
      simp [hk]
      rfl

theorem fetchQuery_past_end_forward :
    (0 : Int) ≤ 2 ∧ (2 : Int) ≤ "acgt".toList.length ∧ ("acgt".toList.length : Int) < 5 ∧
      (5 : Int) - 2 ≤ "acgt".toList.length ∧
      fetchQuery "acgt".toList .FWD 2 5 =
        (let bases := ("acgt".toList.drop (2 : Int).toNat).map makeUpperCaseAndValidDNA
         if Strand.FWD = .FWD then .ok (bases ++ List.replicate ((5 : Int) - "acgt".toList.length).toNat '\x00')
         else if (5 : Int) = "acgt".toList.length + 1 then .ok ('\x00' :: (bases.map complement).reverse)
         else .error .readPastEnd) :=
  ⟨by decide, by decide, by decide, by decide,
    fetchQuery_past_end .FWD (by decide) (by decide) (by decide) (by decide)⟩

example : fetchQuery "acgt".toList .FWD 2 5 = .ok ['G', 'T', '\x00'] := rfl

/-- **The query of the call.** For every mapping whose reference and query are known and
whose query range satisfies `0 ≤ qStartPos ≤ qEndPos ≤ query_size`, `doAlignment` reaches
the aligner, with `query_size` and `qStartPos` as they are, `queryLen` the length of the
range, the strand flag `strand != FWD`, and as query exactly the canonical bases of
`[qStartPos, qEndPos)` on `+`, and their reverse complement on `-`. -/
theorem kernelCall_query {F : Type} (targets queries : String → Option (List Char))
    (wflignMaxLenMinor : Nat) (split samFormat : Bool) (rankMapping : Int)
    (r : MappingBoundaryRow F) {ref query : List Char} (href : targets r.refId = some ref)
    (hquery : queries r.qId = some query) (h0 : 0 ≤ r.qStartPos) (h1 : r.qStartPos ≤ r.qEndPos)
    (h2 : r.qEndPos ≤ query.length) :
    ∃ c, kernelCall targets queries wflignMaxLenMinor split samFormat rankMapping r = .ok c ∧
      c.querySize = query.length ∧ c.qStartPos = r.qStartPos ∧
      c.queryLen = r.qEndPos - r.qStartPos ∧ c.queryRegionStrand.length = c.queryLen ∧
      c.queryIsRev = (r.strand != .FWD) ∧
      c.queryRegionStrand =
        let bases := ((query.drop r.qStartPos.toNat).take (r.qEndPos - r.qStartPos).toNat).map
          makeUpperCaseAndValidDNA
        if r.strand = .FWD then bases else (bases.map complement).reverse := by
  refine ⟨_, by simp only [kernelCall, href, hquery, fetchQuery_ok r.strand h0 h1 h2]; rfl,
    rfl, rfl, rfl, ?_, rfl, rfl⟩
  have hn := Int.toNat_of_nonneg (show 0 ≤ r.qEndPos - r.qStartPos by omega)
  have hs := Int.toNat_of_nonneg h0
  by_cases hfwd : r.strand = .FWD <;> simp [hfwd] <;> omega

/-- A mapping on `-` over bases 1 to 4 of `acgta`: the aligner gets `CGT` reverse-complemented,
`ACG`, although the fetch returned `cgta`. -/
theorem kernelCall_query_reverse :
    (fun _ => some "ACGTA".toList : String → Option (List Char)) "t" = some "ACGTA".toList ∧
    (fun _ => some "acgta".toList : String → Option (List Char)) "q" = some "acgta".toList ∧
    (0 : Int) ≤ 1 ∧ (1 : Int) ≤ 4 ∧ (4 : Int) ≤ "acgta".toList.length ∧
    ∃ c, kernelCall (fun _ => some "ACGTA".toList) (fun _ => some "acgta".toList) 2 false false 0
        (⟨"q", 1, 4, .REV, "t", 0, 3, (95 : Nat)⟩ : MappingBoundaryRow Nat) = .ok c ∧
      c.querySize = "acgta".toList.length ∧ c.qStartPos = 1 ∧ c.queryLen = 4 - 1 ∧
      c.queryRegionStrand.length = c.queryLen ∧ c.queryIsRev = (Strand.REV != .FWD) ∧
      c.queryRegionStrand =
        (let bases := (("acgta".toList.drop (1 : Int).toNat).take ((4 : Int) - 1).toNat).map
              makeUpperCaseAndValidDNA
         if Strand.REV = .FWD then bases else (bases.map complement).reverse) :=
  ⟨rfl, rfl, by decide, by decide, by decide,
    kernelCall_query (fun _ => some "ACGTA".toList) (fun _ => some "acgta".toList) 2 false false 0
      ⟨"q", 1, 4, .REV, "t", 0, 3, (95 : Nat)⟩ rfl rfl (by decide) (by decide) (by decide)⟩

example : fetchQuery "acgta".toList .REV 1 4 = .ok "ACG".toList := rfl

end Wfmash.Align

import Wfmash.Sketch.ThreadOutput
import Wfmash.Sketch.Double
import Mathlib.Order.Bounds.Basic
import Mathlib.Algebra.BigOperators.Group.List

/-!
# Frequency pruning

After the index is built, `initialize` runs `computeFreqHist`, `computeFreqSeedSet` and
`dropFreqSeedSet`:

* `computeFreqHist` counts, in the ordered map `minmerFreqHistogram`, how many keys have
  a vector of each size, computes `minmerToIgnore = N * kmer_pct_threshold / 100` for
  `N` keys, and walks the histogram from the largest size down, adding the counts into
  `sum`: while `sum < minmerToIgnore` the size becomes `freqThreshold`; at
  `sum == minmerToIgnore` it does too and the loop stops; past it the loop stops.
* `computeFreqSeedSet` puts into `frequentSeeds` every key whose vector has at least
  `freqThreshold` points.
* `dropFreqSeedSet` erases from `minmerIndex` the minmers of those keys with
  `std::remove_if`.

`minmerToIgnore` is computed in `double` and converted to `int64_t` (`Double`); where
that conversion is undefined, `computeFreqHist` stops the run. A vector's size is a
`size_t`, so no vector reaches `UINT64_MAX` points; where a statement needs this it is a
hypothesis (`SizeFits`).

## What is proved

* `freqThreshold_spec` — `freqThreshold` is the least size `c` of a vector of the index
  with `#{H : |m[H]| ≥ c} ≤ minmerToIgnore`, and stays `UINT64_MAX` when there is none.
* `computeFreqHist_ok_of_percentile` — for a `kmer_pct_threshold` in `[0, 100]`,
  `computeFreqHist` returns, with `minmerToIgnore ≥ 0`.
* `computeFreqSeedSet_spec` — `frequentSeeds` holds exactly the keys whose vector has at
  least `freqThreshold` points, each once.
* `removeIf_spec` — the compaction loop of `std::remove_if` leaves, before the returned
  end, exactly the elements to keep, in order.
-/

namespace Wfmash.Skch

/-! ### The histogram -/

/-- `minmerFreqHistogram[c]++` on the ordered map, kept as a list ascending in its keys. -/
def histIncr : List (Nat × Nat) → Nat → List (Nat × Nat)
  | [], c => [(c, 1)]
  | (k, n) :: h, c =>
    if c < k then (c, 1) :: (k, n) :: h
    else if c = k then (k, n + 1) :: h
    else (k, n) :: histIncr h c

/-- The sum of the counts of the sizes at least `c`. -/
def psum (h : List (Nat × Nat)) (c : Nat) : Nat := ((h.filter (c ≤ ·.1)).map Prod.snd).sum

theorem psum_cons (k n : Nat) (h : List (Nat × Nat)) (c : Nat) :
    psum ((k, n) :: h) c = (if c ≤ k then n else 0) + psum h c := by
  unfold psum
  by_cases hc : c ≤ k <;> simp [List.filter_cons, hc]

@[simp] theorem psum_nil (c : Nat) : psum [] c = 0 := rfl

theorem psum_histIncr (h : List (Nat × Nat)) (k c : Nat) :
    psum (histIncr h k) c = psum h c + if c ≤ k then 1 else 0 := by
  induction h with
  | nil => simp [histIncr, psum_cons]
  | cons e h ih =>
    obtain ⟨k', n⟩ := e
    unfold histIncr
    by_cases h1 : k < k'
    · rw [if_pos h1, psum_cons]
      exact Nat.add_comm _ _
    by_cases h2 : k = k'
    · subst h2
      rw [if_neg h1, if_pos rfl]
      simp only [psum_cons]
      split_ifs <;> omega
    · rw [if_neg h1, if_neg h2, psum_cons, psum_cons, ih, Nat.add_assoc]

theorem keys_histIncr (h : List (Nat × Nat)) (k c : Nat) :
    c ∈ (histIncr h k).map Prod.fst ↔ c ∈ h.map Prod.fst ∨ c = k := by
  induction h with
  | nil => simp [histIncr]
  | cons e h ih =>
    obtain ⟨k', n⟩ := e
    unfold histIncr
    split_ifs with h1 h2
    · simp only [List.map_cons, List.mem_cons]
      exact or_comm
    · subst h2
      simp only [List.map_cons, List.mem_cons]
      exact (or_iff_left_of_imp Or.inl).symm
    · simp only [List.map_cons, List.mem_cons, ih, or_assoc]

theorem pos_histIncr {h : List (Nat × Nat)} (hp : ∀ e ∈ h, 0 < e.2) (k : Nat) :
    ∀ e ∈ histIncr h k, 0 < e.2 := by
  induction h with
  | nil => simp [histIncr]
  | cons e h ih =>
    obtain ⟨k', n⟩ := e
    have hn : 0 < n := hp _ (List.mem_cons_self _ _)
    have hh := fun e he => hp e (List.mem_cons_of_mem _ he)
    unfold histIncr
    split_ifs <;> simp only [List.forall_mem_cons]
    · exact ⟨Nat.one_pos, hn, hh⟩
    · exact ⟨Nat.succ_pos _, hh⟩
    · exact ⟨hn, ih hh⟩

theorem sorted_histIncr {h : List (Nat × Nat)} (hs : h.Pairwise (·.1 < ·.1)) (k : Nat) :
    (histIncr h k).Pairwise (·.1 < ·.1) := by
  induction h with
  | nil => simp [histIncr]
  | cons e h ih =>
    obtain ⟨k', n⟩ := e
    rw [List.pairwise_cons] at hs
    unfold histIncr
    split_ifs with h1 h2
    · exact List.Pairwise.cons (fun b hb => by
        rcases List.mem_cons.mp hb with rfl | hb
        · exact h1
        · exact h1.trans (hs.1 b hb)) (List.Pairwise.cons hs.1 hs.2)
    · subst h2; exact List.Pairwise.cons hs.1 hs.2
    · refine List.Pairwise.cons (fun b hb => ?_) (ih hs.2)
      have hb' : b.1 ∈ (histIncr h k).map Prod.fst := List.mem_map_of_mem Prod.fst hb
      rcases (keys_histIncr h k b.1).mp hb' with hb' | hb'
      · obtain ⟨b', hb'', he⟩ := List.mem_map.mp hb'
        exact he ▸ hs.1 b' hb''
      · omega

/-- The histogram of an index, on top of the histogram `h`. -/
def histogram (m : PosMap) (h : List (Nat × Nat)) : List (Nat × Nat) :=
  m.foldl (fun h e => histIncr h e.2.length) h

/-- `#{H : |m[H]| ≥ c}`, counted over the entries of the index. -/
def countGe (m : PosMap) (c : Nat) : Nat := (m.filter (c ≤ ·.2.length)).length

/-- `c` is the size of some key's vector. -/
def Occurs (m : PosMap) (c : Nat) : Prop := ∃ e ∈ m, e.2.length = c

/-- The histogram of an index, from empty: ascending, positive, and it counts the keys. -/
theorem histogram_spec (m : PosMap) :
    (histogram m []).Pairwise (·.1 < ·.1) ∧ (∀ e ∈ histogram m [], 0 < e.2) ∧
      (∀ c, psum (histogram m []) c = countGe m c) ∧
      ∀ c, c ∈ (histogram m []).map Prod.fst ↔ Occurs m c := by
  suffices ∀ (m : PosMap) (h : List (Nat × Nat)), h.Pairwise (·.1 < ·.1) → (∀ e ∈ h, 0 < e.2) →
      (histogram m h).Pairwise (·.1 < ·.1) ∧ (∀ e ∈ histogram m h, 0 < e.2) ∧
        (∀ c, psum (histogram m h) c = psum h c + countGe m c) ∧
        ∀ c, c ∈ (histogram m h).map Prod.fst ↔ c ∈ h.map Prod.fst ∨ Occurs m c by
    obtain ⟨h1, h2, h3, h4⟩ := this m [] List.Pairwise.nil (by simp)
    exact ⟨h1, h2, fun c => by simpa using h3 c, fun c => by simpa using h4 c⟩
  intro m
  induction m with
  | nil => intro h hs hp; exact ⟨hs, hp, by simp [histogram, countGe], by simp [histogram, Occurs]⟩
  | cons e m ih =>
    intro h hs hp
    obtain ⟨r1, r2, r3, r4⟩ := ih _ (sorted_histIncr hs e.2.length) (pos_histIncr hp _)
    refine ⟨r1, r2, fun c => ?_, fun c => ?_⟩
    · rw [histogram, List.foldl_cons, ← histogram, r3, psum_histIncr]
      by_cases hc : c ≤ e.2.length <;> simp [countGe, List.filter_cons, hc]; omega
    · rw [histogram, List.foldl_cons, ← histogram, r4, keys_histIncr]
      simp only [Occurs, List.mem_cons, exists_eq_or_imp, or_assoc]
      simp only [eq_comm]

/-! ### The threshold -/

/-- The loop of `computeFreqHist` over the histogram from its largest size down, with the
running `sum` and the current `freqThreshold`. -/
def thresholdLoop (minmerToIgnore : Int) : List (Nat × Nat) → Int → Nat → Nat
  | [], _, thr => thr
  | (c, n) :: rest, sum, thr =>
    if sum + n < minmerToIgnore then thresholdLoop minmerToIgnore rest (sum + n) c
    else if sum + n = minmerToIgnore then c
    else thr

theorem psum_pos_of_mem {l : List (Nat × Nat)} (hp : ∀ e ∈ l, 0 < e.2) {c : Nat}
    (hc : c ∈ l.map Prod.fst) : 0 < psum l c := by
  induction l with
  | nil => simp at hc
  | cons e l ih =>
    obtain ⟨k, n⟩ := e
    rw [psum_cons]
    rcases List.mem_cons.mp hc with rfl | hc
    · have := hp _ (List.mem_cons_self _ _); simp; omega
    · have := ih (fun e he => hp e (by simp [he])) hc; omega

theorem psum_eq_zero_of_gt {l : List (Nat × Nat)} {c : Nat} (h : ∀ e ∈ l, e.1 < c) :
    psum l c = 0 := by
  unfold psum
  rw [List.filter_eq_nil_iff.mpr (fun e he => by have := h e he; simp; omega)]
  rfl

/-- **The threshold loop.** Over a list descending in its sizes, with positive counts,
from running sum `sum`: the result is the least size `c` of the list whose sum of the
counts of sizes `≥ c`, added to `sum`, is at most `minmerToIgnore`; when there is none,
the threshold is left as it was. -/
theorem thresholdLoop_spec (mi : Int) (l : List (Nat × Nat)) (hs : l.Pairwise (fun a b => b.1 < a.1))
    (hp : ∀ e ∈ l, 0 < e.2) (sum : Int) (thr : Nat) :
    (IsLeast {c | c ∈ l.map Prod.fst ∧ sum + psum l c ≤ mi} (thresholdLoop mi l sum thr)) ∨
      ((∀ c ∈ l.map Prod.fst, mi < sum + psum l c) ∧ thresholdLoop mi l sum thr = thr) := by
  induction l generalizing sum thr with
  | nil => right; simp [thresholdLoop]
  | cons e rest ih =>
    obtain ⟨c0, n⟩ := e
    rw [List.pairwise_cons] at hs
    have hn : 0 < n := hp _ (List.mem_cons_self _ _)
    have hrest : ∀ e ∈ rest, 0 < e.2 := fun e he => hp e (by simp [he])
    have hlt : ∀ c ∈ rest.map Prod.fst, c < c0 := by
      intro c hc
      obtain ⟨e, he, rfl⟩ := List.mem_map.mp hc
      exact hs.1 e he
    have hps0 : psum ((c0, n) :: rest) c0 = n := by
      rw [psum_cons, if_pos le_rfl, psum_eq_zero_of_gt (fun e he => hs.1 e he)]; rfl
    have hps : ∀ c ∈ rest.map Prod.fst, psum ((c0, n) :: rest) c = n + psum rest c := by
      intro c hc; rw [psum_cons, if_pos (hlt c hc).le]
    -- a size of the list is `c0` or a size of the rest
    have hmem : ∀ c ∈ ((c0, n) :: rest).map Prod.fst, c = c0 ∨ c ∈ rest.map Prod.fst :=
      fun c hc => List.mem_cons.mp hc
    have hc0 : c0 ∈ ((c0, n) :: rest).map Prod.fst := List.mem_cons_self _ _
    simp only [thresholdLoop]
    split_ifs with h1 h2
    · -- `sum < minmerToIgnore`: `c0` qualifies, the rest decides
      left
      rcases ih hs.2 hrest (sum + n) c0 with ⟨⟨hm, hle⟩, hleast⟩ | ⟨hnone, heq⟩
      · refine ⟨⟨List.mem_cons_of_mem _ hm, by rw [hps _ hm]; push_cast; omega⟩, ?_⟩
        rintro c ⟨hc, hcle⟩
        rcases hmem c hc with rfl | hc''
        · exact (hlt _ hm).le
        · exact hleast ⟨hc'', by rw [hps _ hc''] at hcle; push_cast at hcle ⊢; omega⟩
      · rw [heq]
        refine ⟨⟨hc0, by rw [hps0]; omega⟩, ?_⟩
        rintro c ⟨hc, hcle⟩
        rcases hmem c hc with rfl | hc''
        · exact le_rfl
        · have := hnone c hc''
          rw [hps _ hc''] at hcle; push_cast at hcle; omega
    · -- `sum == minmerToIgnore`: `c0` is the only size that qualifies
      left
      refine ⟨⟨hc0, by rw [hps0]; omega⟩, ?_⟩
      rintro c ⟨hc, hcle⟩
      rcases hmem c hc with rfl | hc''
      · exact le_rfl
      · have := psum_pos_of_mem hrest hc''
        rw [hps _ hc''] at hcle; push_cast at hcle; omega
    · -- past it: no size qualifies
      right
      refine ⟨fun c hc => ?_, rfl⟩
      rcases hmem c hc with rfl | hc''
      · rw [hps0]; omega
      · rw [hps _ hc'']; push_cast; omega

/-! ### `computeFreqHist` -/

/-- `Sketch::computeFreqHist`: the histogram, `minmerToIgnore` in `double`, and the
threshold loop; the run stops where the conversion of `minmerToIgnore` is undefined. -/
def computeFreqHist (s : Sketch) : Except Halt Sketch :=
  if s.minmerPosLookupIndex.isEmpty then .ok s
  else
    let hist := histogram s.minmerPosLookupIndex s.minmerFreqHistogram
    match minmerToIgnore (toInt64 s.minmerPosLookupIndex.length) s.param.kmerPctThreshold with
    | none => .error .doubleToInt64
    | some m => .ok { s with
        minmerFreqHistogram := hist
        freqThreshold := thresholdLoop m hist.reverse 0 s.freqThreshold }

/-- What `computeFreqHist` did when it returns: nothing on an empty index; otherwise it
stored the histogram and the threshold the loop finds for the `minmerToIgnore` it
computed. -/
theorem computeFreqHist_eq_ok {s u : Sketch} (h : computeFreqHist s = .ok u) :
    (s.minmerPosLookupIndex = [] ∧ u = s) ∨
      ∃ m, minmerToIgnore (toInt64 s.minmerPosLookupIndex.length) s.param.kmerPctThreshold =
          some m ∧
        u = { s with
          minmerFreqHistogram := histogram s.minmerPosLookupIndex s.minmerFreqHistogram
          freqThreshold := thresholdLoop m
            (histogram s.minmerPosLookupIndex s.minmerFreqHistogram).reverse 0 s.freqThreshold } := by
  unfold computeFreqHist at h
  split at h
  · exact .inl ⟨List.isEmpty_iff.mp ‹_›, (Except.ok.inj h).symm⟩
  · split at h
    · cases h
    · exact .inr ⟨_, ‹_›, (Except.ok.inj h).symm⟩

/-- `computeFreqHist` changes only the histogram and the threshold. -/
theorem computeFreqHist_fields {s u : Sketch} (h : computeFreqHist s = .ok u) :
    u.param = s.param ∧ u.frequentSeeds = s.frequentSeeds ∧ u.isInitialized = s.isInitialized ∧
      u.metadata = s.metadata ∧ u.sequencesByFileInfo = s.sequencesByFileInfo ∧
      u.minmerPosLookupIndex = s.minmerPosLookupIndex ∧ u.minmerIndex = s.minmerIndex := by
  rcases computeFreqHist_eq_ok h with ⟨-, rfl⟩ | ⟨m, -, rfl⟩ <;>
    exact ⟨rfl, rfl, rfl, rfl, rfl, rfl, rfl⟩

/-- **The conversion is defined on a percentile.** For a `kmer_pct_threshold` in
`[0, 100]` and fewer than `2^62` keys, `computeFreqHist` returns, with a `minmerToIgnore`
that is not negative. -/
theorem computeFreqHist_ok_of_percentile (s : Sketch) (hN : s.minmerPosLookupIndex.length < 2 ^ 62)
    (hp : isPercentile s.param.kmerPctThreshold = true) :
    ∃ m u, minmerToIgnore s.minmerPosLookupIndex.length s.param.kmerPctThreshold = some m ∧
      0 ≤ m ∧ computeFreqHist s = .ok u := by
  obtain ⟨m, hm, hm0⟩ := minmerToIgnore_of_percentile hN hp
  refine ⟨m, ?_⟩
  simp only [computeFreqHist, toInt64_of_lt (show s.minmerPosLookupIndex.length < 2 ^ 63 by omega),
    hm, hm0, true_and]
  split <;> exact ⟨_, rfl⟩

theorem psum_reverse (h : List (Nat × Nat)) (c : Nat) : psum h.reverse c = psum h c := by
  simp [psum, List.filter_reverse, List.map_reverse, List.sum_reverse]

/-- **`freqThreshold`.** From a fresh histogram, `computeFreqHist`, when it returns, sets
`freqThreshold` to the least size `c` of a key's vector with `#{H : |m[H]| ≥ c}` at most
the `minmerToIgnore` it computes, and leaves it as it was when no size qualifies. -/
theorem freqThreshold_spec {s u : Sketch} (hh : s.minmerFreqHistogram = []) {m : Int}
    (hm : minmerToIgnore (toInt64 s.minmerPosLookupIndex.length) s.param.kmerPctThreshold = some m)
    (h : computeFreqHist s = .ok u) :
    IsLeast {c | Occurs s.minmerPosLookupIndex c ∧ (countGe s.minmerPosLookupIndex c : Int) ≤ m}
        u.freqThreshold ∨
      ((∀ c, Occurs s.minmerPosLookupIndex c → m < countGe s.minmerPosLookupIndex c) ∧
        u.freqThreshold = s.freqThreshold) := by
  rcases computeFreqHist_eq_ok h with ⟨he, rfl⟩ | ⟨m', hm', rfl⟩
  · right
    simp [he, Occurs]
  · obtain rfl : m' = m := Option.some.inj (hm'.symm.trans hm)
    obtain ⟨hs, hp, hsum, hkeys⟩ := histogram_spec s.minmerPosLookupIndex
    rw [hh]
    rcases thresholdLoop_spec m' _ (List.pairwise_reverse.mpr hs)
      (fun e he => hp e (List.mem_reverse.mp he)) 0 s.freqThreshold with h | ⟨h, heq⟩
    · left
      convert h using 2
      simp [List.map_reverse, hkeys, psum_reverse, hsum]
    · right
      refine ⟨fun c hc => ?_, heq⟩
      have := h c (by simpa [List.map_reverse, hkeys] using hc)
      rwa [psum_reverse, hsum, zero_add] at this

/-! ### `computeFreqSeedSet` -/

/-- `Sketch::computeFreqSeedSet`. -/
def computeFreqSeedSet (s : Sketch) : Sketch :=
  { s with
    frequentSeeds := s.minmerPosLookupIndex.foldl
      (fun fs e => if s.freqThreshold ≤ e.2.length then fs.insert e.1 else fs) s.frequentSeeds }

theorem foldl_insert_frequent (thr : Nat) (m : PosMap) (acc : DenseSet Hash)
    (hd : (acc ++ DenseMap.keys m).Nodup) :
    m.foldl (fun fs e => if thr ≤ e.2.length then fs.insert e.1 else fs) acc =
      acc ++ (m.filter (thr ≤ ·.2.length)).map Prod.fst := by
  induction m generalizing acc with
  | nil => simp
  | cons e m ih =>
    have hd' : (acc ++ e.1 :: DenseMap.keys m).Nodup := by simpa [DenseMap.keys] using hd
    have hnot : e.1 ∉ acc := fun h => (List.nodup_append.mp hd').2.2 h (List.mem_cons_self _ _)
    rw [List.foldl_cons]
    split
    · rw [DenseSet.insert, if_neg hnot, ih _ (by simpa using hd')]
      simp [List.filter_cons, *]
    · rw [ih _ (hd'.sublist (List.Sublist.append_left (List.sublist_cons_self _ _) _))]
      simp [List.filter_cons, *]

/-- **`frequentSeeds`.** From an empty seed set, on an index with unique keys,
`computeFreqSeedSet` collects, in iteration order, the keys whose vector has at least
`freqThreshold` points. -/
theorem computeFreqSeedSet_spec (s : Sketch) (hf : s.frequentSeeds = [])
    (hd : (DenseMap.keys s.minmerPosLookupIndex).Nodup) :
    (computeFreqSeedSet s).frequentSeeds =
      (s.minmerPosLookupIndex.filter (s.freqThreshold ≤ ·.2.length)).map Prod.fst := by
  simp only [computeFreqSeedSet, hf]
  rw [foldl_insert_frequent _ _ _ (by simpa using hd), List.nil_append]

/-! ### `std::remove_if` -/

section RemoveIf

variable {α : Type} [Inhabited α] (p : α → Bool)

/-- `std::find_if` over the `n` positions from `i`: the first position whose element
satisfies `p`, or `i + n`. -/
def findIf (v : List α) : Nat → Nat → Nat
  | 0, i => i
  | n + 1, i => if p v[i]! then i else findIf v n (i + 1)

/-- The loop of `std::remove_if` after `find_if`: `i` reads and `first` writes; an element
to keep is moved to `first`, which then advances. -/
def removeIfLoop : Nat → List α → Nat → Nat → List α × Nat
  | 0, v, _, first => (v, first)
  | n + 1, v, i, first =>
    if p v[i]! then removeIfLoop n v (i + 1) first
    else removeIfLoop n (v.set first v[i]!) (i + 1) (first + 1)

/-- `std::remove_if(v.begin(), v.end(), p)`: the rearranged vector and its new end. -/
def removeIf (v : List α) : List α × Nat :=
  let first := findIf p v v.length 0
  if first = v.length then (v, first)
  else removeIfLoop p (v.length - (first + 1)) v (first + 1) first

variable {p}

theorem getElem!_of_getElem? {v : List α} {i : Nat} {x : α} (h : v[i]? = some x) : v[i]! = x := by
  rw [getElem!_def, h]

omit [Inhabited α] in
theorem take_succ_set {v : List α} {w : Nat} (h : w < v.length) (x : α) :
    (v.set w x).take (w + 1) = v.take w ++ [x] := by
  rw [List.take_succ, List.set_take, List.set_eq_of_length_le (by simp), List.getElem?_set_self h]
  rfl

theorem findIf_spec (v : List α) : ∀ n i, i + n = v.length →
    i ≤ findIf p v n i ∧ findIf p v n i ≤ v.length ∧
      (∀ j x, i ≤ j → j < findIf p v n i → v[j]? = some x → p x = false) ∧
      (findIf p v n i < v.length → ∀ x, v[findIf p v n i]? = some x → p x = true)
  | 0, i, h => by
    simp only [findIf]
    exact ⟨le_rfl, by omega, fun j _ hj hjr _ => absurd hjr (by omega), fun h' => by omega⟩
  | n + 1, i, h => by
    obtain ⟨x, hx⟩ : ∃ x, v[i]? = some x := ⟨_, List.getElem?_eq_getElem (by omega)⟩
    unfold findIf
    rw [getElem!_of_getElem? hx]
    split <;> rename_i hpx
    · exact ⟨le_rfl, by omega, fun j _ hj hjr _ => absurd hjr (by omega),
        fun _ y hy => by rw [hx] at hy; cases hy; exact hpx⟩
    · obtain ⟨h1, h2, h3, h4⟩ := findIf_spec v n (i + 1) (by omega)
      refine ⟨by omega, h2, fun j y hj hjr hy => ?_, h4⟩
      rcases Nat.eq_or_lt_of_le hj with rfl | hj
      · rw [hx] at hy; cases hy; simpa using hpx
      · exact h3 j y hj hjr hy

/-- The loop invariant of the compaction: before `first` stand the elements to keep
among those before `i`, and from `i` on the vector is untouched. -/
theorem removeIfLoop_spec (v₀ : List α) : ∀ (n : Nat) (v : List α) (i first : Nat),
    i + n = v₀.length → v.length = v₀.length → first ≤ i →
    v.take first = (v₀.take i).filter (fun x => !p x) → v.drop i = v₀.drop i →
    (removeIfLoop p n v i first).1.take (removeIfLoop p n v i first).2 =
        v₀.filter (fun x => !p x) ∧ (removeIfLoop p n v i first).2 ≤ v₀.length
  | 0, v, i, first, hn, _, hfi, htake, _ => by
    simp only [removeIfLoop]
    rw [htake, List.take_of_length_le (by omega)]
    exact ⟨rfl, by omega⟩
  | n + 1, v, i, first, hn, hlen, hfi, htake, hdrop => by
    obtain ⟨x, hx0⟩ : ∃ x, v₀[i]? = some x := ⟨_, List.getElem?_eq_getElem (by omega)⟩
    have hx : v[i]? = some x := by
      rw [← hx0, ← Nat.add_zero i, ← List.getElem?_drop, hdrop, List.getElem?_drop]
    have htake₀ : v₀.take (i + 1) = v₀.take i ++ [x] := by rw [List.take_succ, hx0]; rfl
    have hdrop' : v.drop (i + 1) = v₀.drop (i + 1) := by
      rw [← List.drop_drop, hdrop, List.drop_drop]
    unfold removeIfLoop
    rw [getElem!_of_getElem? hx]
    split
    · exact removeIfLoop_spec v₀ n v (i + 1) first (by omega) hlen (by omega)
        (by rw [htake₀, List.filter_append, htake]; simp [*]) hdrop'
    · exact removeIfLoop_spec v₀ n (v.set first x) (i + 1) (first + 1) (by omega)
        (by simp [hlen]) (by omega)
        (by rw [take_succ_set (by omega), htake₀, List.filter_append, htake]; simp [*])
        (by rw [List.drop_set_of_lt _ _ (by omega), hdrop'])

/-- **`std::remove_if`.** The elements before the returned end are exactly those that do
not satisfy the predicate, in their order. -/
theorem removeIf_spec (v : List α) :
    (removeIf p v).1.take (removeIf p v).2 = v.filter (fun x => !p x) ∧
      (removeIf p v).2 ≤ v.length := by
  obtain ⟨-, h2, h3, h4⟩ := findIf_spec (p := p) v v.length 0 (by omega)
  have hpre : (v.take (findIf p v v.length 0)).filter (fun x => !p x) =
      v.take (findIf p v v.length 0) := by
    refine List.filter_eq_self.mpr fun x hx => ?_
    obtain ⟨j, hj⟩ := List.mem_iff_getElem?.mp hx
    rw [List.getElem?_take] at hj
    split at hj
    · simp [h3 j x (Nat.zero_le _) ‹_› hj]
    · cases hj
  dsimp only [removeIf]
  split <;> rename_i hf
  · -- nothing to remove: `find_if` reached the end
    rw [hf, List.take_length] at hpre ⊢
    exact ⟨hpre.symm, le_rfl⟩
  · obtain ⟨y, hy⟩ : ∃ y, v[findIf p v v.length 0]? = some y :=
      Option.ne_none_iff_exists'.mp (by rw [Ne, List.getElem?_eq_none_iff]; omega)
    have hpy := h4 (by omega) y hy
    exact removeIfLoop_spec v _ v _ _ (by omega) rfl (by omega)
      (by rw [List.take_succ, hy]; simp [List.filter_append, hpre, hpy]) rfl

end RemoveIf

/-! ### `dropFreqSeedSet` -/

/-- `Sketch::dropFreqSeedSet`: `remove_if` over the minmers whose hash is a frequent
seed, then `erase` from the new end. -/
def dropFreqSeedSet (s : Sketch) : Sketch :=
  let r := removeIf (fun mi : MinmerInfo => decide (mi.hash ∈ s.frequentSeeds)) s.minmerIndex
  { s with minmerIndex := r.1.take r.2 }

theorem dropFreqSeedSet_eq (s : Sketch) :
    dropFreqSeedSet s =
      { s with minmerIndex := s.minmerIndex.filter (fun mi => mi.hash ∉ s.frequentSeeds) } := by
  simp only [dropFreqSeedSet, (removeIf_spec _).1, decide_not]

/-! ### Pruning a built index -/

/-- Every vector of the index holds fewer than `UINT64_MAX` points, as any
`std::vector` does: its size is a `size_t` bounded by `max_size()`. -/
def SizeFits (s : Sketch) : Prop := ∀ e ∈ s.minmerPosLookupIndex, e.2.length < uint64Max

instance (s : Sketch) : Decidable (SizeFits s) :=
  inferInstanceAs (Decidable (∀ e ∈ s.minmerPosLookupIndex, e.2.length < uint64Max))

/-- The seed set of a built index, as `initialize` computes it: the keys with at least
`freqThreshold` points. -/
theorem built_frequentSeeds (p : Parameters) (md : List ContigInfo) (sf : List Int)
    (contigs : List (List MinmerInfo)) {u : Sketch}
    (hu : computeFreqHist (contigs.foldl buildHandleThreadOutput (Sketch.create p md sf)) = .ok u) :
    let s := contigs.foldl buildHandleThreadOutput (Sketch.create p md sf)
    let t := computeFreqSeedSet u
    t.frequentSeeds = (s.minmerPosLookupIndex.filter (t.freqThreshold ≤ ·.2.length)).map Prod.fst ∧
      ∀ H, (H, s.minmerPosLookupIndex.get H) ∈ s.minmerPosLookupIndex →
        (H ∈ t.frequentSeeds ↔ t.freqThreshold ≤ (s.minmerPosLookupIndex.get H).length) := by
  have hf0 := (built_fields p md sf contigs).2.1
  intro s t
  obtain ⟨hnd, -, -⟩ := built_index p md sf contigs
  obtain ⟨-, h3, -, -, -, h1, -⟩ := computeFreqHist_fields hu
  have hfs : t.frequentSeeds =
      (s.minmerPosLookupIndex.filter (t.freqThreshold ≤ ·.2.length)).map Prod.fst := by
    have := computeFreqSeedSet_spec u (h3.trans hf0) (by rwa [h1])
    rwa [h1] at this
  refine ⟨hfs, fun H hH => ?_⟩
  rw [hfs]
  constructor
  · intro hm
    obtain ⟨e, he, rfl⟩ := List.mem_map.mp hm
    obtain ⟨he, hthr⟩ := List.mem_filter.mp he
    rw [PosMap.get, DenseMap.find?_of_mem hnd he]
    simpa using hthr
  · intro hthr
    exact List.mem_map.mpr ⟨_, List.mem_filter.mpr ⟨hH, by simpa using hthr⟩, rfl⟩

/-- **Pruning thresholds.** For any index `build` reaches, with fewer than `2^62` keys, and
any `kmer_pct_threshold` in `[0, 100]`: `computeFreqHist` returns, with
`m = minmerToIgnore ≥ 0` as it computes it in `double`, and after `computeFreqSeedSet`
`frequentSeeds` is exactly the set of hashes `H` with `|m[H]| ≥ freqThreshold`, without
repetition, of size at most `m`; `freqThreshold` is the least size `c` of a vector with
`#{H : |m[H]| ≥ c} ≤ m`, or, when no size qualifies, stays `UINT64_MAX` and nothing is
pruned. -/
theorem computeFreqSeedSet_threshold (p : Parameters) (md : List ContigInfo) (sf : List Int)
    (contigs : List (List MinmerInfo))
    (hfit : SizeFits (contigs.foldl buildHandleThreadOutput (Sketch.create p md sf)))
    (hkeys : (contigs.foldl buildHandleThreadOutput (Sketch.create p md sf)).minmerPosLookupIndex.length
      < 2 ^ 62)
    (hpct : isPercentile p.kmerPctThreshold = true) :
    let s := contigs.foldl buildHandleThreadOutput (Sketch.create p md sf)
    ∃ m u, minmerToIgnore s.minmerPosLookupIndex.length p.kmerPctThreshold = some m ∧ 0 ≤ m ∧
      computeFreqHist s = .ok u ∧
      let t := computeFreqSeedSet u
      (∀ H, H ∈ t.frequentSeeds ↔ t.freqThreshold ≤ (s.minmerPosLookupIndex.get H).length) ∧
        t.frequentSeeds.Nodup ∧ (t.frequentSeeds.length : Int) ≤ m ∧
        (IsLeast {c | Occurs s.minmerPosLookupIndex c ∧ (countGe s.minmerPosLookupIndex c : Int) ≤ m}
            t.freqThreshold ∨
          ((∀ c, Occurs s.minmerPosLookupIndex c → m < countGe s.minmerPosLookupIndex c) ∧
            t.freqThreshold = uint64Max ∧ t.frequentSeeds = [])) := by
  obtain ⟨hp0, -, hh0, hs0⟩ := built_fields p md sf contigs
  intro s
  obtain ⟨m, u, hm, hm0, hu⟩ := computeFreqHist_ok_of_percentile s hkeys (by rw [hp0]; exact hpct)
  rw [hp0] at hm
  refine ⟨m, u, hm, hm0, hu, ?_⟩
  intro t
  obtain ⟨hnd, hne, -⟩ := built_index p md sf contigs
  obtain ⟨hfs, hmem⟩ := built_frequentSeeds p md sf contigs hu
  have hthr : t.freqThreshold = u.freqThreshold := rfl
  have hspec := freqThreshold_spec hh0
    (by rw [hp0, toInt64_of_lt (lt_trans hkeys (by norm_num))]; exact hm) hu
  have hlen : (t.frequentSeeds.length : Int) = countGe s.minmerPosLookupIndex t.freqThreshold := by
    rw [hfs, List.length_map]; rfl
  -- the threshold is positive: a size of a non-empty vector, or `UINT64_MAX`
  have hpos : 0 < t.freqThreshold := by
    rcases hspec with ⟨⟨⟨e, he, hc⟩, -⟩, -⟩ | ⟨-, h⟩
    · rw [hthr, ← hc]; exact List.length_pos.mpr (hne e he)
    · rw [hthr, h, hs0]; decide
  -- no vector reaches `UINT64_MAX` points
  have hbig : s.minmerPosLookupIndex.filter (uint64Max ≤ ·.2.length) = [] :=
    List.filter_eq_nil_iff.mpr fun e he => by simpa using hfit e he
  refine ⟨fun H => ?_, ?_, ?_, ?_⟩
  · rcases PosMap.mem_or_get_eq_nil s.minmerPosLookupIndex H with hH | hget
    · exact hmem H hH
    · -- an absent key: never a seed, and below the positive threshold
      rw [hget, List.length_nil]
      refine ⟨fun hH' => ?_, fun h => absurd h (by omega)⟩
      rw [hfs] at hH'
      obtain ⟨e, he, rfl⟩ := List.mem_map.mp hH'
      have he' := (List.mem_filter.mp he).1
      rw [PosMap.get, DenseMap.find?_of_mem hnd he'] at hget
      exact absurd hget (hne e he')
  · rw [hfs]
    exact hnd.sublist (List.Sublist.map _ (List.filter_sublist _))
  · rcases hspec with ⟨⟨-, hc⟩, -⟩ | ⟨-, h⟩
    · rw [hlen]; exact hc
    · rw [hlen, hthr, h, hs0, countGe, hbig]; exact hm0
  · rcases hspec with h | ⟨hnone, h⟩
    · exact Or.inl h
    · refine Or.inr ⟨hnone, by rw [hthr, h, hs0], ?_⟩
      rw [hfs, hthr, h, hs0, hbig, List.map_nil]

theorem computeFreqSeedSet_threshold_one_window :
    SizeFits ([[⟨5, 0, 10, 0, .FWD⟩]].foldl buildHandleThreadOutput (Sketch.create default [] [])) ∧
      ([[⟨5, 0, 10, 0, .FWD⟩]].foldl buildHandleThreadOutput
        (Sketch.create default [] [])).minmerPosLookupIndex.length < 2 ^ 62 ∧
      isPercentile (default : Parameters).kmerPctThreshold = true ∧
      let s := [[⟨5, 0, 10, 0, .FWD⟩]].foldl buildHandleThreadOutput (Sketch.create default [] [])
      ∃ m u, minmerToIgnore s.minmerPosLookupIndex.length (default : Parameters).kmerPctThreshold =
          some m ∧ 0 ≤ m ∧ computeFreqHist s = .ok u ∧
        let t := computeFreqSeedSet u
        (∀ H, H ∈ t.frequentSeeds ↔ t.freqThreshold ≤ (s.minmerPosLookupIndex.get H).length) ∧
          t.frequentSeeds.Nodup ∧ (t.frequentSeeds.length : Int) ≤ m ∧
          (IsLeast {c | Occurs s.minmerPosLookupIndex c ∧ (countGe s.minmerPosLookupIndex c : Int) ≤ m}
              t.freqThreshold ∨
            ((∀ c, Occurs s.minmerPosLookupIndex c → m < countGe s.minmerPosLookupIndex c) ∧
              t.freqThreshold = uint64Max ∧ t.frequentSeeds = [])) :=
  ⟨by decide, by decide, by decide,
    computeFreqSeedSet_threshold default [] [] _ (by decide) (by decide) (by decide)⟩

/-- **Pruning.** For any seed set, `dropFreqSeedSet` keeps, in order, exactly the minmers
whose hash is not a frequent seed, and changes nothing else. After `computeFreqHist`, when
it returns, and `computeFreqSeedSet` on an index `build` reaches, these are exactly the
minmers whose hash has fewer than `freqThreshold` interval points. -/
theorem dropFreqSeedSet_keeps_infrequent :
    (∀ s : Sketch, dropFreqSeedSet s =
      { s with minmerIndex := s.minmerIndex.filter (fun mi => mi.hash ∉ s.frequentSeeds) }) ∧
    ∀ (p : Parameters) (md : List ContigInfo) (sf : List Int) (contigs : List (List MinmerInfo))
      (u : Sketch),
      let s := contigs.foldl buildHandleThreadOutput (Sketch.create p md sf)
      computeFreqHist s = .ok u →
      let t := computeFreqSeedSet u
      (dropFreqSeedSet t).minmerIndex =
        s.minmerIndex.filter (fun mi => (s.minmerPosLookupIndex.get mi.hash).length < t.freqThreshold) := by
  refine ⟨dropFreqSeedSet_eq, fun p md sf contigs u => ?_⟩
  intro s hu t
  obtain ⟨-, -, hkey⟩ := built_index p md sf contigs
  obtain ⟨-, hmem⟩ := built_frequentSeeds p md sf contigs hu
  rw [dropFreqSeedSet_eq]
  show t.minmerIndex.filter _ = _
  rw [show t.minmerIndex = s.minmerIndex from (computeFreqHist_fields hu).2.2.2.2.2.2]
  refine List.filter_congr fun mi hmi => ?_
  have := hmem mi.hash (hkey mi hmi)
  by_cases h : t.freqThreshold ≤ (s.minmerPosLookupIndex.get mi.hash).length <;> simp_all

end Wfmash.Skch

import Wfmash.Sketch.Basic
import Mathlib.Data.List.Chain

/-!
# Merging one contig's minmers into the index

`Sketch::buildHandleThreadOutput` takes the minmers the extractor produced for one
contig and, for each minmer `mi` in turn, looks at the vector
`minmerPosLookupIndex[mi.hash]`:

    if (L.size() == 0 || L.back().hash != mi.hash || L.back().pos != mi.wpos)
      { L.push_back({mi.wpos, mi.hash, mi.seqId, OPEN});
        L.push_back({mi.wpos_end, mi.hash, mi.seqId, CLOSE}); }
    else L.back().pos = mi.wpos_end;

and finally appends the contig's minmers to `minmerIndex`. The thread pool hands the
contigs back in the order its threads finish, so the calls come in any order.

## What is proved

* `buildHandleThreadOutput_intervalRuns` — over any sequence of calls from an empty
  index, every key's vector is a non-empty list of OPEN/CLOSE pairs of that hash, each
  on one sequence and in order, no pair touching the next (`IntervalRuns`); hence the
  test `L.back().hash != mi.hash` never holds.
* `buildHandleThreadOutput_covers_positions` — the positions the pairs of a key cover
  are exactly the positions of that hash's windows.
* `buildHandleThreadOutput_merges_across_sequences` — but not with their sequences: the
  merge test does not look at `seqId`, so a window that starts where the last window of
  the same hash on another sequence ended is merged into that sequence's pair.
* `buildHandleThreadOutput_covers` — that is the only way the sequences go wrong: when no
  window starts where a window of the same hash on another sequence ends
  (`AdjacentSameSeq`), the pairs of a key cover exactly the (sequence, position)s of that
  hash's windows.

The per-key view: what the loop does to one key is a fold of `addWindow` over that
key's minmers (`get_foldl_addMinmer`), and a key's vector is read as a list of pairs
(`unpair`).
-/

namespace Wfmash.Skch

/-- The OPEN point pushed for a new window. -/
def openPoint (mi : MinmerInfo) : IntervalPoint := ⟨mi.wpos, mi.hash, mi.seqId, .OPEN⟩

/-- The CLOSE point pushed for a new window. -/
def closePoint (mi : MinmerInfo) : IntervalPoint := ⟨mi.wposEnd, mi.hash, mi.seqId, .CLOSE⟩

/-- The loop body on the vector `minmerPosLookupIndex[mi.hash]`: a new pair, or the last
point moved to `mi.wpos_end`. -/
def addWindow (ips : List IntervalPoint) (mi : MinmerInfo) : List IntervalPoint :=
  match ips.getLast? with
  | some b =>
    if b.hash ≠ mi.hash ∨ b.pos ≠ mi.wpos then ips ++ [openPoint mi, closePoint mi]
    else ips.dropLast ++ [{ b with pos := mi.wposEnd }]
  | none => ips ++ [openPoint mi, closePoint mi]

/-- The loop body on the whole index: `operator[]` creates the key when it is new. -/
def addMinmer (m : PosMap) (mi : MinmerInfo) : PosMap :=
  DenseMap.alter [] m mi.hash (addWindow · mi)

/-- `Sketch::buildHandleThreadOutput`. -/
def buildHandleThreadOutput (s : Sketch) (contigMinmerIndex : List MinmerInfo) : Sketch :=
  { s with
    minmerPosLookupIndex := contigMinmerIndex.foldl addMinmer s.minmerPosLookupIndex
    minmerIndex := s.minmerIndex ++ contigMinmerIndex }

/-- A window the extractor can emit: `wpos ≤ wpos_end` as `int64_t`. -/
def WindowOk (mi : MinmerInfo) : Prop := mi.wpos.toInt ≤ mi.wposEnd.toInt

instance (mi : MinmerInfo) : Decidable (WindowOk mi) :=
  inferInstanceAs (Decidable (mi.wpos.toInt ≤ mi.wposEnd.toInt))

/-! ### A run of calls, key by key -/

theorem get_addMinmer (m : PosMap) (mi : MinmerInfo) (H : Hash) :
    (addMinmer m mi).get H = if mi.hash = H then addWindow (m.get H) mi else m.get H := by
  simp only [addMinmer, PosMap.get, DenseMap.find?_alter]
  split
  · subst H; rfl
  · rfl

/-- What the loop does to key `H` is a fold of `addWindow` over the minmers of `H`. -/
theorem get_foldl_addMinmer (ms : List MinmerInfo) (m : PosMap) (H : Hash) :
    (ms.foldl addMinmer m).get H = (ms.filter (·.hash = H)).foldl addWindow (m.get H) := by
  induction ms generalizing m with
  | nil => rfl
  | cons mi ms ih =>
    rw [List.foldl_cons, ih, get_addMinmer]
    by_cases h : mi.hash = H <;> simp [h, List.filter_cons]

theorem mem_keys_foldl_addMinmer (ms : List MinmerInfo) (m : PosMap) (H : Hash) :
    H ∈ DenseMap.keys (ms.foldl addMinmer m) ↔ H ∈ DenseMap.keys m ∨ ∃ mi ∈ ms, mi.hash = H := by
  induction ms generalizing m with
  | nil => simp
  | cons mi ms ih =>
    have hk : H ∈ DenseMap.keys (addMinmer m mi) ↔ H ∈ DenseMap.keys m ∨ mi.hash = H := by
      rw [addMinmer, DenseMap.keys_alter]
      split_ifs with h
      · exact (or_iff_left_of_imp fun e => e ▸ h).symm
      · rw [List.mem_append, List.mem_singleton, eq_comm]
    rw [List.foldl_cons, ih, hk]
    simp only [List.mem_cons, or_and_right, exists_or, exists_eq_left, or_assoc]

theorem nodup_keys_foldl_addMinmer (ms : List MinmerInfo) {m : PosMap}
    (h : (DenseMap.keys m).Nodup) : (DenseMap.keys (ms.foldl addMinmer m)).Nodup := by
  induction ms generalizing m with
  | nil => exact h
  | cons mi ms ih => exact ih (DenseMap.nodup_keys_alter _ _ _ h)

/-- A run of calls adds the concatenated contigs, one minmer at a time. -/
theorem foldl_buildHandleThreadOutput (s : Sketch) (contigs : List (List MinmerInfo)) :
    contigs.foldl buildHandleThreadOutput s =
      { s with
        minmerPosLookupIndex := contigs.flatten.foldl addMinmer s.minmerPosLookupIndex
        minmerIndex := s.minmerIndex ++ contigs.flatten } := by
  induction contigs generalizing s with
  | nil => simp
  | cons c cs ih =>
    rw [List.foldl_cons, ih]
    simp [buildHandleThreadOutput]

/-- The points stored under a key are those of that key's minmers, folded from empty. -/
theorem eq_foldl_addWindow_of_mem {ms : List MinmerInfo} {H : Hash} {L : List IntervalPoint}
    (h : (H, L) ∈ ms.foldl addMinmer []) :
    L = (ms.filter (·.hash = H)).foldl addWindow [] ∧ ∃ mi ∈ ms, mi.hash = H := by
  have hnd := nodup_keys_foldl_addMinmer ms (m := []) List.nodup_nil
  have hk : H ∈ DenseMap.keys (ms.foldl addMinmer []) := List.mem_map_of_mem Prod.fst h
  refine ⟨?_, by simpa [DenseMap.keys] using (mem_keys_foldl_addMinmer ms [] H).mp hk⟩
  have := get_foldl_addMinmer ms [] H
  rwa [PosMap.get, DenseMap.find?_of_mem hnd h] at this

/-! ### Pairs -/

/-- The points of a list of OPEN/CLOSE pairs, in order. -/
def unpair : List (IntervalPoint × IntervalPoint) → List IntervalPoint
  | [] => []
  | p :: ps => p.1 :: p.2 :: unpair ps

@[simp] theorem unpair_nil : unpair [] = [] := rfl

@[simp] theorem unpair_cons (p : IntervalPoint × IntervalPoint) (ps) :
    unpair (p :: ps) = p.1 :: p.2 :: unpair ps := rfl

@[simp] theorem unpair_append (ps qs : List (IntervalPoint × IntervalPoint)) :
    unpair (ps ++ qs) = unpair ps ++ unpair qs := by
  induction ps with
  | nil => rfl
  | cons p ps ih => simp [ih]

/-- The pairs of a vector, two points at a time. -/
def pairs : List IntervalPoint → List (IntervalPoint × IntervalPoint)
  | o :: c :: rest => (o, c) :: pairs rest
  | _ => []

@[simp] theorem pairs_unpair (ps : List (IntervalPoint × IntervalPoint)) :
    pairs (unpair ps) = ps := by
  induction ps with
  | nil => rfl
  | cons p ps ih => simp [pairs, ih]

/-- `p` lies in a pair of `L`, on whatever sequence: `p` is in `[OPEN.pos, CLOSE.pos)`. -/
def CoversPos (L : List IntervalPoint) (p : Int) : Prop :=
  ∃ q ∈ pairs L, q.1.pos.toInt ≤ p ∧ p < q.2.pos.toInt

instance (L : List IntervalPoint) (p : Int) : Decidable (CoversPos L p) :=
  inferInstanceAs (Decidable (∃ q ∈ pairs L, q.1.pos.toInt ≤ p ∧ p < q.2.pos.toInt))

/-- `p` lies in a window of hash `H` among the minmers `ms`, on whatever sequence. -/
def InWindowsPos (ms : List MinmerInfo) (H : Hash) (p : Int) : Prop :=
  ∃ mi ∈ ms, mi.hash = H ∧ mi.wpos.toInt ≤ p ∧ p < mi.wposEnd.toInt

instance (ms : List MinmerInfo) (H : Hash) (p : Int) : Decidable (InWindowsPos ms H p) :=
  inferInstanceAs (Decidable (∃ mi ∈ ms, mi.hash = H ∧ mi.wpos.toInt ≤ p ∧ p < mi.wposEnd.toInt))

theorem coversPos_unpair (ps : List (IntervalPoint × IntervalPoint)) (p : Int) :
    CoversPos (unpair ps) p ↔ ∃ q ∈ ps, q.1.pos.toInt ≤ p ∧ p < q.2.pos.toInt := by
  rw [CoversPos, pairs_unpair]

theorem addWindow_nil (mi : MinmerInfo) :
    addWindow (unpair []) mi = unpair [(openPoint mi, closePoint mi)] := rfl

theorem addWindow_push (ps : List (IntervalPoint × IntervalPoint)) (o c : IntervalPoint)
    (mi : MinmerInfo) (h : c.hash ≠ mi.hash ∨ c.pos ≠ mi.wpos) :
    addWindow (unpair (ps ++ [(o, c)])) mi =
      unpair (ps ++ [(o, c), (openPoint mi, closePoint mi)]) := by
  have hl : (unpair ps ++ [o, c]).getLast? = some c := by simp [List.getLast?_append]
  simp [addWindow, hl, h]

theorem addWindow_extend (ps : List (IntervalPoint × IntervalPoint)) (o c : IntervalPoint)
    (mi : MinmerInfo) (h : c.hash = mi.hash) (h' : c.pos = mi.wpos) :
    addWindow (unpair (ps ++ [(o, c)])) mi = unpair (ps ++ [(o, { c with pos := mi.wposEnd })]) := by
  have hl : (unpair ps ++ [o, c]).getLast? = some c := by simp [List.getLast?_append]
  have hd : (unpair ps ++ [o, c]).dropLast = unpair ps ++ [o] := by
    rw [show [o, c] = [o] ++ [c] from rfl, ← List.append_assoc, List.dropLast_concat]
  simp [addWindow, hl, h, h', hd]

/-- What one window of `c`'s hash does to a vector whose last pair is `(o, c)`: a new pair
when `c.pos ≠ wpos`, else `c` moved to `wpos_end`. -/
theorem addWindow_cases (ps : List (IntervalPoint × IntervalPoint)) (o c : IntervalPoint)
    (mi : MinmerInfo) (h : c.hash = mi.hash) :
    c.pos ≠ mi.wpos ∧ addWindow (unpair (ps ++ [(o, c)])) mi =
        unpair (ps ++ [(o, c), (openPoint mi, closePoint mi)]) ∨
      c.pos = mi.wpos ∧ addWindow (unpair (ps ++ [(o, c)])) mi =
        unpair (ps ++ [(o, { c with pos := mi.wposEnd })]) := by
  by_cases h' : c.pos = mi.wpos
  · exact Or.inr ⟨h', addWindow_extend ps o c mi h h'⟩
  · exact Or.inl ⟨h', addWindow_push ps o c mi (Or.inr h')⟩

/-- A pair `[o, c)` extended by a window `[c, e)` covers `[o, e)`. -/
theorem extend_span {o c e p : Int} (hoc : o ≤ c) (hce : c ≤ e) :
    (o ≤ p ∧ p < e) ↔ (o ≤ p ∧ p < c) ∨ (c ≤ p ∧ p < e) := by
  omega

/-! ### The shape of a key's points -/

/-- A pair kept for hash `H`: an OPEN and a CLOSE of `H` on one sequence, in order. -/
def PairOk (H : Hash) (p : IntervalPoint × IntervalPoint) : Prop :=
  p.1.side = .OPEN ∧ p.2.side = .CLOSE ∧ p.1.hash = H ∧ p.2.hash = H ∧
    p.1.seqId = p.2.seqId ∧ p.1.pos.toInt ≤ p.2.pos.toInt

/-- Consecutive pairs do not touch: a pair's CLOSE is not where the next one's OPEN is. -/
def Apart (p q : IntervalPoint × IntervalPoint) : Prop := p.2.pos ≠ q.1.pos

/-- The pairs of key `H`, as the loop keeps them. -/
def Runs (H : Hash) (ps : List (IntervalPoint × IntervalPoint)) : Prop :=
  (∀ p ∈ ps, PairOk H p) ∧ ps.Chain' Apart

/-- The vector of key `H`: (a) non-empty of even length, (b) alternating OPEN, CLOSE from
an OPEN, (c) every point of hash `H`, (d) each pair on one sequence with OPEN.pos ≤
CLOSE.pos, (e) each CLOSE at another position than the next OPEN. -/
def IntervalRuns (H : Hash) (L : List IntervalPoint) : Prop :=
  ∃ ps, L = unpair ps ∧ ps ≠ [] ∧ Runs H ps

theorem runs_nil (H : Hash) : Runs H [] := ⟨by simp, List.chain'_nil⟩

/-- One window keeps the shape, and the positions the pairs cover grow by the window's. -/
theorem addWindow_runs {H : Hash} {ps : List (IntervalPoint × IntervalPoint)} (hr : Runs H ps)
    {mi : MinmerInfo} (hH : mi.hash = H) (hw : WindowOk mi) :
    ∃ ps', addWindow (unpair ps) mi = unpair ps' ∧ Runs H ps' ∧
      ∀ p, CoversPos (unpair ps') p ↔
        CoversPos (unpair ps) p ∨ mi.wpos.toInt ≤ p ∧ p < mi.wposEnd.toInt := by
  have hnew : PairOk H (openPoint mi, closePoint mi) := ⟨rfl, rfl, hH, hH, rfl, hw⟩
  rcases List.eq_nil_or_concat ps with rfl | ⟨ps, ⟨o, c⟩, rfl⟩
  · refine ⟨_, addWindow_nil mi, by simpa [Runs] using hnew, fun p => ?_⟩
    rw [coversPos_unpair, coversPos_unpair]
    simp [openPoint, closePoint]
  rw [List.concat_eq_append] at hr ⊢
  obtain ⟨hok, hch⟩ := hr
  have hc : PairOk H (o, c) := hok _ (by simp)
  obtain ⟨h1, h2, h3, h4, h5, h6⟩ := hc
  rcases addWindow_cases ps o c mi (h4.trans hH.symm) with ⟨hpos, heq⟩ | ⟨hpos, heq⟩ <;>
    rw [heq]
  · -- a new pair, apart from the last one
    refine ⟨_, rfl, ⟨fun p hp => ?_, ?_⟩, fun p => ?_⟩
    · simp only [List.mem_append, List.mem_cons, List.mem_singleton, List.not_mem_nil,
        or_false] at hp
      rcases hp with hp | rfl | rfl
      · exact hok p (by simp [hp])
      · exact ⟨h1, h2, h3, h4, h5, h6⟩
      · exact hnew
    · rw [show ps ++ [(o, c), (openPoint mi, closePoint mi)] =
        (ps ++ [(o, c)]) ++ [(openPoint mi, closePoint mi)] by simp]
      exact hch.append (List.chain'_singleton _) (by simpa [Apart, openPoint] using hpos)
    · rw [coversPos_unpair, coversPos_unpair]
      simp only [List.mem_append, List.mem_cons, List.mem_singleton, List.not_mem_nil, or_false,
        or_and_right, exists_or, exists_eq_left, openPoint, closePoint, or_assoc]
  · -- the last pair is extended: its OPEN, hence its place in the chain, is unchanged;
    -- it covers `[OPEN.pos, wpos) ∪ [wpos, wpos_end)`
    refine ⟨_, rfl, ⟨fun p hp => ?_, ?_⟩, fun p => ?_⟩
    · rcases List.mem_append.mp hp with hp | hp
      · exact hok p (by simp [hp])
      · obtain rfl := List.mem_singleton.mp hp
        exact ⟨h1, h2, h3, h4, h5, h6.trans (hpos ▸ hw)⟩
    · refine List.chain'_append.mpr ⟨hch.left_of_append, List.chain'_singleton _, ?_⟩
      intro x hx' y hy
      simp only [List.head?_cons, Option.mem_def, Option.some.injEq] at hy
      subst hy
      exact (List.chain'_append.mp hch).2.2 x hx' (o, c) rfl
    · have hsplit := extend_span (p := p) h6 (hpos ▸ hw : c.pos.toInt ≤ mi.wposEnd.toInt)
      rw [coversPos_unpair, coversPos_unpair]
      simp only [List.mem_append, List.mem_cons, List.mem_singleton, List.not_mem_nil, or_false,
        or_and_right, exists_or, exists_eq_left, hsplit, hpos, or_assoc]

/-- A fold of windows of `H` keeps the shape, and the pairs come to cover the windows'
positions too. -/
theorem foldl_addWindow_runs {H : Hash} (ms : List MinmerInfo) (hH : ∀ mi ∈ ms, mi.hash = H)
    (hw : ∀ mi ∈ ms, WindowOk mi) {ps : List (IntervalPoint × IntervalPoint)} (hr : Runs H ps) :
    ∃ ps', ms.foldl addWindow (unpair ps) = unpair ps' ∧ Runs H ps' ∧
      ∀ p, CoversPos (unpair ps') p ↔ CoversPos (unpair ps) p ∨ InWindowsPos ms H p := by
  induction ms generalizing ps with
  | nil => exact ⟨ps, rfl, hr, fun p => by simp [InWindowsPos]⟩
  | cons mi ms ih =>
    obtain ⟨ps', hps', hr', hc'⟩ := addWindow_runs hr (hH mi (by simp)) (hw mi (by simp))
    obtain ⟨ps'', hps'', hr'', hc''⟩ :=
      ih (fun m hm => hH m (by simp [hm])) (fun m hm => hw m (by simp [hm])) hr'
    refine ⟨ps'', by rw [List.foldl_cons, hps', hps''], hr'', fun p => ?_⟩
    rw [hc'', hc']
    simp [InWindowsPos, hH mi (List.mem_cons_self _ _), or_assoc]

theorem addWindow_ne_nil (ips : List IntervalPoint) (mi : MinmerInfo) : addWindow ips mi ≠ [] := by
  unfold addWindow
  split
  · split <;> simp
  · simp

theorem foldl_addWindow_ne_nil {ms : List MinmerInfo} (h : ms ≠ []) (ips : List IntervalPoint) :
    ms.foldl addWindow ips ≠ [] := by
  induction ms generalizing ips with
  | nil => exact absurd rfl h
  | cons mi ms ih =>
    rw [List.foldl_cons]
    by_cases hne : ms = []
    · subst hne; exact addWindow_ne_nil ips mi
    · exact ih hne _

/-- Every point the loop stores under `H` carries hash `H`. -/
theorem addWindow_hash {H : Hash} {ips : List IntervalPoint} (h : ∀ p ∈ ips, p.hash = H)
    {mi : MinmerInfo} (hH : mi.hash = H) : ∀ p ∈ addWindow ips mi, p.hash = H := by
  have hnew : ∀ p ∈ ips ++ [openPoint mi, closePoint mi], p.hash = H := by
    intro p hp
    simp only [List.mem_append, List.mem_cons, List.mem_singleton, List.not_mem_nil,
      or_false] at hp
    rcases hp with hp | rfl | rfl
    exacts [h p hp, hH, hH]
  unfold addWindow
  split
  · rename_i b hb
    split
    · exact hnew
    · intro p hp
      rcases List.mem_append.mp hp with hp | hp
      · exact h p (List.dropLast_subset _ hp)
      · obtain rfl := List.mem_singleton.mp hp
        exact h b (List.mem_of_getLast?_eq_some hb)
  · exact hnew

theorem foldl_addWindow_hash {H : Hash} (ms : List MinmerInfo) (hH : ∀ mi ∈ ms, mi.hash = H)
    {ips : List IntervalPoint} (h : ∀ p ∈ ips, p.hash = H) :
    ∀ p ∈ ms.foldl addWindow ips, p.hash = H := by
  induction ms generalizing ips with
  | nil => exact h
  | cons mi ms ih =>
    exact ih (fun m hm => hH m (by simp [hm])) (addWindow_hash h (hH mi (by simp)))

/-- Every point of `m[H]`, in any index the loop reaches from empty, carries `H`. -/
theorem hash_of_mem_get (ms : List MinmerInfo) (H : Hash) :
    ∀ p ∈ (ms.foldl addMinmer []).get H, p.hash = H := by
  rw [get_foldl_addMinmer]
  exact foldl_addWindow_hash _ (fun mi hm => of_decide_eq_true (List.mem_filter.mp hm).2)
    (by simp [PosMap.get])

theorem windowOk_of_mem_flatten {contigs : List (List MinmerInfo)}
    (hw : ∀ c ∈ contigs, ∀ mi ∈ c, WindowOk mi) {mi : MinmerInfo} (h : mi ∈ contigs.flatten) :
    WindowOk mi :=
  let ⟨c, hc, hm⟩ := List.mem_flatten.mp h
  hw c hc mi hm

/-- Key `H`'s vector, built from empty over the contigs, read as pairs: its shape, and the
positions it covers. -/
theorem filter_foldl_addWindow_runs (contigs : List (List MinmerInfo))
    (hw : ∀ c ∈ contigs, ∀ mi ∈ c, WindowOk mi) (H : Hash) :
    ∃ ps, (contigs.flatten.filter (·.hash = H)).foldl addWindow [] = unpair ps ∧ Runs H ps ∧
      ∀ p, CoversPos (unpair ps) p ↔ InWindowsPos contigs.flatten H p := by
  obtain ⟨ps, hps, hr, hcov⟩ := foldl_addWindow_runs (contigs.flatten.filter (·.hash = H))
    (fun m hm => of_decide_eq_true (List.mem_filter.mp hm).2)
    (fun _ hm => windowOk_of_mem_flatten hw (List.mem_filter.mp hm).1) (runs_nil H)
  refine ⟨ps, hps, hr, fun p => ?_⟩
  rw [hcov, coversPos_unpair]
  simp only [InWindowsPos, List.not_mem_nil, false_and, exists_false, false_or,
    List.mem_filter, decide_eq_true_eq, and_assoc, and_self_left]

/-- **The shape of the position index.** Over any sequence of `buildHandleThreadOutput`
calls from an empty index, on minmers with `wpos ≤ wpos_end`, every key's vector has the
shape (a)–(e) of `IntervalRuns`. And at every iteration of every call, the last point of
`minmerPosLookupIndex[mi.hash]`, when there is one, carries `mi.hash`: the test
`L.back().hash != mi.hash` is never true. -/
theorem buildHandleThreadOutput_intervalRuns (s : Sketch) (hs : s.minmerPosLookupIndex = [])
    (contigs : List (List MinmerInfo)) (hw : ∀ c ∈ contigs, ∀ mi ∈ c, WindowOk mi) :
    (∀ H L, (H, L) ∈ (contigs.foldl buildHandleThreadOutput s).minmerPosLookupIndex →
        IntervalRuns H L) ∧
      ∀ (pre : List MinmerInfo) (mi : MinmerInfo),
        ((pre.foldl addMinmer (contigs.foldl buildHandleThreadOutput s).minmerPosLookupIndex).get
          mi.hash).getLast?.all (·.hash = mi.hash) := by
  rw [foldl_buildHandleThreadOutput, hs]
  refine ⟨fun H L hL => ?_, fun pre mi => ?_⟩
  · obtain ⟨rfl, mi, hmi, hH⟩ := eq_foldl_addWindow_of_mem hL
    obtain ⟨ps, hps, hr, -⟩ := filter_foldl_addWindow_runs contigs hw H
    refine ⟨ps, hps, ?_, hr⟩
    rintro rfl
    exact foldl_addWindow_ne_nil (List.ne_nil_of_mem (List.mem_filter.mpr ⟨hmi, by simpa using hH⟩))
      [] hps
  · rw [← List.foldl_append]
    cases hl : ((contigs.flatten ++ pre).foldl addMinmer [] |>.get mi.hash).getLast? with
    | none => rfl
    | some b => simpa using hash_of_mem_get _ mi.hash b (List.mem_of_getLast?_eq_some hl)

theorem intervalRuns_adjacent_windows :
    (Sketch.create default [] []).minmerPosLookupIndex = [] ∧
      (∀ c ∈ [[⟨5, 0, 10, 0, .FWD⟩, ⟨5, 10, 20, 0, .FWD⟩]], ∀ mi ∈ c, WindowOk mi) ∧
      (∀ H L, (H, L) ∈ ([[⟨5, 0, 10, 0, .FWD⟩, ⟨5, 10, 20, 0, .FWD⟩]].foldl
          buildHandleThreadOutput (Sketch.create default [] [])).minmerPosLookupIndex →
        IntervalRuns H L) ∧
      ∀ (pre : List MinmerInfo) (mi : MinmerInfo),
        ((pre.foldl addMinmer ([[⟨5, 0, 10, 0, .FWD⟩, ⟨5, 10, 20, 0, .FWD⟩]].foldl
          buildHandleThreadOutput (Sketch.create default [] [])).minmerPosLookupIndex).get
            mi.hash).getLast?.all (·.hash = mi.hash) :=
  ⟨rfl, by decide, buildHandleThreadOutput_intervalRuns _ rfl _ (by decide)⟩

/-! ### The index `build` leaves -/

/-- The sketch after calls from the constructor's sketch. -/
theorem built_eq (p : Parameters) (md : List ContigInfo) (sf : List Int)
    (contigs : List (List MinmerInfo)) :
    contigs.foldl buildHandleThreadOutput (Sketch.create p md sf) =
      { Sketch.create p md sf with
        minmerPosLookupIndex := contigs.flatten.foldl addMinmer []
        minmerIndex := contigs.flatten } := by
  rw [foldl_buildHandleThreadOutput]; rfl

/-- The merges leave the parameters, the seed set, the histogram and the threshold as the
constructor set them. -/
theorem built_fields (p : Parameters) (md : List ContigInfo) (sf : List Int)
    (contigs : List (List MinmerInfo)) :
    (contigs.foldl buildHandleThreadOutput (Sketch.create p md sf)).param = p ∧
      (contigs.foldl buildHandleThreadOutput (Sketch.create p md sf)).frequentSeeds = [] ∧
      (contigs.foldl buildHandleThreadOutput (Sketch.create p md sf)).minmerFreqHistogram = [] ∧
      (contigs.foldl buildHandleThreadOutput (Sketch.create p md sf)).freqThreshold = uint64Max := by
  rw [built_eq]
  exact ⟨rfl, rfl, rfl, rfl⟩

/-- The index after calls from the constructor's sketch: keys are unique, every vector is
non-empty, and every minmer's hash is a key. -/
theorem built_index (p : Parameters) (md : List ContigInfo) (sf : List Int)
    (contigs : List (List MinmerInfo)) :
    let s := contigs.foldl buildHandleThreadOutput (Sketch.create p md sf)
    (DenseMap.keys s.minmerPosLookupIndex).Nodup ∧ (∀ e ∈ s.minmerPosLookupIndex, e.2 ≠ []) ∧
      ∀ mi ∈ s.minmerIndex, (mi.hash, s.minmerPosLookupIndex.get mi.hash) ∈
        s.minmerPosLookupIndex := by
  simp only [foldl_buildHandleThreadOutput, Sketch.create, List.nil_append]
  have hnd := nodup_keys_foldl_addMinmer contigs.flatten (m := []) List.nodup_nil
  refine ⟨hnd, fun e he => ?_, fun mi hmi => ?_⟩
  · obtain ⟨he', mi, hmi, hH⟩ := eq_foldl_addWindow_of_mem he
    rw [he']
    exact foldl_addWindow_ne_nil (List.ne_nil_of_mem (List.mem_filter.mpr ⟨hmi, by simpa using hH⟩)) _
  · have hk := (mem_keys_foldl_addMinmer contigs.flatten [] mi.hash).mpr (Or.inr ⟨mi, hmi, rfl⟩)
    obtain ⟨v, hv⟩ := Option.isSome_iff_exists.mp ((DenseMap.mem_keys_iff_find? _ _).mp hk)
    rw [PosMap.get, hv]
    exact DenseMap.mem_of_find? hv

/-! ### What the pairs cover -/

/-- **What the pairs cover.** Over any sequence of `buildHandleThreadOutput` calls from an
empty index, on minmers with `wpos ≤ wpos_end`, a position lies in a pair of key `H` exactly
when it lies in a window of hash `H`: extending the last pair by a window that starts where
it ends neither loses a position nor adds one. -/
theorem buildHandleThreadOutput_covers_positions (s : Sketch) (hs : s.minmerPosLookupIndex = [])
    (contigs : List (List MinmerInfo)) (hw : ∀ c ∈ contigs, ∀ mi ∈ c, WindowOk mi)
    (H : Hash) (p : Int) :
    CoversPos ((contigs.foldl buildHandleThreadOutput s).minmerPosLookupIndex.get H) p ↔
      InWindowsPos contigs.flatten H p := by
  obtain ⟨ps, hps, -, hcov⟩ := filter_foldl_addWindow_runs contigs hw H
  rw [foldl_buildHandleThreadOutput, hs]
  exact (get_foldl_addMinmer _ [] H).trans hps ▸ hcov p

theorem buildHandleThreadOutput_covers_adjacent_windows :
    (Sketch.create default [] []).minmerPosLookupIndex = [] ∧
      (∀ c ∈ [[⟨5, 0, 10, 0, .FWD⟩], [⟨5, 10, 20, 1, .FWD⟩]], ∀ mi ∈ c, WindowOk mi) ∧
      (CoversPos (([[⟨5, 0, 10, 0, .FWD⟩], [⟨5, 10, 20, 1, .FWD⟩]].foldl buildHandleThreadOutput
          (Sketch.create default [] [])).minmerPosLookupIndex.get 5) 15 ↔
        InWindowsPos [⟨5, 0, 10, 0, .FWD⟩, ⟨5, 10, 20, 1, .FWD⟩] 5 15) :=
  ⟨rfl, by decide, buildHandleThreadOutput_covers_positions _ rfl _ (by decide) 5 15⟩

/-! ### What the pairs cover, with their sequences -/

/-- `(s, p)` lies in a pair of `L`: the pair's OPEN is on sequence `s` and `p` is in
`[OPEN.pos, CLOSE.pos)`. -/
def Covers (L : List IntervalPoint) (s : SeqNo) (p : Int) : Prop :=
  ∃ q ∈ pairs L, q.1.seqId = s ∧ q.1.pos.toInt ≤ p ∧ p < q.2.pos.toInt

instance (L : List IntervalPoint) (s : SeqNo) (p : Int) : Decidable (Covers L s p) :=
  inferInstanceAs (Decidable (∃ q ∈ pairs L, q.1.seqId = s ∧ q.1.pos.toInt ≤ p ∧ p < q.2.pos.toInt))

/-- `(s, p)` lies in a window of hash `H` among the minmers `ms`. -/
def InWindows (ms : List MinmerInfo) (H : Hash) (s : SeqNo) (p : Int) : Prop :=
  ∃ mi ∈ ms, mi.hash = H ∧ mi.seqId = s ∧ mi.wpos.toInt ≤ p ∧ p < mi.wposEnd.toInt

instance (ms : List MinmerInfo) (H : Hash) (s : SeqNo) (p : Int) : Decidable (InWindows ms H s p) :=
  inferInstanceAs (Decidable
    (∃ mi ∈ ms, mi.hash = H ∧ mi.seqId = s ∧ mi.wpos.toInt ≤ p ∧ p < mi.wposEnd.toInt))

theorem covers_unpair (ps : List (IntervalPoint × IntervalPoint)) (s : SeqNo) (p : Int) :
    Covers (unpair ps) s p ↔ ∃ q ∈ ps, q.1.seqId = s ∧ q.1.pos.toInt ≤ p ∧ p < q.2.pos.toInt := by
  rw [Covers, pairs_unpair]

/-- Every CLOSE of `L` is where a window among `done`, on the CLOSE's sequence, ends. -/
def ClosedBy (done : List MinmerInfo) (L : List IntervalPoint) : Prop :=
  ∀ q ∈ pairs L, ∃ m ∈ done, m.wposEnd = q.2.pos ∧ m.seqId = q.2.seqId

theorem closedBy_unpair (done : List MinmerInfo) (ps : List (IntervalPoint × IntervalPoint)) :
    ClosedBy done (unpair ps) ↔
      ∀ q ∈ ps, ∃ m ∈ done, m.wposEnd = q.2.pos ∧ m.seqId = q.2.seqId := by
  rw [ClosedBy, pairs_unpair]

/-- No window of `ms` starts where a window of `ms` of the same hash ends, unless both are on
one sequence. -/
def AdjacentSameSeq (ms : List MinmerInfo) : Prop :=
  ∀ m₁ ∈ ms, ∀ m₂ ∈ ms, m₁.hash = m₂.hash → m₁.wposEnd = m₂.wpos → m₁.seqId = m₂.seqId

instance (ms : List MinmerInfo) : Decidable (AdjacentSameSeq ms) :=
  inferInstanceAs (Decidable
    (∀ m₁ ∈ ms, ∀ m₂ ∈ ms, m₁.hash = m₂.hash → m₁.wposEnd = m₂.wpos → m₁.seqId = m₂.seqId))

/-- One window adds `(mi.seqId, [wpos, wpos_end))` to what the pairs cover when every window
seen so far that ends where `mi` starts is on `mi`'s sequence; every CLOSE stays the end of
a window seen. -/
theorem addWindow_covers {H : Hash} {ps : List (IntervalPoint × IntervalPoint)} (hr : Runs H ps)
    {mi : MinmerInfo} (hH : mi.hash = H) (hw : WindowOk mi) {done : List MinmerInfo}
    (hcl : ClosedBy done (unpair ps))
    (hadj : ∀ m ∈ done, m.wposEnd = mi.wpos → m.seqId = mi.seqId) :
    ClosedBy (mi :: done) (addWindow (unpair ps) mi) ∧
      ∀ s p, Covers (addWindow (unpair ps) mi) s p ↔
        Covers (unpair ps) s p ∨ mi.seqId = s ∧ mi.wpos.toInt ≤ p ∧ p < mi.wposEnd.toInt := by
  have hmi : ∃ m ∈ mi :: done, m.wposEnd = mi.wposEnd ∧ m.seqId = mi.seqId :=
    ⟨mi, List.mem_cons_self _ _, rfl, rfl⟩
  rcases List.eq_nil_or_concat ps with rfl | ⟨ps, ⟨o, c⟩, rfl⟩
  · rw [addWindow_nil, closedBy_unpair]
    refine ⟨by simp [closePoint], fun s p => ?_⟩
    rw [covers_unpair, covers_unpair]
    simp [openPoint, closePoint]
  rw [List.concat_eq_append] at hr hcl ⊢
  rw [closedBy_unpair] at hcl
  have hold : ∀ q ∈ ps ++ [(o, c)], ∃ m ∈ mi :: done, m.wposEnd = q.2.pos ∧ m.seqId = q.2.seqId :=
    fun q hq => (hcl q hq).imp fun m ⟨hm, h⟩ => ⟨List.mem_cons_of_mem _ hm, h⟩
  obtain ⟨-, -, -, h4, h5, h6⟩ : PairOk H (o, c) := hr.1 _ (by simp)
  rcases addWindow_cases ps o c mi (h4.trans hH.symm) with ⟨-, heq⟩ | ⟨hpos, heq⟩ <;>
    rw [heq, closedBy_unpair]
  · -- a new pair: it ends where `mi` does
    refine ⟨fun q hq => ?_, fun s p => ?_⟩
    · simp only [List.mem_append, List.mem_cons, List.not_mem_nil, or_false] at hq
      rcases hq with hq | rfl | rfl
      exacts [hold q (by simp [hq]), hold _ (by simp), hmi]
    · rw [covers_unpair, covers_unpair]
      simp only [List.mem_append, List.mem_cons, List.mem_singleton, List.not_mem_nil, or_false,
        or_and_right, exists_or, exists_eq_left, openPoint, closePoint, or_assoc]
  · -- the last pair is extended: a window seen ends at its CLOSE, so it is on `mi`'s sequence
    obtain ⟨m, hm, hme, hms⟩ := hcl (o, c) (by simp)
    have hcs : c.seqId = mi.seqId := hms.symm.trans (hadj m hm (hme.trans hpos))
    refine ⟨fun q hq => ?_, fun s p => ?_⟩
    · rcases List.mem_append.mp hq with hq | hq
      · exact hold q (List.mem_append_left _ hq)
      · obtain rfl := List.mem_singleton.mp hq
        exact ⟨mi, List.mem_cons_self _ _, rfl, hcs.symm⟩
    · have hsplit := extend_span (p := p) h6 (hpos ▸ hw : c.pos.toInt ≤ mi.wposEnd.toInt)
      have hos : o.seqId = mi.seqId := h5.trans hcs
      rw [covers_unpair, covers_unpair]
      simp only [List.mem_append, List.mem_cons, List.mem_singleton, List.not_mem_nil, or_false,
        or_and_right, exists_or, exists_eq_left, hsplit, hpos, hos, and_or_left, or_assoc]

/-- A fold of windows of `H` adds their sequences and positions to what the pairs cover,
when every window that ends where one of them starts is on its sequence. -/
theorem foldl_addWindow_covers {H : Hash} (ms : List MinmerInfo) (hH : ∀ mi ∈ ms, mi.hash = H)
    (hw : ∀ mi ∈ ms, WindowOk mi) {ps : List (IntervalPoint × IntervalPoint)} (hr : Runs H ps)
    {done : List MinmerInfo} (hcl : ClosedBy done (unpair ps))
    (hadj : ∀ m₁ ∈ done ++ ms, ∀ m₂ ∈ ms, m₁.wposEnd = m₂.wpos → m₁.seqId = m₂.seqId)
    (s : SeqNo) (p : Int) :
    Covers (ms.foldl addWindow (unpair ps)) s p ↔ Covers (unpair ps) s p ∨ InWindows ms H s p := by
  induction ms generalizing ps done with
  | nil => simp [InWindows]
  | cons mi ms ih =>
    have hmi := hH mi (List.mem_cons_self _ _)
    have hwi := hw mi (List.mem_cons_self _ _)
    obtain ⟨hcl', hcov⟩ := addWindow_covers hr hmi hwi hcl
      (fun m hm => hadj m (by simp [hm]) mi (List.mem_cons_self _ _))
    obtain ⟨ps', hps', hr', -⟩ := addWindow_runs hr hmi hwi
    rw [List.foldl_cons, hps', ih (fun m hm => hH m (by simp [hm])) (fun m hm => hw m (by simp [hm]))
      hr' (hps' ▸ hcl') (fun m₁ h₁ m₂ h₂ => hadj m₁ (List.perm_middle.symm.subset h₁) m₂
        (List.mem_cons_of_mem _ h₂)), ← hps', hcov]
    simp [InWindows, hmi, or_assoc]

/-- **What the pairs cover, with their sequences.** Over any sequence of
`buildHandleThreadOutput` calls from an empty index, on minmers with `wpos ≤ wpos_end` among
which no window starts where a window of the same hash on another sequence ends, `(s, p)`
lies in a pair of key `H` exactly when it lies in a window of hash `H` on sequence `s`. -/
theorem buildHandleThreadOutput_covers (s : Sketch) (hs : s.minmerPosLookupIndex = [])
    (contigs : List (List MinmerInfo)) (hw : ∀ c ∈ contigs, ∀ mi ∈ c, WindowOk mi)
    (hadj : AdjacentSameSeq contigs.flatten) (H : Hash) (sq : SeqNo) (p : Int) :
    Covers ((contigs.foldl buildHandleThreadOutput s).minmerPosLookupIndex.get H) sq p ↔
      InWindows contigs.flatten H sq p := by
  have hf : ∀ m ∈ contigs.flatten.filter (·.hash = H), m ∈ contigs.flatten ∧ m.hash = H :=
    fun _ hm => (List.mem_filter.mp hm).imp_right of_decide_eq_true
  rw [foldl_buildHandleThreadOutput, hs]
  refine (get_foldl_addMinmer _ [] H ▸ foldl_addWindow_covers _ (fun m hm => (hf m hm).2)
    (fun m hm => windowOk_of_mem_flatten hw (hf m hm).1) (runs_nil H)
    (show ClosedBy [] (unpair []) from fun _ hq => absurd hq (List.not_mem_nil _)) (fun m₁ h₁ m₂ h₂ => hadj m₁ (hf m₁ h₁).1 m₂ (hf m₂ h₂).1
      ((hf m₁ h₁).2.trans (hf m₂ h₂).2.symm)) sq p).trans ?_
  simp only [covers_unpair, List.not_mem_nil, false_and, exists_false, false_or, InWindows,
    List.mem_filter, decide_eq_true_eq, and_assoc, and_self_left]

theorem buildHandleThreadOutput_covers_one_sequence :
    (Sketch.create default [] []).minmerPosLookupIndex = [] ∧
      (∀ c ∈ [[⟨5, 0, 10, 0, .FWD⟩], [⟨5, 10, 20, 0, .FWD⟩]], ∀ mi ∈ c, WindowOk mi) ∧
      AdjacentSameSeq [⟨5, 0, 10, 0, .FWD⟩, ⟨5, 10, 20, 0, .FWD⟩] ∧
      (Covers (([[⟨5, 0, 10, 0, .FWD⟩], [⟨5, 10, 20, 0, .FWD⟩]].foldl buildHandleThreadOutput
          (Sketch.create default [] [])).minmerPosLookupIndex.get 5) 0 15 ↔
        InWindows [⟨5, 0, 10, 0, .FWD⟩, ⟨5, 10, 20, 0, .FWD⟩] 5 0 15) :=
  ⟨rfl, by decide, by decide, buildHandleThreadOutput_covers _ rfl _ (by decide) (by decide) 5 0 15⟩

/-- The merge test looks at the position only. Two contigs, sequences 0 and 1, each with
one window of hash 5, the second starting at 10 where the first ends: the second window
extends the pair of sequence 0, which then covers `(0, 15)`, a position of no window of
sequence 0, and no pair covers `(1, 15)`, a position of the window of sequence 1. -/
theorem buildHandleThreadOutput_merges_across_sequences :
    ([[⟨5, 0, 10, 0, .FWD⟩], [⟨5, 10, 20, 1, .FWD⟩]].foldl buildHandleThreadOutput
        (Sketch.create default [] [])).minmerPosLookupIndex =
      [(5, [⟨0, 5, 0, .OPEN⟩, ⟨20, 5, 0, .CLOSE⟩])] ∧
    Covers [⟨0, 5, 0, .OPEN⟩, ⟨20, 5, 0, .CLOSE⟩] 0 15 ∧
    ¬ InWindows [⟨5, 0, 10, 0, .FWD⟩, ⟨5, 10, 20, 1, .FWD⟩] 5 0 15 ∧
    InWindows [⟨5, 0, 10, 0, .FWD⟩, ⟨5, 10, 20, 1, .FWD⟩] 5 1 15 ∧
    ¬ Covers [⟨0, 5, 0, .OPEN⟩, ⟨20, 5, 0, .CLOSE⟩] 1 15 := by
  decide

end Wfmash.Skch

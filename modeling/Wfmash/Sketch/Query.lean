import Wfmash.Sketch.SeqIds
import Wfmash.Sketch.Lifecycle

/-!
# Queries on the index, and `clear`

After `initialize` the mapper reads the sketch through

    int getFreqThreshold() const { return this->freqThreshold; }
    bool isFreqSeed(hash_t h) const { return frequentSeeds.find(h) != frequentSeeds.end(); }

and a caller can empty it, or take another sketch's sequences, with

    void clear() {
      hashFreq.clear(); metadata.clear(); sequencesByFileInfo.clear();
      minmerPosLookupIndex.clear(); minmerIndex.clear(); minmerFreqHistogram.clear();
      frequentSeeds.clear();
      freqThreshold = std::numeric_limits<uint64_t>::max();
    }
    void copyMetadataFrom(const Sketch& other) {
      this->metadata = other.metadata; this->sequencesByFileInfo = other.sequencesByFileInfo;
    }

`getFreqThreshold` returns the `uint64_t` field as an `int`, modulo `2^32` in two's
complement (`toCInt`): the initial `UINT64_MAX` reads as `-1`. `clear` leaves the
parameters, `isInitialized` and the shared `SequenceIdManager` as they are.

## What is proved

* `initializeSketch_isFreqSeed` — after `initialize`, whatever the files and the order in
  which the pool hands back its outputs, a hash is a frequent seed exactly when it is a
  key of the position index and none of its minmers is left in `minmerIndex`: pruning
  keeps the positions of a frequent hash and drops every minmer of it.
* `initializeSketch_getFreqThreshold` — after `initialize`, with fewer than `2^31` points
  under every key, `getFreqThreshold()` is `-1` exactly when there is no frequent seed,
  and is otherwise the threshold itself, a positive number.
* `initializeSketch_clear` — `clear()`, then `initialize` again in the world the first
  call left, the pool handing back its outputs in any order. When no index file is named
  or `overwrite_index` is set, the second call returns, and leaves the world as, a first
  call with that order would, with the same ids: the id manager, which `clear` keeps,
  gives every name the id it had. `metadata` and `sequencesByFileInfo` then hold only
  what the second call added. Otherwise the second call finds the file the first one
  wrote, takes the load path, and stops with `exit(1)` in `build(false)`.
-/

namespace Wfmash.Skch

/-- `Sketch::getFreqThreshold`: the `uint64_t` field returned as an `int`. -/
def getFreqThreshold (s : Sketch) : Int := toCInt s.freqThreshold

/-- `Sketch::clear` (`hashFreq` is not modelled, see `Sketch`). -/
def Sketch.clear (s : Sketch) : Sketch :=
  { s with
    metadata := []
    sequencesByFileInfo := []
    minmerPosLookupIndex := []
    minmerIndex := []
    minmerFreqHistogram := []
    frequentSeeds := []
    freqThreshold := uint64Max }

/-- `Sketch::copyMetadataFrom`. -/
def Sketch.copyMetadataFrom (s other : Sketch) : Sketch :=
  { s with metadata := other.metadata, sequencesByFileInfo := other.sequencesByFileInfo }

theorem toCInt_uint64Max : toCInt uint64Max = -1 := by decide

theorem toCInt_of_lt {n : Nat} (h : n < 2 ^ 31) : toCInt n = n := by
  unfold toCInt
  rw [if_pos (by omega), Nat.mod_eq_of_lt (by omega)]

/-! ### The pruned index -/

/-- `computeFreqHist` reads neither `metadata`, `sequencesByFileInfo` nor `isInitialized`. -/
theorem computeFreqHist_with (s : Sketch) (md : List ContigInfo) (sf : List Int) (i : Bool) :
    computeFreqHist { s with metadata := md, sequencesByFileInfo := sf, isInitialized := i } =
      (computeFreqHist s).map fun u =>
        { u with metadata := md, sequencesByFileInfo := sf, isInitialized := i } := by
  unfold computeFreqHist
  dsimp only
  split
  · rfl
  · cases minmerToIgnore (toInt64 s.minmerPosLookupIndex.length) s.param.kmerPctThreshold <;> rfl

section Pruned

variable (p : Parameters) (md : List ContigInfo) (sf : List Int) (contigs : List (List MinmerInfo))

/-- On a built index, the threshold read as an `int` is `-1` exactly when nothing is
frequent, and otherwise the threshold itself. -/
theorem pruned_getFreqThreshold {u : Sketch}
    (hu : computeFreqHist (contigs.foldl buildHandleThreadOutput (Sketch.create p md sf)) = .ok u)
    (hfit : ∀ e ∈ (contigs.foldl buildHandleThreadOutput (Sketch.create p md sf)).minmerPosLookupIndex,
      e.2.length < 2 ^ 31) :
    let t := dropFreqSeedSet (computeFreqSeedSet u)
    (getFreqThreshold t = -1 ∧ t.frequentSeeds = []) ∨
      (0 < getFreqThreshold t ∧ getFreqThreshold t = t.freqThreshold ∧ t.frequentSeeds ≠ []) := by
  intro t
  obtain ⟨-, -, hh₀, hmax₀⟩ := built_fields p md sf contigs
  set s := contigs.foldl buildHandleThreadOutput (Sketch.create p md sf) with hs
  obtain ⟨hfs, -⟩ := built_frequentSeeds p md sf contigs hu
  obtain ⟨-, hne, -⟩ := built_index p md sf contigs
  have hthr : t.freqThreshold = u.freqThreshold := rfl
  have hft : t.frequentSeeds =
      (s.minmerPosLookupIndex.filter (t.freqThreshold ≤ ·.2.length)).map Prod.fst := hfs
  -- the threshold is the size of some vector, or stays `UINT64_MAX`
  have hcases : (∃ e ∈ s.minmerPosLookupIndex, e.2.length = t.freqThreshold) ∨
      t.freqThreshold = uint64Max := by
    rcases computeFreqHist_eq_ok hu with ⟨-, rfl⟩ | ⟨m, hm, -⟩
    · exact .inr hmax₀
    · rcases freqThreshold_spec hh₀ hm hu with ⟨⟨⟨e, he, hc⟩, -⟩, -⟩ | ⟨-, h⟩
      · exact .inl ⟨e, he, hc⟩
      · exact .inr (h.trans hmax₀)
  rcases hcases with ⟨e, he, hc⟩ | hmax
  · -- a threshold was found: the size of a vector, which is not empty
    have hlt := hfit e he
    have hpos := List.length_pos.mpr (hne e he)
    have hget : getFreqThreshold t = t.freqThreshold := by
      rw [getFreqThreshold, toCInt_of_lt (by omega)]
    refine .inr ⟨by omega, hget, fun hnil => ?_⟩
    have : e.1 ∈ t.frequentSeeds :=
      hft ▸ List.mem_map_of_mem _ (List.mem_filter.mpr ⟨he, decide_eq_true hc.ge⟩)
    exact List.not_mem_nil _ (hnil ▸ this)
  · -- none was: the threshold stays `UINT64_MAX`, above every vector's size
    left
    refine ⟨by rw [getFreqThreshold, hmax, toCInt_uint64Max], ?_⟩
    rw [hft, hmax, List.filter_eq_nil_iff.mpr fun e he => ?_, List.map_nil]
    have := hfit e he
    simp only [uint64Max, decide_eq_true_eq, not_le]
    omega

end Pruned

/-! ### After `initialize` -/

section Initialize

variable (forEachSeqInFile : String → List String → List (String × String))
  (addMinmers : String → UInt64 → UInt64 → Nat → UInt64 → SeqNo → List MinmerInfo)
  (pool : List (List MinmerInfo) → List (List MinmerInfo))

/-- The sketch `initialize` returns from the constructor's sketch: the outputs the pool
handed back, merged from a sketch with empty containers, and pruned. -/
theorem initializeSketch_pruned {targets : List String} {w w₁ : World} {P : Parameters}
    {md : List ContigInfo} {sf : List Int} {b : Sketch}
    (h : initializeSketch forEachSeqInFile addMinmers pool targets w (Sketch.create P md sf) =
      (w₁, .ok b)) :
    ∃ (contigs : List (List MinmerInfo)) (md' : List ContigInfo) (sf' : List Int) (u : Sketch),
      computeFreqHist (contigs.foldl buildHandleThreadOutput (Sketch.create P md' sf')) = .ok u ∧
      b = { dropFreqSeedSet (computeFreqSeedSet u) with isInitialized := true } := by
  obtain ⟨b', hb, rfl, -⟩ := initializeSketch_ok forEachSeqInFile addMinmers pool h
  obtain ⟨r, u, hr, hu, rfl⟩ := buildPath_eq_ok forEachSeqInFile addMinmers pool hb
  obtain ⟨rfl, -⟩ := build_true_eq_ok forEachSeqInFile addMinmers pool hr
  exact ⟨_, _, _, u, hu, rfl⟩

/-- **The threshold as an `int`.** In the sketch `initialize` returns, with fewer than
`2^31` points under every key, `getFreqThreshold()` is `-1` exactly when there is no
frequent seed, and is otherwise the threshold itself, a positive number. -/
theorem initializeSketch_getFreqThreshold {targets : List String} {w w₁ : World}
    {P : Parameters} {md : List ContigInfo} {sf : List Int} {b : Sketch}
    (h : initializeSketch forEachSeqInFile addMinmers pool targets w (Sketch.create P md sf) =
      (w₁, .ok b))
    (hfit : ∀ e ∈ b.minmerPosLookupIndex, e.2.length < 2 ^ 31) :
    (getFreqThreshold b = -1 ∧ b.frequentSeeds = []) ∨
      (0 < getFreqThreshold b ∧ getFreqThreshold b = b.freqThreshold ∧ b.frequentSeeds ≠ []) := by
  obtain ⟨contigs, md', sf', u, hu, rfl⟩ :=
    initializeSketch_pruned forEachSeqInFile addMinmers pool h
  refine pruned_getFreqThreshold P md' sf' contigs hu fun e he => hfit e ?_
  show e ∈ u.minmerPosLookupIndex
  rwa [(computeFreqHist_fields hu).2.2.2.2.2.1]

set_option maxRecDepth 2000 in
theorem initializeSketch_getFreqThreshold_small :
    initializeSketch oneContigFile oneWindowMinmers id [] ⟨[], ⟨[]⟩⟩
        (Sketch.create (smallParams 0) [] []) =
      ((initializeSketch oneContigFile oneWindowMinmers id [] ⟨[], ⟨[]⟩⟩
        (Sketch.create (smallParams 0) [] [])).1, .ok smallBuilt) ∧
    (∀ e ∈ smallBuilt.minmerPosLookupIndex, e.2.length < 2 ^ 31) ∧
    ((getFreqThreshold smallBuilt = -1 ∧ smallBuilt.frequentSeeds = []) ∨
      (0 < getFreqThreshold smallBuilt ∧ getFreqThreshold smallBuilt = smallBuilt.freqThreshold ∧
        smallBuilt.frequentSeeds ≠ [])) :=
  have h : initializeSketch oneContigFile oneWindowMinmers id [] ⟨[], ⟨[]⟩⟩
      (Sketch.create (smallParams 0) [] []) =
      ((initializeSketch oneContigFile oneWindowMinmers id [] ⟨[], ⟨[]⟩⟩
        (Sketch.create (smallParams 0) [] [])).1, .ok smallBuilt) := rfl
  have hfit : ∀ e ∈ smallBuilt.minmerPosLookupIndex, e.2.length < 2 ^ 31 := by decide
  ⟨h, hfit, initializeSketch_getFreqThreshold oneContigFile oneWindowMinmers id h hfit⟩

end Initialize

/-! ### `clear`, then `initialize` again -/

/-- `addSequence` gives a name its position in the names it returns, which extend the
names the manager had. -/
theorem addSequence_indexOf (m : SequenceIdManager) (name : String) :
    (m.addSequence name).1 = UInt32.ofNat ((m.addSequence name).2.names.indexOf name) ∧
      name ∈ (m.addSequence name).2.names ∧ m.names <+: (m.addSequence name).2.names := by
  unfold SequenceIdManager.addSequence
  split
  · exact ⟨rfl, ‹_›, List.prefix_refl _⟩
  · refine ⟨?_, by simp, List.prefix_append _ _⟩
    rw [List.indexOf_append_of_not_mem ‹_›, List.indexOf_cons_self, Nat.add_zero]

/-- `operator[]` assigning one key twice keeps the second value. -/
theorem DenseMap.alter_alter_const {κ β : Type} [DecidableEq κ] (d : β) (m : DenseMap κ β)
    (k : κ) (v v' : β) :
    DenseMap.alter d (DenseMap.alter d m k fun _ => v) k (fun _ => v') =
      DenseMap.alter d m k fun _ => v' := by
  induction m with
  | nil => simp [DenseMap.alter]
  | cons e m ih =>
    obtain ⟨k', v''⟩ := e
    by_cases h : k' = k <;> simp [DenseMap.alter, h, ih]

section Again

variable (forEachSeqInFile : String → List String → List (String × String))
  (addMinmers : String → UInt64 → UInt64 → Nat → UInt64 → SeqNo → List MinmerInfo)
  (pool pool₂ : List (List MinmerInfo) → List (List MinmerInfo))

/-- Over kept records, the manager's names only grow and gather every record's name, and
each job carries the id at which the final names hold its record's name. -/
theorem foldl_buildSeq_jobs (p : Parameters) (rs : List (String × String))
    (hk : ∀ ns ∈ rs, p.segLength.toNat ≤ ns.2.length) (acc : BuildAcc) :
    acc.ids.names <+: (rs.foldl (buildSeq addMinmers p) acc).ids.names ∧
      (∀ ns ∈ rs, ns.1 ∈ (rs.foldl (buildSeq addMinmers p) acc).ids.names) ∧
      (rs.foldl (buildSeq addMinmers p) acc).jobs = acc.jobs ++ rs.map fun ns =>
        buildHelper addMinmers p ns.2
          (UInt32.ofNat ((rs.foldl (buildSeq addMinmers p) acc).ids.names.indexOf ns.1)) := by
  induction rs generalizing acc with
  | nil => simp
  | cons ns rs ih =>
    obtain ⟨hid, hmem, hpre⟩ := addSequence_indexOf acc.ids ns.1
    rw [List.foldl_cons, buildSeq_of_le addMinmers p acc (hk ns (List.mem_cons_self _ _))]
    set acc' : BuildAcc :=
      { ids := (acc.ids.addSequence ns.1).2
        jobs := acc.jobs ++ [buildHelper addMinmers p ns.2 (acc.ids.addSequence ns.1).1]
        metadata := acc.metadata ++ [contigInfo ns] }
    have hmem' : ns.1 ∈ acc'.ids.names := hmem
    obtain ⟨⟨t, ht⟩, ih2, ih3⟩ := ih (fun n hn => hk n (List.mem_cons_of_mem _ hn)) acc'
    -- the id `addSequence` gave is where the final names hold the name
    have hhead : (acc.ids.addSequence ns.1).1 =
        UInt32.ofNat ((rs.foldl (buildSeq addMinmers p) acc').ids.names.indexOf ns.1) := by
      rw [hid, ← ht, List.indexOf_append_of_mem hmem']
    refine ⟨hpre.trans ⟨t, ht⟩, fun n hn => ?_, ?_⟩
    · rcases List.mem_cons.mp hn with rfl | hn
      · exact ht ▸ List.mem_append_left _ hmem'
      · exact ih2 n hn
    · rw [ih3]
      show acc.jobs ++ [buildHelper addMinmers p ns.2 (acc.ids.addSequence ns.1).1] ++ _ = _
      rw [hhead]
      simp

theorem foldl_buildSeq_metadata (p : Parameters) (rs : List (String × String))
    (hk : ∀ ns ∈ rs, p.segLength.toNat ≤ ns.2.length) (acc : BuildAcc) :
    (rs.foldl (buildSeq addMinmers p) acc).metadata = acc.metadata ++ rs.map contigInfo := by
  induction rs generalizing acc with
  | nil => simp
  | cons ns rs ih =>
    rw [List.foldl_cons, buildSeq_of_le addMinmers p acc (hk ns (List.mem_cons_self _ _)),
      ih (fun n hn => hk n (List.mem_cons_of_mem _ hn))]
    simp

/-- Over kept records whose names the manager holds, the manager stays as it is. -/
theorem foldl_buildSeq_known (p : Parameters) (rs : List (String × String))
    (hk : ∀ ns ∈ rs, p.segLength.toNat ≤ ns.2.length) (acc : BuildAcc)
    (hmem : ∀ ns ∈ rs, ns.1 ∈ acc.ids.names) :
    (rs.foldl (buildSeq addMinmers p) acc).ids = acc.ids := by
  induction rs generalizing acc with
  | nil => rfl
  | cons ns rs ih =>
    have hadd : acc.ids.addSequence ns.1 = (UInt32.ofNat (acc.ids.names.indexOf ns.1), acc.ids) :=
      if_pos (hmem ns (List.mem_cons_self _ _))
    rw [List.foldl_cons, buildSeq_of_le addMinmers p acc (hk ns (List.mem_cons_self _ _)), hadd]
    exact ih (fun n hn => hk n (List.mem_cons_of_mem _ hn)) _
      fun n hn => hmem n (List.mem_cons_of_mem _ hn)

/-- The loop over the files again, from the manager the first loop left and no
`metadata`: the same ids and jobs, and the `metadata` the first loop added. -/
theorem collect_again (p : Parameters) (targets : List String) (ids : SequenceIdManager)
    (md : List ContigInfo) :
    let acc := collect forEachSeqInFile addMinmers p targets ⟨ids, [], md⟩
    let again := collect forEachSeqInFile addMinmers p targets ⟨acc.ids, [], []⟩
    again.ids = acc.ids ∧ again.jobs = acc.jobs ∧ acc.metadata = md ++ again.metadata := by
  have hk := fun ns (h : ns ∈ keptRecords forEachSeqInFile p targets) =>
    segLength_le_of_mem_keptRecords forEachSeqInFile h
  simp only [collect_eq_foldl_kept]
  obtain ⟨-, hmem, hjobs⟩ := foldl_buildSeq_jobs addMinmers p _ hk ⟨ids, [], md⟩
  have hids := foldl_buildSeq_known addMinmers p _ hk ⟨_, [], []⟩ hmem
  obtain ⟨-, -, hjobs'⟩ := foldl_buildSeq_jobs addMinmers p _ hk ⟨_, [], []⟩
  refine ⟨hids, ?_, ?_⟩
  · rw [hjobs', hjobs, hids]
  · rw [foldl_buildSeq_metadata addMinmers p _ hk, foldl_buildSeq_metadata addMinmers p _ hk]
    rfl

/-- `build(true)`'s loop and merges again, on the constructor's sketch emptied, from the
manager the first build left, with the pool handing back the outputs in its own order:
what that order gives from the first build's manager, with only the new `metadata` and
count. -/
theorem buildSeeds_again (targets : List String) (ids : SequenceIdManager) (P : Parameters)
    (md : List ContigInfo) (sf : List Int) (i : Bool) :
    let r := buildSeeds forEachSeqInFile addMinmers pool₂ targets ids (Sketch.create P md sf)
    buildSeeds forEachSeqInFile addMinmers pool₂ targets
        (buildSeeds forEachSeqInFile addMinmers pool targets ids (Sketch.create P md sf)).2
        { Sketch.create P [] [] with isInitialized := i } =
      ({ r.1 with
          metadata := r.1.metadata.drop md.length
          sequencesByFileInfo := r.1.sequencesByFileInfo.drop sf.length
          isInitialized := i }, r.2) := by
  obtain ⟨hids, hjobs, hmd⟩ := collect_again forEachSeqInFile addMinmers P targets ids md
  simp only [buildSeeds, foldl_buildHandleThreadOutput, Sketch.create] at hids hjobs hmd ⊢
  rw [hids, hjobs, hmd]
  simp

/-- The build path again, on the constructor's sketch emptied, from the manager the first
build path left: what the build path with the second pool order gives from the first
one's manager, with only the new `metadata` and count. -/
theorem buildPath_again {targets : List String} {ids ids₁ : SequenceIdManager} {P : Parameters}
    {md : List ContigInfo} {sf : List Int} {b : Sketch}
    (h : buildPath forEachSeqInFile addMinmers pool targets ids (Sketch.create P md sf) =
      .ok (b, ids₁)) (i : Bool) :
    buildPath forEachSeqInFile addMinmers pool₂ targets ids₁
        { Sketch.create P [] [] with isInitialized := i } =
      (buildPath forEachSeqInFile addMinmers pool₂ targets ids (Sketch.create P md sf)).map
        fun r => ({ r.1 with
          metadata := r.1.metadata.drop md.length
          sequencesByFileInfo := r.1.sequencesByFileInfo.drop sf.length
          isInitialized := i }, r.2) := by
  obtain ⟨r, -, hr, -, -⟩ := buildPath_eq_ok forEachSeqInFile addMinmers pool h
  have hagain := buildSeeds_again forEachSeqInFile addMinmers pool pool₂ targets ids P md sf i
  rw [(build_true_eq_ok forEachSeqInFile addMinmers pool hr).2] at hagain
  simp only [buildPath, build, if_true, hagain]
  split
  · rfl
  · simp only [Except.bind, computeFreqHist_with]
    cases hu : computeFreqHist (buildSeeds forEachSeqInFile addMinmers pool₂ targets ids
      (Sketch.create P md sf)).1 with
    | error e => rfl
    | ok u =>
      obtain ⟨-, -, -, hmd, hsf, -, -⟩ := computeFreqHist_fields hu
      simp only [Except.map, ← hmd, ← hsf]
      rfl

/-- `initialize` on the constructor's sketch returns only when `create_index_only` is
unset. -/
theorem initializeSketch_createIndexOnly {targets : List String} {w w₁ : World}
    {P : Parameters} {md : List ContigInfo} {sf : List Int} {b : Sketch}
    (h : initializeSketch forEachSeqInFile addMinmers pool targets w (Sketch.create P md sf) =
      (w₁, .ok b)) :
    P.createIndexOnly = false := by
  obtain ⟨b', hb, -, -⟩ := initializeSketch_ok forEachSeqInFile addMinmers pool h
  obtain ⟨hp, -, -⟩ :=
    buildPath_ok forEachSeqInFile addMinmers pool hb List.nodup_nil List.nodup_nil
  by_contra hc
  have : (initializeSketch forEachSeqInFile addMinmers pool targets w
      (Sketch.create P md sf)).2.toOption = none := by
    simp only [initializeSketch, hb]
    split
    · simp [hp, Sketch.create, hc, Except.toOption]
    · rfl
  rw [h] at this
  cases this

/-- **`clear`, then `initialize` again.** Let `initialize` on the constructor's sketch
return `b` in the world `w₁`, and call `clear()` and `initialize` again in `w₁`, the pool
handing back the outputs in any order `pool₂`. When no index file is named or
`overwrite_index` is set, the second call returns what `initialize` with that order returns
from `w` on the constructor's sketch, with only the `metadata` and the per-file count that
the second build added, and leaves the world as that call would: the id manager, which
`clear` keeps, gives every name the id it had, and the index file holds what the second
build wrote. With `pool₂ = pool` that is `b` in `w₁` again. Otherwise the second call
finds the file the first one wrote, takes the load path and stops with `exit(1)` in
`build(false)`. -/
theorem initializeSketch_clear {targets : List String} {w w₁ : World} {P : Parameters}
    {md : List ContigInfo} {sf : List Int} {b : Sketch}
    (h : initializeSketch forEachSeqInFile addMinmers pool targets w (Sketch.create P md sf) =
      (w₁, .ok b)) :
    initializeSketch forEachSeqInFile addMinmers pool₂ targets w₁ b.clear =
      if P.indexFilename.isEmpty || P.overwriteIndex then
        match initializeSketch forEachSeqInFile addMinmers pool₂ targets w
            (Sketch.create P md sf) with
        | (w₂, .ok b₂) => (w₂, .ok { b₂ with
            metadata := b₂.metadata.drop md.length
            sequencesByFileInfo := b₂.sequencesByFileInfo.drop sf.length })
        | (_, .error e) => (w₁, .error e)
      else (w₁, .error (.exit 1)) := by
  have hcio := initializeSketch_createIndexOnly forEachSeqInFile addMinmers pool h
  obtain ⟨b', hb, rfl, hfiles⟩ := initializeSketch_ok forEachSeqInFile addMinmers pool h
  obtain ⟨hp, -, -⟩ :=
    buildPath_ok forEachSeqInFile addMinmers pool hb List.nodup_nil List.nodup_nil
  have hp' : b'.param = P := hp
  -- the cleared sketch is the constructor's with no contigs, marked initialized
  have hclear : ({ b' with isInitialized := true } : Sketch).clear =
      { Sketch.create P [] [] with isInitialized := true } := by
    simp only [Sketch.clear, Sketch.create, hp']
  rw [hclear]
  by_cases hc : (P.indexFilename.isEmpty || P.overwriteIndex) = true
  · -- the build path again, and from `w` under the second order
    have hor : ∀ x : Bool, (P.indexFilename.isEmpty || x || P.overwriteIndex) = true := fun x => by
      simp only [Bool.or_eq_true] at hc ⊢
      exact hc.elim (fun h => .inl (.inl h)) .inr
    have hre := buildPath_again forEachSeqInFile addMinmers pool pool₂ hb true
    rw [if_pos hc]
    unfold initializeSketch
    generalize hb₂ : buildPath forEachSeqInFile addMinmers pool₂ targets w.ids
      (Sketch.create P md sf) = r₂ at hre ⊢
    dsimp only [Sketch.create] at hre ⊢
    rw [if_pos (hor _), if_pos (hor _), hre]
    rcases r₂ with e | ⟨b₂, ids₂⟩
    · rfl
    · obtain ⟨hp₂, -, -⟩ :=
        buildPath_ok forEachSeqInFile addMinmers pool₂ hb₂ List.nodup_nil List.nodup_nil
      have hp₂' : b₂.param = P := hp₂
      simp only [Except.map, hp₂', hcio, Bool.false_eq_true, if_false]
      by_cases hn : P.indexFilename.isEmpty = true
      · simp only [hn, if_true, hfiles]
      · simp only [hn, Bool.false_eq_true, if_false, hfiles, DenseMap.alter_alter_const,
          writeIndex, hp₂']
  · -- the file the first call wrote is there: the load path
    obtain ⟨hn, ho⟩ : P.indexFilename.isEmpty = false ∧ P.overwriteIndex = false := by
      simpa using hc
    rw [if_neg hc]
    unfold initializeSketch
    dsimp only [Sketch.create]
    rw [if_neg (by simp [hn, ho, hfiles])]
    rfl

set_option maxRecDepth 2000 in
/-- With an index file named and `overwrite_index` unset, `initialize` after `clear()`
takes the load path and exits, whatever order the pool hands the outputs back in. -/
theorem initializeSketch_clear_small :
    initializeSketch oneContigFile oneWindowMinmers id [] ⟨[], ⟨[]⟩⟩
        (Sketch.create (smallParams 0) [] []) =
      ((initializeSketch oneContigFile oneWindowMinmers id [] ⟨[], ⟨[]⟩⟩
        (Sketch.create (smallParams 0) [] [])).1, .ok smallBuilt) ∧
    initializeSketch oneContigFile oneWindowMinmers List.reverse []
        (initializeSketch oneContigFile oneWindowMinmers id [] ⟨[], ⟨[]⟩⟩
          (Sketch.create (smallParams 0) [] [])).1 smallBuilt.clear =
      ((initializeSketch oneContigFile oneWindowMinmers id [] ⟨[], ⟨[]⟩⟩
        (Sketch.create (smallParams 0) [] [])).1, .error (.exit 1)) :=
  have h : initializeSketch oneContigFile oneWindowMinmers id [] ⟨[], ⟨[]⟩⟩
      (Sketch.create (smallParams 0) [] []) =
      ((initializeSketch oneContigFile oneWindowMinmers id [] ⟨[], ⟨[]⟩⟩
        (Sketch.create (smallParams 0) [] [])).1, .ok smallBuilt) := rfl
  ⟨h, (initializeSketch_clear oneContigFile oneWindowMinmers id List.reverse h).trans
    (if_neg (by decide))⟩

end Again

end Wfmash.Skch

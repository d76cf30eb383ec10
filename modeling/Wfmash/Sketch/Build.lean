import Wfmash.Sketch.Prune
import Wfmash.Sketch.Index

/-!
# Building the index

`Sketch::build(true, targets)` walks the files of `param.refSequences`. For every
sequence that `seqiter::for_each_seq_in_file` hands it and that is at least `segLength`
long, it takes the next id from the `SequenceIdManager`, hands the sequence to the
thread pool, whose threads run `buildHelper` (`CommonFunc::addMinmers`), and appends the
contig to `metadata`; shorter sequences are skipped. After the files it appends
`idManager->size()` to `sequencesByFileInfo`. The pool's outputs are merged with
`buildHandleThreadOutput` as they come back. Last, `build` exits when `minmerIndex` is
empty; `build(false)` makes only that check.

`for_each_seq_in_file`, `addMinmers`, the `SequenceIdManager` and the `ThreadPool` are
not among the sources. The first two are parameters of the model. The pool hands the
outputs back in the order its threads finish: that order is a parameter `pool`, from the
jobs in submission order to the order of their outputs. The merges interleave with the
loop over the files, but they touch only `minmerIndex` and `minmerPosLookupIndex`, which
the loop neither reads nor writes, so the model merges after the loop, in the pool's
order. `initialize`'s build path is `build(true)` followed by the three pruning steps
(`buildPath`).

## What is proved

* `IndexAgree` — two sketches that hold the same index and agree on every parameter the
  build path reads (`segLength`, `sketchSize`, `kmerSize`, `alphabetSize`,
  `kmer_pct_threshold`, `refSequences`) stay so through every stage of the build path,
  whatever their other parameters, `metadata` and `sequencesByFileInfo`
  (`IndexAgree.buildPath`).
* `buildPath_ok` — a build path that returns keeps the parameters and leaves keys and
  frequent seeds without repetition.
-/

namespace Wfmash.Skch

/-! ### Sequence ids -/

/-- Modelled from the spec: the `SequenceIdManager`, a bidirectional map between names and
dense ids (§1: "bidirectional name↔id mapping"; §3: "SequenceIds are dense"): the name of
id `i` is `names[i]`. -/
structure SequenceIdManager where
  names : List String
  deriving DecidableEq

/-- Modelled from the spec: `addSequence` gives a new name the next id, and a known name
the id it has. -/
def SequenceIdManager.addSequence (m : SequenceIdManager) (name : String) :
    SeqNo × SequenceIdManager :=
  if name ∈ m.names then (UInt32.ofNat (m.names.indexOf name), m)
  else (UInt32.ofNat m.names.length, ⟨m.names ++ [name]⟩)

/-- Modelled from the spec: `size`, the number of names it holds. -/
def SequenceIdManager.size (m : SequenceIdManager) : Nat := m.names.length

/-- A count stored into an `int`: modulo `2^32`, in two's complement. -/
def toCInt (n : Nat) : Int :=
  if n % 2 ^ 32 < 2 ^ 31 then (n % 2 ^ 32 : Nat) else ((n % 2 ^ 32 : Nat) : Int) - 2 ^ 32

/-! ### `build` -/

/-- What `build(true)`'s loop over the reference sequences has gathered. -/
structure BuildAcc where
  ids : SequenceIdManager
  /-- The outputs of the jobs handed to the pool, in submission order. -/
  jobs : List (List MinmerInfo)
  metadata : List ContigInfo

section Build

variable (forEachSeqInFile : String → List String → List (String × String))
  (addMinmers : String → UInt64 → UInt64 → Nat → UInt64 → SeqNo → List MinmerInfo)
  (pool : List (List MinmerInfo) → List (List MinmerInfo))

/-- `buildHelper`: `addMinmers(out, seq, len, kmerSize, segLength, alphabetSize,
sketchSize, seqCounter)`. -/
def buildHelper (p : Parameters) (seq : String) (seqCounter : SeqNo) : List MinmerInfo :=
  addMinmers seq p.kmerSize p.segLength p.alphabetSize p.sketchSize seqCounter

/-- The callback `build(true)` gives `for_each_seq_in_file`, on `(seq_name, seq)`. -/
def buildSeq (p : Parameters) (acc : BuildAcc) (ns : String × String) : BuildAcc :=
  if p.segLength.toNat ≤ ns.2.length then
    let (seqId, ids) := acc.ids.addSequence ns.1
    { ids
      jobs := acc.jobs ++ [buildHelper addMinmers p ns.2 seqId]
      metadata := acc.metadata ++ [⟨ns.1, BitVec.ofNat 64 ns.2.length⟩] }
  else acc

/-- The loop of `build(true)` over the files and their sequences. -/
def collect (p : Parameters) (targets : List String) (acc : BuildAcc) : BuildAcc :=
  p.refSequences.foldl
    (fun acc fileName => (forEachSeqInFile fileName targets).foldl (buildSeq addMinmers p) acc) acc

/-- `build(true)` before its final check: the loop, the per-file count, and the merges. -/
def buildSeeds (targets : List String) (ids : SequenceIdManager) (s : Sketch) :
    Sketch × SequenceIdManager :=
  let acc := collect forEachSeqInFile addMinmers s.param targets ⟨ids, [], s.metadata⟩
  ((pool acc.jobs).foldl buildHandleThreadOutput
      { s with
        metadata := acc.metadata
        sequencesByFileInfo := s.sequencesByFileInfo ++ [toCInt acc.ids.size] },
    acc.ids)

/-- `build(compute_seeds, target_names)`, with the id manager it shares. -/
def build (computeSeeds : Bool) (targets : List String) (ids : SequenceIdManager) (s : Sketch) :
    Except Halt (Sketch × SequenceIdManager) :=
  let r := if computeSeeds then buildSeeds forEachSeqInFile addMinmers pool targets ids s else (s, ids)
  if r.1.minmerIndex.length = 0 then .error (.exit 1) else .ok r

/-- The build path of `initialize`: `build(true, targets)`, `computeFreqHist`,
`computeFreqSeedSet` and `dropFreqSeedSet`. -/
def buildPath (targets : List String) (ids : SequenceIdManager) (s : Sketch) :
    Except Halt (Sketch × SequenceIdManager) :=
  (build forEachSeqInFile addMinmers pool true targets ids s).bind fun r =>
    (computeFreqHist r.1).map fun u => (dropFreqSeedSet (computeFreqSeedSet u), r.2)

/-- What a build path that returns did: `build(true)` returned, then `computeFreqHist`,
and the seeds were collected and dropped. -/
theorem buildPath_eq_ok {targets : List String} {ids ids' : SequenceIdManager} {s b : Sketch}
    (h : buildPath forEachSeqInFile addMinmers pool targets ids s = .ok (b, ids')) :
    ∃ r u, build forEachSeqInFile addMinmers pool true targets ids s = .ok (r, ids') ∧
      computeFreqHist r = .ok u ∧ b = dropFreqSeedSet (computeFreqSeedSet u) := by
  unfold buildPath at h
  cases hb : build forEachSeqInFile addMinmers pool true targets ids s with
  | error e => rw [hb] at h; cases h
  | ok r =>
    rw [hb] at h
    cases hu : computeFreqHist r.1 with
    | error e => simp [Except.bind, hu, Except.map] at h
    | ok u =>
      simp only [Except.bind, hu, Except.map, Except.ok.injEq, Prod.mk.injEq] at h
      obtain ⟨rfl, rfl⟩ := h
      exact ⟨r.1, u, rfl, hu, rfl⟩

/-- A step of the loop reads of what it has gathered only the ids and the jobs. -/
theorem buildSeq_ids_jobs (p : Parameters) {x y : BuildAcc} (hx : x.ids = y.ids ∧ x.jobs = y.jobs)
    (ns : String × String) :
    (buildSeq addMinmers p x ns).ids = (buildSeq addMinmers p y ns).ids ∧
      (buildSeq addMinmers p x ns).jobs = (buildSeq addMinmers p y ns).jobs := by
  unfold buildSeq
  split <;> simp [hx.1, hx.2]

/-- The ids and jobs the loop gathers do not depend on the `metadata` it starts from. -/
theorem collect_ids_jobs (p : Parameters) (targets : List String) (ids : SequenceIdManager)
    (md md' : List ContigInfo) :
    (collect forEachSeqInFile addMinmers p targets ⟨ids, [], md⟩).ids =
        (collect forEachSeqInFile addMinmers p targets ⟨ids, [], md'⟩).ids ∧
      (collect forEachSeqInFile addMinmers p targets ⟨ids, [], md⟩).jobs =
        (collect forEachSeqInFile addMinmers p targets ⟨ids, [], md'⟩).jobs :=
  List.foldl_rel (fun x y : BuildAcc => x.ids = y.ids ∧ x.jobs = y.jobs) ⟨rfl, rfl⟩
    fun _ _ _ _ hc => List.foldl_rel (fun x y : BuildAcc => x.ids = y.ids ∧ x.jobs = y.jobs) hc
      fun ns _ _ _ hd => buildSeq_ids_jobs addMinmers p hd ns

/-- A `build(true)` that returns gives what its loop and merges computed. -/
theorem build_true_eq_ok {targets : List String} {ids ids' : SequenceIdManager} {s r : Sketch}
    (h : build forEachSeqInFile addMinmers pool true targets ids s = .ok (r, ids')) :
    (buildSeeds forEachSeqInFile addMinmers pool targets ids s).1 = r ∧
      (buildSeeds forEachSeqInFile addMinmers pool targets ids s).2 = ids' := by
  simp only [build, if_true] at h
  split at h
  · cases h
  · exact Prod.mk.inj (Except.ok.inj h)

/-- What a `build` that returns leaves: the parameters and the seed set as they were, and
the merged minmers' points added to the position lookup index. -/
theorem build_ok {computeSeeds : Bool} {targets : List String} {ids ids' : SequenceIdManager}
    {s s' : Sketch} (h : build forEachSeqInFile addMinmers pool computeSeeds targets ids s = .ok (s', ids')) :
    s'.param = s.param ∧ s'.frequentSeeds = s.frequentSeeds ∧
      ∃ ms : List MinmerInfo, s'.minmerPosLookupIndex = ms.foldl addMinmer s.minmerPosLookupIndex := by
  dsimp only [build] at h
  generalize hr : (if computeSeeds then buildSeeds forEachSeqInFile addMinmers pool targets ids s
    else (s, ids)) = r at h
  split at h
  · cases h
  · cases h
    cases computeSeeds
    · cases hr; exact ⟨rfl, rfl, [], rfl⟩
    · simp only [if_true, buildSeeds, foldl_buildHandleThreadOutput] at hr
      cases hr
      exact ⟨rfl, rfl, _, rfl⟩

theorem nodup_computeFreqSeedSet {s : Sketch} (h : s.frequentSeeds.Nodup) :
    (computeFreqSeedSet s).frequentSeeds.Nodup := by
  unfold computeFreqSeedSet
  generalize s.frequentSeeds = acc at h ⊢
  generalize s.minmerPosLookupIndex = m
  induction m generalizing acc with
  | nil => exact h
  | cons e m ih =>
    refine ih _ ?_
    dsimp only
    split
    · exact DenseSet.nodup_insert _ h
    · exact h

/-- A build path that returns keeps the parameters, and leaves keys and frequent seeds
without repetition when they had none. -/
theorem buildPath_ok {targets : List String} {ids ids' : SequenceIdManager} {s b : Sketch}
    (h : buildPath forEachSeqInFile addMinmers pool targets ids s = .ok (b, ids'))
    (hk : (DenseMap.keys s.minmerPosLookupIndex).Nodup) (hf : s.frequentSeeds.Nodup) :
    b.param = s.param ∧ (DenseMap.keys b.minmerPosLookupIndex).Nodup ∧ b.frequentSeeds.Nodup := by
  obtain ⟨r, u, hb, hu, rfl⟩ := buildPath_eq_ok forEachSeqInFile addMinmers pool h
  obtain ⟨hp, hfs, ms, hm⟩ := build_ok forEachSeqInFile addMinmers pool hb
  obtain ⟨hp', h3, -, -, -, h1, -⟩ := computeFreqHist_fields hu
  refine ⟨hp'.trans hp, ?_, ?_⟩
  · simpa [dropFreqSeedSet_eq, computeFreqSeedSet, h1, hm] using nodup_keys_foldl_addMinmer ms hk
  · simpa [dropFreqSeedSet_eq] using nodup_computeFreqSeedSet (by rwa [h3, hfs])

end Build

/-! ### Two runs of the build path -/

/-- Two sketches that hold the same index and agree on every parameter the build path
reads. -/
structure IndexAgree (a b : Sketch) : Prop where
  segLength : a.param.segLength = b.param.segLength
  sketchSize : a.param.sketchSize = b.param.sketchSize
  kmerSize : a.param.kmerSize = b.param.kmerSize
  alphabetSize : a.param.alphabetSize = b.param.alphabetSize
  kmerPctThreshold : a.param.kmerPctThreshold = b.param.kmerPctThreshold
  refSequences : a.param.refSequences = b.param.refSequences
  freqThreshold : a.freqThreshold = b.freqThreshold
  frequentSeeds : a.frequentSeeds = b.frequentSeeds
  minmerPosLookupIndex : a.minmerPosLookupIndex = b.minmerPosLookupIndex
  minmerIndex : a.minmerIndex = b.minmerIndex
  minmerFreqHistogram : a.minmerFreqHistogram = b.minmerFreqHistogram

section Agree

variable {a b : Sketch}

theorem IndexAgree.handleThreadOutput (h : IndexAgree a b) (c : List MinmerInfo) :
    IndexAgree (buildHandleThreadOutput a c) (buildHandleThreadOutput b c) :=
  { h with
    minmerPosLookupIndex := by simp only [buildHandleThreadOutput, h.minmerPosLookupIndex]
    minmerIndex := by simp only [buildHandleThreadOutput, h.minmerIndex] }

theorem IndexAgree.freqHist (h : IndexAgree a b) :
    (∃ e, computeFreqHist a = .error e ∧ computeFreqHist b = .error e) ∨
      ∃ a' b', computeFreqHist a = .ok a' ∧ computeFreqHist b = .ok b' ∧ IndexAgree a' b' := by
  unfold computeFreqHist
  rw [h.minmerPosLookupIndex, h.kmerPctThreshold]
  split
  · exact .inr ⟨a, b, rfl, rfl, h⟩
  · split
    · exact .inl ⟨_, rfl, rfl⟩
    · exact .inr ⟨_, _, rfl, rfl, { h with
        minmerPosLookupIndex := rfl
        minmerFreqHistogram := by simp only [h.minmerFreqHistogram]
        freqThreshold := by simp only [h.freqThreshold, h.minmerFreqHistogram] }⟩

theorem IndexAgree.freqSeedSet (h : IndexAgree a b) :
    IndexAgree (computeFreqSeedSet a) (computeFreqSeedSet b) :=
  { h with
    frequentSeeds := by
      simp only [computeFreqSeedSet, h.minmerPosLookupIndex, h.freqThreshold, h.frequentSeeds] }

theorem IndexAgree.dropFreq (h : IndexAgree a b) :
    IndexAgree (dropFreqSeedSet a) (dropFreqSeedSet b) :=
  { h with minmerIndex := by simp only [dropFreqSeedSet_eq, h.minmerIndex, h.frequentSeeds] }

end Agree

section BuildAgree

variable (forEachSeqInFile : String → List String → List (String × String))
  (addMinmers : String → UInt64 → UInt64 → Nat → UInt64 → SeqNo → List MinmerInfo)
  (pool : List (List MinmerInfo) → List (List MinmerInfo)) {a b : Sketch}

theorem IndexAgree.buildSeeds (h : IndexAgree a b) (targets : List String)
    (ids : SequenceIdManager) :
    IndexAgree (buildSeeds forEachSeqInFile addMinmers pool targets ids a).1
        (buildSeeds forEachSeqInFile addMinmers pool targets ids b).1 ∧
      (buildSeeds forEachSeqInFile addMinmers pool targets ids a).2 =
        (buildSeeds forEachSeqInFile addMinmers pool targets ids b).2 := by
  have hseq : buildSeq addMinmers a.param = buildSeq addMinmers b.param := by
    funext acc ns
    simp only [buildSeq, buildHelper, h.segLength, h.kmerSize, h.alphabetSize, h.sketchSize]
  have hcol : collect forEachSeqInFile addMinmers a.param = collect forEachSeqInFile addMinmers b.param := by
    funext targets acc
    simp only [collect, hseq, h.refSequences]
  obtain ⟨hids, hjobs⟩ := collect_ids_jobs forEachSeqInFile addMinmers b.param targets ids
    a.metadata b.metadata
  simp only [Skch.buildSeeds, hcol, hids, hjobs, and_true]
  exact List.foldl_rel IndexAgree { h with } fun c _ _ _ hc => hc.handleThreadOutput c

theorem IndexAgree.build (h : IndexAgree a b) (computeSeeds : Bool) (targets : List String)
    (ids : SequenceIdManager) :
    (∃ e, Skch.build forEachSeqInFile addMinmers pool computeSeeds targets ids a = .error e ∧
        Skch.build forEachSeqInFile addMinmers pool computeSeeds targets ids b = .error e) ∨
      ∃ a' b' ids', Skch.build forEachSeqInFile addMinmers pool computeSeeds targets ids a = .ok (a', ids') ∧
        Skch.build forEachSeqInFile addMinmers pool computeSeeds targets ids b = .ok (b', ids') ∧
        IndexAgree a' b' := by
  obtain ⟨hr, hids⟩ : IndexAgree
        (if computeSeeds then Skch.buildSeeds forEachSeqInFile addMinmers pool targets ids a else (a, ids)).1
        (if computeSeeds then Skch.buildSeeds forEachSeqInFile addMinmers pool targets ids b else (b, ids)).1 ∧
      (if computeSeeds then Skch.buildSeeds forEachSeqInFile addMinmers pool targets ids a else (a, ids)).2 =
        (if computeSeeds then Skch.buildSeeds forEachSeqInFile addMinmers pool targets ids b else (b, ids)).2 := by
    cases computeSeeds
    · exact ⟨h, rfl⟩
    · exact h.buildSeeds forEachSeqInFile addMinmers pool targets ids
  dsimp only [Skch.build]
  generalize (if computeSeeds then Skch.buildSeeds forEachSeqInFile addMinmers pool targets ids a
    else (a, ids)) = ra at hr hids ⊢
  generalize (if computeSeeds then Skch.buildSeeds forEachSeqInFile addMinmers pool targets ids b
    else (b, ids)) = rb at hr hids ⊢
  rw [hr.minmerIndex]
  split
  · exact .inl ⟨_, rfl, rfl⟩
  · exact .inr ⟨_, _, _, rfl, by rw [hids], hr⟩

/-- **Two build paths.** From sketches that hold the same index and agree on the
parameters the build path reads, with the same files, targets, id manager and order of
the pool's outputs, the build path fails the same way in both, or returns in both with
sketches that hold the same index and the same ids. -/
theorem IndexAgree.buildPath (h : IndexAgree a b) (targets : List String)
    (ids : SequenceIdManager) :
    (∃ e, Skch.buildPath forEachSeqInFile addMinmers pool targets ids a = .error e ∧
        Skch.buildPath forEachSeqInFile addMinmers pool targets ids b = .error e) ∨
      ∃ a' b' ids', Skch.buildPath forEachSeqInFile addMinmers pool targets ids a = .ok (a', ids') ∧
        Skch.buildPath forEachSeqInFile addMinmers pool targets ids b = .ok (b', ids') ∧
        IndexAgree a' b' := by
  rcases h.build forEachSeqInFile addMinmers pool true targets ids with
    ⟨e, ha, hb⟩ | ⟨a', b', ids', ha, hb, h'⟩
  · exact .inl ⟨e, by simp [Skch.buildPath, ha, Except.bind], by simp [Skch.buildPath, hb, Except.bind]⟩
  · rcases h'.freqHist with ⟨e, ha', hb'⟩ | ⟨a'', b'', ha', hb', h''⟩
    · exact .inl ⟨e, by simp [Skch.buildPath, ha, ha', Except.bind, Except.map],
        by simp [Skch.buildPath, hb, hb', Except.bind, Except.map]⟩
    · exact .inr ⟨_, _, ids', by simp [Skch.buildPath, ha, ha', Except.bind, Except.map],
        by simp [Skch.buildPath, hb, hb', Except.bind, Except.map], h''.freqSeedSet.dropFreq⟩

end BuildAgree

end Wfmash.Skch

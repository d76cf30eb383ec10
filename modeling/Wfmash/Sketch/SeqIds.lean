import Wfmash.Sketch.Build
import Mathlib.Data.List.Dedup

/-!
# Sequence ids, metadata and the per-file counts

`Sketch::build(true, targets)` numbers the sequences it keeps with the
`SequenceIdManager` and records each in `metadata`:

    if (seq.length() >= param.segLength) {
        seqno_t seqId = idManager->addSequence(seq_name);
        threadPool.runWhenThreadAvailable(new InputSeqContainer(seq, seq_name, seqId));
        ...
        this->metadata.push_back(ContigInfo{seq_name, static_cast<offset_t>(seq.length())});
    }

and after the loop over the files

    this->sequencesByFileInfo.push_back(idManager->size());

although the field's comment reads "[a, b, c] implies file 0 contains 0 .. a-1
sequences, file 1 contains a .. b-1, file 2 contains b .. c-1".

The id a minmer carries indexes `metadata` only while the ids the manager hands out are
fresh: the manager gives a name it has seen its old id, but `metadata` gets a new entry
for every sequence kept.

## What is proved

* `collect_eq_foldl_kept` — the loop over the files is a loop over the records it keeps,
  those at least `segLength` long (`keptRecords`).
* `buildSeeds_seqIds` — from a new manager and empty `metadata`, when the kept records
  have distinct names and fit the 32-bit ids, the manager's names and `metadata` list the
  kept records in order, and every minmer of the index carries the id of the record it
  was extracted from, which indexes that record's `metadata` entry, whatever order the
  pool returns the outputs in. `buildSeeds_repeated_name`: with a name repeated, a
  minmer's id names another record's entry.
* `buildSeeds_sequencesByFileInfo` — from a new manager, `sequencesByFileInfo` gets one
  entry, the number of distinct names kept over all the files, however many files there
  are.
-/

namespace Wfmash.Skch

/-- The `metadata` entry of a contig `(seq_name, seq)`. -/
def contigInfo (ns : String × String) : ContigInfo := ⟨ns.1, BitVec.ofNat 64 ns.2.length⟩

section SeqIds

variable (forEachSeqInFile : String → List String → List (String × String))
  (addMinmers : String → UInt64 → UInt64 → Nat → UInt64 → SeqNo → List MinmerInfo)
  (pool : List (List MinmerInfo) → List (List MinmerInfo))

/-- The records `build(true)` keeps, over the files in order: those at least `segLength`
long. -/
def keptRecords (p : Parameters) (targets : List String) : List (String × String) :=
  p.refSequences.flatMap fun fileName =>
    (forEachSeqInFile fileName targets).filter fun ns => p.segLength.toNat ≤ ns.2.length

theorem buildSeq_of_lt (p : Parameters) (acc : BuildAcc) {ns : String × String}
    (h : ns.2.length < p.segLength.toNat) : buildSeq addMinmers p acc ns = acc := by
  unfold buildSeq
  rw [if_neg (by omega)]

theorem buildSeq_of_le (p : Parameters) (acc : BuildAcc) {ns : String × String}
    (h : p.segLength.toNat ≤ ns.2.length) :
    buildSeq addMinmers p acc ns =
      { ids := (acc.ids.addSequence ns.1).2
        jobs := acc.jobs ++ [buildHelper addMinmers p ns.2 (acc.ids.addSequence ns.1).1]
        metadata := acc.metadata ++ [contigInfo ns] } := by
  unfold buildSeq
  rw [if_pos h]
  rfl

theorem foldl_filter_buildSeq (p : Parameters) (rs : List (String × String)) (acc : BuildAcc) :
    (rs.filter fun ns => p.segLength.toNat ≤ ns.2.length).foldl (buildSeq addMinmers p) acc =
      rs.foldl (buildSeq addMinmers p) acc := by
  induction rs generalizing acc with
  | nil => rfl
  | cons ns rs ih =>
    by_cases h : p.segLength.toNat ≤ ns.2.length
    · rw [List.filter_cons_of_pos (by simpa using h), List.foldl_cons, List.foldl_cons, ih]
    · rw [List.filter_cons_of_neg (by simpa using h), List.foldl_cons,
        buildSeq_of_lt addMinmers p acc (by omega), ih]

/-- The loop over the files is a loop over the records it keeps. -/
theorem collect_eq_foldl_kept (p : Parameters) (targets : List String) (acc : BuildAcc) :
    collect forEachSeqInFile addMinmers p targets acc =
      (keptRecords forEachSeqInFile p targets).foldl (buildSeq addMinmers p) acc := by
  unfold collect keptRecords
  generalize p.refSequences = files
  induction files generalizing acc with
  | nil => rfl
  | cons f fs ih =>
    rw [List.foldl_cons, List.flatMap_cons, List.foldl_append, foldl_filter_buildSeq, ih]

/-- Over kept records with new names, each record takes the next id, and its job and
its `metadata` entry are appended. -/
theorem foldl_buildSeq_fresh (p : Parameters) (rs : List (String × String))
    (hk : ∀ ns ∈ rs, p.segLength.toNat ≤ ns.2.length) (acc : BuildAcc)
    (hnd : (acc.ids.names ++ rs.map Prod.fst).Nodup) :
    (rs.foldl (buildSeq addMinmers p) acc).ids.names = acc.ids.names ++ rs.map Prod.fst ∧
      (rs.foldl (buildSeq addMinmers p) acc).metadata = acc.metadata ++ rs.map contigInfo ∧
      (rs.foldl (buildSeq addMinmers p) acc).jobs = acc.jobs ++
        (rs.enumFrom acc.ids.names.length).map
          fun kns => buildHelper addMinmers p kns.2.2 (UInt32.ofNat kns.1) := by
  induction rs generalizing acc with
  | nil => simp
  | cons ns rs ih =>
    have hnew : ns.1 ∉ acc.ids.names :=
      fun h => List.disjoint_of_nodup_append hnd h (List.mem_cons_self _ _)
    have hadd : acc.ids.addSequence ns.1 =
        (UInt32.ofNat acc.ids.names.length, ⟨acc.ids.names ++ [ns.1]⟩) := if_neg hnew
    rw [List.foldl_cons, buildSeq_of_le addMinmers p acc (hk ns (List.mem_cons_self _ _)), hadd]
    obtain ⟨h1, h2, h3⟩ := ih (fun n hn => hk n (List.mem_cons_of_mem _ hn))
      { ids := ⟨acc.ids.names ++ [ns.1]⟩
        jobs := acc.jobs ++ [buildHelper addMinmers p ns.2 (UInt32.ofNat acc.ids.names.length)]
        metadata := acc.metadata ++ [contigInfo ns] } (by simpa using hnd)
    refine ⟨?_, ?_, ?_⟩
    · rw [h1]; simp
    · rw [h2]; simp
    · rw [h3]; simp

theorem segLength_le_of_mem_keptRecords {p : Parameters} {targets : List String}
    {ns : String × String} (h : ns ∈ keptRecords forEachSeqInFile p targets) :
    p.segLength.toNat ≤ ns.2.length := by
  obtain ⟨_, -, h⟩ := List.mem_flatMap.mp h
  exact of_decide_eq_true (List.mem_filter.mp h).2

theorem addSequence_names {m : SequenceIdManager} (hnd : m.names.Nodup) (name : String) :
    (m.addSequence name).2.names.Nodup ∧
      ∀ n, n ∈ (m.addSequence name).2.names ↔ n ∈ m.names ∨ n = name := by
  unfold SequenceIdManager.addSequence
  split
  · exact ⟨hnd, fun n => ⟨Or.inl, by rintro (h | rfl) <;> assumption⟩⟩
  · exact ⟨hnd.append (List.nodup_singleton _) (by simpa), fun n => by simp⟩

/-- Over kept records, the manager's names stay without repetition and gather the
records' names. -/
theorem foldl_buildSeq_names (p : Parameters) (rs : List (String × String))
    (hk : ∀ ns ∈ rs, p.segLength.toNat ≤ ns.2.length) (acc : BuildAcc)
    (hnd : acc.ids.names.Nodup) :
    (rs.foldl (buildSeq addMinmers p) acc).ids.names.Nodup ∧
      ∀ n, n ∈ (rs.foldl (buildSeq addMinmers p) acc).ids.names ↔
        n ∈ acc.ids.names ∨ n ∈ rs.map Prod.fst := by
  induction rs generalizing acc with
  | nil => simp [hnd]
  | cons ns rs ih =>
    rw [List.foldl_cons, buildSeq_of_le addMinmers p acc (hk ns (List.mem_cons_self _ _))]
    have hstep := addSequence_names hnd ns.1
    obtain ⟨h1, h2⟩ := ih (fun n hn => hk n (List.mem_cons_of_mem _ hn))
      { ids := (acc.ids.addSequence ns.1).2
        jobs := acc.jobs ++ [buildHelper addMinmers p ns.2 (acc.ids.addSequence ns.1).1]
        metadata := acc.metadata ++ [contigInfo ns] } hstep.1
    refine ⟨h1, fun n => ?_⟩
    rw [h2, hstep.2]
    simp [or_assoc]

/-! ### Small inputs -/

/-- An `addMinmers` that gives each sequence one minmer, hashed to its length and tagged
with the id it is given. -/
def oneMinmerEach (seq : String) (_ _ : UInt64) (_ : Nat) (_ : UInt64) (seqId : SeqNo) :
    List MinmerInfo :=
  [⟨seq.length.toUInt64, 0, 10, seqId, .FWD⟩]

/-- Two files of one contig each. -/
def twoFiles : String → List String → List (String × String)
  | "f1", _ => [("chr1", "ACGTACGTAC")]
  | "f2", _ => [("chr2", "ACGTACGTACGTACG")]
  | _, _ => []

/-- A first file with a name twice. -/
def dupFile : String → List String → List (String × String)
  | "f1", _ => [("chr1", "ACGTACGTAC"), ("chr1", "ACGTACGTACGTACG")]
  | _, _ => []

/-- Segments of 5 bases over the files `f1` and `f2`. -/
def twoFileParams : Parameters :=
  { (default : Parameters) with segLength := 5, refSequences := ["f1", "f2"] }

/-! ### The per-file counts -/

/-- **One count for all the files.** From a new manager, `build(true)` appends one entry to
`sequencesByFileInfo`, the number of distinct names among the records kept in all the
files. -/
theorem buildSeeds_sequencesByFileInfo (p : Parameters) (targets : List String)
    (md : List ContigInfo) :
    (buildSeeds forEachSeqInFile addMinmers pool targets ⟨[]⟩
        (Sketch.create p md [])).1.sequencesByFileInfo =
      [toCInt ((keptRecords forEachSeqInFile p targets).map Prod.fst).dedup.length] := by
  obtain ⟨hnd, hmem⟩ := foldl_buildSeq_names addMinmers p
    (keptRecords forEachSeqInFile p targets)
    (fun _ h => segLength_le_of_mem_keptRecords forEachSeqInFile h) ⟨⟨[]⟩, [], md⟩
    List.nodup_nil
  have hperm := (List.perm_ext_iff_of_nodup hnd
    (List.nodup_dedup ((keptRecords forEachSeqInFile p targets).map Prod.fst))).mpr fun n => by
    rw [hmem, List.mem_dedup]
    simp
  simp only [buildSeeds, foldl_buildHandleThreadOutput, Sketch.create, collect_eq_foldl_kept,
    List.nil_append, SequenceIdManager.size, hperm.length_eq]

/-- Two files: one count, `[2]`, not `[1, 2]`. -/
example : (buildSeeds twoFiles oneMinmerEach id [] ⟨[]⟩
    (Sketch.create twoFileParams [] [])).1.sequencesByFileInfo = [2] := by decide

/-! ### Ids and `metadata` -/

/-- **Ids index `metadata`.** From a new manager and empty `metadata`, with a pool that
returns every job's output once and an `addMinmers` that tags its minmers with the id it is
given: when the kept records have distinct names and at most `2^32` of them, the manager
names and `metadata` describe the kept records in order, and every minmer of the index
comes from the record its id numbers, whose `metadata` entry sits at that id. -/
theorem buildSeeds_seqIds (p : Parameters) (targets : List String) (sf : List Int)
    (hpool : ∀ js, (pool js).Perm js)
    (hseq : ∀ seq kmerSize segLength alphabetSize sketchSize seqCounter,
      ∀ mi ∈ addMinmers seq kmerSize segLength alphabetSize sketchSize seqCounter,
        mi.seqId = seqCounter)
    (hnames : ((keptRecords forEachSeqInFile p targets).map Prod.fst).Nodup)
    (hcount : (keptRecords forEachSeqInFile p targets).length ≤ 2 ^ 32) :
    let kept := keptRecords forEachSeqInFile p targets
    let r := buildSeeds forEachSeqInFile addMinmers pool targets ⟨[]⟩ (Sketch.create p [] sf)
    r.2.names = kept.map Prod.fst ∧ r.1.metadata = kept.map contigInfo ∧
      ∀ mi ∈ r.1.minmerIndex, mi.seqId.toNat < r.1.metadata.length ∧
        ∃ ns, kept[mi.seqId.toNat]? = some ns ∧
          mi ∈ buildHelper addMinmers p ns.2 mi.seqId ∧
          r.1.metadata[mi.seqId.toNat]? = some (contigInfo ns) := by
  intro kept r
  obtain ⟨h1, h2, h3⟩ := foldl_buildSeq_fresh addMinmers p kept
    (fun _ h => segLength_le_of_mem_keptRecords forEachSeqInFile h) ⟨⟨[]⟩, [], []⟩
    (by simpa using hnames)
  set acc := kept.foldl (buildSeq addMinmers p) ⟨⟨[]⟩, [], []⟩
  have hids : r.2 = acc.ids := by
    simp only [r, buildSeeds, collect_eq_foldl_kept, Sketch.create]
  have hmd : r.1.metadata = acc.metadata := by
    simp only [r, buildSeeds, foldl_buildHandleThreadOutput, collect_eq_foldl_kept, Sketch.create]
  have hmi : r.1.minmerIndex = (pool acc.jobs).flatten := by
    simp only [r, buildSeeds, foldl_buildHandleThreadOutput, collect_eq_foldl_kept, Sketch.create,
      List.nil_append]
  simp only [List.nil_append, List.length_nil] at h1 h2 h3
  rw [hids, hmd, hmi, h1, h2, h3]
  refine ⟨rfl, rfl, fun mi hmi => ?_⟩
  -- `mi` comes out of the job of the `k`-th kept record, which got id `k`
  obtain ⟨job, hjob, hmij⟩ := List.mem_flatten.mp hmi
  obtain ⟨⟨k, ns⟩, hkns, rfl⟩ := List.mem_map.mp ((hpool _).mem_iff.mp hjob)
  obtain ⟨-, hk, hns⟩ := List.mem_enumFrom hkns
  have hget : kept[k]? = some ns := by rw [hns]; simp
  have hid : mi.seqId = UInt32.ofNat k := hseq _ _ _ _ _ _ mi hmij
  -- the id fits in 32 bits
  have hk32 : k < 2 ^ 32 := by simp only [kept] at hk; omega
  have hk' : mi.seqId.toNat = k := by rw [hid]; exact UInt32.toNat_ofNat_of_lt hk32
  rw [hk']
  refine ⟨by simp; omega, ns, hget, hid ▸ hmij, by simp [hget]⟩

/-- Both files kept, distinct names: the ids index `metadata`. -/
theorem buildSeeds_seqIds_two_files :
    ((keptRecords twoFiles twoFileParams []).map Prod.fst).Nodup ∧
      (keptRecords twoFiles twoFileParams []).length ≤ 2 ^ 32 ∧
      (buildSeeds twoFiles oneMinmerEach id [] ⟨[]⟩
        (Sketch.create twoFileParams [] [])).1.metadata =
        (keptRecords twoFiles twoFileParams []).map contigInfo :=
  ⟨by decide, by decide,
    (buildSeeds_seqIds twoFiles oneMinmerEach id twoFileParams [] [] List.Perm.refl
      (fun _ _ _ _ _ _ _ h => by rw [List.mem_singleton.mp h]) (by decide) (by decide)).2.1⟩

/-- The second `chr1`, 15 bases long, gets id 0, whose `metadata` entry is the first
`chr1`, 10 bases long. -/
theorem buildSeeds_repeated_name :
    ∃ mi ∈ (buildSeeds dupFile oneMinmerEach id [] ⟨[]⟩
        (Sketch.create twoFileParams [] [])).1.minmerIndex,
      mi ∈ buildHelper oneMinmerEach twoFileParams "ACGTACGTACGTACG" mi.seqId ∧
      (buildSeeds dupFile oneMinmerEach id [] ⟨[]⟩
          (Sketch.create twoFileParams [] [])).1.metadata[mi.seqId.toNat]? ≠
        some (contigInfo ("chr1", "ACGTACGTACGTACG")) :=
  ⟨⟨15, 0, 10, 0, .FWD⟩, by decide, by decide, by decide⟩

end SeqIds

end Wfmash.Skch

import Mathlib.Data.List.Nodup
import Mathlib.Algebra.Group.Int
import Mathlib.Algebra.Order.Ring.Nat

/-!
# The reference index: data model

The records of `skch::Sketch` (`winSketch.hpp`): what the minmer extractor emits for
one sequence (`MinmerInfo`), the points of the position lookup index
(`IntervalPoint`), and the two kinds of container the index is built from.

`base_types.hpp`, which declares the records, is not among the sources; the widths of
their fields are the specification's (§3): a hash is 64-bit unsigned, a position a
signed 64-bit offset, a sequence id 32 bits wide. A position is kept as its two's
complement word and compared through `BitVec.toInt`, as `int64_t` compares.

`minmerPosLookupIndex` is an `ankerl::unordered_dense::map`. That map keeps its entries
in one vector, in the order the keys were first inserted; only erasure moves an entry,
and the index never erases. It is modelled as an association list whose order is the
map's iteration order (`DenseMap`); `operator[]` on a key that is not there appends an
empty entry, which `DenseMap.alter` does. `frequentSeeds`, an `unordered_dense::set`,
is a list without duplicates in insertion order (`DenseSet`).
-/

namespace Wfmash.Skch

/-- `hash_t`. Modelled from the spec: a 64-bit unsigned k-mer hash. -/
abbrev Hash := UInt64

/-- `offset_t`. Modelled from the spec: a signed 64-bit position, as its word. -/
abbrev Offset := BitVec 64

/-- `seqno_t`. Modelled from the spec: a 32-bit sequence id. -/
abbrev SeqNo := UInt32

/-- `strand_t`, with its two values `skch::strnd::FWD` and `skch::strnd::REV`. -/
inductive Strand where
  | FWD
  | REV
  deriving DecidableEq, Repr, Inhabited

/-- The side of an interval point, `side::OPEN` or `side::CLOSE`. -/
inductive Side where
  | OPEN
  | CLOSE
  deriving DecidableEq, Repr

/-- `MinmerInfo`: `hash` is in the sketch of every window of sequence `seqId` that
starts in `[wpos, wpos_end)`. -/
structure MinmerInfo where
  hash : Hash
  wpos : Offset
  wposEnd : Offset
  seqId : SeqNo
  strand : Strand
  deriving DecidableEq, Repr, Inhabited

/-- `IntervalPoint`: one end of a run of windows of one hash on one sequence. -/
structure IntervalPoint where
  pos : Offset
  hash : Hash
  seqId : SeqNo
  side : Side
  deriving DecidableEq, Repr

/-- `ContigInfo`: the name and length of an indexed sequence. -/
structure ContigInfo where
  name : String
  len : Offset
  deriving DecidableEq, Repr

/-! ### Dense maps -/

/-- An `ankerl::unordered_dense::map`: its entries in insertion order. -/
abbrev DenseMap (κ β : Type) := List (κ × β)

namespace DenseMap

variable {κ β : Type} [DecidableEq κ]

/-- `find`: the value at key `k`, if `k` is a key. -/
def find? : DenseMap κ β → κ → Option β
  | [], _ => none
  | (k', v) :: m, k => if k' = k then some v else find? m k

/-- `operator[]` followed by an update `f` of the value: in place when `k` is a key,
otherwise on a new entry appended with the default value `d`. -/
def alter (d : β) : DenseMap κ β → κ → (β → β) → DenseMap κ β
  | [], k, f => [(k, f d)]
  | (k', v) :: m, k, f => if k' = k then (k', f v) :: m else (k', v) :: alter d m k f

/-- The keys, in iteration order. -/
def keys (m : DenseMap κ β) : List κ := m.map Prod.fst

@[simp] theorem find?_nil (k : κ) : find? ([] : DenseMap κ β) k = none := rfl

theorem find?_cons (k' k : κ) (v : β) (m : DenseMap κ β) :
    find? ((k', v) :: m) k = if k' = k then some v else find? m k := rfl

@[simp] theorem find?_alter_self (d : β) (m : DenseMap κ β) (k : κ) (f : β → β) :
    find? (alter d m k f) k = some (f ((find? m k).getD d)) := by
  induction m with
  | nil => simp [alter, find?]
  | cons e m ih =>
    obtain ⟨k', v⟩ := e
    by_cases h : k' = k <;> simp [alter, find?, h, ih]

theorem find?_alter_ne (d : β) (m : DenseMap κ β) {k k' : κ} (f : β → β) (h : k ≠ k') :
    find? (alter d m k f) k' = find? m k' := by
  induction m with
  | nil => simp [alter, find?, h]
  | cons e m ih =>
    obtain ⟨j, v⟩ := e
    by_cases hj : j = k <;> simp [alter, find?, hj, ih, h]

theorem find?_alter (d : β) (m : DenseMap κ β) (k k' : κ) (f : β → β) :
    find? (alter d m k f) k' =
      if k = k' then some (f ((find? m k).getD d)) else find? m k' := by
  split
  · subst k'; exact find?_alter_self d m k f
  · exact find?_alter_ne d m f ‹_›

theorem mem_keys_iff_find? (m : DenseMap κ β) (k : κ) : k ∈ keys m ↔ (find? m k).isSome := by
  induction m with
  | nil => simp [keys]
  | cons e m ih =>
    obtain ⟨j, v⟩ := e
    by_cases h : j = k
    · subst h
      exact iff_of_true (List.mem_cons_self _ _) (by rw [find?_cons, if_pos rfl]; rfl)
    · rw [keys, List.map_cons, List.mem_cons, or_iff_right (Ne.symm h), find?_cons, if_neg h]
      exact ih

theorem keys_alter (d : β) (m : DenseMap κ β) (k : κ) (f : β → β) :
    keys (alter d m k f) = if k ∈ keys m then keys m else keys m ++ [k] := by
  induction m with
  | nil => simp [keys, alter]
  | cons e m ih =>
    obtain ⟨j, v⟩ := e
    by_cases h : j = k
    · subst h
      rw [if_pos (c := j ∈ keys ((j, v) :: m)) (List.mem_cons_self _ _)]
      rw [alter, if_pos rfl]
      rfl
    · have hmem : k ∈ keys ((j, v) :: m) ↔ k ∈ keys m := by
        rw [keys, List.map_cons, List.mem_cons, or_iff_right (Ne.symm h)]; rfl
      simp only [alter, if_neg h, if_congr hmem rfl rfl]
      simp only [keys, List.map_cons] at ih ⊢
      rw [ih]
      split <;> rfl

theorem nodup_keys_alter (d : β) {m : DenseMap κ β} (k : κ) (f : β → β)
    (h : (keys m).Nodup) : (keys (alter d m k f)).Nodup := by
  rw [keys_alter]
  split
  · exact h
  · exact h.append (List.nodup_singleton k) (by simpa)

/-- `operator[]` on a key that is not there appends the entry. -/
theorem alter_of_not_mem (d : β) {m : DenseMap κ β} {k : κ} (h : k ∉ keys m) (f : β → β) :
    alter d m k f = m ++ [(k, f d)] := by
  induction m with
  | nil => rfl
  | cons e m ih =>
    obtain ⟨j, v⟩ := e
    simp only [keys, List.map_cons, List.mem_cons, not_or] at h
    simp [alter, Ne.symm h.1, ih h.2]

/-- A value is stored under its key: the entries of a map with unique keys are what
`find?` returns. -/
theorem find?_of_mem {m : DenseMap κ β} (h : (keys m).Nodup) {k : κ} {v : β}
    (hm : (k, v) ∈ m) : find? m k = some v := by
  induction m with
  | nil => exact absurd hm (List.not_mem_nil _)
  | cons e m ih =>
    obtain ⟨j, w⟩ := e
    simp only [keys, List.map_cons, List.nodup_cons] at h
    rcases List.mem_cons.mp hm with he | hm
    · cases he
      rw [find?_cons, if_pos rfl]
    · have hj : j ≠ k := fun hjk => h.1 (hjk ▸ List.mem_map_of_mem Prod.fst hm)
      rw [find?_cons, if_neg hj, ih h.2 hm]

theorem mem_of_find? {m : DenseMap κ β} {k : κ} {v : β} (h : find? m k = some v) : (k, v) ∈ m := by
  induction m with
  | nil => simp at h
  | cons e m ih =>
    obtain ⟨j, w⟩ := e
    rw [find?_cons] at h
    split at h
    · cases h; simp [*]
    · exact List.mem_cons_of_mem _ (ih h)

end DenseMap

/-- An `ankerl::unordered_dense::set`: its elements in insertion order. -/
abbrev DenseSet (κ : Type) := List κ

/-- `insert` into a dense set: appended when new. -/
def DenseSet.insert {κ : Type} [DecidableEq κ] (s : DenseSet κ) (k : κ) : DenseSet κ :=
  if k ∈ s then s else s ++ [k]

theorem DenseSet.mem_insert {κ : Type} [DecidableEq κ] (s : DenseSet κ) (k j : κ) :
    j ∈ s.insert k ↔ j ∈ s ∨ j = k := by
  unfold DenseSet.insert
  split <;> simp_all [or_iff_left_of_imp, eq_comm]
  rintro rfl; assumption

theorem DenseSet.insert_of_not_mem {κ : Type} [DecidableEq κ] {s : DenseSet κ} {k : κ}
    (h : k ∉ s) : s.insert k = s ++ [k] := if_neg h

theorem DenseSet.nodup_insert {κ : Type} [DecidableEq κ] {s : DenseSet κ} (k : κ)
    (h : s.Nodup) : (s.insert k).Nodup := by
  unfold DenseSet.insert
  split
  · exact h
  · exact h.append (List.nodup_singleton k) (by simpa)

/-- `MI_Map_t`, the position lookup index: hash to interval points. -/
abbrev PosMap := DenseMap Hash (List IntervalPoint)

/-- `minmerPosLookupIndex[h]` read: the points of `h`, none when `h` is not a key. -/
def PosMap.get (m : PosMap) (h : Hash) : List IntervalPoint := (DenseMap.find? m h).getD []

/-- A key's vector is stored in the map, or the key is absent and reads as empty. -/
theorem PosMap.mem_or_get_eq_nil (m : PosMap) (h : Hash) : (h, m.get h) ∈ m ∨ m.get h = [] := by
  unfold PosMap.get
  cases hf : DenseMap.find? m h with
  | none => exact Or.inr rfl
  | some v => exact Or.inl (DenseMap.mem_of_find? hf)

/-! ### The sketch -/

/-- The fields of `skch::Parameters` that the index reads. `map_parameters.hpp` is not
among the sources. Modelled from the spec: the three sketch parameters are the `u64`
words of the index file's parameter block (§4.3). `kmer_pct_threshold` is the `double`
`computeFreqHist` multiplies by, kept as its 64 bits (see `decode`). -/
structure Parameters where
  segLength : UInt64
  sketchSize : UInt64
  kmerSize : UInt64
  alphabetSize : Nat
  kmerPctThreshold : UInt64
  threads : Nat
  refSequences : List String
  indexFilename : String
  overwriteIndex : Bool
  createIndexOnly : Bool
  deriving DecidableEq, Inhabited

/-- How a run stops before it returns. -/
inductive Halt where
  /-- `exit(code)`. -/
  | exit (code : Nat)
  /-- `idx++` on an `int` that holds `INT_MAX`: undefined behaviour. -/
  | intOverflow
  /-- A variable that a short read left partly unset, then compared: undefined
  behaviour. -/
  | indeterminate
  /-- A `double` converted to `int64_t` whose truncation does not fit it (NaN and the
  infinities included): undefined behaviour. -/
  | doubleToInt64
  deriving DecidableEq, Repr

/-- `std::numeric_limits<uint64_t>::max()`, the initial `freqThreshold`. -/
def uint64Max : Nat := 2 ^ 64 - 1

/-- The state of a `skch::Sketch`. `hashFreq` is left out: it is written while the index
is built and cleared before anything reads it. `idManager` points to a manager shared
with the caller; it is passed beside the sketch where it is used. -/
structure Sketch where
  param : Parameters
  freqThreshold : Nat
  frequentSeeds : DenseSet Hash
  isInitialized : Bool
  metadata : List ContigInfo
  sequencesByFileInfo : List Int
  minmerPosLookupIndex : PosMap
  minmerIndex : List MinmerInfo
  minmerFreqHistogram : List (Nat × Nat)

/-- The sketch the constructor sets up before `initialize`: the given parameters,
metadata and per-file counts, everything else at its initial value. -/
def Sketch.create (p : Parameters) (metadata : List ContigInfo) (sequencesByFileInfo : List Int) :
    Sketch where
  param := p
  freqThreshold := uint64Max
  frequentSeeds := []
  isInitialized := false
  metadata := metadata
  sequencesByFileInfo := sequencesByFileInfo
  minmerPosLookupIndex := []
  minmerIndex := []
  minmerFreqHistogram := []

end Wfmash.Skch

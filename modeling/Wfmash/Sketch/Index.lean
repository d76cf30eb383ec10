import Wfmash.Sketch.Basic
import Mathlib.Data.UInt

/-!
# The index file

`Sketch::writeIndex` writes the parameter block, the minmer vector, the position lookup
index and the frequent seeds, each container as a `size_t` count followed by its
elements; `Sketch::readIndex` reads them back in the same order:

    writeParameters:      segLength, sketchSize, kmerSize            (u64 each)
    writeSketchBinary:    minmerIndex.size(), then the records raw
    writePosListBinary:   minmerPosLookupIndex.size(), then per key:
                            key, ipVec.size(), then the points raw
    writeFreqKmersBinary: frequentSeeds.size(), then the hashes

`readSketchBinary` reads its count into a `size_t`. `readPosListBinary` and
`readFreqKmersBinary` read theirs into a `size_t` too, but loop with

    for (auto idx = 0; idx < numKeys; idx++)

whose `idx` is an `int`. With `2^31` keys or more, `idx++` at `INT_MAX` is undefined
behaviour; the model stops there with `Halt.intOverflow`.

A file is a list of bytes and a reader takes bytes from its front. `istream::read` never
fails loudly and the code never checks the stream: a read that finds fewer bytes than it
asks for copies those there are over the front of its buffer, leaves the rest of the
buffer as it was and sets `failbit`, after which every read copies nothing, as a read
from no bytes does. The counts and keys are read into locals that start at `0`, and the
records into a vector resized first, its new records value-initialised (all-zero bytes);
`readParameters` alone reads into locals that hold no value and compares them, which after
a short read is undefined behaviour (`Halt.indeterminate`). Not modelled: `&v[0]` on an
empty vector, which the writers and readers evaluate for an empty container and which the
model takes to write or read no bytes, and a `reserve` or `resize` that runs out of
memory. The raw layout of
`MinmerInfo` and `IntervalPoint` is in `base_types.hpp`, which is not among the sources;
every theorem below uses only that a record's bytes have a fixed length and decode back
to the record (`Raw`).

## What is proved

* `readIndex_writeIndex` — `readIndex`, on the bytes `writeIndex` wrote followed by
  anything, into a sketch with empty containers and the same three parameters, consumes
  exactly the bytes written and restores the three containers when there are fewer than
  `2^31` keys and fewer than `2^31` frequent seeds, and stops at the overflow of `idx`
  otherwise.
-/

namespace Wfmash.Skch

/-- `INT_MAX`: the last value of the `int` counters of the reader loops. -/
def intMax : Nat := 2 ^ 31 - 1

/-! ### Words -/

/-- The `w` little-endian bytes of `n`; bits above `8 * w` are dropped. -/
def leBytes : Nat → Nat → List UInt8
  | 0, _ => []
  | w + 1, n => UInt8.ofNat (n % 256) :: leBytes w (n / 256)

/-- The number whose little-endian bytes these are. -/
def ofLeBytes : List UInt8 → Nat
  | [] => 0
  | b :: bs => b.toNat + 256 * ofLeBytes bs

@[simp] theorem length_leBytes (w n : Nat) : (leBytes w n).length = w := by
  induction w generalizing n with
  | zero => rfl
  | succ w ih => simp [leBytes, ih]

theorem ofLeBytes_leBytes (w n : Nat) : ofLeBytes (leBytes w n) = n % 256 ^ w := by
  induction w generalizing n with
  | zero => simp [leBytes, ofLeBytes, Nat.mod_one]
  | succ w ih =>
    have h : (UInt8.ofNat (n % 256)).toNat = n % 256 := by
      simp [UInt8.toNat, UInt8.ofNat, Nat.mod_mod]
    rw [leBytes, ofLeBytes, ih, h, pow_succ', Nat.mod_mul]

theorem ofLeBytes_leBytes_of_lt {w n : Nat} (h : n < 256 ^ w) : ofLeBytes (leBytes w n) = n := by
  rw [ofLeBytes_leBytes, Nat.mod_eq_of_lt h]

@[simp] theorem ofLeBytes_leBytes_u64 (x : UInt64) : ofLeBytes (leBytes 8 x.toNat) = x.toNat :=
  ofLeBytes_leBytes_of_lt (x.toNat_lt_size.trans_eq rfl)

@[simp] theorem ofLeBytes_leBytes_u32 (x : UInt32) : ofLeBytes (leBytes 4 x.toNat) = x.toNat :=
  ofLeBytes_leBytes_of_lt (x.toNat_lt_size.trans_eq rfl)

@[simp] theorem ofLeBytes_leBytes_offset (x : Offset) : ofLeBytes (leBytes 8 x.toNat) = x.toNat :=
  ofLeBytes_leBytes_of_lt (x.isLt.trans_eq rfl)

@[simp] theorem u64_ofNat_toNat (x : UInt64) : UInt64.ofNat x.toNat = x :=
  UInt64.eq_of_toBitVec_eq (by simp [UInt64.toBitVec, UInt64.ofNat, UInt64.toNat])

@[simp] theorem u32_ofNat_toNat (x : UInt32) : UInt32.ofNat x.toNat = x :=
  UInt32.eq_of_toBitVec_eq (by simp [UInt32.toBitVec, UInt32.ofNat, UInt32.toNat])

/-- A `uint64_t` or a `size_t`, as `ostream::write` lays it out on a little-endian machine. -/
def u64Bytes (x : UInt64) : List UInt8 := leBytes 8 x.toNat

@[simp] theorem length_u64Bytes (x : UInt64) : (u64Bytes x).length = 8 := length_leBytes 8 _

/-! ### Raw records -/

/-- A trivially copyable record `T` as `write((char*)&x, sizeof(T))` lays it out and
`read` takes it back: `size` is `sizeof(T)`. -/
structure Raw (α : Type) where
  size : Nat
  enc : α → List UInt8
  dec : List UInt8 → α
  length_enc : ∀ a, (enc a).length = size
  dec_enc : ∀ a, dec (enc a) = a

/-- Modelled from the spec: `strand_t` as one byte, `FWD` 1 and `REV` -1. -/
def strandByte : Strand → UInt8
  | .FWD => 1
  | .REV => 0xFF

/-- Modelled from the spec: `side` as one byte, `OPEN` 0 and `CLOSE` 1. -/
def sideByte : Side → UInt8
  | .OPEN => 0
  | .CLOSE => 1

/-- Modelled from the spec: `MinmerInfo` written raw (§4.3), its fields at the widths of
§3 in declaration order and padded to 32 bytes. -/
def minmerInfoRaw : Raw MinmerInfo where
  size := 32
  enc mi := leBytes 8 mi.hash.toNat ++ leBytes 8 mi.wpos.toNat ++ leBytes 8 mi.wposEnd.toNat ++
    leBytes 4 mi.seqId.toNat ++ [strandByte mi.strand, 0, 0, 0]
  dec bs :=
    let b₁ := bs.drop 8; let b₂ := b₁.drop 8; let b₃ := b₂.drop 8; let b₄ := b₃.drop 4
    { hash := UInt64.ofNat (ofLeBytes (bs.take 8))
      wpos := BitVec.ofNat 64 (ofLeBytes (b₁.take 8))
      wposEnd := BitVec.ofNat 64 (ofLeBytes (b₂.take 8))
      seqId := UInt32.ofNat (ofLeBytes (b₃.take 4))
      strand := if b₄.headD 0 = 0xFF then .REV else .FWD }
  length_enc _ := by simp
  dec_enc mi := by
    obtain ⟨h, p, e, i, st⟩ := mi
    cases st <;> simp [List.take_left', List.drop_left', strandByte]

/-- Modelled from the spec: `IntervalPoint` written raw (§4.3), its fields at the widths
of §3 in declaration order and padded to 24 bytes. -/
def intervalPointRaw : Raw IntervalPoint where
  size := 24
  enc ip := leBytes 8 ip.pos.toNat ++ leBytes 8 ip.hash.toNat ++ leBytes 4 ip.seqId.toNat ++
    [sideByte ip.side, 0, 0, 0]
  dec bs :=
    let b₁ := bs.drop 8; let b₂ := b₁.drop 8; let b₃ := b₂.drop 4
    { pos := BitVec.ofNat 64 (ofLeBytes (bs.take 8))
      hash := UInt64.ofNat (ofLeBytes (b₁.take 8))
      seqId := UInt32.ofNat (ofLeBytes (b₂.take 4))
      side := if b₃.headD 0 = 1 then .CLOSE else .OPEN }
  length_enc _ := by simp
  dec_enc ip := by
    obtain ⟨p, h, i, sd⟩ := ip
    cases sd <;> simp [List.take_left', List.drop_left', sideByte]

/-! ### Writing -/

/-- `writeParameters`. -/
def writeParameters (p : Parameters) : List UInt8 :=
  u64Bytes p.segLength ++ u64Bytes p.sketchSize ++ u64Bytes p.kmerSize

/-- `writeSketchBinary`: the `size_t` count, then the records. -/
def writeSketchBinary (minmerIndex : List MinmerInfo) : List UInt8 :=
  u64Bytes (UInt64.ofNat minmerIndex.length) ++ minmerIndex.flatMap minmerInfoRaw.enc

/-- One entry of `writePosListBinary`: the key, the `size_t` count, then the points. -/
def writePosEntry (e : Hash × List IntervalPoint) : List UInt8 :=
  u64Bytes e.1 ++ u64Bytes (UInt64.ofNat e.2.length) ++ e.2.flatMap intervalPointRaw.enc

/-- `writePosListBinary`: the `size_t` count, then the entries in iteration order. -/
def writePosListBinary (m : PosMap) : List UInt8 :=
  u64Bytes (UInt64.ofNat m.length) ++ m.flatMap writePosEntry

/-- `writeFreqKmersBinary`: the `size_t` count, then the hashes in iteration order. -/
def writeFreqKmersBinary (frequentSeeds : DenseSet Hash) : List UInt8 :=
  u64Bytes (UInt64.ofNat frequentSeeds.length) ++ frequentSeeds.flatMap u64Bytes

/-- `writeIndex`: the bytes of the index file. -/
def writeIndex (s : Sketch) : List UInt8 :=
  writeParameters s.param ++ writeSketchBinary s.minmerIndex ++
    writePosListBinary s.minmerPosLookupIndex ++ writeFreqKmersBinary s.frequentSeeds

/-! ### Reading -/

/-- A reader of an `std::ifstream`: what it reads, and the bytes after it. -/
abbrev Reader (α : Type) := List UInt8 → Except Halt (α × List UInt8)

@[simp] theorem ok_bind {α β : Type} (a : α) (f : α → Except Halt β) :
    (Except.ok a >>= f) = f a := rfl

/-- `read(buf, n)` into a buffer of `n` bytes that holds `buf`: the first `n` bytes of the
stream, or all it has left, over the front of the buffer. -/
def readBytes (n : Nat) (buf : List UInt8) : Reader (List UInt8) := fun bs =>
  .ok (bs.take n ++ buf.drop bs.length, bs.drop n)

theorem readBytes_append {n : Nat} {pre buf : List UInt8} (rest : List UInt8)
    (h : pre.length = n) (hbuf : buf.length ≤ n) :
    readBytes n buf (pre ++ rest) = .ok (pre, rest) := by
  have hdrop : buf.drop (pre ++ rest).length = [] :=
    List.drop_eq_nil_of_le (by simp only [List.length_append]; omega)
  simp only [readBytes, List.take_left' h, List.drop_left' h, hdrop, List.append_nil]

/-- `read((char*)&x, sizeof(x))` of a `uint64_t` or a `size_t` that holds `0`. -/
def readU64 : Reader UInt64 := fun bs => do
  let (w, bs) ← readBytes 8 (List.replicate 8 0) bs
  pure (UInt64.ofNat (ofLeBytes w), bs)

@[simp] theorem readU64_u64Bytes (x : UInt64) (rest : List UInt8) :
    readU64 (u64Bytes x ++ rest) = .ok (x, rest) := by
  simp only [readU64, readBytes_append rest (length_u64Bytes x) (List.length_replicate 8 0).le,
    ok_bind]
  simp [u64Bytes, pure, Except.pure]

/-- `read((char*)&x, sizeof(x))` of a `uint64_t` that holds no value: a short read leaves
some of its bytes unset, and the comparison that follows is undefined. -/
def readU64Unset : Reader UInt64 := fun bs =>
  if 8 ≤ bs.length then readU64 bs else .error .indeterminate

@[simp] theorem readU64Unset_u64Bytes (x : UInt64) (rest : List UInt8) :
    readU64Unset (u64Bytes x ++ rest) = .ok (x, rest) := by
  simp [readU64Unset]

/-- `n` records, decoded from `n * r.size` bytes. -/
def decodeRecords {α : Type} (r : Raw α) : Nat → List UInt8 → List α
  | 0, _ => []
  | n + 1, bs => r.dec (bs.take r.size) :: decodeRecords r n (bs.drop r.size)

/-- The bytes of `v.resize(n)`: the first `n` records of `v`, then value-initialised ones. -/
def resizedBytes {α : Type} (r : Raw α) (v : List α) (n : Nat) : List UInt8 :=
  (v.take n).flatMap r.enc ++ List.replicate ((n - v.length) * r.size) 0

/-- `v.resize(n); read((char*)&v[0], n * sizeof(T))`: `n` records. -/
def readRecords {α : Type} (r : Raw α) (v : List α) (n : Nat) : Reader (List α) := fun bs => do
  let (chunk, bs) ← readBytes (n * r.size) (resizedBytes r v n) bs
  pure (decodeRecords r n chunk, bs)

theorem length_flatMap_enc {α : Type} (r : Raw α) (as : List α) :
    (as.flatMap r.enc).length = as.length * r.size := by
  induction as with
  | nil => simp
  | cons a as ih => simp [r.length_enc, ih, Nat.succ_mul, Nat.add_comm]

theorem length_resizedBytes {α : Type} (r : Raw α) (v : List α) (n : Nat) :
    (resizedBytes r v n).length = n * r.size := by
  simp only [resizedBytes, List.length_append, length_flatMap_enc, List.length_take,
    List.length_replicate, ← Nat.add_mul]
  congr 1
  omega

theorem decodeRecords_flatMap_enc {α : Type} (r : Raw α) (as : List α) :
    decodeRecords r as.length (as.flatMap r.enc) = as := by
  induction as with
  | nil => rfl
  | cons a as ih =>
    simp [decodeRecords, List.take_left' (r.length_enc a), List.drop_left' (r.length_enc a),
      r.dec_enc, ih]

@[simp] theorem readRecords_flatMap_enc {α : Type} (r : Raw α) (v as : List α)
    (rest : List UInt8) : readRecords r v as.length (as.flatMap r.enc ++ rest) = .ok (as, rest) := by
  simp [readRecords, readBytes_append rest (length_flatMap_enc r as)
    (length_resizedBytes r v _).le, decodeRecords_flatMap_enc, pure, Except.pure]

/-- `readSketchBinary`: `minmerIndex.resize(size)` and a read over all of it, so the
records read replace whatever the vector held. -/
def readSketchBinary (minmerIndex : List MinmerInfo) : Reader (List MinmerInfo) := fun bs => do
  let (size, bs) ← readU64 bs
  readRecords minmerInfoRaw minmerIndex size.toNat bs

/-- The body of `readPosListBinary`'s loop: a key, a `size_t` count and that many points,
read over `minmerPosLookupIndex[key]`. -/
def readPosEntry (m : PosMap) : Reader (Hash × List IntervalPoint) := fun bs => do
  let (key, bs) ← readU64 bs
  let (size, bs) ← readU64 bs
  let (pts, bs) ← readRecords intervalPointRaw (m.get key) size.toNat bs
  pure ((key, pts), bs)

/-- The loop of `readPosListBinary`, `k` keys before its end, with `idx` its `int`:
`minmerPosLookupIndex[key]` is resized and overwritten with the points, then `idx++`. -/
def readPosListLoop : Nat → Nat → PosMap → Reader PosMap
  | 0, _, m, bs => .ok (m, bs)
  | k + 1, idx, m, bs => do
    let ((key, pts), bs) ← readPosEntry m bs
    if idx = intMax then .error .intOverflow
    else readPosListLoop k (idx + 1) (DenseMap.alter [] m key fun _ => pts) bs

/-- `readPosListBinary`, into the map it is given. -/
def readPosListBinary (m : PosMap) : Reader PosMap := fun bs => do
  let (numKeys, bs) ← readU64 bs
  readPosListLoop numKeys.toNat 0 m bs

/-- The loop of `readFreqKmersBinary`, `k` keys before its end, with `idx` its `int`. -/
def readFreqKmersLoop : Nat → Nat → DenseSet Hash → Reader (DenseSet Hash)
  | 0, _, fs, bs => .ok (fs, bs)
  | k + 1, idx, fs, bs => do
    let (key, bs) ← readU64 bs
    if idx = intMax then .error .intOverflow else readFreqKmersLoop k (idx + 1) (fs.insert key) bs

/-- `readFreqKmersBinary`, into the set it is given. -/
def readFreqKmersBinary (frequentSeeds : DenseSet Hash) : Reader (DenseSet Hash) := fun bs => do
  let (numKeys, bs) ← readU64 bs
  readFreqKmersLoop numKeys.toNat 0 frequentSeeds bs

/-- `readParameters`: `exit(1)` when a stored parameter differs from the caller's. -/
def readParameters (p : Parameters) : Reader Unit := fun bs => do
  let (segLength, bs) ← readU64Unset bs
  let (sketchSize, bs) ← readU64Unset bs
  let (kmerSize, bs) ← readU64Unset bs
  if p.segLength ≠ segLength ∨ p.sketchSize ≠ sketchSize ∨ p.kmerSize ≠ kmerSize then
    .error (.exit 1)
  else .ok ((), bs)

/-- `readIndex`. -/
def readIndex (s : Sketch) : Reader Sketch := fun bs => do
  let ((), bs) ← readParameters s.param bs
  let (minmerIndex, bs) ← readSketchBinary s.minmerIndex bs
  let (m, bs) ← readPosListBinary s.minmerPosLookupIndex bs
  let (fs, bs) ← readFreqKmersBinary s.frequentSeeds bs
  pure ({ s with minmerIndex, minmerPosLookupIndex := m, frequentSeeds := fs }, bs)

/-! ### Reading what was written -/

/-- Every count `writeIndex` writes fits its `size_t`. -/
def CountsFit (s : Sketch) : Prop :=
  s.minmerIndex.length < 2 ^ 64 ∧ s.minmerPosLookupIndex.length < 2 ^ 64 ∧
    (∀ e ∈ s.minmerPosLookupIndex, e.2.length < 2 ^ 64) ∧ s.frequentSeeds.length < 2 ^ 64

instance (s : Sketch) : Decidable (CountsFit s) := inferInstanceAs (Decidable (_ ∧ _))

theorem toNat_ofNat_length {α : Type} {l : List α} (h : l.length < 2 ^ 64) :
    (UInt64.ofNat l.length).toNat = l.length :=
  UInt64.toNat_ofNat_of_lt (h.trans_eq rfl)

theorem readParameters_writeParameters (p q : Parameters) (rest : List UInt8) :
    readParameters p (writeParameters q ++ rest) =
      if p.segLength ≠ q.segLength ∨ p.sketchSize ≠ q.sketchSize ∨ p.kmerSize ≠ q.kmerSize then
        .error (.exit 1)
      else .ok ((), rest) := by
  simp only [readParameters, writeParameters, List.append_assoc, readU64Unset_u64Bytes, ok_bind]

theorem readSketchBinary_write (v mi : List MinmerInfo) (h : mi.length < 2 ^ 64)
    (rest : List UInt8) : readSketchBinary v (writeSketchBinary mi ++ rest) = .ok (mi, rest) := by
  simp only [readSketchBinary, writeSketchBinary, List.append_assoc, readU64_u64Bytes, ok_bind,
    toNat_ofNat_length h, readRecords_flatMap_enc]

theorem readPosEntry_writePosEntry (m : PosMap) (e : Hash × List IntervalPoint)
    (h : e.2.length < 2 ^ 64) (rest : List UInt8) :
    readPosEntry m (writePosEntry e ++ rest) = .ok (e, rest) := by
  simp only [readPosEntry, writePosEntry, List.append_assoc, readU64_u64Bytes, ok_bind,
    toNat_ofNat_length h, readRecords_flatMap_enc]
  rfl

/-- Below `INT_MAX` the loop reads every entry written and puts it in the map. -/
theorem readPosListLoop_ok (es : PosMap) (hfit : ∀ e ∈ es, e.2.length < 2 ^ 64)
    (idx : Nat) (m : PosMap) (rest : List UInt8) (hidx : idx + es.length ≤ intMax) :
    readPosListLoop es.length idx m (es.flatMap writePosEntry ++ rest) =
      .ok (es.foldl (fun m e => DenseMap.alter [] m e.1 fun _ => e.2) m, rest) := by
  induction es generalizing idx m with
  | nil => rfl
  | cons e es ih =>
    simp only [List.length_cons] at hidx
    simp only [readPosListLoop, List.flatMap_cons, List.append_assoc,
      readPosEntry_writePosEntry _ e (hfit e (List.mem_cons_self _ _)), ok_bind,
      if_neg (show idx ≠ intMax by omega), List.foldl_cons]
    exact ih (fun e he => hfit e (List.mem_cons_of_mem _ he)) _ _ (by omega)

/-- With more than `INT_MAX - idx` entries the loop reaches `idx++` at `INT_MAX`. -/
theorem readPosListLoop_overflow (es : PosMap) (hfit : ∀ e ∈ es, e.2.length < 2 ^ 64)
    (idx : Nat) (m : PosMap) (rest : List UInt8) (hle : idx ≤ intMax)
    (hgt : intMax < idx + es.length) :
    readPosListLoop es.length idx m (es.flatMap writePosEntry ++ rest) = .error .intOverflow := by
  induction es generalizing idx m with
  | nil => simp at hgt; omega
  | cons e es ih =>
    simp only [List.length_cons] at hgt
    simp only [readPosListLoop, List.flatMap_cons, List.append_assoc,
      readPosEntry_writePosEntry _ e (hfit e (List.mem_cons_self _ _)), ok_bind]
    split
    · rfl
    · exact ih (fun e he => hfit e (List.mem_cons_of_mem _ he)) _ _ (by omega) (by omega)

theorem readFreqKmersLoop_ok (fs : DenseSet Hash) (idx : Nat) (acc : DenseSet Hash)
    (rest : List UInt8) (hidx : idx + fs.length ≤ intMax) :
    readFreqKmersLoop fs.length idx acc (fs.flatMap u64Bytes ++ rest) =
      .ok (fs.foldl DenseSet.insert acc, rest) := by
  induction fs generalizing idx acc with
  | nil => rfl
  | cons k fs ih =>
    simp only [List.length_cons] at hidx
    simp only [readFreqKmersLoop, List.flatMap_cons, List.append_assoc, readU64_u64Bytes, ok_bind,
      if_neg (show idx ≠ intMax by omega), List.foldl_cons]
    exact ih _ _ (by omega)

theorem readFreqKmersLoop_overflow (fs : DenseSet Hash) (idx : Nat) (acc : DenseSet Hash)
    (rest : List UInt8) (hle : idx ≤ intMax) (hgt : intMax < idx + fs.length) :
    readFreqKmersLoop fs.length idx acc (fs.flatMap u64Bytes ++ rest) = .error .intOverflow := by
  induction fs generalizing idx acc with
  | nil => simp at hgt; omega
  | cons k fs ih =>
    simp only [List.length_cons] at hgt
    simp only [readFreqKmersLoop, List.flatMap_cons, List.append_assoc, readU64_u64Bytes, ok_bind]
    split
    · rfl
    · exact ih _ _ (by omega) (by omega)

/-- Entries with new keys, put into a map one by one, land at its end in order. -/
theorem foldl_alter_const (es m : PosMap) (h : (DenseMap.keys (m ++ es)).Nodup) :
    es.foldl (fun m e => DenseMap.alter [] m e.1 fun _ => e.2) m = m ++ es := by
  induction es generalizing m with
  | nil => simp
  | cons e es ih =>
    simp only [DenseMap.keys, List.map_append, List.map_cons] at h
    have he : e.1 ∉ DenseMap.keys m := fun hm =>
      (List.nodup_append.mp h).2.2 hm (List.mem_cons_self _ _)
    rw [List.foldl_cons, DenseMap.alter_of_not_mem _ he, ih _ (by simpa [DenseMap.keys] using h)]
    simp

theorem foldl_insert_of_nodup (fs acc : DenseSet Hash) (h : (acc ++ fs).Nodup) :
    fs.foldl DenseSet.insert acc = acc ++ fs := by
  induction fs generalizing acc with
  | nil => simp
  | cons k fs ih =>
    have hk : k ∉ acc := fun hm => (List.nodup_append.mp h).2.2 hm (List.mem_cons_self _ _)
    rw [List.foldl_cons, DenseSet.insert_of_not_mem hk, ih _ (by simpa using h)]
    simp

theorem readPosListBinary_write_ok (es m : PosMap) (hlen : es.length ≤ intMax)
    (hfit : ∀ e ∈ es, e.2.length < 2 ^ 64) (rest : List UInt8) :
    readPosListBinary m (writePosListBinary es ++ rest) =
      .ok (es.foldl (fun m e => DenseMap.alter [] m e.1 fun _ => e.2) m, rest) := by
  have hlen' : es.length < 2 ^ 64 := by unfold intMax at hlen; omega
  simp only [readPosListBinary, writePosListBinary, List.append_assoc, readU64_u64Bytes, ok_bind,
    toNat_ofNat_length hlen', readPosListLoop_ok es hfit 0 m rest (by omega)]

theorem readPosListBinary_write_overflow (es : PosMap) (hlen : intMax < es.length)
    (hlen' : es.length < 2 ^ 64) (hfit : ∀ e ∈ es, e.2.length < 2 ^ 64) (m : PosMap)
    (rest : List UInt8) :
    readPosListBinary m (writePosListBinary es ++ rest) = .error .intOverflow := by
  simp only [readPosListBinary, writePosListBinary, List.append_assoc, readU64_u64Bytes, ok_bind,
    toNat_ofNat_length hlen', readPosListLoop_overflow es hfit 0 m rest (Nat.zero_le _) (by omega)]

theorem readFreqKmersBinary_write_ok (fs acc : DenseSet Hash) (hlen : fs.length ≤ intMax)
    (rest : List UInt8) :
    readFreqKmersBinary acc (writeFreqKmersBinary fs ++ rest) =
      .ok (fs.foldl DenseSet.insert acc, rest) := by
  have hlen' : fs.length < 2 ^ 64 := by unfold intMax at hlen; omega
  simp only [readFreqKmersBinary, writeFreqKmersBinary, List.append_assoc, readU64_u64Bytes,
    ok_bind, toNat_ofNat_length hlen', readFreqKmersLoop_ok fs 0 acc rest (by omega)]

theorem readFreqKmersBinary_write_overflow (fs : DenseSet Hash) (hlen : intMax < fs.length)
    (hlen' : fs.length < 2 ^ 64) (acc : DenseSet Hash) (rest : List UInt8) :
    readFreqKmersBinary acc (writeFreqKmersBinary fs ++ rest) = .error .intOverflow := by
  simp only [readFreqKmersBinary, writeFreqKmersBinary, List.append_assoc, readU64_u64Bytes,
    ok_bind, toNat_ofNat_length hlen', readFreqKmersLoop_overflow fs 0 acc rest (Nat.zero_le _)
      (by omega)]

section ReadIndex

variable (s₀ s : Sketch) (rest : List UInt8)
  (hpar : s₀.param.segLength = s.param.segLength ∧ s₀.param.sketchSize = s.param.sketchSize ∧
    s₀.param.kmerSize = s.param.kmerSize)
  (hfit : CountsFit s)

include hpar hfit in
/-- Below `2^31` keys and seeds, `readIndex` into empty containers restores what
`writeIndex` wrote and consumes exactly its bytes. -/
theorem readIndex_writeIndex_of_le (hm : s₀.minmerPosLookupIndex = [])
    (hf : s₀.frequentSeeds = []) (hkeys : (DenseMap.keys s.minmerPosLookupIndex).Nodup)
    (hseeds : s.frequentSeeds.Nodup) (hk : s.minmerPosLookupIndex.length ≤ intMax)
    (hs : s.frequentSeeds.length ≤ intMax) :
    readIndex s₀ (writeIndex s ++ rest) =
      .ok ({ s₀ with minmerIndex := s.minmerIndex, minmerPosLookupIndex := s.minmerPosLookupIndex,
                     frequentSeeds := s.frequentSeeds }, rest) := by
  obtain ⟨h1, -, h3, -⟩ := hfit
  simp only [readIndex, writeIndex, List.append_assoc, readParameters_writeParameters, hpar,
    ne_eq, not_true_eq_false, or_self, if_false, ok_bind, readSketchBinary_write _ _ h1, hm, hf,
    readPosListBinary_write_ok _ _ hk h3, readFreqKmersBinary_write_ok _ _ hs,
    foldl_alter_const _ [] (by simpa using hkeys), foldl_insert_of_nodup _ [] (by simpa using hseeds),
    List.nil_append]
  rfl

include hpar hfit in
/-- With `2^31` keys or more, or `2^31` seeds or more, a reader loop overflows its `int`. -/
theorem readIndex_writeIndex_overflow
    (hover : intMax < s.minmerPosLookupIndex.length ∨ intMax < s.frequentSeeds.length) :
    readIndex s₀ (writeIndex s ++ rest) = .error .intOverflow := by
  obtain ⟨h1, h2, h3, h4⟩ := hfit
  simp only [readIndex, writeIndex, List.append_assoc, readParameters_writeParameters, hpar,
    ne_eq, not_true_eq_false, or_self, if_false, ok_bind, readSketchBinary_write _ _ h1]
  by_cases hk : intMax < s.minmerPosLookupIndex.length
  · simp only [readPosListBinary_write_overflow _ hk h2 h3]
    rfl
  · simp only [readPosListBinary_write_ok _ _ (Nat.le_of_not_lt hk) h3, ok_bind,
      readFreqKmersBinary_write_overflow _ (hover.resolve_left hk) h4]
    rfl

include hpar hfit in
/-- **Round trip.** `readIndex`, on the bytes `writeIndex` wrote followed by anything, into
a sketch with empty containers and the same three parameters: with fewer than `2^31` keys
and fewer than `2^31` frequent seeds it consumes exactly the bytes written and restores
`minmerIndex`, `minmerPosLookupIndex` and `frequentSeeds`; from `2^31` on, the `int`
counter of a reader loop overflows. -/
theorem readIndex_writeIndex (hm : s₀.minmerPosLookupIndex = []) (hf : s₀.frequentSeeds = [])
    (hkeys : (DenseMap.keys s.minmerPosLookupIndex).Nodup) (hseeds : s.frequentSeeds.Nodup) :
    readIndex s₀ (writeIndex s ++ rest) =
      if intMax < s.minmerPosLookupIndex.length ∨ intMax < s.frequentSeeds.length then
        .error .intOverflow
      else
        .ok ({ s₀ with minmerIndex := s.minmerIndex,
                       minmerPosLookupIndex := s.minmerPosLookupIndex,
                       frequentSeeds := s.frequentSeeds }, rest) := by
  split_ifs with hover
  · exact readIndex_writeIndex_overflow s₀ s rest hpar hfit hover
  · push_neg at hover
    exact readIndex_writeIndex_of_le s₀ s rest hpar hfit hm hf hkeys hseeds hover.1 hover.2

end ReadIndex

/-- A sketch with one window of hash 5, its two points, and 5 frequent. -/
def oneWindowIndex : Sketch :=
  { Sketch.create default [] [] with
    minmerIndex := [⟨5, 0, 10, 0, .FWD⟩]
    minmerPosLookupIndex := [(5, [⟨0, 5, 0, .OPEN⟩, ⟨10, 5, 0, .CLOSE⟩])]
    frequentSeeds := [5] }

theorem readIndex_writeIndex_one_window :
    ((Sketch.create default [] []).param.segLength = oneWindowIndex.param.segLength ∧
        (Sketch.create default [] []).param.sketchSize = oneWindowIndex.param.sketchSize ∧
        (Sketch.create default [] []).param.kmerSize = oneWindowIndex.param.kmerSize) ∧
      CountsFit oneWindowIndex ∧ (Sketch.create default [] []).minmerPosLookupIndex = [] ∧
      (Sketch.create default [] []).frequentSeeds = [] ∧
      (DenseMap.keys oneWindowIndex.minmerPosLookupIndex).Nodup ∧
      oneWindowIndex.frequentSeeds.Nodup ∧
      readIndex (Sketch.create default [] []) (writeIndex oneWindowIndex ++ []) =
        if intMax < oneWindowIndex.minmerPosLookupIndex.length ∨
            intMax < oneWindowIndex.frequentSeeds.length then .error .intOverflow
        else .ok ({ Sketch.create default [] [] with
                      minmerIndex := oneWindowIndex.minmerIndex,
                      minmerPosLookupIndex := oneWindowIndex.minmerPosLookupIndex,
                      frequentSeeds := oneWindowIndex.frequentSeeds }, []) :=
  ⟨by decide, by decide, rfl, rfl, by decide, by decide,
    readIndex_writeIndex _ _ [] (by decide) (by decide) rfl rfl (by decide) (by decide)⟩

end Wfmash.Skch

import Mathlib.Data.List.Perm.Basic

/-!
# The alignment pipeline

`Aligner::computeAlignments` runs one reader thread, `nthreads` worker threads and one
writer thread, connected by two `atomic_queue::AtomicQueue`s of capacity `2 << 16`:

    reader:  for each non-empty line: seq_queue.push(new seq_record_t(...));
             reader_done.store(true);
    worker:  is_working.store(true);
             while (true) {
               if (!seq_queue.try_pop(rec) && reader_done.load()) break;
               else if (rec != nullptr) { doAlignment(...); if (!out.empty()) paf_queue.push(out); }
               else sleep;
             }
             is_working.store(false);
    writer:  while (true) {
               if (!paf_queue.try_pop(paf_lines) && !still_working(working)) break;
               else if (paf_lines != nullptr) outstrm << *paf_lines;
               else sleep;
             }

where `still_working` loads `working[0]`, `working[1]`, … in turn until one is `true`.

## The model

A state holds each thread's place (`WorkerPc`, `WriterPc`; the reader's is the list of
envelopes it has still to push and the flag `reader_done`), the two queues, the flags
`working[t]`, what the writer has written, and, as a ghost, the envelopes passed to
`doAlignment`. A step (`step`) is one atomic action of one thread: a push, a `try_pop`,
one load or store of a flag. What a thread computes on its own between two such actions
(reading and parsing a line, running the aligner, writing to the stream) is folded into
the next action. A push onto a full queue spins: the step is not enabled. A schedule is
a list of threads; `run` takes their steps in turn. The envelope type `α` and
`doAlignment`'s output are parameters: nothing here depends on what a record holds.

The `WFA_PNG_TSV_TIMING` channels (`tsv_queue`, `patching_tsv_queue` and their writers)
are not compiled by default and are not modelled; their loops have the writer's shape.

## What is proved

* `run_conserves` — over every schedule, every envelope is either still to be pushed,
  in `seq_queue`, held by one worker, or aligned, exactly once; and every non-empty
  result of an aligned envelope is either in `paf_queue` or written, exactly once.
* `output_of_drained` — so a state with nothing left to push, queued or held has aligned
  every envelope once and written exactly their non-empty results.
* `run_writer_done` — over every schedule with at least one worker, once the writer has
  returned every worker has returned and the reader has pushed everything and stored
  `reader_done`: the threads return in the order the design intends, so what goes missing
  in the two runs below is left in a queue, not in a thread still running.
* `run_one_worker_output_prefix` — with one worker, at every point of every schedule,
  what the writer has written is a prefix of the non-empty results of the file's
  envelopes, in the file's order; with two workers, the results are written in the order
  the alignments finish.
* `run_runThrough` — for every file and every number of workers, the schedule
  `runThrough` takes every thread to its return with both queues empty, every envelope
  aligned once and every non-empty result written, in the file's order: the losses below
  come from the interleaving, not from a state the threads cannot leave.
* `workers_leave_record_in_queue` — a schedule after which every worker has left its
  loop, and the writer too, while the envelope the reader pushed is still in
  `seq_queue`: the worker's `try_pop` fails, the reader pushes and sets `reader_done`,
  and the worker reads the flag and breaks.
* `writer_leaves_result_in_queue` — likewise, the writer's `try_pop` fails, the last
  worker pushes its result and clears its flag, and the writer reads the flag and
  breaks: a result is never written.
-/

namespace Wfmash.Align

/-- The capacity of `seq_atomic_queue_t` and `paf_atomic_queue_t`, `2 << 16`. -/
def queueCapacity : Nat := 2 <<< 16

/-- Where a worker is in `worker_thread`. -/
inductive WorkerPc (α : Type) where
  /-- Before `is_working.store(true)`. -/
  | start
  /-- At `seq_queue.try_pop(rec)`. -/
  | pop
  /-- `try_pop` failed; at `reader_done.load()`. -/
  | checkDone
  /-- Holding `rec`: next, `doAlignment` and the push of a non-empty result. -/
  | align (rec : α)
  /-- Out of the loop; at `is_working.store(false)`. -/
  | leave
  /-- Returned. -/
  | done
  deriving DecidableEq

/-- Where the writer is in `writer_thread`. -/
inductive WriterPc where
  /-- At `paf_queue.try_pop(paf_lines)`. -/
  | pop
  /-- `try_pop` failed; `still_working` is at `working[i].load()`. -/
  | scan (i : Nat)
  /-- Returned. -/
  | done
  deriving DecidableEq

/-- The shared state and the threads' places. -/
structure Pipeline (α : Type) where
  /-- The envelopes the reader has still to push, in file order. -/
  pending : List α
  /-- `reader_done`. -/
  readerDone : Bool
  /-- `seq_queue`, oldest first. -/
  seqQueue : List α
  /-- The workers, by `tid`. -/
  workers : List (WorkerPc α)
  /-- `working[t]`. -/
  working : List Bool
  /-- `paf_queue`, oldest first. -/
  pafQueue : List String
  writer : WriterPc
  /-- What `outstrm` received, in order. -/
  output : List String
  /-- The envelopes passed to `doAlignment`, in order. -/
  aligned : List α

/-- The threads a schedule chooses from. -/
inductive Thread where
  | reader
  | worker (tid : Nat)
  | writer
  deriving DecidableEq

variable {α : Type}

/-- The state when the threads are launched: `reader_done` false, every `working[t]`
true, both queues empty. -/
def Pipeline.init (envelopes : List α) (nthreads : Nat) : Pipeline α where
  pending := envelopes
  readerDone := false
  seqQueue := []
  workers := List.replicate nthreads .start
  working := List.replicate nthreads true
  pafQueue := []
  writer := .pop
  output := []
  aligned := []

/-- One step of the reader: push the next envelope, or, when none is left, store
`reader_done`. -/
def readerStep (s : Pipeline α) : Option (Pipeline α) :=
  match s.pending with
  | x :: rest =>
    if s.seqQueue.length < queueCapacity then
      some { s with pending := rest, seqQueue := s.seqQueue ++ [x] }
    else none
  | [] => if s.readerDone then none else some { s with readerDone := true }

/-- One step of worker `t`, at `pc`. -/
def workerStep (doAlignment : α → String) (s : Pipeline α) (t : Nat) :
    WorkerPc α → Option (Pipeline α)
  | .start => some { s with workers := s.workers.set t .pop, working := s.working.set t true }
  | .pop =>
    match s.seqQueue with
    | x :: q => some { s with seqQueue := q, workers := s.workers.set t (.align x) }
    | [] => some { s with workers := s.workers.set t .checkDone }
  | .checkDone =>
    some { s with workers := s.workers.set t (if s.readerDone then .leave else .pop) }
  | .align x =>
    if doAlignment x = "" then
      some { s with workers := s.workers.set t .pop, aligned := s.aligned ++ [x] }
    else if s.pafQueue.length < queueCapacity then
      some { s with
        pafQueue := s.pafQueue ++ [doAlignment x]
        workers := s.workers.set t .pop
        aligned := s.aligned ++ [x] }
    else none
  | .leave => some { s with workers := s.workers.set t .done, working := s.working.set t false }
  | .done => none

/-- One step of the writer. -/
def writerStep (s : Pipeline α) : WriterPc → Option (Pipeline α)
  | .pop =>
    match s.pafQueue with
    | r :: q => some { s with pafQueue := q, output := s.output ++ [r] }
    | [] => some { s with writer := .scan 0 }
  | .scan i =>
    match s.working[i]? with
    | some true => some { s with writer := .pop }
    | some false => some { s with writer := .scan (i + 1) }
    | none => some { s with writer := .done }
  | .done => none

/-- One atomic step of thread `th`, if it is enabled. -/
def step (doAlignment : α → String) (s : Pipeline α) : Thread → Option (Pipeline α)
  | .reader => readerStep s
  | .worker t =>
    match s.workers[t]? with
    | some pc => workerStep doAlignment s t pc
    | none => none
  | .writer => writerStep s s.writer

/-- The steps of a schedule, in turn; `none` when one of them is not enabled. -/
def run (doAlignment : α → String) : Pipeline α → List Thread → Option (Pipeline α)
  | s, [] => some s
  | s, th :: sched =>
    match step doAlignment s th with
    | some s' => run doAlignment s' sched
    | none => none

/-! ### Conservation -/

/-- The envelope a worker holds, if any. -/
def WorkerPc.held? : WorkerPc α → Option α
  | .align x => some x
  | _ => none

/-- The envelopes the workers hold. -/
def Pipeline.held (s : Pipeline α) : List α := s.workers.filterMap WorkerPc.held?

/-- Nothing is lost, duplicated or invented so far: the envelopes of the file are those
aligned, held, queued or still to be pushed, each once; the results written or queued
are the non-empty results of the envelopes aligned, in the order they were aligned. -/
structure Conserves (doAlignment : α → String) (envelopes : List α) (s : Pipeline α) : Prop where
  envelopes_perm : (s.aligned ++ s.held ++ s.seqQueue ++ s.pending).Perm envelopes
  results_eq : s.output ++ s.pafQueue = (s.aligned.map doAlignment).filter (· ≠ "")

theorem filterMap_cons_toList {β γ : Type} (g : β → Option γ) (x : β) (l : List β) :
    (x :: l).filterMap g = (g x).toList ++ l.filterMap g := by
  cases h : g x <;> simp [List.filterMap_cons, h]

/-- Replacing one worker's place changes what the workers hold by what that worker held. -/
theorem filterMap_set_perm {β γ : Type} (g : β → Option γ) :
    ∀ (ws : List β) (t : Nat) (old new : β), ws[t]? = some old →
      ((ws.set t new).filterMap g ++ (g old).toList).Perm (ws.filterMap g ++ (g new).toList)
  | [], _, _, _, h => by simp at h
  | w :: ws, 0, old, new, h => by
    obtain rfl : w = old := by simpa using h
    simp only [List.set_cons_zero, filterMap_cons_toList]
    calc List.Perm _ ((ws.filterMap g ++ (g w).toList) ++ (g new).toList) := by
          rw [List.append_assoc]; exact List.perm_append_comm
      List.Perm _ (((g w).toList ++ ws.filterMap g) ++ (g new).toList) :=
        List.perm_append_comm.append_right _
  | w :: ws, t + 1, old, new, h => by
    simp only [List.set_cons_succ, filterMap_cons_toList, List.append_assoc]
    exact (filterMap_set_perm g ws t old new (by simpa using h)).append_left _

theorem held_set {s : Pipeline α} {t : Nat} {old : WorkerPc α} (h : s.workers[t]? = some old)
    (new : WorkerPc α) :
    ((s.workers.set t new).filterMap WorkerPc.held? ++ old.held?.toList).Perm
      (s.held ++ new.held?.toList) :=
  filterMap_set_perm _ _ _ _ _ h

/-- A worker step that does not move an envelope keeps what the workers hold. -/
theorem held_set_of_none {s : Pipeline α} {t : Nat} {old new : WorkerPc α}
    (h : s.workers[t]? = some old) (hold : old.held? = none) (hnew : new.held? = none) :
    ((s.workers.set t new).filterMap WorkerPc.held?).Perm s.held := by
  simpa [hold, hnew] using held_set h new

theorem conserves_init (doAlignment : α → String) (envelopes : List α) (n : Nat) :
    Conserves doAlignment envelopes (Pipeline.init envelopes n) := by
  constructor
  · simp [Pipeline.init, Pipeline.held, List.filterMap_replicate, WorkerPc.held?]
  · rfl

section Steps

variable {doAlignment : α → String} {envelopes : List α} {s s' : Pipeline α}

/-- A step that only moves places and flags, and no envelope, keeps `Conserves`. -/
theorem Conserves.of_held_perm (hc : Conserves doAlignment envelopes s)
    (ha : s'.aligned = s.aligned) (hq : s'.seqQueue = s.seqQueue) (hp : s'.pending = s.pending)
    (ho : s'.output = s.output) (hpq : s'.pafQueue = s.pafQueue) (hh : s'.held.Perm s.held) :
    Conserves doAlignment envelopes s' :=
  ⟨Trans.trans (by rw [ha, hq, hp]; exact ((hh.append_left _).append_right _).append_right _)
      hc.envelopes_perm,
    by rw [ho, hpq, ha]; exact hc.results_eq⟩

theorem readerStep_conserves (hc : Conserves doAlignment envelopes s)
    (h : readerStep s = some s') : Conserves doAlignment envelopes s' := by
  unfold readerStep at h
  cases hp : s.pending with
  | nil =>
    cases hd : s.readerDone <;> simp [hp, hd] at h
    subst h; exact hc.of_held_perm rfl rfl hp.symm rfl rfl (List.Perm.refl _)
  | cons x rest =>
    by_cases hcap : s.seqQueue.length < queueCapacity <;> simp [hp, hcap] at h
    subst h
    exact ⟨by simpa [Pipeline.held, hp] using hc.envelopes_perm, hc.results_eq⟩

theorem workerStep_conserves (hc : Conserves doAlignment envelopes s) {t : Nat}
    {pc : WorkerPc α} (hpc : s.workers[t]? = some pc) (h : workerStep doAlignment s t pc = some s') :
    Conserves doAlignment envelopes s' := by
  cases pc with
  | start =>
    simp only [workerStep, Option.some.injEq] at h; subst h
    exact hc.of_held_perm rfl rfl rfl rfl rfl (held_set_of_none hpc rfl rfl)
  | pop =>
    cases hq : s.seqQueue with
    | nil =>
      simp only [workerStep, hq, Option.some.injEq] at h; subst h
      exact hc.of_held_perm rfl hq.symm rfl rfl rfl (held_set_of_none hpc rfl rfl)
    | cons x q =>
      -- the envelope moves from `seq_queue` into the worker's hands
      simp only [workerStep, hq, Option.some.injEq] at h; subst h
      have hh := held_set hpc (.align x)
      simp only [WorkerPc.held?, Option.toList, List.append_nil] at hh
      refine ⟨List.Perm.trans ?_ hc.envelopes_perm, hc.results_eq⟩
      rw [hq]
      simpa [Pipeline.held, List.append_assoc] using
        (hh.append_right (q ++ s.pending)).append_left s.aligned
  | checkDone =>
    simp only [workerStep, Option.some.injEq] at h; subst h
    exact hc.of_held_perm rfl rfl rfl rfl rfl (held_set_of_none hpc rfl (by split <;> rfl))
  | align x =>
    -- the envelope moves from the worker's hands to `aligned`, its result to `paf_queue`
    have hh := held_set hpc .pop
    simp only [WorkerPc.held?, Option.toList, List.append_nil] at hh
    have hp' : (s.aligned ++ [x] ++ (s.workers.set t .pop).filterMap WorkerPc.held? ++
        s.seqQueue ++ s.pending).Perm envelopes := by
      refine List.Perm.trans ?_ hc.envelopes_perm
      simpa [List.append_assoc] using
        ((List.perm_append_comm.trans hh).append_right (s.seqQueue ++ s.pending)).append_left
          s.aligned
    by_cases hx : doAlignment x = ""
    · simp only [workerStep, hx, if_true, Option.some.injEq] at h; subst h
      exact ⟨hp', by simp [hc.results_eq, hx]⟩
    · by_cases hcap : s.pafQueue.length < queueCapacity <;> simp [workerStep, hx, hcap] at h
      subst h
      exact ⟨hp', by rw [← List.append_assoc, hc.results_eq]; simp [hx]⟩
  | leave =>
    simp only [workerStep, Option.some.injEq] at h; subst h
    exact hc.of_held_perm rfl rfl rfl rfl rfl (held_set_of_none hpc rfl rfl)
  | done => cases h

theorem writerStep_conserves (hc : Conserves doAlignment envelopes s) {pc : WriterPc}
    (h : writerStep s pc = some s') : Conserves doAlignment envelopes s' := by
  cases pc with
  | pop =>
    cases hq : s.pafQueue with
    | nil =>
      simp only [writerStep, hq, Option.some.injEq] at h; subst h
      exact hc.of_held_perm rfl rfl rfl rfl hq.symm (List.Perm.refl _)
    | cons r q =>
      simp only [writerStep, hq, Option.some.injEq] at h; subst h
      exact ⟨hc.envelopes_perm, by rw [← hc.results_eq, hq]; simp⟩
  | scan i =>
    simp only [writerStep] at h
    split at h <;> simp only [Option.some.injEq] at h <;> subst h <;>
      exact hc.of_held_perm rfl rfl rfl rfl rfl (List.Perm.refl _)
  | done => cases h

/-- Every step keeps `Conserves`. -/
theorem step_conserves (hc : Conserves doAlignment envelopes s) {th : Thread}
    (h : step doAlignment s th = some s') : Conserves doAlignment envelopes s' := by
  cases th with
  | reader => exact readerStep_conserves hc h
  | worker t =>
    simp only [step] at h
    cases hpc : s.workers[t]? with
    | none => rw [hpc] at h; cases h
    | some pc => rw [hpc] at h; exact workerStep_conserves hc hpc h
  | writer => exact writerStep_conserves hc h

/-- Every schedule keeps `Conserves`, from any state that has it. -/
theorem run_conserves_of (hc : Conserves doAlignment envelopes s) {sched : List Thread}
    (h : run doAlignment s sched = some s') : Conserves doAlignment envelopes s' := by
  induction sched generalizing s with
  | nil => cases h; exact hc
  | cons th sched ih =>
    unfold run at h
    cases hs : step doAlignment s th with
    | none => rw [hs] at h; cases h
    | some s₁ => rw [hs] at h; exact ih (step_conserves hc hs) h

end Steps

/-- **Conservation.** Over every schedule from the launch, every envelope is either still
to be pushed, in `seq_queue`, held by one worker, or aligned, once; and the results in
`paf_queue` or written are exactly the non-empty results of the envelopes aligned, in
order. -/
theorem run_conserves (doAlignment : α → String) (envelopes : List α) (n : Nat)
    (sched : List Thread) (s : Pipeline α)
    (h : run doAlignment (Pipeline.init envelopes n) sched = some s) :
    Conserves doAlignment envelopes s :=
  run_conserves_of (conserves_init doAlignment envelopes n) h

/-- A run that aligned one envelope and wrote its result conserves both. -/
theorem run_conserves_one_envelope :
    run (fun _ : Nat => "aln") (Pipeline.init [0] 1)
        [.reader, .reader, .worker 0, .worker 0, .worker 0, .writer] =
      some { pending := [], readerDone := true, seqQueue := [], workers := [.pop],
             working := [true], pafQueue := [], writer := .pop, output := ["aln"],
             aligned := [0] } ∧
    Conserves (fun _ : Nat => "aln") [0]
      { pending := [], readerDone := true, seqQueue := [], workers := [.pop],
        working := [true], pafQueue := [], writer := .pop, output := ["aln"], aligned := [0] } :=
  ⟨rfl, run_conserves _ [0] 1 [.reader, .reader, .worker 0, .worker 0, .worker 0, .writer] _ rfl⟩

/-- **Drained runs are complete.** A state reached from the launch in which no envelope is
left to push, queued or held, and no result is queued, has aligned every envelope of the
file once and written exactly their non-empty results, in the order they were aligned.
So the only way for a record or a result to go missing is to be left in a queue. -/
theorem output_of_drained (doAlignment : α → String) (envelopes : List α) (n : Nat)
    (sched : List Thread) (s : Pipeline α)
    (h : run doAlignment (Pipeline.init envelopes n) sched = some s)
    (hp : s.pending = []) (hq : s.seqQueue = []) (hw : s.held = []) (hpaf : s.pafQueue = []) :
    s.aligned.Perm envelopes ∧ s.output = (s.aligned.map doAlignment).filter (· ≠ "") := by
  have hc := run_conserves_of (conserves_init doAlignment envelopes n) h
  constructor
  · simpa [hp, hq, hw] using hc.envelopes_perm
  · simpa [hpaf] using hc.results_eq

theorem output_of_drained_one_envelope :
    run (fun _ : Nat => "aln") (Pipeline.init [0] 1)
        [.reader, .reader, .worker 0, .worker 0, .worker 0, .writer] =
      some { pending := [], readerDone := true, seqQueue := [], workers := [.pop],
             working := [true], pafQueue := [], writer := .pop, output := ["aln"],
             aligned := [0] } ∧
    [0].Perm [0] ∧ ["aln"] = ([0].map fun _ : Nat => "aln").filter (· ≠ "") :=
  ⟨rfl, output_of_drained (fun _ : Nat => "aln") [0] 1
    [.reader, .reader, .worker 0, .worker 0, .worker 0, .writer]
    { pending := [], readerDone := true, seqQueue := [], workers := [.pop], working := [true],
      pafQueue := [], writer := .pop, output := ["aln"], aligned := [0] } rfl rfl rfl rfl rfl⟩

/-! ### The order in which the threads return -/

/-- What the order in which the threads return rests on: `working[t]` is false exactly
when worker `t` has returned; a worker leaves its loop only once `reader_done` is set,
which the reader stores only after its last push; and the writer's scan has passed only
flags of workers that have returned. -/
structure ExitOrder (s : Pipeline α) : Prop where
  length_working : s.working.length = s.workers.length
  working_false : ∀ t : Nat, s.working[t]? = some false ↔ s.workers[t]? = some WorkerPc.done
  readerDone_of_left : ∀ t : Nat, s.workers[t]? = some WorkerPc.leave ∨ s.workers[t]? = some WorkerPc.done →
    s.readerDone = true
  pending_of_readerDone : s.readerDone = true → s.pending = []
  scan_done : ∀ i : Nat, s.writer = WriterPc.scan i → ∀ j < i, s.workers[j]? = some WorkerPc.done
  writer_done : s.writer = WriterPc.done → ∀ t < s.workers.length, s.workers[t]? = some WorkerPc.done

theorem exitOrder_init (envelopes : List α) (n : Nat) : ExitOrder (Pipeline.init envelopes n) where
  length_working := by simp [Pipeline.init]
  working_false t := by by_cases ht : t < n <;> simp [Pipeline.init, List.getElem?_replicate, ht]
  readerDone_of_left t h := by
    by_cases ht : t < n <;> simp [Pipeline.init, List.getElem?_replicate, ht] at h
  pending_of_readerDone h := by cases h
  scan_done _ h := by cases h
  writer_done h := by cases h

section ExitOrder

variable {doAlignment : α → String} {s s' : Pipeline α}

theorem readerStep_exitOrder (ho : ExitOrder s) (h : readerStep s = some s') : ExitOrder s' := by
  unfold readerStep at h
  cases hp : s.pending with
  | nil =>
    cases hd : s.readerDone <;> simp [hp, hd] at h
    subst h
    exact { ho with readerDone_of_left := fun _ _ => rfl, pending_of_readerDone := fun _ => rfl }
  | cons x rest =>
    by_cases hcap : s.seqQueue.length < queueCapacity <;> simp [hp, hcap] at h
    subst h
    -- `reader_done` is unset while an envelope is left to push
    have hd : s.readerDone = false := by
      cases hd : s.readerDone
      · rfl
      · exact absurd (ho.pending_of_readerDone hd) (by simp [hp])
    exact { ho with pending_of_readerDone := fun h => absurd h (by simp [hd]) }

theorem writerStep_exitOrder (ho : ExitOrder s) (h : writerStep s s.writer = some s') :
    ExitOrder s' := by
  cases hpc : s.writer with
  | pop =>
    rw [hpc] at h
    cases hq : s.pafQueue with
    | nil =>
      simp only [writerStep, hq, Option.some.injEq] at h; subst h
      exact { ho with
        scan_done := fun i hi j hj => by simp only [WriterPc.scan.injEq] at hi; omega
        writer_done := fun h => (by simp at h) }
    | cons r q =>
      simp only [writerStep, hq, Option.some.injEq] at h; subst h
      exact { ho with }
  | scan i =>
    rw [hpc] at h
    simp only [writerStep] at h
    split at h <;> simp only [Option.some.injEq] at h <;> subst h
    · exact { ho with scan_done := fun _ h => (by simp at h), writer_done := fun h => (by simp at h) }
    · -- `working[i]` is false: worker `i` has returned
      rename_i hwi
      refine { ho with scan_done := fun i' hi' j hj => ?_, writer_done := fun h => (by simp at h) }
      simp only [WriterPc.scan.injEq] at hi'
      subst hi'
      rcases Nat.lt_succ_iff_lt_or_eq.mp hj with hj | rfl
      · exact ho.scan_done i hpc j hj
      · exact (ho.working_false j).mp hwi
    · -- past the last flag: every worker has returned
      rename_i hwi
      refine { ho with scan_done := fun _ h => (by simp at h), writer_done := fun _ t ht => ?_ }
      have h1 := List.getElem?_eq_none_iff.mp hwi
      have h2 : t < s.workers.length := ht
      exact ho.scan_done i hpc t (by rw [ho.length_working] at h1; omega)
  | done => rw [hpc] at h; cases h

/-- A worker step moves worker `t` from a place other than `done` to `new`, and changes
no other thread's place, nor `reader_done`. -/
theorem ExitOrder.of_worker (ho : ExitOrder s) {t : Nat} {pc new : WorkerPc α}
    (hpc : s.workers[t]? = some pc) (hpc' : pc ≠ .done)
    (hw : s'.workers = s.workers.set t new) (hrd : s'.readerDone = s.readerDone)
    (hp : s'.pending = s.pending) (hwr : s'.writer = s.writer)
    (hlen : s'.working.length = s.working.length)
    (hwk : ∀ j, j ≠ t → s'.working[j]? = s.working[j]?)
    (hwt : s'.working[t]? = some false ↔ new = .done)
    (hleft : new = .leave ∨ new = .done → s.readerDone = true) : ExitOrder s' := by
  have ht : t < s.workers.length := (List.getElem?_eq_some_iff.mp hpc).1
  -- a worker that has returned is not `t`
  have hne : ∀ j, s.workers[j]? = some .done → j ≠ t := fun j hj hjt => by
    subst hjt; rw [hpc] at hj; exact hpc' (Option.some.inj hj)
  have hget : ∀ j, s'.workers[j]? = if j = t then some new else s.workers[j]? := by
    intro j
    rw [hw]
    by_cases hj : j = t
    · subst hj; simp [ht]
    · simp [List.getElem?_set_ne (Ne.symm hj), hj]
  constructor
  · rw [hlen, hw, List.length_set]; exact ho.length_working
  · intro j
    rw [hget]
    split
    · subst_vars; rw [hwt]; simp
    · rw [hwk j ‹_›]; exact ho.working_false j
  · intro j hj
    rw [hrd]
    rw [hget] at hj
    split at hj
    · simp only [Option.some.injEq] at hj; exact hleft hj
    · exact ho.readerDone_of_left j hj
  · intro h; rw [hp]; exact ho.pending_of_readerDone (hrd ▸ h)
  · intro i hi j hj
    have hd := ho.scan_done i (hwr ▸ hi) j hj
    rw [hget, if_neg (hne j hd)]; exact hd
  · intro hd j hj
    have hd := ho.writer_done (hwr ▸ hd) j (by rwa [hw, List.length_set] at hj)
    rw [hget, if_neg (hne j hd)]; exact hd

theorem workerStep_exitOrder (ho : ExitOrder s) {t : Nat} {pc : WorkerPc α}
    (hpc : s.workers[t]? = some pc) (h : workerStep doAlignment s t pc = some s') :
    ExitOrder s' := by
  have ht : t < s.working.length :=
    ho.length_working ▸ (List.getElem?_eq_some_iff.mp hpc).1
  -- `working[t]` is not false while worker `t` runs
  have hbusy : pc ≠ .done → ¬ s.working[t]? = some false := fun hpc' hf =>
    hpc' (Option.some.inj ((hpc.symm.trans ((ho.working_false t).mp hf))))
  cases pc with
  | start =>
    simp only [workerStep, Option.some.injEq] at h; subst h
    exact ho.of_worker hpc (by simp) rfl rfl rfl rfl (List.length_set ..)
      (fun j hj => List.getElem?_set_ne (Ne.symm hj)) (by simp [ht]) (by simp)
  | pop =>
    have hwt := hbusy (by simp)
    cases hq : s.seqQueue <;> simp only [workerStep, hq, Option.some.injEq] at h <;> subst h <;>
      exact ho.of_worker hpc (by simp) rfl rfl rfl rfl rfl (fun _ _ => rfl) (by simpa using hwt)
        (by simp)
  | checkDone =>
    have hwt := hbusy (by simp)
    simp only [workerStep, Option.some.injEq] at h; subst h
    -- a worker leaves only once `reader_done` is set
    exact ho.of_worker hpc (by simp) rfl rfl rfl rfl rfl (fun _ _ => rfl)
      (by split <;> simpa using hwt) (by split <;> simp_all)
  | align x =>
    have hwt := hbusy (by simp)
    simp only [workerStep] at h
    split at h <;> (try split at h) <;> simp only [Option.some.injEq, reduceCtorEq] at h <;>
      subst h <;>
      exact ho.of_worker hpc (by simp) rfl rfl rfl rfl rfl (fun _ _ => rfl) (by simpa using hwt)
        (by simp)
  | leave =>
    simp only [workerStep, Option.some.injEq] at h; subst h
    exact ho.of_worker hpc (by simp) rfl rfl rfl rfl (List.length_set ..)
      (fun j hj => List.getElem?_set_ne (Ne.symm hj)) (by simp [ht])
      (fun _ => ho.readerDone_of_left t (Or.inl hpc))
  | done => cases h

theorem step_exitOrder (ho : ExitOrder s) {th : Thread} (h : step doAlignment s th = some s') :
    ExitOrder s' := by
  cases th with
  | reader => exact readerStep_exitOrder ho h
  | worker t =>
    simp only [step] at h
    cases hpc : s.workers[t]? with
    | none => rw [hpc] at h; cases h
    | some pc => rw [hpc] at h; exact workerStep_exitOrder ho hpc h
  | writer => exact writerStep_exitOrder ho h

/-- No step adds or removes a worker. -/
theorem step_workers_length {th : Thread} (h : step doAlignment s th = some s') :
    s'.workers.length = s.workers.length := by
  cases th with
  | reader =>
    simp only [step, readerStep] at h
    split at h <;> (try split at h) <;> simp only [Option.some.injEq, reduceCtorEq] at h <;>
      subst h <;> rfl
  | worker t =>
    simp only [step] at h
    cases hpc : s.workers[t]? with
    | none => rw [hpc] at h; cases h
    | some pc =>
      rw [hpc] at h
      cases pc <;> simp only [workerStep] at h <;> (try split at h) <;> (try split at h) <;>
        simp only [Option.some.injEq, reduceCtorEq] at h <;> subst h <;> simp
  | writer =>
    simp only [step] at h
    cases hw : s.writer <;> rw [hw] at h <;> simp only [writerStep] at h <;> (try split at h) <;>
      simp only [Option.some.injEq, reduceCtorEq] at h <;> subst h <;> rfl

theorem run_exitOrder_of (ho : ExitOrder s) {sched : List Thread}
    (h : run doAlignment s sched = some s') :
    ExitOrder s' ∧ s'.workers.length = s.workers.length := by
  induction sched generalizing s with
  | nil => cases h; exact ⟨ho, rfl⟩
  | cons th sched ih =>
    unfold run at h
    cases hs : step doAlignment s th with
    | none => rw [hs] at h; cases h
    | some s₁ =>
      rw [hs] at h
      obtain ⟨ho', hlen⟩ := ih (step_exitOrder ho hs) h
      exact ⟨ho', hlen.trans (step_workers_length hs)⟩

end ExitOrder

/-- **The threads return in order.** Over every schedule from the launch with at least one
worker, once the writer has returned every worker has returned, and the reader has pushed
every envelope and stored `reader_done`. -/
theorem run_writer_done (doAlignment : α → String) (envelopes : List α) {n : Nat} (hn : 0 < n)
    (sched : List Thread) (s : Pipeline α)
    (h : run doAlignment (Pipeline.init envelopes n) sched = some s) (hw : s.writer = .done) :
    s.pending = [] ∧ s.readerDone = true ∧ ∀ pc ∈ s.workers, pc = .done := by
  obtain ⟨ho, hlen⟩ := run_exitOrder_of (exitOrder_init envelopes n) h
  have hlen : s.workers.length = n := by simpa [Pipeline.init] using hlen
  have hdone := ho.writer_done hw
  have hrd := ho.readerDone_of_left 0 (Or.inr (hdone 0 (by omega)))
  refine ⟨ho.pending_of_readerDone hrd, hrd, fun pc hpc => ?_⟩
  obtain ⟨t, ht⟩ := List.mem_iff_getElem?.mp hpc
  exact Option.some.inj (ht.symm.trans (hdone t (List.getElem?_eq_some_iff.mp ht).1))

theorem run_writer_done_one_worker :
    0 < 1 ∧
    run (fun _ : Nat => "aln") (Pipeline.init [0] 1)
        [.worker 0, .worker 0, .reader, .reader, .worker 0, .worker 0, .writer, .writer, .writer] =
      some { pending := [], readerDone := true, seqQueue := [0], workers := [.done],
             working := [false], pafQueue := [], writer := .done, output := [], aligned := [] } ∧
    (WriterPc.done = .done) ∧
    (([] : List Nat) = [] ∧ true = true ∧ ∀ pc ∈ ([.done] : List (WorkerPc Nat)), pc = .done) :=
  ⟨by decide, rfl, rfl, run_writer_done (fun _ : Nat => "aln") [0] (n := 1) (by decide)
    [.worker 0, .worker 0, .reader, .reader, .worker 0, .worker 0, .writer, .writer, .writer]
    { pending := [], readerDone := true, seqQueue := [0], workers := [.done], working := [false],
      pafQueue := [], writer := .done, output := [], aligned := [] } rfl rfl⟩

/-! ### One worker keeps the file's order -/

/-- With one worker: the envelopes aligned, held, queued and still to push are the file's,
in the file's order. -/
structure InOrder (envelopes : List α) (s : Pipeline α) : Prop where
  one_worker : s.workers.length = 1
  in_order : s.aligned ++ s.held ++ s.seqQueue ++ s.pending = envelopes

theorem inOrder_init (envelopes : List α) : InOrder envelopes (Pipeline.init envelopes 1) :=
  ⟨rfl, by simp [Pipeline.init, Pipeline.held, WorkerPc.held?]⟩

section InOrder

variable {doAlignment : α → String} {envelopes : List α} {s s' : Pipeline α}

/-- What the one worker holds is all the workers hold, before and after it moves. -/
theorem held_of_one_worker (h1 : s.workers.length = 1) {t : Nat} {pc : WorkerPc α}
    (hpc : s.workers[t]? = some pc) (new : WorkerPc α) :
    s.held = pc.held?.toList ∧
      (s.workers.set t new).filterMap WorkerPc.held? = new.held?.toList := by
  obtain ⟨w, hw⟩ := List.length_eq_one.mp h1
  rw [hw] at hpc
  obtain ⟨rfl, rfl⟩ : t = 0 ∧ w = pc := by
    cases t <;> simp at hpc
    exact ⟨rfl, hpc⟩
  simp [Pipeline.held, hw, filterMap_cons_toList]

/-- A step of the one worker, from `pc` to `new`, that moves envelopes between
`seq_queue`, its hands and `aligned` without reordering them keeps `InOrder`. -/
theorem InOrder.of_worker (ho : InOrder envelopes s) {t : Nat} {pc new : WorkerPc α}
    (hpc : s.workers[t]? = some pc) (hw : s'.workers = s.workers.set t new)
    (he : s'.aligned ++ new.held?.toList ++ s'.seqQueue ++ s'.pending =
      s.aligned ++ pc.held?.toList ++ s.seqQueue ++ s.pending) : InOrder envelopes s' := by
  obtain ⟨hh, hh'⟩ := held_of_one_worker ho.one_worker hpc new
  refine ⟨by rw [hw, List.length_set]; exact ho.one_worker, ?_⟩
  rw [Pipeline.held, hw, hh', he, ← hh]
  exact ho.in_order

theorem readerStep_inOrder (ho : InOrder envelopes s) (h : readerStep s = some s') :
    InOrder envelopes s' := by
  unfold readerStep at h
  cases hp : s.pending with
  | nil =>
    cases hd : s.readerDone <;> simp [hp, hd] at h
    subst h
    exact ⟨ho.one_worker, by rw [← ho.in_order, hp]; rfl⟩
  | cons x rest =>
    by_cases hcap : s.seqQueue.length < queueCapacity <;> simp [hp, hcap] at h
    subst h
    exact ⟨ho.one_worker, by simpa [Pipeline.held, hp] using ho.in_order⟩

theorem workerStep_inOrder (ho : InOrder envelopes s) {t : Nat} {pc : WorkerPc α}
    (hpc : s.workers[t]? = some pc) (h : workerStep doAlignment s t pc = some s') :
    InOrder envelopes s' := by
  cases pc with
  | start | leave =>
    simp only [workerStep, Option.some.injEq] at h; subst h
    exact ho.of_worker hpc rfl rfl
  | pop =>
    -- the head of `seq_queue` moves into the worker's hands
    cases hq : s.seqQueue <;> simp only [workerStep, hq, Option.some.injEq] at h <;> subst h <;>
      exact ho.of_worker hpc rfl (by simp [WorkerPc.held?, hq])
  | checkDone =>
    simp only [workerStep, Option.some.injEq] at h; subst h
    exact ho.of_worker hpc rfl (by split <;> rfl)
  | align x =>
    -- the envelope moves from the worker's hands to the end of `aligned`
    simp only [workerStep] at h
    split at h <;> (try split at h) <;> simp only [Option.some.injEq, reduceCtorEq] at h <;>
      subst h <;> exact ho.of_worker hpc rfl (by simp [WorkerPc.held?])
  | done => cases h

theorem writerStep_inOrder (ho : InOrder envelopes s) {pc : WriterPc}
    (h : writerStep s pc = some s') : InOrder envelopes s' := by
  cases pc with
  | pop =>
    cases hq : s.pafQueue <;> simp only [writerStep, hq, Option.some.injEq] at h <;> subst h <;>
      exact ⟨ho.one_worker, ho.in_order⟩
  | scan i =>
    simp only [writerStep] at h
    split at h <;> simp only [Option.some.injEq] at h <;> subst h <;>
      exact ⟨ho.one_worker, ho.in_order⟩
  | done => cases h

theorem run_inOrder_of (ho : InOrder envelopes s) {sched : List Thread}
    (h : run doAlignment s sched = some s') : InOrder envelopes s' := by
  induction sched generalizing s with
  | nil => cases h; exact ho
  | cons th sched ih =>
    unfold run at h
    cases hs : step doAlignment s th with
    | none => rw [hs] at h; cases h
    | some s₁ =>
      rw [hs] at h
      refine ih ?_ h
      cases th with
      | reader => exact readerStep_inOrder ho hs
      | worker t =>
        simp only [step] at hs
        cases hpc : s.workers[t]? with
        | none => rw [hpc] at hs; cases hs
        | some pc => rw [hpc] at hs; exact workerStep_inOrder ho hpc hs
      | writer => exact writerStep_inOrder ho hs

end InOrder

/-- **One worker keeps the file's order.** With `nthreads = 1`, at every point of every
schedule, what the writer has written is a prefix of the non-empty results of the file's
envelopes, in the file's order. -/
theorem run_one_worker_output_prefix (doAlignment : α → String) (envelopes : List α)
    (sched : List Thread) (s : Pipeline α)
    (h : run doAlignment (Pipeline.init envelopes 1) sched = some s) :
    s.output <+: (envelopes.map doAlignment).filter (· ≠ "") := by
  have hc := run_conserves_of (conserves_init doAlignment envelopes 1) h
  have ho := run_inOrder_of (inOrder_init envelopes) h
  -- the envelopes aligned are the first of the file
  have hpre : s.aligned <+: envelopes := by
    rw [← ho.in_order, List.append_assoc, List.append_assoc]
    exact List.prefix_append _ _
  refine (List.prefix_append s.output s.pafQueue).trans ?_
  rw [hc.results_eq]
  exact (hpre.map doAlignment).filter _

theorem run_one_worker_output_prefix_one_envelope :
    run (fun _ : Nat => "aln") (Pipeline.init [0] 1)
        [.reader, .reader, .worker 0, .worker 0, .worker 0, .writer] =
      some { pending := [], readerDone := true, seqQueue := [], workers := [.pop],
             working := [true], pafQueue := [], writer := .pop, output := ["aln"],
             aligned := [0] } ∧
    ["aln"] <+: ([0].map fun _ : Nat => "aln").filter (· ≠ "") :=
  ⟨rfl, run_one_worker_output_prefix (fun _ : Nat => "aln") [0]
    [.reader, .reader, .worker 0, .worker 0, .worker 0, .writer]
    { pending := [], readerDone := true, seqQueue := [], workers := [.pop], working := [true],
      pafQueue := [], writer := .pop, output := ["aln"], aligned := [0] } rfl⟩

/-- With two workers the order is the order in which the alignments finish: worker 1
aligns the second envelope first, and its result is written first. -/
example :
    (run (fun n : Nat => if n = 0 then "a" else "b") (Pipeline.init [0, 1] 2)
        [.reader, .reader, .worker 0, .worker 1, .worker 0, .worker 1, .worker 1, .worker 0,
          .writer, .writer]).map Pipeline.output = some ["b", "a"] := rfl

/-! ### A schedule that runs through -/

/-- The steps that carry one envelope through: the reader pushes it, worker 0 pops and
aligns it, and the writer writes a non-empty result. -/
def envelopeSteps (doAlignment : α → String) (x : α) : List Thread :=
  [.reader, .worker 0, .worker 0] ++ if doAlignment x = "" then [] else [.writer]

/-- The steps of a started worker `t` once `seq_queue` is empty and `reader_done` set: its
`try_pop` fails, it loads `reader_done`, breaks, and clears its flag. -/
def exitSteps (t : Nat) : List Thread := [.worker t, .worker t, .worker t]

/-- A schedule under which every thread runs through: worker 0 starts and carries the
envelopes one at a time; the reader stores `reader_done`; worker 0, then each other worker,
started first, leaves; the writer finds `paf_queue` empty, scans the flags and returns. -/
def runThrough (doAlignment : α → String) (envelopes : List α) (n : Nat) : List Thread :=
  .worker 0 :: envelopes.flatMap (envelopeSteps doAlignment) ++ .reader :: exitSteps 0 ++
    (List.range' 1 (n - 1)).flatMap (fun t => .worker t :: exitSteps t) ++
    List.replicate (n + 2) .writer

section RunThrough

variable {doAlignment : α → String}

theorem run_append (s : Pipeline α) (a b : List Thread) :
    run doAlignment s (a ++ b) = (run doAlignment s a).bind (run doAlignment · b) := by
  induction a generalizing s with
  | nil => rfl
  | cons th a ih =>
    simp only [List.cons_append, run]
    cases step doAlignment s th <;> simp [ih]

theorem run_cons_of_step {s s' : Pipeline α} {th : Thread} (h : step doAlignment s th = some s')
    (sched : List Thread) : run doAlignment s (th :: sched) = run doAlignment s' sched := by
  simp only [run, h]

theorem set_replicate_append {β : Type} (k j : Nat) (a b : β) :
    (List.replicate k a ++ List.replicate (j + 1) b).set k a =
      List.replicate (k + 1) a ++ List.replicate j b := by
  rw [List.replicate_succ, List.set_append_right k a (by simp), List.length_replicate, Nat.sub_self,
    List.set_cons_zero, List.append_cons, ← List.replicate_succ']

/-- One envelope carried through: aligned, and its result written if not empty. -/
theorem run_envelopeSteps_cons {ws : List (WorkerPc α)} (s : Pipeline α) {x : α} {E : List α}
    (hp : s.pending = x :: E) (hq : s.seqQueue = []) (hw : s.workers = .pop :: ws)
    (hpq : s.pafQueue = []) (hwr : s.writer = .pop) :
    run doAlignment s (envelopeSteps doAlignment x) =
      some { s with
        pending := E
        output := s.output ++ [doAlignment x].filter (· ≠ "")
        aligned := s.aligned ++ [x] } := by
  have hcap : 0 < queueCapacity := by decide
  by_cases hx : doAlignment x = "" <;>
    simp [envelopeSteps, run, step, readerStep, workerStep, writerStep, hp, hq, hw, hpq, hwr, hx, hcap]

/-- Carrying the envelopes still to push through, one at a time: each is aligned once,
its non-empty result written, and the queues are empty again. -/
theorem run_envelopeSteps {ws : List (WorkerPc α)} (s : Pipeline α) (hq : s.seqQueue = [])
    (hw : s.workers = .pop :: ws) (hpq : s.pafQueue = []) (hwr : s.writer = .pop) :
    run doAlignment s (s.pending.flatMap (envelopeSteps doAlignment)) =
      some { s with
        pending := []
        output := s.output ++ (s.pending.map doAlignment).filter (· ≠ "")
        aligned := s.aligned ++ s.pending } := by
  generalize hp : s.pending = E
  induction E generalizing s with
  | nil => cases s; cases hp; simp [run]
  | cons x E ih =>
    rw [List.flatMap_cons, run_append, run_envelopeSteps_cons s hp hq hw hpq hwr, Option.some_bind,
      ih { s with
          pending := E
          output := s.output ++ [doAlignment x].filter (· ≠ "")
          aligned := s.aligned ++ [x] } hq hw hpq hwr rfl]
    by_cases hx : doAlignment x = "" <;> simp [List.filter_cons, hx]

/-- A started worker leaves once `seq_queue` is empty and `reader_done` set. -/
theorem run_exitSteps (s : Pipeline α) {t : Nat} (ht : s.workers[t]? = some .pop)
    (hq : s.seqQueue = []) (hrd : s.readerDone = true) :
    run doAlignment s (exitSteps t) =
      some { s with workers := s.workers.set t .done, working := s.working.set t false } := by
  have hlt : t < s.workers.length := (List.getElem?_eq_some_iff.mp ht).1
  simp [exitSteps, run, step, workerStep, ht, hq, hrd, hlt]

/-- The workers from `k` on, not started yet, start and leave in turn. -/
theorem run_startExits (k j : Nat) :
    ∀ s : Pipeline α, s.seqQueue = [] → s.readerDone = true →
      s.workers = List.replicate k .done ++ List.replicate j .start →
      s.working = List.replicate k false ++ List.replicate j true →
      run doAlignment s ((List.range' k j).flatMap fun t => .worker t :: exitSteps t) =
        some { s with
          workers := List.replicate (k + j) .done
          working := List.replicate (k + j) false } := by
  induction j generalizing k with
  | zero =>
    intro s hq hrd hw hwk
    cases s; simp_all [run]
  | succ j ih =>
    intro s hq hrd hw hwk
    have hk : s.workers[k]? = some .start := by
      rw [hw, List.getElem?_append_right (by simp)]
      simp [List.replicate_succ]
    have hlen : k < s.workers.length := by simp [hw]
    -- worker `k` starts, then leaves
    let s₁ : Pipeline α :=
      { s with workers := s.workers.set k .pop, working := s.working.set k true }
    let s₂ : Pipeline α :=
      { s₁ with workers := s₁.workers.set k .done, working := s₁.working.set k false }
    have hw₂ : s₂.workers = List.replicate (k + 1) .done ++ List.replicate j .start := by
      show (s.workers.set k .pop).set k .done = _
      rw [List.set_set, hw, set_replicate_append]
    have hwk₂ : s₂.working = List.replicate (k + 1) false ++ List.replicate j true := by
      show (s.working.set k true).set k false = _
      rw [List.set_set, hwk, set_replicate_append]
    rw [List.range'_succ, List.flatMap_cons, List.cons_append,
      run_cons_of_step (show step doAlignment s (.worker k) = some s₁ by
        simp [s₁, step, workerStep, hk]),
      run_append, run_exitSteps s₁ (by simp [s₁, hlen]) hq hrd, Option.some_bind,
      ih (k + 1) s₂ hq hrd hw₂ hwk₂,
      show k + 1 + j = k + (j + 1) by omega]

/-- The writer at `scan i`, with every flag false: it loads the remaining flags and
returns. -/
theorem run_scan (d : Nat) :
    ∀ (s : Pipeline α) (i : Nat), s.writer = .scan i →
      s.working = List.replicate (i + d) false →
      run doAlignment s (List.replicate (d + 1) .writer) = some { s with writer := .done } := by
  induction d with
  | zero =>
    intro s i hs hwk
    simp [run, step, writerStep, hs, hwk, List.getElem?_replicate]
  | succ d ih =>
    intro s i hs hwk
    rw [List.replicate_succ,
      run_cons_of_step (show step doAlignment s .writer = some { s with writer := .scan (i + 1) } by
        simp [step, writerStep, hs, hwk, List.getElem?_replicate]),
      ih _ (i + 1) rfl (by rw [hwk, Nat.add_right_comm, Nat.add_assoc])]

end RunThrough

/-- **The pipeline can run through.** For every file and every number of workers, under
the schedule `runThrough` every thread returns, both queues are empty, every envelope has
been aligned once, in the file's order, and every non-empty result written, in the file's
order. -/
theorem run_runThrough (doAlignment : α → String) (envelopes : List α) {n : Nat} (hn : 0 < n) :
    run doAlignment (Pipeline.init envelopes n) (runThrough doAlignment envelopes n) =
      some { pending := [], readerDone := true, seqQueue := [],
             workers := List.replicate n .done, working := List.replicate n false, pafQueue := [],
             writer := .done, output := (envelopes.map doAlignment).filter (· ≠ ""),
             aligned := envelopes } := by
  obtain ⟨m, rfl⟩ : ∃ m, n = m + 1 := ⟨n - 1, by omega⟩
  -- worker 0 starts and carries every envelope through
  let s₁ : Pipeline α :=
    { Pipeline.init envelopes (m + 1) with workers := .pop :: List.replicate m .start }
  let s₂ : Pipeline α :=
    { s₁ with
      pending := []
      output := (envelopes.map doAlignment).filter (· ≠ "")
      aligned := envelopes }
  have h₁ : step doAlignment (Pipeline.init envelopes (m + 1)) (.worker 0) = some s₁ := by
    simp [s₁, step, workerStep, Pipeline.init, List.replicate_succ]
  have h₂ : run doAlignment s₁ (envelopes.flatMap (envelopeSteps doAlignment)) = some s₂ :=
    run_envelopeSteps s₁ rfl rfl rfl rfl
  -- the reader stores `reader_done`, and worker 0 leaves
  let s₃ : Pipeline α := { s₂ with readerDone := true }
  have h₃ : step doAlignment s₂ .reader = some s₃ := by
    simp [s₃, s₂, s₁, step, readerStep, Pipeline.init]
  let s₄ : Pipeline α :=
    { s₃ with
      workers := List.replicate 1 .done ++ List.replicate m .start
      working := List.replicate 1 false ++ List.replicate m true }
  have h₄ : run doAlignment s₃ (exitSteps 0) = some s₄ :=
    run_exitSteps s₃ (by simp [s₃, s₂, s₁]) rfl rfl
  -- the other workers start and leave
  have h₅ := @run_startExits _ doAlignment 1 m s₄ rfl rfl rfl rfl
  rw [Nat.add_comm 1 m] at h₅
  -- the writer finds `paf_queue` empty, loads every flag and returns
  let s₅ : Pipeline α :=
    { s₄ with
      workers := List.replicate (m + 1) .done
      working := List.replicate (m + 1) false
      writer := .scan 0 }
  have h₆ : step doAlignment
      { s₄ with workers := List.replicate (m + 1) .done, working := List.replicate (m + 1) false }
      .writer = some s₅ := rfl
  have h₇ := @run_scan _ doAlignment (m + 1) s₅ 0 rfl (by simp [s₅])
  rw [runThrough, run_append, run_append, run_append, run_cons_of_step h₁, h₂, Option.some_bind,
    run_cons_of_step h₃, h₄, Option.some_bind, Nat.add_sub_cancel, h₅, Option.some_bind,
    show List.replicate (m + 1 + 2) Thread.writer =
      .writer :: List.replicate (m + 1 + 1) .writer from rfl, run_cons_of_step h₆, h₇]
  rfl

/-- Two workers and two envelopes, the first with an empty alignment. -/
theorem run_runThrough_two_workers :
    0 < 2 ∧
    run (fun x : Nat => if x = 0 then "" else "b") (Pipeline.init [0, 1] 2)
        (runThrough (fun x : Nat => if x = 0 then "" else "b") [0, 1] 2) =
      some { pending := [], readerDone := true, seqQueue := [],
             workers := List.replicate 2 .done, working := List.replicate 2 false, pafQueue := [],
             writer := .done,
             output := ([0, 1].map fun x : Nat => if x = 0 then "" else "b").filter (· ≠ ""),
             aligned := [0, 1] } :=
  ⟨by decide, run_runThrough (fun x : Nat => if x = 0 then "" else "b") [0, 1] (by decide)⟩

example :
    (run (fun x : Nat => if x = 0 then "" else "b") (Pipeline.init [0, 1] 2)
        (runThrough (fun x : Nat => if x = 0 then "" else "b") [0, 1] 2)).map Pipeline.output =
      some ["b"] := rfl

/-! ### Records and results left behind -/

/-- **A record left in `seq_queue`.** With one worker and one envelope: the worker's
`try_pop` fails, the reader pushes the envelope and stores `reader_done`, the worker loads
`reader_done`, breaks and clears its flag; the writer then finds `paf_queue` empty and
every flag false, and returns. Every thread has returned, and the envelope was never
aligned. -/
theorem workers_leave_record_in_queue (doAlignment : α → String) (x : α) :
    run doAlignment (Pipeline.init [x] 1)
        [.worker 0, .worker 0, .reader, .reader, .worker 0, .worker 0, .writer, .writer, .writer] =
      some { pending := [], readerDone := true, seqQueue := [x], workers := [.done],
             working := [false], pafQueue := [], writer := .done, output := [], aligned := [] } := by
  rfl

/-- **A result left in `paf_queue`.** With one worker and one envelope whose alignment is
not empty: the worker pops it; the writer's `try_pop` fails; the worker pushes the result,
finds `seq_queue` empty and `reader_done` set, breaks and clears its flag; the writer then
loads the flag, breaks and returns. The result was never written. -/
theorem writer_leaves_result_in_queue (doAlignment : α → String) (x : α)
    (hx : doAlignment x ≠ "") :
    run doAlignment (Pipeline.init [x] 1)
        [.worker 0, .reader, .reader, .worker 0, .writer, .worker 0, .worker 0, .worker 0,
          .worker 0, .writer, .writer] =
      some { pending := [], readerDone := true, seqQueue := [], workers := [.done],
             working := [false], pafQueue := [doAlignment x], writer := .done, output := [],
             aligned := [x] } := by
  simp [run, step, readerStep, workerStep, writerStep, Pipeline.init, hx, queueCapacity]

theorem writer_leaves_result_in_queue_aln :
    (fun _ : Nat => "aln") 0 ≠ "" ∧
      run (fun _ : Nat => "aln") (Pipeline.init [0] 1)
          [.worker 0, .reader, .reader, .worker 0, .writer, .worker 0, .worker 0, .worker 0,
            .worker 0, .writer, .writer] =
        some { pending := [], readerDone := true, seqQueue := [], workers := [.done],
               working := [false], pafQueue := ["aln"], writer := .done, output := [],
               aligned := [0] } :=
  ⟨by decide, writer_leaves_result_in_queue _ 0 (by decide)⟩

end Wfmash.Align

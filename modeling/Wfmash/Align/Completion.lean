import Wfmash.Align.Pipeline

/-!
# The threads can always return

`run_writer_done` says in which order the threads of `Aligner::computeAlignments` return,
and `workers_leave_record_in_queue` that an unlucky interleaving loses a record. Neither
says that the threads can return at all: a push onto a full queue waits, a worker loops
back to `try_pop` until `reader_done` is set, and the writer spins while a flag is set.
This module shows that no interleaving leads into a trap: from every state that a schedule
reaches from the launch, with at least one worker, some continuation takes every thread
to its return.

## The proof

A measure (`Pipeline.measure`) weighs each envelope by the stages it has still to pass
(pushed, popped, aligned), each queued result, the flag `reader_done` while it is unset,
each worker's place, and the flags the writer has still to scan. In every state that
keeps `ExitOrder` and is not at its end, some thread has a step that decreases the
measure (`exists_step_measure_lt`): the writer while it scans or has a result to write;
else a worker that is neither at `try_pop` nor returned; else a worker at `try_pop`
with a record to pop; else the reader; else a worker at `try_pop`, which then leaves.
At the end every worker and the reader have returned, and the writer, at `try_pop` with
nothing queued, scans the flags, all false, and returns.

## What is proved

* `run_can_finish` — from every state reached from the launch with at least one worker,
  some schedule takes every thread to its return.
-/

namespace Wfmash.Align

variable {α : Type}

/-! ### The measure -/

/-- How many steps a worker at `pc` has at most still to take under the strategy, a
worker at `checkDone` going back to `try_pop` while `reader_done` is unset. -/
def workerWeight (readerDone : Bool) : WorkerPc α → Nat
  | .start => 5
  | .pop => 4
  | .checkDone => if readerDone then 3 else 5
  | .align _ => 4
  | .leave => 2
  | .done => 0

/-- The weights of the workers' places, summed. -/
def workersWeight (readerDone : Bool) : List (WorkerPc α) → Nat
  | [] => 0
  | pc :: ws => workerWeight readerDone pc + workersWeight readerDone ws

/-- How many flags the writer has still to load, with `nthreads` workers. -/
def writerWeight (nthreads : Nat) : WriterPc → Nat
  | .scan i => nthreads + 1 - i
  | _ => 0

/-- An envelope still to push weighs 4, one in `seq_queue` 3, one held 2, a result in
`paf_queue` 1; then `reader_done` while unset, the workers and the writer. -/
def Pipeline.measure (s : Pipeline α) : Nat :=
  4 * s.pending.length + 3 * s.seqQueue.length + 2 * s.held.length + s.pafQueue.length +
    (if s.readerDone then 0 else 1) + workersWeight s.readerDone s.workers +
    writerWeight s.workers.length s.writer

/-- Every thread has returned, but perhaps the writer, which is then at `try_pop` with
nothing queued. -/
def AtEnd (s : Pipeline α) : Prop :=
  s.pending = [] ∧ s.readerDone = true ∧ (∀ pc ∈ s.workers, pc = .done) ∧
    (s.writer = .done ∨ s.writer = .pop ∧ s.pafQueue = [])

theorem workersWeight_set (b : Bool) :
    ∀ (ws : List (WorkerPc α)) (t : Nat) (old new : WorkerPc α), ws[t]? = some old →
      workersWeight b (ws.set t new) + workerWeight b old = workersWeight b ws + workerWeight b new
  | [], _, _, _, h => by simp at h
  | w :: ws, 0, old, new, h => by
    obtain rfl : w = old := by simpa using h
    simp only [List.set_cons_zero, workersWeight]
    omega
  | w :: ws, t + 1, old, new, h => by
    have := workersWeight_set b ws t old new (by simpa using h)
    simp only [List.set_cons_succ, workersWeight]
    omega

/-- Storing `reader_done` makes no worker heavier. -/
theorem workersWeight_true_le : ∀ ws : List (WorkerPc α),
    workersWeight true ws ≤ workersWeight false ws
  | [] => le_rfl
  | pc :: ws => by
    have := workersWeight_true_le ws
    cases pc <;> simp only [workersWeight, workerWeight, if_true, Bool.false_eq_true,
      if_false] <;> omega

theorem length_held_set {s : Pipeline α} {t : Nat} {old : WorkerPc α}
    (h : s.workers[t]? = some old) (new : WorkerPc α) :
    ((s.workers.set t new).filterMap WorkerPc.held?).length + old.held?.toList.length =
      s.held.length + new.held?.toList.length := by
  simpa using (held_set h new).length_eq

/-- The writer scans at most the flags of the workers there are. -/
theorem ExitOrder.scan_le {s : Pipeline α} (ho : ExitOrder s) {i : Nat}
    (h : s.writer = .scan i) : i ≤ s.workers.length := by
  by_contra hi
  have := ho.scan_done i h s.workers.length (by omega)
  simp at this

/-! ### A step that decreases the measure -/

section Steps

variable {doAlignment : α → String} {s : Pipeline α}

/-- The writer, scanning or with a result to write, steps and decreases the measure. -/
theorem writer_step_measure_lt (ho : ExitOrder s)
    (hw : (∃ i, s.writer = .scan i) ∨ s.writer = .pop ∧ s.pafQueue ≠ []) :
    ∃ s', step doAlignment s .writer = some s' ∧ s'.measure < s.measure := by
  rcases hw with ⟨i, hi⟩ | ⟨hpop, hq⟩
  · have hle := ho.scan_le hi
    simp only [step, hi, writerStep]
    split <;> refine ⟨_, rfl, ?_⟩ <;>
      simp only [Pipeline.measure, Pipeline.held, hi, writerWeight] <;> omega
  · obtain ⟨r, q, hrq⟩ := List.exists_cons_of_ne_nil hq
    simp only [step, hpop, writerStep, hrq]
    refine ⟨_, rfl, ?_⟩
    simp only [Pipeline.measure, Pipeline.held, hrq, hpop, List.length_cons, writerWeight]
    omega

/-- A worker step that moves worker `t` from `old` to `new`, and leaves `reader_done`,
`pending` and the writer as they are, decreases the measure when the worker's weight and
what it holds, with the queues, weigh less after it. -/
theorem measure_lt_of_worker_set {s' : Pipeline α} {t : Nat} {old new : WorkerPc α}
    (hpc : s.workers[t]? = some old) (hw : s'.workers = s.workers.set t new)
    (hrd : s'.readerDone = s.readerDone) (hp : s'.pending = s.pending)
    (hwr : s'.writer = s.writer)
    (hlt : workerWeight s.readerDone new + 2 * new.held?.toList.length +
        3 * s'.seqQueue.length + s'.pafQueue.length <
      workerWeight s.readerDone old + 2 * old.held?.toList.length +
        3 * s.seqQueue.length + s.pafQueue.length) :
    s'.measure < s.measure := by
  have hW := workersWeight_set s.readerDone s.workers t old new hpc
  have hH := length_held_set hpc new
  simp only [Pipeline.measure, hw, hrd, hp, hwr, List.length_set, Pipeline.held] at hH ⊢
  omega

/-- A worker that is neither at `try_pop` nor returned, with nothing in `paf_queue`,
steps and decreases the measure; so does one at `try_pop` with a record to pop, or once
`reader_done` is set. -/
theorem worker_step_measure_lt {t : Nat} {pc : WorkerPc α} (hpc : s.workers[t]? = some pc)
    (hpc' : pc ≠ .done) (hpop : pc = .pop → s.seqQueue ≠ [] ∨ s.readerDone = true)
    (hpaf : s.pafQueue = []) :
    ∃ s', step doAlignment s (.worker t) = some s' ∧ s'.measure < s.measure := by
  simp only [step, hpc]
  cases pc with
  | start | leave =>
    refine ⟨_, rfl, measure_lt_of_worker_set hpc rfl rfl rfl rfl ?_⟩
    simp [workerWeight, WorkerPc.held?]
  | pop =>
    cases hq : s.seqQueue with
    | cons x q =>
      -- a record is popped into the worker's hands
      simp only [workerStep, hq]
      refine ⟨_, rfl, measure_lt_of_worker_set hpc rfl rfl rfl rfl ?_⟩
      simp only [workerWeight, WorkerPc.held?, hq, Option.toList, List.length_cons,
        List.length_nil]
      omega
    | nil =>
      -- `try_pop` fails once `reader_done` is set: the worker goes on to leave
      have hrd : s.readerDone = true := by simpa [hq] using hpop rfl
      simp only [workerStep, hq]
      refine ⟨_, rfl, measure_lt_of_worker_set hpc rfl rfl rfl rfl ?_⟩
      simp [workerWeight, WorkerPc.held?, hrd, hq]
  | checkDone =>
    refine ⟨_, rfl, measure_lt_of_worker_set hpc rfl rfl rfl rfl ?_⟩
    cases hrd : s.readerDone <;> simp [workerWeight, WorkerPc.held?, hrd]
  | align x =>
    simp only [workerStep]
    by_cases hx : doAlignment x = ""
    · simp only [hx, if_true]
      refine ⟨_, rfl, measure_lt_of_worker_set hpc rfl rfl rfl rfl ?_⟩
      simp [workerWeight, WorkerPc.held?]
    · -- the result goes to `paf_queue`, which is empty
      simp only [hx, if_false, hpaf, List.length_nil, show 0 < queueCapacity by decide, if_true]
      refine ⟨_, rfl, measure_lt_of_worker_set hpc rfl rfl rfl rfl ?_⟩
      simp only [workerWeight, WorkerPc.held?, hpaf, Option.toList, List.length_cons,
        List.length_nil, List.nil_append]
      omega
  | done => exact absurd rfl hpc'

/-- The reader, with an envelope to push onto an empty `seq_queue` or `reader_done` to
store, steps and decreases the measure. -/
theorem reader_step_measure_lt (hq : s.pending ≠ [] → s.seqQueue = [])
    (h : s.pending ≠ [] ∨ s.readerDone = false) :
    ∃ s', step doAlignment s .reader = some s' ∧ s'.measure < s.measure := by
  simp only [step, readerStep]
  cases hp : s.pending with
  | cons x rest =>
    have hq := hq (by simp [hp])
    simp only [hq, List.length_nil, show 0 < queueCapacity by decide, if_true]
    refine ⟨_, rfl, ?_⟩
    simp only [Pipeline.measure, Pipeline.held, hp, hq, List.length_cons, List.length_nil,
      List.nil_append,
      List.length_singleton]
    omega
  | nil =>
    have hrd : s.readerDone = false := by simpa [hp] using h
    simp only [hrd, Bool.false_eq_true, if_false]
    refine ⟨_, rfl, ?_⟩
    have := workersWeight_true_le s.workers
    simp only [Pipeline.measure, Pipeline.held, hp, hrd, if_true, Bool.false_eq_true, if_false]
    omega

/-- **A step that decreases the measure.** In every state that keeps `ExitOrder`, with
at least one worker, and is not at its end, some thread can step and decrease the
measure. -/
theorem exists_step_measure_lt (ho : ExitOrder s) (hn : 0 < s.workers.length)
    (hend : ¬ AtEnd s) :
    ∃ th s', step doAlignment s th = some s' ∧ s'.measure < s.measure := by
  -- the writer, scanning or with a result to write
  by_cases hw : (∃ i, s.writer = .scan i) ∨ s.writer = .pop ∧ s.pafQueue ≠ []
  · exact ⟨_, writer_step_measure_lt ho hw⟩
  -- once the writer has returned, so has every other thread
  by_cases hdone : s.writer = .done
  · have hall := ho.writer_done hdone
    have hrd := ho.readerDone_of_left 0 (Or.inr (hall 0 hn))
    refine absurd ⟨ho.pending_of_readerDone hrd, hrd, fun pc hpc => ?_, .inl hdone⟩ hend
    obtain ⟨t, ht⟩ := List.mem_iff_getElem?.mp hpc
    exact Option.some.inj (ht.symm.trans (hall t (List.getElem?_eq_some_iff.mp ht).1))
  have hpaf : s.pafQueue = [] := by
    cases hwr : s.writer with
    | pop => simpa [hwr] using hw
    | scan i => exact absurd (Or.inl ⟨i, hwr⟩) hw
    | done => exact absurd hwr hdone
  -- a worker that is neither at `try_pop` nor returned
  by_cases hbusy :
      ∃ t : Nat, ∃ pc : WorkerPc α, s.workers[t]? = some pc ∧ pc ≠ .pop ∧ pc ≠ .done
  · obtain ⟨t, pc, hpc, hpop, hpc'⟩ := hbusy
    exact ⟨_, worker_step_measure_lt hpc hpc' (fun h => absurd h hpop) hpaf⟩
  push_neg at hbusy
  -- a worker at `try_pop` with a record to pop, or once `reader_done` is set
  by_cases hpop :
      ∃ t : Nat, s.workers[t]? = some .pop ∧ (s.seqQueue ≠ [] ∨ s.readerDone = true)
  · obtain ⟨t, hpc, hq⟩ := hpop
    exact ⟨_, worker_step_measure_lt hpc (by simp) (fun _ => hq) hpaf⟩
  push_neg at hpop
  -- the reader: while it has an envelope to push, no worker has returned
  have hq : s.pending ≠ [] → s.seqQueue = [] := fun hp => by
    by_contra hq
    have h0 : s.workers[0]? = some .pop := by
      have hpc : s.workers[0]? = some s.workers[0] := List.getElem?_eq_getElem hn
      by_cases hne : s.workers[0] = .pop
      · rwa [hne] at hpc
      · rw [hbusy 0 _ hpc hne] at hpc
        exact absurd (ho.pending_of_readerDone (ho.readerDone_of_left 0 (Or.inr hpc))) hp
    exact hq (hpop 0 h0).1
  by_cases hr : s.pending ≠ [] ∨ s.readerDone = false
  · exact ⟨_, reader_step_measure_lt hq hr⟩
  -- otherwise every worker has returned: the end
  push_neg at hr
  simp only [ne_eq, not_not, Bool.not_eq_false] at hr
  refine absurd ⟨hr.1, hr.2, fun pc hpc => ?_, .inr ⟨?_, hpaf⟩⟩ hend
  · obtain ⟨t, ht⟩ := List.mem_iff_getElem?.mp hpc
    by_contra hne
    by_cases hp : pc = .pop
    · subst hp; exact absurd hr.2 (hpop t ht).2
    · exact hne (hbusy t pc ht hp)
  · cases hwr : s.writer with
    | pop => rfl
    | scan i => exact absurd (Or.inl ⟨i, hwr⟩) hw
    | done => exact absurd hwr hdone

end Steps

/-! ### Running to the end -/

section Finish

variable {doAlignment : α → String}

/-- At the end, the writer finds nothing queued, loads every flag, all false, and
returns. -/
theorem run_writer_at_end {s : Pipeline α} (ho : ExitOrder s)
    (hall : ∀ pc ∈ s.workers, pc = .done) (hw : s.writer = .pop) (hpaf : s.pafQueue = []) :
    run doAlignment s (List.replicate (s.workers.length + 2) .writer) =
      some { s with writer := .done } := by
  -- every flag is false
  have hwk : s.working = List.replicate (0 + s.workers.length) false := by
    refine List.ext_getElem? fun t => ?_
    rw [List.getElem?_replicate]
    split
    · exact (ho.working_false t).mpr (by
        rw [List.getElem?_eq_getElem (by omega)]
        exact congrArg some (hall _ (List.getElem_mem _)))
    · exact List.getElem?_eq_none (by rw [ho.length_working]; omega)
  rw [List.replicate_succ,
    run_cons_of_step (show step doAlignment s .writer = some { s with writer := .scan 0 } by
      simp [step, writerStep, hw, hpaf]),
    run_scan (s.workers.length) { s with writer := .scan 0 } 0 rfl hwk]

/-- From every state that keeps `ExitOrder`, with at least one worker, some schedule
takes every thread to its return. -/
theorem exists_run_finish (s : Pipeline α) (ho : ExitOrder s) (hn : 0 < s.workers.length) :
    ∃ sched s', run doAlignment s sched = some s' ∧ s'.writer = .done ∧
      (∀ pc ∈ s'.workers, pc = .done) ∧ s'.pending = [] ∧ s'.readerDone = true := by
  suffices h : ∀ m, ∀ s : Pipeline α, s.measure = m → ExitOrder s →
      0 < s.workers.length →
      ∃ sched s', run doAlignment s sched = some s' ∧ s'.writer = .done ∧
        (∀ pc ∈ s'.workers, pc = .done) ∧ s'.pending = [] ∧ s'.readerDone = true from
    h _ s rfl ho hn
  intro m
  induction m using Nat.strong_induction_on with
  | _ m ih =>
    intro s hm ho hn
    by_cases hend : AtEnd s
    · obtain ⟨hp, hrd, hall, hw | ⟨hw, hpaf⟩⟩ := hend
      · exact ⟨[], s, rfl, hw, hall, hp, hrd⟩
      · exact ⟨_, _, run_writer_at_end ho hall hw hpaf, rfl, hall, hp, hrd⟩
    -- a step that decreases the measure, then the rest by induction
    obtain ⟨th, s₁, hs, hlt⟩ := @exists_step_measure_lt _ doAlignment s ho hn hend
    obtain ⟨sched, s', hrun, hfin⟩ := ih _ (hm ▸ hlt) s₁ rfl (step_exitOrder ho hs)
      (by rw [step_workers_length hs]; exact hn)
    exact ⟨th :: sched, s', by rw [run_cons_of_step hs]; exact hrun, hfin⟩

end Finish

/-- **The threads can always return.** From every state that a schedule reaches from the
launch with at least one worker, some continuation takes every thread to its return: the
writer and every worker have left their loops, and the reader has pushed every envelope
and stored `reader_done`. No interleaving leads into a state where a push waits for good
or a thread spins for ever. -/
theorem run_can_finish (doAlignment : α → String) (envelopes : List α) {n : Nat} (hn : 0 < n)
    (sched : List Thread) (s : Pipeline α)
    (h : run doAlignment (Pipeline.init envelopes n) sched = some s) :
    ∃ sched' s', run doAlignment s sched' = some s' ∧ s'.writer = .done ∧
      (∀ pc ∈ s'.workers, pc = .done) ∧ s'.pending = [] ∧ s'.readerDone = true := by
  obtain ⟨ho, hlen⟩ := run_exitOrder_of (exitOrder_init envelopes n) h
  exact exists_run_finish s ho (by simpa [Pipeline.init, hlen] using hn)

/-- After a worker's `try_pop` has failed and the reader has pushed its one envelope. -/
theorem run_can_finish_after_two_steps :
    0 < 1 ∧
    run (fun _ : Nat => "aln") (Pipeline.init [0] 1) [.worker 0, .worker 0, .reader] =
      some { pending := [], readerDone := false, seqQueue := [0], workers := [.checkDone],
             working := [true], pafQueue := [], writer := .pop, output := [], aligned := [] } ∧
    ∃ sched' s', run (fun _ : Nat => "aln")
        { pending := [], readerDone := false, seqQueue := [0], workers := [.checkDone],
          working := [true], pafQueue := [], writer := .pop, output := [], aligned := [] }
        sched' = some s' ∧ s'.writer = .done ∧ (∀ pc ∈ s'.workers, pc = .done) ∧
      s'.pending = [] ∧ s'.readerDone = true :=
  ⟨by decide, rfl, run_can_finish (fun _ : Nat => "aln") [0] (n := 1) (by decide)
    [.worker 0, .worker 0, .reader]
    { pending := [], readerDone := false, seqQueue := [0], workers := [.checkDone],
      working := [true], pafQueue := [], writer := .pop, output := [], aligned := [] } rfl⟩


end Wfmash.Align

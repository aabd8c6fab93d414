import ProtobufMq.Foundation.Framing
import ProtobufMq.Foundation.Run

namespace ProtobufMq

open Foundation

/-!
# `Threadpool`: tasks, workers and one call of `stop`

Any number of threads push tasks, which are numbered in the order they come in.
A worker takes all tasks that are in the pool at once and runs them one after
another, and looks at the stop flag only before it takes more.  `stop` sets the
flag, wakes everybody and joins the workers one by one.

A notification is not kept: a waiting worker may wake up at any time, with or
without one, and then evaluates the condition again.

So the tasks that are in the pool when the flag is set still run if some worker
has passed the test by then; if each of them is at the test or in a task, nobody
looks into the pool any more.
-/

namespace Threadpool

/-- Where a worker is in `entry`. -/
inductive Worker where
  /-- Before the test of the loop. -/
  | checking
  /-- About to evaluate the condition under the lock. -/
  | waiting
  | asleep
  /-- In the loop over the tasks that it took. -/
  | running (tmpTaskpool : List Nat)
  /-- Inside a task, with those that come after it. -/
  | executing (task : Nat) (tmpTaskpool : List Nat)
  | exited
  deriving DecidableEq, Repr

/-- Where the call of `stop` is.  From the call on, the tasks are remembered
whose push had returned before it. -/
inductive Stopper where
  | uncalled
  | called (due : List Nat)
  | joining (due : List Nat)
  | returned (due : List Nat)
  deriving DecidableEq, Repr

end Threadpool

/-- `Threadpool`, with the history of its tasks. -/
structure Threadpool where
  stop : Bool := false
  taskpool : List Nat := []
  threads : List Threadpool.Worker
  stopper : Threadpool.Stopper := .uncalled
  pushed : Nat := 0
  returned : List Nat := []
  begun : List Nat := []
  finished : List Nat := []
  deriving Repr

namespace Threadpool

/-- The constructor. -/
def new (thrCount : Nat) : Threadpool :=
  { threads := List.replicate thrCount .checking }

/-- A step of one of the threads. -/
inductive Event where
  /-- A task is appended under the lock. -/
  | push
  | pushReturns (task : Nat)
  | work (index : Nat)
  | callStop
  | setStop
  | stopReturns
  deriving DecidableEq, Repr

/-- A step of `entry`. -/
def entry (pool : Threadpool) (index : Nat) : Threadpool :=
  match pool.threads[index]? with
  | none => pool
  | some .checking =>
      { pool with threads := pool.threads.set index (if pool.stop then .exited else .waiting) }
  | some .waiting =>
      if pool.stop || !pool.taskpool.isEmpty then
        { pool with taskpool := [], threads := pool.threads.set index (.running pool.taskpool) }
      else { pool with threads := pool.threads.set index .asleep }
  | some .asleep => { pool with threads := pool.threads.set index .waiting }
  | some (.running []) => { pool with threads := pool.threads.set index .checking }
  | some (.running (task :: rest)) =>
      { pool with
        threads := pool.threads.set index (.executing task rest)
        begun := pool.begun ++ [task] }
  | some (.executing task rest) =>
      { pool with
        threads := pool.threads.set index (.running rest)
        finished := pool.finished ++ [task] }
  | some .exited => pool

/-- Perform one step.  What a thread cannot do yet changes nothing. -/
def perform (pool : Threadpool) : Event → Except Empty Threadpool
  | .push => .ok { pool with
      taskpool := pool.taskpool ++ [pool.pushed], pushed := pool.pushed + 1 }
  | .pushReturns task =>
      if task < pool.pushed then .ok { pool with returned := pool.returned ++ [task] }
      else .ok pool
  | .work index => .ok (pool.entry index)
  | .callStop =>
      match pool.stopper with
      | .uncalled => .ok { pool with stopper := .called pool.returned }
      | _ => .ok pool
  | .setStop =>
      match pool.stopper with
      | .called due => .ok { pool with stopper := .joining due, stop := true }
      | _ => .ok pool
  | .stopReturns =>
      match pool.stopper with
      | .joining due =>
          if pool.threads.all (· = .exited) then .ok { pool with stopper := .returned due }
          else .ok pool
      | _ => .ok pool

/-- No task runs twice, and when `stop` has returned, every task whose push had
returned before it was called has run, unless it is still in the pool. -/
structure RunsOnce (pool : Threadpool) : Prop where
  once : pool.begun.Nodup
  complete : ∀ due, pool.stopper = .returned due → ∀ task ∈ due,
    task ∈ pool.finished ∨ task ∈ pool.taskpool

/-! ## Where the tasks are -/

/-- The tasks that a worker took and has not begun. -/
def Worker.pending : Worker → List Nat
  | .running tmpTaskpool => tmpTaskpool
  | .executing _ tmpTaskpool => tmpTaskpool
  | _ => []

/-- The task that a worker is inside. -/
def Worker.current : Worker → List Nat
  | .executing task _ => [task]
  | _ => []

/-- The tasks that `stop` has to wait for. -/
def Stopper.due : Stopper → List Nat
  | .uncalled => []
  | .called due => due
  | .joining due => due
  | .returned due => due

/-- The invariant: every pushed task is in one place. -/
structure Kept (pool : Threadpool) : Prop where
  placed : (pool.begun ++ pool.threads.flatMap Worker.pending ++ pool.taskpool).Perm
    (List.range pool.pushed)
  current : pool.begun.Perm (pool.finished ++ pool.threads.flatMap Worker.current)
  returned : ∀ task ∈ pool.returned, task < pool.pushed
  due : ∀ task ∈ pool.stopper.due, task < pool.pushed
  joined : ∀ due, pool.stopper = .returned due → ∀ worker ∈ pool.threads, worker = .exited

/-- Where one worker moves on, only what it holds changes. -/
theorem count_flatMap_set {threads : List Worker} {index : Nat} {old : Worker}
    (there : threads[index]? = some old) (new : Worker) (holding : Worker → List Nat) (task : Nat) :
    ((threads.set index new).flatMap holding).count task + (holding old).count task =
      (threads.flatMap holding).count task + (holding new).count task := by
  conv_rhs => rw [take_cons_drop there]
  rw [set_eq_take_cons_drop there]
  simp only [List.flatMap_append, List.flatMap_cons, List.count_append]
  omega

section Steps

variable {pool next : Threadpool}

/-- A worker moves on, and what it took from the pool, began and finished adds up. -/
theorem Kept.set (kept : Kept pool) {index : Nat} {old new : Worker}
    (there : pool.threads[index]? = some old) (working : old ≠ .exited)
    {taskpool begun finished : List Nat}
    (placed : ∀ task, (begun ++ new.pending ++ taskpool).count task =
      (pool.begun ++ old.pending ++ pool.taskpool).count task)
    (current : ∀ task, (finished ++ new.current).count task + pool.begun.count task =
      (pool.finished ++ old.current).count task + begun.count task) :
    Kept { pool with
      threads := pool.threads.set index new
      taskpool := taskpool
      begun := begun
      finished := finished } where
  placed := by
    refine List.Perm.trans ?_ kept.placed
    rw [List.perm_iff_count]
    intro task
    have moved := count_flatMap_set there new Worker.pending task
    have same := placed task
    simp only [List.count_append] at same ⊢
    omega
  current := by
    have before := kept.current
    rw [List.perm_iff_count] at before ⊢
    intro task
    have moved := count_flatMap_set there new Worker.current task
    have same := current task
    have began := before task
    simp only [List.count_append] at same began ⊢
    omega
  returned := kept.returned
  due := kept.due
  joined due stopped worker member :=
    absurd (kept.joined due stopped old (List.mem_of_getElem? there)) working

/-- A worker makes a step. -/
theorem Kept.entry (kept : Kept pool) (index : Nat) : Kept (pool.entry index) := by
  unfold Threadpool.entry
  cases there : pool.threads[index]? with
  | none => exact kept
  | some worker =>
      cases worker with
      | checking =>
          refine kept.set there nofun (fun task => ?_) (fun task => ?_)
          · cases pool.stop <;> rfl
          · cases pool.stop <;> rfl
      | waiting =>
          simp only
          by_cases takes : (pool.stop || !pool.taskpool.isEmpty) = true
          · rw [if_pos takes]
            refine kept.set there nofun (fun task => ?_) (fun task => rfl)
            simp only [Worker.pending, List.append_nil]
          · rw [if_neg takes]
            exact kept.set there nofun (fun task => rfl) (fun task => rfl)
      | asleep => exact kept.set there nofun (fun task => rfl) (fun task => rfl)
      | running tmpTaskpool =>
          cases tmpTaskpool with
          | nil => exact kept.set there nofun (fun task => rfl) (fun task => rfl)
          | cons first rest =>
              refine kept.set there nofun (fun task => ?_) (fun task => ?_)
              · simp only [Worker.pending, List.append_assoc, List.cons_append, List.nil_append]
              · simp only [Worker.current, List.append_nil, List.count_append]
                omega
      | executing task rest =>
          refine kept.set there nofun (fun task => rfl) (fun task => ?_)
          simp only [Worker.current, List.append_nil]
      | exited => exact kept

/-- The steps by what they do. -/
inductive Turn (pool : Threadpool) : Event → Threadpool → Prop where
  | pushes : Turn pool .push { pool with
      taskpool := pool.taskpool ++ [pool.pushed], pushed := pool.pushed + 1 }
  | works (index : Nat) : Turn pool (.work index) (pool.entry index)
  | returns {event : Event} (returned : List Nat)
      (known : ∀ task ∈ returned, task ∈ pool.returned ∨ task < pool.pushed) :
      Turn pool event { pool with returned := returned }
  | calls {event : Event} (uncalled : pool.stopper = .uncalled) :
      Turn pool event { pool with stopper := .called pool.returned }
  | flags {due : List Nat} (called : pool.stopper = .called due) :
      Turn pool .setStop { pool with stopper := .joining due, stop := true }
  | joins {event : Event} {due : List Nat} (joining : pool.stopper = .joining due)
      (exited : ∀ worker ∈ pool.threads, worker = .exited) :
      Turn pool event { pool with stopper := .returned due }

/-- A step without effect. -/
theorem Turn.still (pool : Threadpool) (event : Event) : Turn pool event pool :=
  .returns pool.returned fun _ => Or.inl

theorem perform_turn {event : Event} (stepped : pool.perform event = .ok next) :
    Turn pool event next := by
  cases event with
  | push =>
      cases stepped
      exact .pushes
  | pushReturns task =>
      unfold perform at stepped
      by_cases pushed : task < pool.pushed
      · simp only [if_pos pushed] at stepped
        cases stepped
        refine .returns _ fun other returned => ?_
        rcases List.mem_append.mp returned with before | now
        · exact Or.inl before
        · exact Or.inr ((List.mem_singleton.mp now).symm ▸ pushed)
      · simp only [if_neg pushed] at stepped
        cases stepped
        exact Turn.still pool _
  | work index =>
      cases stepped
      exact .works index
  | callStop =>
      unfold perform at stepped
      cases stage : pool.stopper with
      | uncalled =>
          simp only [stage] at stepped
          cases stepped
          exact .calls stage
      | called due | joining due | returned due =>
          simp only [stage] at stepped
          cases stepped
          exact Turn.still pool _
  | setStop =>
      unfold perform at stepped
      cases stage : pool.stopper with
      | called due =>
          simp only [stage] at stepped
          cases stepped
          exact .flags stage
      | uncalled =>
          simp only [stage] at stepped
          cases stepped
          exact Turn.still pool _
      | joining due | returned due =>
          simp only [stage] at stepped
          cases stepped
          exact Turn.still pool _
  | stopReturns =>
      unfold perform at stepped
      cases stage : pool.stopper with
      | joining due =>
          simp only [stage] at stepped
          by_cases all : (pool.threads.all (· = .exited)) = true
          · rw [if_pos all] at stepped
            cases stepped
            exact .joins stage fun worker member =>
              of_decide_eq_true (List.all_eq_true.mp all worker member)
          · rw [if_neg all] at stepped
            cases stepped
            exact Turn.still pool _
      | uncalled =>
          simp only [stage] at stepped
          cases stepped
          exact Turn.still pool _
      | called due | returned due =>
          simp only [stage] at stepped
          cases stepped
          exact Turn.still pool _

theorem kept_step {event : Event} (kept : Kept pool) (stepped : pool.perform event = .ok next) :
    Kept next := by
  cases perform_turn stepped with
  | pushes =>
      refine ⟨?_, kept.current, fun task returned => Nat.lt_succ_of_lt (kept.returned task returned),
        fun task due => Nat.lt_succ_of_lt (kept.due task due), kept.joined⟩
      rw [List.range_succ, ← List.append_assoc]
      exact kept.placed.append_right _
  | works index => exact kept.entry index
  | returns returned known =>
      refine ⟨kept.placed, kept.current, fun task member => ?_, kept.due, kept.joined⟩
      exact (known task member).elim (kept.returned task) id
  | calls uncalled =>
      exact ⟨kept.placed, kept.current, kept.returned, kept.returned, fun _ impossible => by
        cases impossible⟩
  | flags called =>
      have known := kept.due
      rw [called] at known
      exact ⟨kept.placed, kept.current, kept.returned, known, fun _ impossible => by
        cases impossible⟩
  | joins joining exited =>
      have known := kept.due
      rw [joining] at known
      exact ⟨kept.placed, kept.current, kept.returned, known, fun _ _ => exited⟩

/-- When the workers have exited, a task has run or is in the pool. -/
theorem Kept.runsOnce (kept : Kept pool) : RunsOnce pool where
  once := by
    have distinct := kept.placed.nodup_iff.mpr List.nodup_range
    exact (List.nodup_append.mp (List.nodup_append.mp distinct).1).1
  complete due stopped task member := by
    have exited := kept.joined due stopped
    have pending : pool.threads.flatMap Worker.pending = [] :=
      List.flatMap_eq_nil_iff.mpr fun worker works => by rw [exited worker works]; rfl
    have current : pool.threads.flatMap Worker.current = [] :=
      List.flatMap_eq_nil_iff.mpr fun worker works => by rw [exited worker works]; rfl
    have pushed : task < pool.pushed := kept.due task (by rw [stopped]; exact member)
    have placed := kept.placed.mem_iff.mpr (List.mem_range.mpr pushed)
    rw [pending, List.append_nil] at placed
    rcases List.mem_append.mp placed with began | waits
    · have ended := kept.current.mem_iff.mp began
      rw [current, List.append_nil] at ended
      exact Or.inl ended
    · exact Or.inr waits

end Steps

theorem kept_new (thrCount : Nat) : Kept (new thrCount) where
  placed := by
    have pending : (List.replicate thrCount Worker.checking).flatMap Worker.pending = [] :=
      List.flatMap_eq_nil_iff.mpr fun worker works => by rw [List.eq_of_mem_replicate works]; rfl
    change ([] ++ _ ++ []).Perm []
    rw [new, pending]
    exact List.Perm.nil
  current := by
    have current : (List.replicate thrCount Worker.checking).flatMap Worker.current = [] :=
      List.flatMap_eq_nil_iff.mpr fun worker works => by rw [List.eq_of_mem_replicate works]; rfl
    change [].Perm ([] ++ _)
    rw [new, current]
    exact List.Perm.nil
  returned _ member := by cases member
  due _ member := by cases member
  joined _ impossible := by cases impossible

theorem runsOnce_throughout (thrCount : Nat) (events : List Event) :
    Throughout perform RunsOnce (new thrCount) events :=
  throughout_of_along (fun _ kept => kept.runsOnce) (fun _ _ _ kept _ stepped => kept_step kept stepped)
    (kept_new thrCount) (along_trivial perform _ _)

theorem kept_run {thrCount : Nat} {events : List Event} {pool : Threadpool}
    (reached : run perform (new thrCount) events = .ok pool) : Kept pool :=
  run_invariant (fun _ _ _ kept _ stepped => kept_step kept stepped) (kept_new thrCount)
    (along_trivial perform _ _) reached

/-! ## What is left when the flag is set -/

/-- The worker has passed the test of the loop and not taken the tasks yet. -/
def Worker.looks : Worker → Bool
  | .waiting => true
  | .asleep => true
  | _ => false

/-- Some worker will take what is in the pool, flag or not. -/
def Looking (pool : Threadpool) : Prop :=
  ∃ worker ∈ pool.threads, worker.looks = true

/-- The task is in the pool, and once the flag is set, nobody takes it. -/
def Strands (pool : Threadpool) (task : Nat) : Prop :=
  task ∈ pool.taskpool ∧ ¬ pool.Looking

/-- The flag is set, or has been. -/
def Stopper.flagged : Stopper → Bool
  | .uncalled => false
  | .called _ => false
  | .joining _ => true
  | .returned _ => true

section Stopped

variable {pool next final : Threadpool} {task : Nat} {event : Event}

/-- A worker that looks into the pool as much as before changes nothing of it. -/
theorem strands_set {index : Nat} {old new : Worker} (there : pool.threads[index]? = some old)
    (threads : next.threads = pool.threads.set index new) (same : new.looks = old.looks)
    (taskpool : next.taskpool = pool.taskpool) : next.Strands task ↔ pool.Strands task := by
  have looking : next.Looking ↔ pool.Looking := by
    unfold Looking
    conv_rhs => rw [take_cons_drop there]
    rw [threads, set_eq_take_cons_drop there]
    simp only [List.mem_append, List.mem_cons, or_and_right, exists_or, exists_eq_left, same]
  exact and_congr (by rw [taskpool]) (not_congr looking)

/-- With the flag set, a worker takes the whole pool, or it changes neither the
pool nor whether somebody will take it. -/
theorem strands_entry (stopped : pool.stop = true) (index : Nat) (task : Nat) :
    (pool.entry index).Strands task ↔ pool.Strands task := by
  unfold entry
  cases there : pool.threads[index]? with
  | none => exact Iff.rfl
  | some worker =>
      cases worker with
      | checking =>
          simp only [stopped, if_true]
          exact strands_set there rfl rfl rfl
      | waiting =>
          simp only [stopped, Bool.true_or, if_true]
          constructor
          · rintro ⟨impossible, _⟩
            cases impossible
          · rintro ⟨_, nobody⟩
            exact absurd ⟨_, List.mem_of_getElem? there, rfl⟩ nobody
      | asleep => exact strands_set there rfl rfl rfl
      | running tmpTaskpool =>
          cases tmpTaskpool with
          | nil => exact strands_set there rfl rfl rfl
          | cons first rest => exact strands_set there rfl rfl rfl
      | executing task rest => exact strands_set there rfl rfl rfl
      | exited => exact Iff.rfl

theorem entry_frame (pool : Threadpool) (index : Nat) :
    (pool.entry index).stop = pool.stop ∧ (pool.entry index).pushed = pool.pushed ∧
      (pool.entry index).stopper = pool.stopper := by
  unfold entry
  cases pool.threads[index]? with
  | none => exact ⟨rfl, rfl, rfl⟩
  | some worker =>
      cases worker with
      | waiting =>
          simp only
          by_cases takes : (pool.stop || !pool.taskpool.isEmpty) = true
          · rw [if_pos takes]
            exact ⟨rfl, rfl, rfl⟩
          · rw [if_neg takes]
            exact ⟨rfl, rfl, rfl⟩
      | running tmpTaskpool => cases tmpTaskpool <;> exact ⟨rfl, rfl, rfl⟩
      | _ => exact ⟨rfl, rfl, rfl⟩

/-- Once the flag is set, whether a task is stranded does not change any more. -/
theorem strands_step (stopped : pool.stop = true) (older : task < pool.pushed)
    (stepped : pool.perform event = .ok next) :
    next.stop = true ∧ task < next.pushed ∧ (next.Strands task ↔ pool.Strands task) := by
  cases perform_turn stepped with
  | pushes =>
      refine ⟨stopped, Nat.lt_succ_of_lt older, and_congr ?_ Iff.rfl⟩
      rw [List.mem_append, List.mem_singleton]
      exact or_iff_left (Nat.ne_of_lt older)
  | works index =>
      rcases entry_frame pool index with ⟨stop, pushed, _⟩
      exact ⟨stop.trans stopped, pushed.symm ▸ older, strands_entry stopped index task⟩
  | returns returned known => exact ⟨stopped, older, Iff.rfl⟩
  | calls uncalled => exact ⟨stopped, older, Iff.rfl⟩
  | flags called => exact ⟨rfl, older, Iff.rfl⟩
  | joins joining exited => exact ⟨stopped, older, Iff.rfl⟩

theorem strands_run {events : List Event} (stopped : pool.stop = true) (older : task < pool.pushed)
    (completes : run perform pool events = .ok final) :
    final.Strands task ↔ pool.Strands task := by
  have kept := @run_invariant _ _ _ perform (fun _ _ => True) (fun later => later.stop = true ∧
    task < later.pushed ∧ (later.Strands task ↔ pool.Strands task))
    (fun _ _ _ before _ stepped => by
      rcases strands_step before.1 before.2.1 stepped with ⟨stop, pushed, same⟩
      exact ⟨stop, pushed, same.trans before.2.2⟩)
    pool final events ⟨stopped, older, Iff.rfl⟩ (along_trivial ..) completes
  exact kept.2.2

/-- When the workers have exited, the tasks that have not run are those in the pool. -/
theorem Kept.finished_iff (kept : Kept pool) {due : List Nat} (stopped : pool.stopper = .returned due)
    (member : task ∈ due) : task ∈ pool.finished ↔ ¬ pool.Strands task := by
  have nobody : ¬ pool.Looking := by
    rintro ⟨worker, works, looks⟩
    rw [kept.joined due stopped worker works] at looks
    cases looks
  have distinct := kept.placed.nodup_iff.mpr List.nodup_range
  constructor
  · intro ran stranded
    have began := kept.current.mem_iff.mpr (List.mem_append_left _ ran)
    exact (List.nodup_append.mp distinct).2.2 task (List.mem_append_left _ began) task stranded.1 rfl
  · intro taken
    exact (kept.runsOnce.complete due stopped task member).resolve_right
      fun waits => taken ⟨waits, nobody⟩

/-- From when the flag is set, `stop` waits for the same tasks. -/
theorem flagged_step (flagged : pool.stopper.flagged = true)
    (stepped : pool.perform event = .ok next) :
    next.stopper.flagged = true ∧ next.stopper.due = pool.stopper.due := by
  cases perform_turn stepped with
  | works index =>
      rw [(entry_frame pool index).2.2]
      exact ⟨flagged, rfl⟩
  | calls uncalled =>
      rw [uncalled] at flagged
      cases flagged
  | flags called =>
      rw [called] at flagged
      cases flagged
  | joins joining exited =>
      rw [joining]
      exact ⟨rfl, rfl⟩
  | _ => exact ⟨flagged, rfl⟩

/-- A call of `stop` that has returned has set the flag. -/
theorem exists_setStop {events : List Event} {due : List Nat}
    (unflagged : pool.stopper.flagged = false) (completes : run perform pool events = .ok final)
    (returned : final.stopper = .returned due) :
    ∃ before middle after, events = before ++ .setStop :: after ∧
      run perform pool before = .ok middle ∧ middle.stopper = .called due ∧
      run perform { middle with stopper := .joining due, stop := true } after = .ok final := by
  induction events generalizing pool with
  | nil =>
      cases completes
      rw [returned] at unflagged
      cases unflagged
  | cons event rest inductionHypothesis =>
      rcases run_cons_inv completes with ⟨next, stepped, continued⟩
      have later : next.stopper.flagged = false → ∃ before middle after,
          event :: rest = before ++ .setStop :: after ∧ run perform pool before = .ok middle ∧
          middle.stopper = .called due ∧
          run perform { middle with stopper := .joining due, stop := true } after = .ok final := by
        intro still
        rcases inductionHypothesis still continued with ⟨before, middle, after, same, reached, rest⟩
        exact ⟨event :: before, middle, after, congrArg (event :: ·) same,
          (run_cons_ok stepped).trans reached, rest⟩
      cases perform_turn stepped with
      | works index => exact later ((entry_frame pool index).2.2.symm ▸ unflagged)
      | @flags awaited called =>
          have kept := @run_invariant _ _ _ perform (fun _ _ => True)
            (fun later => later.stopper.flagged = true ∧ later.stopper.due = awaited)
            (fun _ _ _ before _ stepped => by
              rcases flagged_step before.1 stepped with ⟨flagged, same⟩
              exact ⟨flagged, same.trans before.2⟩)
            _ final rest ⟨rfl, rfl⟩ (along_trivial ..) continued
          rw [returned] at kept
          cases kept.2
          exact ⟨[], pool, rest, rfl, rfl, called, continued⟩
      | joins joining exited =>
          rw [joining] at unflagged
          cases unflagged
      | calls uncalled => exact later rfl
      | _ => exact later unflagged

end Stopped

/-- For any number of workers and any interleaving, no task runs twice, and when
`stop` has returned, a task that was pushed before it has run, unless it was in
the pool when the flag was set and no worker was about to take it. -/
theorem runs_unless_stranded (thrCount : Nat) (events : List Event) :
    Throughout perform RunsOnce (new thrCount) events ∧
    ∀ final due, run perform (new thrCount) events = .ok final → final.stopper = .returned due →
      ∃ before pool after, events = before ++ .setStop :: after ∧
        run perform (new thrCount) before = .ok pool ∧ pool.stopper = .called due ∧
        ∀ task ∈ due, task ∈ final.finished ↔ ¬ pool.Strands task := by
  refine ⟨runsOnce_throughout thrCount events, fun final due completes returned => ?_⟩
  rcases exists_setStop rfl completes returned with
    ⟨before, pool, after, split, reached, called, continued⟩
  refine ⟨before, pool, after, split, reached, called, fun task member => ?_⟩
  have older : task < pool.pushed := (kept_run reached).due task (by rw [called]; exact member)
  have same := @strands_run { pool with stopper := .joining due, stop := true } final task after rfl
    older continued
  exact ((kept_run completes).finished_iff returned member).trans (not_congr same)

/-- The only worker sleeps when the flag is set, with a task in the pool. -/
def stoppedAsleep : List Event :=
  [.work 0, .work 0, .push, .pushReturns 0, .callStop, .setStop, .work 0, .work 0, .work 0,
    .work 0, .work 0, .work 0, .stopReturns]

/-- It runs the task before it exits. -/
theorem sleeper_runs_task :
    ∃ before pool after, stoppedAsleep = before ++ .setStop :: after ∧
      run perform (new 1) before = .ok pool ∧ pool.stopper = .called [0] ∧
      ∀ task ∈ [0], task ∈ [0] ↔ ¬ pool.Strands task :=
  (runs_unless_stranded 1 stoppedAsleep).2 _ [0] rfl rfl

/-- The only worker is in a task when another one is pushed and `stop` is called:
the worker looks at the flag before it looks into the pool again. -/
def stoppedMeanwhile : List Event :=
  [.push, .work 0, .work 0, .work 0, .push, .pushReturns 1, .callStop, .setStop,
    .work 0, .work 0, .work 0, .stopReturns]

/-- When `stop` has returned, a task that was pushed before it has not run. -/
theorem a_task_is_left :
    ¬ ∀ (thrCount : Nat) (events : List Event) (final : Threadpool),
      run perform (new thrCount) events = .ok final →
      ∀ due, final.stopper = .returned due → ∀ task ∈ due, task ∈ final.finished := by
  intro always
  have ran := always 1 stoppedMeanwhile _ rfl [1] rfl 1 (by decide)
  exact absurd ran (by decide)

end Threadpool

end ProtobufMq

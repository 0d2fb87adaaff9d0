import Mathlib.Logic.Function.Basic

/-!
# SynchronizedFSM: queued inputs drained by one runner

`SynchronizedFSM::send_input` queues its input under `_lock` and, when no other
call is draining the queue, drains it itself, dropping the lock around every
call of `process_input`. A call made from inside `process_input` finds
`_running` set and only queues.

## Implementation notes

Threads are numbered, and each holds its stack of `send_input` activations,
innermost first. The code between a `pthread_mutex_lock` and the next
`pthread_mutex_unlock` is one step; acquiring the lock is a step of its own,
enabled only while no thread holds it (the mutex is not recursive, so a thread
that already holds it would wait forever). `process_input` is left open: a
thread inside it may start any number of nested `send_input` calls before it
returns. Three ghost lists record every input passed to `send_input`, every input
pushed onto `_input_q` and every input passed to `process_input`.
-/

namespace Sprout.SynchronizedFSM

variable {α : Type}

/-- Where one activation of `send_input` stands, by the source line it runs next. -/
inductive Pc (α : Type) where
  /-- Line 60: waiting for `_lock`, with the call's input. -/
  | lock (input : α)
  /-- Lines 63-88: holding `_lock`, about to queue the input. -/
  | enqueue (input : α)
  /-- Line 81: inside `process_input`. -/
  | process (input : α)
  /-- Line 82: `process_input` has returned; waiting for `_lock` again. -/
  | relock
  /-- Lines 73-88 after the relock: holding `_lock`, about to test the queue. -/
  | loop
  deriving DecidableEq, Repr

/-- The shared fields of the FSM, every thread's activations, and two ghost logs. -/
structure State (α : Type) where
  /-- The thread holding `_lock`. -/
  lock : Option Nat
  running : Bool
  inputQ : List α
  /-- Each thread's `send_input` activations, innermost first. -/
  frames : Nat → List (Pc α)
  /-- Ghost: every input passed to `send_input`, in call order. -/
  sent : List α
  /-- Ghost: every input pushed onto `_input_q`, in push order. -/
  pushed : List α
  /-- Ghost: every input passed to `process_input`, in call order. -/
  calls : List α

/-- The constructor's state: unlocked, not running, empty queue, every thread idle. -/
def initial : State α :=
  ⟨none, false, [], fun _ => [], [], [], []⟩

/-- Lines 73-88 under the lock: the queue's head is popped and passed to
`process_input` once the lock is dropped; an empty queue clears `_running`,
unlocks and ends the activation. -/
def drainHead (s : State α) (t : Nat) (rest : List (Pc α)) : State α :=
  match s.inputQ with
  | [] => { s with running := false, lock := none, frames := Function.update s.frames t rest }
  | x :: q =>
      { s with inputQ := q, lock := none, calls := s.calls ++ [x],
               frames := Function.update s.frames t (.process x :: rest) }

/-- Thread `t` runs its innermost activation one step; `none` when that step waits
for the lock or the thread is idle. At `process` the step is the return of
`process_input`. -/
def advance (s : State α) (t : Nat) : Option (State α) :=
  match s.frames t with
  | .lock x :: rest =>
      if s.lock = none then
        some { s with lock := some t, frames := Function.update s.frames t (.enqueue x :: rest) }
      else none
  | .enqueue x :: rest =>
      if s.running then
        some { s with inputQ := s.inputQ ++ [x], pushed := s.pushed ++ [x], lock := none,
                      frames := Function.update s.frames t rest }
      else
        some (drainHead { s with inputQ := s.inputQ ++ [x], pushed := s.pushed ++ [x],
                                 running := true } t rest)
  | .process _ :: rest => some { s with frames := Function.update s.frames t (.relock :: rest) }
  | .relock :: rest =>
      if s.lock = none then
        some { s with lock := some t, frames := Function.update s.frames t (.loop :: rest) }
      else none
  | .loop :: rest => some (drainHead s t rest)
  | [] => none

/-- Thread `t` calls `send_input(x)`, either idle or from inside `process_input`. -/
def call (s : State α) (t : Nat) (x : α) : Option (State α) :=
  match s.frames t with
  | [] => some { s with frames := Function.update s.frames t [.lock x], sent := s.sent ++ [x] }
  | .process y :: rest =>
      some { s with frames := Function.update s.frames t (.lock x :: .process y :: rest),
                    sent := s.sent ++ [x] }
  | _ => none

/-- What the scheduler lets one thread do next. -/
inductive Action (α : Type) where
  | call (t : Nat) (input : α)
  | advance (t : Nat)
  deriving DecidableEq, Repr

def step (s : State α) : Action α → Option (State α)
  | .call t x => call s t x
  | .advance t => advance s t

/-- Runs a schedule of actions; `none` when one of them is not enabled. -/
def run (s : State α) : List (Action α) → Option (State α)
  | [] => some s
  | a :: as => (step s a).bind fun s' => run s' as

/-- States reached from `initial` by any interleaving of the threads' steps. -/
inductive Reachable : State α → Prop
  | initial : Reachable initial
  | step {s s' : State α} {a : Action α} : Reachable s → step s a = some s' → Reachable s'

/-- A schedule that runs to its end from a reachable state ends in a reachable state. -/
theorem Reachable.run {s s' : State α} (hs : Reachable s) (as : List (Action α))
    (h : SynchronizedFSM.run s as = some s') : Reachable s' := by
  induction as generalizing s with
  | nil => cases h; exact hs
  | cons a as ih =>
      cases hstep : SynchronizedFSM.step s a with
      | none => simp [SynchronizedFSM.run, hstep] at h
      | some s₁ => exact ih (hs.step hstep) (by simpa [SynchronizedFSM.run, hstep] using h)

end Sprout.SynchronizedFSM

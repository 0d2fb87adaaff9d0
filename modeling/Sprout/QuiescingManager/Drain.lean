import Mathlib.Algebra.BigOperators.Group.List
import Mathlib.Algebra.Order.Ring.Nat
import Sprout.QuiescingManager.Threads

/-!
# QuiescingManager: every interleaving drains

`send_input` loops until the queue is empty, and `process_input` may queue one
more input through `flows_gone()` while the loop runs. The loop still ends:
processing any input makes at most three calls and queues at most `FLOWS_GONE`,
whose processing queues nothing. With no new call of `send_input` from outside,
every schedule of the steps of the threads already inside ends within a number of
steps computed from the state, and, since no reachable state is stuck, it ends
with every thread returned.

The bound is a potential: each activation and each queued input is charged the
steps it can still cause, and every step lowers the charge by at least one.
-/

namespace Sprout.QuiescingManager

open SynchronizedFSM (Pc)

/-- The steps an input can cause from its pop to the next test of the queue, with
the input it sends back. -/
def inputCost : Input → Nat
  | .quiesce => 15
  | _ => 6

/-- A call of `process_input` takes a step; `flows_gone()` also takes the two steps of
its `send_input` and queues its input. -/
def callCost : Call → Nat
  | .sendInput input => 3 + inputCost input
  | _ => 1

def pendingCost (cs : List Call) : Nat := (cs.map callCost).sum

/-- The steps an activation can still cause, with the calls its thread has left. -/
def pcCost (cs : List Call) : Pc Input → Nat
  | .lock x => 2 + inputCost x
  | .enqueue x => 1 + inputCost x
  | .process _ => pendingCost cs + 3
  | .relock => 2
  | .loop => 1

def queueCost (q : List Input) : Nat := (q.map inputCost).sum

@[simp] theorem pendingCost_nil : pendingCost [] = 0 := rfl

@[simp] theorem pendingCost_cons (c : Call) (cs : List Call) :
    pendingCost (c :: cs) = callCost c + pendingCost cs := rfl

@[simp] theorem queueCost_nil : queueCost [] = 0 := rfl

@[simp] theorem queueCost_cons (x : Input) (q : List Input) :
    queueCost (x :: q) = inputCost x + queueCost q := rfl

@[simp] theorem queueCost_append (q q' : List Input) :
    queueCost (q ++ q') = queueCost q + queueCost q' := by
  simp [queueCost, List.sum_append]

/-- Processing an input, in any state, costs less than the input was charged. -/
theorem pendingCost_processInput (edgeProxy : Bool) (state : QState) (input : Input) :
    pendingCost (processInput edgeProxy state input).2 + 3 ≤ inputCost input := by
  cases edgeProxy <;> cases state <;> cases input <;> decide

namespace Threaded

/-- The steps thread `t`'s activations can still cause. -/
def threadCost (m : Threaded) (t : Nat) : Nat := ((m.fsm.frames t).map (pcCost (m.pending t))).sum

/-- The potential of a manager for the threads `ts`: their activations and the queue. -/
def potential (ts : List Nat) (m : Threaded) : Nat :=
  (ts.map m.threadCost).sum + queueCost m.fsm.inputQ

/-- What a step of thread `u` can change in the potential. -/
def localCost (m : Threaded) (u : Nat) : Nat := m.threadCost u + queueCost m.fsm.inputQ

theorem callCost_pos (c : Call) : 1 ≤ callCost c := by
  cases c <;> simp only [callCost] <;> omega

@[simp] theorem resume_pending_ne {m : Threaded} {u t : Nat} {f : SynchronizedFSM.State Input}
    (ht : t ≠ u) : (m.resume u f).pending t = m.pending t := by
  unfold resume; split <;> simp [Function.update_noteq ht]

section Steps

variable {m m' : Threaded} {u t : Nat}

/-- A step of thread `u` leaves the activations and the calls left of every other thread. -/
theorem step_advance_ne (h : m.step (.advance u) = some m') (ht : t ≠ u) :
    m'.fsm.frames t = m.fsm.frames t ∧ m'.pending t = m.pending t := by
  rcases step_advance_cases h with ⟨_, _, _, _, -, -, h⟩ | ⟨f, hf, -, rfl⟩
  · obtain ⟨f, rfl, hf⟩ := perform_cases h
    refine ⟨?_, by simp [Function.update_noteq ht]⟩
    rcases hf with ⟨rfl, -⟩ | ⟨_, -, hf⟩
    · rfl
    · simp [SynchronizedFSM.call_eq hf, Function.update_noteq ht]
  · exact ⟨by simpa using SynchronizedFSM.advance_frames_ne hf ht, resume_pending_ne ht⟩

theorem threadCost_step_ne (h : m.step (.advance u) = some m') (ht : t ≠ u) :
    m'.threadCost t = m.threadCost t := by
  obtain ⟨hf, hp⟩ := step_advance_ne h ht
  simp only [threadCost, hf, hp]

/-- Every step of thread `u` lowers what it can still cause, the queue included. -/
theorem localCost_step (hi : Inv m) (h : m.step (.advance u) = some m') :
    localCost m' u < localCost m u := by
  rcases step_advance_cases h with ⟨x, rest, c, cs, hft, hp, h⟩ | ⟨f, hf, hnp, rfl⟩
  · obtain rfl := hi.fsm.rest_nil_of_process hft
    obtain ⟨f, rfl, ⟨rfl, -⟩ | ⟨y, rfl, hc⟩⟩ := perform_cases h
    · have := callCost_pos c
      simp [localCost, threadCost, hft, hp, pcCost]
      omega
    · simp [localCost, threadCost, hft, hp, pcCost, SynchronizedFSM.call_eq hc, callCost]
      omega
  · rcases SynchronizedFSM.advance_cases hf with ⟨pc, pc', rest, hft, -, hpc, rfl⟩ |
      ⟨x, rest, hft, hr, rfl⟩ | ⟨x, rest, hft, hr, rfl⟩ | ⟨x, rest, hft, rfl⟩ | ⟨rest, hft, rfl⟩
    · -- `_lock` taken, before the enqueue or after `process_input`
      rcases hpc with ⟨x, rfl, rfl⟩ | ⟨rfl, rfl⟩ <;>
        simp [localCost, threadCost, hft, pcCost, resume]
    · -- queued behind the runner
      simp [localCost, threadCost, hft, pcCost, resume]
      omega
    · -- no runner: the thread pops its own input
      obtain rfl := hi.fsm.rest_nil_of_idle hft hr
      have := pendingCost_processInput m.edgeProxy m.state x
      simp [localCost, threadCost, hft, pcCost, resume, SynchronizedFSM.drainHead, hi.fsm.idle_empty hr]
      omega
    · -- `process_input` returns
      obtain rfl := hi.fsm.rest_nil_of_process hft
      simp [localCost, threadCost, hft, pcCost, resume, hnp x [] hft]
    · -- the queue test: leave, or pop the next input
      obtain rfl := hi.fsm.rest_nil_of_loop hft
      cases hq : m.fsm.inputQ with
      | nil => simp [localCost, threadCost, hft, pcCost, resume, SynchronizedFSM.drainHead, hq]
      | cons y q =>
          have := pendingCost_processInput m.edgeProxy m.state y
          simp [localCost, threadCost, hft, pcCost, resume, SynchronizedFSM.drainHead, hq]
          omega

theorem frames_ne_nil_of_step (h : m.step (.advance u) = some m') : m.fsm.frames u ≠ [] := by
  rcases step_advance_cases h with ⟨x, rest, -, -, hft, -⟩ | ⟨f, hf, -⟩
  · simp [hft]
  · intro h0
    simp [SynchronizedFSM.advance, h0] at hf

end Steps

/-- Over distinct threads one of which is `u`, changing `u` alone changes the sum by
its own change. -/
theorem sum_map_update {f g : Nat → Nat} {ts : List Nat} {u : Nat} (hnd : ts.Nodup) (hu : u ∈ ts)
    (hfg : ∀ t, t ≠ u → f t = g t) : (ts.map f).sum + g u = (ts.map g).sum + f u := by
  induction ts with
  | nil => simp at hu
  | cons t ts ih =>
      rw [List.nodup_cons] at hnd
      simp only [List.map_cons, List.sum_cons]
      by_cases htu : t = u
      · subst htu
        have : (ts.map f).sum = (ts.map g).sum :=
          congrArg List.sum (List.map_congr_left fun t' ht' => hfg t' fun h => hnd.1 (h ▸ ht'))
        omega
      · have := ih hnd.2 ((List.mem_cons.1 hu).resolve_left (Ne.symm htu))
        rw [hfg t htu]
        omega

theorem potential_step {m m' : Threaded} {ts : List Nat} {u : Nat} (hi : Inv m) (hnd : ts.Nodup)
    (hu : u ∈ ts) (h : m.step (.advance u) = some m') : potential ts m' < potential ts m := by
  have hsum := sum_map_update (f := m'.threadCost) (g := m.threadCost) hnd hu
    fun t ht => threadCost_step_ne h ht
  have hloc := localCost_step hi h
  simp only [potential, localCost] at *
  omega

end Threaded

open Threaded

/-- With no new call of `send_input` from outside, every schedule of the steps of the
threads inside it ends: it has at most `potential ts m` steps, for any list `ts` of
distinct threads holding every thread inside. -/
theorem threads_drain_bounded {m m' : Threaded} {ts : List Nat} {us : List Nat}
    (hm : Threaded.Reachable m) (hnd : ts.Nodup) (hts : ∀ t, m.fsm.frames t ≠ [] → t ∈ ts)
    (h : m.run (us.map .advance) = some m') : us.length ≤ potential ts m := by
  induction us generalizing m with
  | nil => exact Nat.zero_le _
  | cons u us ih =>
      rw [List.map_cons, Threaded.run, Option.bind_eq_some] at h
      obtain ⟨m₁, h₁, hrun⟩ := h
      have hu := hts u (frames_ne_nil_of_step h₁)
      have hts₁ : ∀ t, m₁.fsm.frames t ≠ [] → t ∈ ts := fun t ht => by
        by_cases htu : t = u
        · exact htu ▸ hu
        · exact hts t (by rwa [(step_advance_ne h₁ htu).1] at ht)
      have := ih (hm.step h₁) hts₁ hrun
      have := potential_step hm.inv hnd hu h₁
      rw [List.length_cons]
      omega

/-- The manager once thread 0 has called `send_input(QUIESCE)`, without an edge proxy. -/
def quiesceSent : Threaded :=
  { Threaded.initial false with
    fsm := { SynchronizedFSM.initial with
      frames := Function.update (fun _ => []) 0 [.lock .quiesce], sent := [.quiesce] },
    sent := [.quiesce] }

/-- Thread 0's `send_input(QUIESCE)` drains in fourteen steps, the nested `FLOWS_GONE`
included, within the bound of 17. -/
theorem quiesceSent_drains_within_bound :
    Threaded.Reachable quiesceSent ∧ [0].Nodup ∧ (∀ t, quiesceSent.fsm.frames t ≠ [] → t ∈ [0]) ∧
    ∃ m', quiesceSent.run ((List.replicate 14 0).map .advance) = some m' ∧ m'.fsm.frames 0 = [] ∧
      (List.replicate 14 0).length ≤ potential [0] quiesceSent := by
  have hr : Threaded.Reachable quiesceSent := .step (a := .send 0 .quiesce) (.initial false) rfl
  have hts : ∀ t, quiesceSent.fsm.frames t ≠ [] → t ∈ [0] := fun t ht => by
    by_cases h0 : t = 0
    · simp [h0]
    · exact absurd (by simp [quiesceSent, Function.update_noteq h0]) ht
  exact ⟨hr, by decide, hts, _, rfl, rfl, threads_drain_bounded hr (by decide) hts rfl⟩

end Sprout.QuiescingManager

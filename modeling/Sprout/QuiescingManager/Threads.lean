import Sprout.QuiescingManager
import Sprout.SynchronizedFSM.Safety

/-!
# QuiescingManager on the threads of SynchronizedFSM

`QuiescingManager` is a `SynchronizedFSM` over its inputs: any thread may call
`send_input`, the thread draining the queue runs `process_input` for one input at
a time with `_lock` dropped, and `flows_gone()` inside `process_input` is a nested
`send_input`. `Threaded` runs the manager's `process_input` inside the thread model
of `SynchronizedFSM`: a thread that pops an input enters `process_input` and makes
its calls one step at a time, interleaved with the steps of every other thread.

Every interleaving refines the serial manager: `_state` and the calls made, followed
by the calls the running `process_input` has still to make, are those of
`process_input` applied in turn to the inputs popped so far, which are the first
inputs pushed. The connection tracker's calls therefore alternate under every
interleaving, and no reachable state is stuck.

## Implementation notes

`_state` is read and written by `process_input` only, and one thread at a time is
inside `process_input`, so its effect on `_state` is applied when the thread enters
it and the calls follow, one a step. Three ghost fields record the inputs passed to
`send_input` from outside the manager, the calls made and, for each thread, the calls
its `process_input` has still to make. The constructor of `QuiescingManager` is not
in the source and leaves `_state` to the header: the model starts in `STATE_ACTIVE`.
-/

namespace Sprout.QuiescingManager

open SynchronizedFSM (Pc inProcessInput)

/-! ### The serial manager -/

/-- `process_input` applied to each input in turn from `STATE_ACTIVE`: the state it
leaves and every call it makes, in order. -/
def processAll (edgeProxy : Bool) (inputs : List Input) : QState × List Call :=
  inputs.foldl (fun acc input =>
    ((processInput edgeProxy acc.1 input).1, acc.2 ++ (processInput edgeProxy acc.1 input).2))
    (.active, [])

theorem processAll_concat (edgeProxy : Bool) (inputs : List Input) (input : Input) :
    processAll edgeProxy (inputs ++ [input]) =
      ((processInput edgeProxy (processAll edgeProxy inputs).1 input).1,
        (processAll edgeProxy inputs).2 ++ (processInput edgeProxy (processAll edgeProxy inputs).1 input).2) := by
  simp only [processAll, List.foldl_append, List.foldl_cons, List.foldl_nil]

/-- Whatever the inputs, the connection tracker's calls alternate from `quiesce()`,
an odd number of them exactly in the states that quiesce connections. -/
theorem processAll_alternating (edgeProxy : Bool) (inputs : List Input) :
    ∃ n, connCalls (processAll edgeProxy inputs).2 = alternating n ∧
      (n % 2 == 1) = (processAll edgeProxy inputs).1.connsQuiesced := by
  induction inputs using List.reverseRecOn with
  | nil => exact ⟨0, rfl, rfl⟩
  | append_singleton inputs input ih =>
      obtain ⟨n, hlog, hn⟩ := ih
      rw [processAll_concat]
      exact alternating_processInput hlog hn

/-- The inputs a list of calls sends back to the manager, through `flows_gone()`. -/
def sentInputs (cs : List Call) : List Input :=
  cs.filterMap fun
    | .sendInput input => some input
    | _ => none

@[simp] theorem sentInputs_append (l₁ l₂ : List Call) :
    sentInputs (l₁ ++ l₂) = sentInputs l₁ ++ sentInputs l₂ := by
  simp [sentInputs, List.filterMap_append]

/-- A prefix of alternating calls alternates. -/
theorem alternating_of_prefix {l : List Bool} {n : Nat} (h : l <+: alternating n) :
    l = alternating l.length := by
  have hle : l.length ≤ n := by simpa [alternating] using h.length_le
  calc l = (alternating n).take l.length := List.prefix_iff_eq_take.1 h
    _ = alternating l.length := by
      rw [alternating, ← List.map_take, List.take_range, Nat.min_eq_left hle]; rfl

/-! ### The threaded manager -/

/-- A `QuiescingManager` whose `send_input` runs on the threads of `SynchronizedFSM`. -/
structure Threaded where
  edgeProxy : Bool
  fsm : SynchronizedFSM.State Input
  state : QState
  /-- Ghost: every call `process_input` has made, in order. -/
  log : List Call
  /-- Ghost: the calls that thread `t`'s running `process_input` has still to make. -/
  pending : Nat → List Call
  /-- Ghost: every input passed to `send_input` from outside the manager, in call order. -/
  sent : List Input

namespace Threaded

/-- The start state assumed: `STATE_ACTIVE`, which the constructor does not set, and
every thread outside the manager. -/
def initial (edgeProxy : Bool) : Threaded :=
  ⟨edgeProxy, SynchronizedFSM.initial, .active, [], fun _ => [], []⟩

/-- A thread outside the manager calls `send_input`, or a thread inside takes its next step. -/
inductive Action where
  | send (t : Nat) (input : Input)
  | advance (t : Nat)

/-- Thread `t`, inside `process_input`, makes its next call `c`; `flows_gone()` is a
nested `send_input`. -/
def perform (m : Threaded) (t : Nat) (c : Call) (cs : List Call) : Option Threaded :=
  let m' := { m with log := m.log ++ [c], pending := Function.update m.pending t cs }
  match c with
  | .sendInput input => (SynchronizedFSM.call m.fsm t input).map fun f => { m' with fsm := f }
  | _ => some m'

/-- The FSM has taken the step `f` of thread `t`; if that step popped an input, the
thread enters `process_input` with it. -/
def resume (m : Threaded) (t : Nat) (f : SynchronizedFSM.State Input) : Threaded :=
  match f.calls.drop m.fsm.calls.length with
  | [input] =>
      { m with fsm := f, state := (processInput m.edgeProxy m.state input).1,
               pending := Function.update m.pending t (processInput m.edgeProxy m.state input).2 }
  | _ => { m with fsm := f }

/-- A thread inside `process_input` with calls left makes the next one; any other step
is the FSM's. -/
def step (m : Threaded) : Action → Option Threaded
  | .send t input =>
      match m.fsm.frames t with
      | [] => (SynchronizedFSM.call m.fsm t input).map fun f => { m with fsm := f, sent := m.sent ++ [input] }
      | _ :: _ => none
  | .advance t =>
      match m.fsm.frames t, m.pending t with
      | .process _ :: _, c :: cs => m.perform t c cs
      | _, _ => (SynchronizedFSM.advance m.fsm t).map (m.resume t)

/-- Runs a schedule of actions; `none` when one of them is not enabled. -/
def run (m : Threaded) : List Action → Option Threaded
  | [] => some m
  | a :: as => (m.step a).bind fun m' => m'.run as

/-- Managers reached from a constructed one by any interleaving of their threads. -/
inductive Reachable : Threaded → Prop
  | initial (edgeProxy : Bool) : Reachable (initial edgeProxy)
  | step {m m' : Threaded} {a : Action} : Reachable m → m.step a = some m' → Reachable m'

theorem Reachable.run {m m' : Threaded} (hm : Reachable m) (as : List Action)
    (h : m.run as = some m') : Reachable m' := by
  induction as generalizing m with
  | nil => cases h; exact hm
  | cons a as ih =>
      cases hs : m.step a with
      | none => simp [Threaded.run, hs] at h
      | some m₁ => exact ih (hm.step hs) (by simpa [Threaded.run, hs] using h)

section Steps

variable {m m' : Threaded} {t : Nat} {f : SynchronizedFSM.State Input}

theorem perform_cases {c : Call} {cs : List Call} (h : m.perform t c cs = some m') :
    ∃ f, m' = { m with fsm := f, log := m.log ++ [c], pending := Function.update m.pending t cs } ∧
      ((f = m.fsm ∧ ∀ input, c ≠ .sendInput input) ∨
        ∃ input, c = .sendInput input ∧ SynchronizedFSM.call m.fsm t input = some f) := by
  unfold perform at h
  split at h
  · obtain ⟨f, hf, rfl⟩ := Option.map_eq_some'.1 h
    exact ⟨f, rfl, .inr ⟨_, rfl, hf⟩⟩
  · exact ⟨m.fsm, (Option.some.inj h).symm, .inl ⟨rfl, ‹_›⟩⟩

theorem resume_of_calls_eq (h : f.calls = m.fsm.calls) : m.resume t f = { m with fsm := f } := by
  simp [resume, h]

theorem resume_of_pop {input : Input} (h : f.calls = m.fsm.calls ++ [input]) :
    m.resume t f =
      { m with fsm := f, state := (processInput m.edgeProxy m.state input).1,
               pending := Function.update m.pending t (processInput m.edgeProxy m.state input).2 } := by
  simp [resume, h]

@[simp] theorem resume_fsm : (m.resume t f).fsm = f := by
  unfold resume; split <;> rfl

/-- What a step of thread `t` can do: make the next call of its `process_input`, or
take its step in the FSM. -/
theorem step_advance_cases (h : m.step (.advance t) = some m') :
    (∃ x rest c cs, m.fsm.frames t = .process x :: rest ∧ m.pending t = c :: cs ∧
      m.perform t c cs = some m') ∨
    (∃ f, SynchronizedFSM.advance m.fsm t = some f ∧
      (∀ x rest, m.fsm.frames t = .process x :: rest → m.pending t = []) ∧ m' = m.resume t f) := by
  simp only [step] at h
  split at h
  · exact .inl ⟨_, _, _, _, ‹_›, ‹_›, h⟩
  · rename_i hnot
    obtain ⟨f, hf, rfl⟩ := Option.map_eq_some'.1 h
    refine .inr ⟨f, hf, fun x rest hft => ?_, rfl⟩
    cases hp : m.pending t with
    | nil => rfl
    | cons c cs => exact (hnot x rest c cs hft hp).elim

/-- Everything one step can do, with its guard. -/
theorem step_cases {a : Action} (h : m.step a = some m') :
    (∃ t input f, m.fsm.frames t = [] ∧ SynchronizedFSM.call m.fsm t input = some f ∧
      m' = { m with fsm := f, sent := m.sent ++ [input] }) ∨
    (∃ t x rest c cs, m.fsm.frames t = .process x :: rest ∧ m.pending t = c :: cs ∧
      m.perform t c cs = some m') ∨
    (∃ t f, SynchronizedFSM.advance m.fsm t = some f ∧
      (∀ x rest, m.fsm.frames t = .process x :: rest → m.pending t = []) ∧ m' = m.resume t f) := by
  cases a with
  | send t input =>
      simp only [step] at h
      split at h
      · obtain ⟨f, hf, rfl⟩ := Option.map_eq_some'.1 h
        exact .inl ⟨t, input, f, ‹_›, hf, rfl⟩
      · cases h
  | advance t =>
      rcases step_advance_cases h with ⟨x, rest, c, cs, h⟩ | ⟨f, h⟩
      exacts [.inr (.inl ⟨t, x, rest, c, cs, h⟩), .inr (.inr ⟨t, f, h⟩)]

end Steps

/-- The FSM of a reachable manager is reachable: its threads run `SynchronizedFSM`. -/
theorem Reachable.fsm {m : Threaded} (hm : Reachable m) : SynchronizedFSM.Reachable m.fsm := by
  induction hm with
  | initial => exact .initial
  | step _ h ih =>
      rcases step_cases h with ⟨t, input, f, -, hf, rfl⟩ | ⟨t, -, -, c, cs, -, -, hp⟩ |
        ⟨t, f, hf, -, rfl⟩
      · exact ih.step (a := .call t input) hf
      · obtain ⟨f, rfl, ⟨rfl, -⟩ | ⟨input, -, hf⟩⟩ := perform_cases hp
        · exact ih
        · exact ih.step (a := .call t input) hf
      · rw [resume_fsm]; exact ih.step (a := .advance t) hf

/-! ### The invariant -/

/-- What every reachable manager keeps: the FSM's invariant; only a thread inside
`process_input` has calls left; and `_state` and the calls made, followed by the
calls left, are the serial manager's over the inputs popped so far. -/
structure Inv (m : Threaded) : Prop where
  fsm : SynchronizedFSM.Inv m.fsm
  pending_process : ∀ t, m.pending t ≠ [] → ∃ x, Pc.process x ∈ m.fsm.frames t
  serial : ∃ t, (∀ u, u ≠ t → m.pending u = []) ∧
    processAll m.edgeProxy m.fsm.calls = (m.state, m.log ++ m.pending t)

namespace Inv

variable {m : Threaded} {t : Nat} {f : SynchronizedFSM.State Input}

theorem initial (edgeProxy : Bool) : Inv (Threaded.initial edgeProxy) where
  fsm := .initial
  pending_process _ h := absurd rfl h
  serial := ⟨0, fun _ _ => rfl, rfl⟩

theorem pending_eq_nil (hi : Inv m) (h : ¬ inProcessInput (m.fsm.frames t)) : m.pending t = [] := by
  by_contra hc
  obtain ⟨x, hx⟩ := hi.pending_process t hc
  exact h (.inl ⟨x, hx⟩)

/-- The thread with calls left is the one the serial equation is about. -/
theorem serial_of_pending (hi : Inv m) (hc : m.pending t ≠ []) :
    (∀ u, u ≠ t → m.pending u = []) ∧
      processAll m.edgeProxy m.fsm.calls = (m.state, m.log ++ m.pending t) := by
  obtain ⟨t₀, hother, heq⟩ := hi.serial
  by_cases ht : t = t₀
  · subst ht; exact ⟨hother, heq⟩
  · exact absurd (hother t ht) hc

/-- A step that changes only the FSM, keeping the inputs popped and every activation
inside `process_input` of a thread with calls left. -/
theorem with_fsm (hi : Inv m) (hf : SynchronizedFSM.Inv f) (hc : f.calls = m.fsm.calls)
    (hp : ∀ u, m.pending u ≠ [] → ∃ x, Pc.process x ∈ f.frames u) : Inv { m with fsm := f } :=
  ⟨hf, hp, by simpa only [hc] using hi.serial⟩

theorem send {input : Input} (hi : Inv m) (h : SynchronizedFSM.call m.fsm t input = some f) :
    Inv { m with fsm := f, sent := m.sent ++ [input] } :=
  have h' := hi.with_fsm (hi.fsm.call h) (SynchronizedFSM.call_calls h)
    fun u hu => (hi.pending_process u hu).imp fun _ hx => SynchronizedFSM.call_mem h hx
  ⟨h'.fsm, h'.pending_process, h'.serial⟩

theorem perform {x : Input} {rest : List (Pc Input)} {c : Call} {cs : List Call} {m' : Threaded}
    (hi : Inv m) (hft : m.fsm.frames t = .process x :: rest) (hp : m.pending t = c :: cs)
    (h : m.perform t c cs = some m') : Inv m' := by
  obtain ⟨f, rfl, hf⟩ := perform_cases h
  obtain ⟨hfi, hc, hmem⟩ : SynchronizedFSM.Inv f ∧ f.calls = m.fsm.calls ∧
      ∀ u pc, pc ∈ m.fsm.frames u → pc ∈ f.frames u := by
    rcases hf with ⟨rfl, -⟩ | ⟨_, -, hf⟩
    exacts [⟨hi.fsm, rfl, fun _ _ h => h⟩,
      ⟨hi.fsm.call hf, SynchronizedFSM.call_calls hf, fun _ _ => SynchronizedFSM.call_mem hf⟩]
  obtain ⟨hother, heq⟩ := hi.serial_of_pending (t := t) (by simp [hp])
  refine ⟨hfi, fun u hu => ?_, t, fun u hu => ?_, by simpa [hc, hp] using heq⟩
  · by_cases hut : u = t
    · subst hut; exact ⟨x, hmem _ _ (by simp [hft])⟩
    · simp only [Function.update_noteq hut] at hu
      exact (hi.pending_process u hu).imp fun _ => hmem _ _
  · simpa [Function.update_noteq hu] using hother u hu

theorem resume (hi : Inv m) (h : SynchronizedFSM.advance m.fsm t = some f)
    (hnp : ∀ x rest, m.fsm.frames t = .process x :: rest → m.pending t = []) :
    Inv (m.resume t f) := by
  rcases hi.fsm.advance_calls h with hc | ⟨x, rest, hc, hft, hout⟩
  · rw [resume_of_calls_eq hc]
    refine hi.with_fsm (hi.fsm.advance h) hc fun u hu => ?_
    obtain ⟨y, hy⟩ := hi.pending_process u hu
    by_cases hut : u = t
    · subst hut
      exact ⟨y, hi.fsm.process_mem_advance h hy fun z rest hz => hu (hnp z rest hz)⟩
    · exact ⟨y, by rwa [SynchronizedFSM.advance_frames_ne h hut]⟩
  · rw [resume_of_pop hc]
    have hnil : ∀ u, m.pending u = [] := fun u => hi.pending_eq_nil (hout u)
    obtain ⟨t₀, -, heq⟩ := hi.serial
    refine ⟨hi.fsm.advance h, fun u hu => ?_, t, fun u hu => ?_, ?_⟩
    · by_cases hut : u = t
      · subst hut; exact ⟨x, by simp [hft]⟩
      · simp [Function.update_noteq hut, hnil] at hu
    · simp [Function.update_noteq hu, hnil]
    · simp only [hc, processAll_concat, heq, hnil, List.append_nil, Function.update_same]

theorem step {a : Action} {m' : Threaded} (hi : Inv m) (h : m.step a = some m') : Inv m' := by
  rcases step_cases h with ⟨t, input, f, -, hf, rfl⟩ | ⟨t, x, rest, c, cs, hft, hp, h⟩ |
    ⟨t, f, hf, hnp, rfl⟩
  · exact hi.send hf
  · exact hi.perform hft hp h
  · exact hi.resume hf hnp

end Inv

theorem Reachable.inv {m : Threaded} (hm : Reachable m) : Inv m := by
  induction hm with
  | initial edgeProxy => exact Inv.initial edgeProxy
  | step _ h ih => exact ih.step h

@[simp] theorem resume_sent {m : Threaded} {t : Nat} {f : SynchronizedFSM.State Input} :
    (m.resume t f).sent = m.sent := by
  unfold resume; split <;> rfl

@[simp] theorem resume_log {m : Threaded} {t : Nat} {f : SynchronizedFSM.State Input} :
    (m.resume t f).log = m.log := by
  unfold resume; split <;> rfl

/-- On every run, the inputs the FSM was given are, up to order, those passed to
`send_input` from outside and those `flows_gone()` passed. -/
theorem Reachable.sent_perm {m : Threaded} (hm : Reachable m) :
    m.fsm.sent.Perm (m.sent ++ sentInputs m.log) := by
  induction hm with
  | initial => exact List.Perm.refl _
  | step _ h ih =>
      rw [List.perm_iff_count] at ih ⊢
      intro a
      have iha := ih a
      rcases step_cases h with ⟨t, input, f, -, hf, rfl⟩ | ⟨t, -, -, c, cs, -, -, hp⟩ |
        ⟨t, f, hf, -, rfl⟩
      · rw [SynchronizedFSM.call_eq hf]
        simp only [List.count_append] at iha ⊢
        omega
      · obtain ⟨f, rfl, ⟨rfl, hc⟩ | ⟨input, rfl, hf⟩⟩ := perform_cases hp
        · have hnil : sentInputs [c] = [] := by cases c <;> simp_all [sentInputs]
          simpa only [sentInputs_append, hnil, List.append_nil] using iha
        · have hone : sentInputs [.sendInput input] = [input] := rfl
          rw [SynchronizedFSM.call_eq hf]
          simp only [sentInputs_append, hone, List.count_append] at iha ⊢
          omega
      · simpa only [resume_fsm, resume_sent, resume_log, SynchronizedFSM.advance_sent hf] using iha

theorem perform_enabled {m : Threaded} {t : Nat} {x : Input} {rest : List (Pc Input)} {c : Call}
    {cs : List Call} (hft : m.fsm.frames t = .process x :: rest) : ∃ m', m.perform t c cs = some m' := by
  unfold perform; split <;> simp [SynchronizedFSM.call, hft]

/-- A thread whose next step the FSM allows can take its next step in the manager. -/
theorem advance_enabled {m : Threaded} {t : Nat} {f : SynchronizedFSM.State Input}
    (h : SynchronizedFSM.advance m.fsm t = some f) : ∃ m', m.step (.advance t) = some m' := by
  simp only [step]
  split
  · exact perform_enabled ‹_›
  · simp [h]

end Threaded

open Threaded

/-- Every interleaving of the manager's threads, nested `send_input` calls from
`process_input` included, refines the serial manager. The threads run
`SynchronizedFSM`; at most one thread has calls of `process_input` left to make;
`_state` and the calls made, followed by the calls left, are what `process_input`
applied in turn to the inputs popped so far leaves and makes; and once every call
of `send_input` has returned, `_state` and the calls made are the serial manager's
over every input pushed, in push order, and the inputs pushed are, up to order, those
passed to `send_input` from outside and by `flows_gone()`. -/
theorem threads_refine_serial_manager {m : Threaded} (hm : Threaded.Reachable m) :
    SynchronizedFSM.Reachable m.fsm ∧
    (∃ t, (∀ u, u ≠ t → m.pending u = []) ∧
      processAll m.edgeProxy m.fsm.calls = (m.state, m.log ++ m.pending t)) ∧
    ((∀ t, m.fsm.frames t = []) → processAll m.edgeProxy m.fsm.pushed = (m.state, m.log)) ∧
    ((∀ t, m.fsm.frames t = []) → m.fsm.pushed.Perm (m.sent ++ sentInputs m.log)) := by
  have hi := hm.inv
  refine ⟨hm.fsm, hi.serial, fun hidle => ?_,
    fun hidle => (hm.fsm.conserved.pushed_perm hidle).trans hm.sent_perm⟩
  obtain ⟨t, -, heq⟩ := hi.serial
  have hq := hi.fsm.idle_empty (hi.fsm.quiescent hidle).2
  rw [hi.pending_eq_nil (by simp [hidle, SynchronizedFSM.inProcessInput]), List.append_nil] at heq
  rwa [hi.fsm.pushed_eq, hq, List.append_nil]

/-- Thread 0 sends `QUIESCE` to a manager without an edge proxy; while it is inside
`process_input`, thread 1 sends `CONNS_GONE`, and the nested `flows_gone()` queues
`FLOWS_GONE` behind it. Thread 0 drains all three. -/
def quiesceSchedule : List Action :=
  [.send 0 .quiesce, .advance 0, .advance 0, .send 1 .connsGone, .advance 1, .advance 1] ++
    List.replicate 15 (.advance 0)

theorem quiesceSchedule_refines_serial :
    ∃ m, (Threaded.initial false).run quiesceSchedule = some m ∧
      m.sent = [.quiesce, .connsGone] ∧ m.fsm.pushed = [.quiesce, .connsGone, .flowsGone] ∧
      m.log = [.quiesceUntrustedInterface, .sendInput .flowsGone,
        .invalidInput .quiesce .quiescingFlows, .connTrackerQuiesce] ∧
      (SynchronizedFSM.Reachable m.fsm ∧
      (∃ t, (∀ u, u ≠ t → m.pending u = []) ∧
        processAll m.edgeProxy m.fsm.calls = (m.state, m.log ++ m.pending t)) ∧
      ((∀ t, m.fsm.frames t = []) → processAll m.edgeProxy m.fsm.pushed = (m.state, m.log)) ∧
      ((∀ t, m.fsm.frames t = []) → m.fsm.pushed.Perm (m.sent ++ sentInputs m.log))) :=
  ⟨_, rfl, rfl, rfl, rfl,
    threads_refine_serial_manager ((Threaded.Reachable.initial false).run quiesceSchedule rfl)⟩

/-- Under every interleaving, edge proxy or not, the connection tracker's `quiesce()`
and `unquiesce()` calls alternate, starting with `quiesce()`; and whenever no thread
is inside `process_input`, it was last quiesced exactly in `STATE_QUIESCING_CONNS`
and `STATE_QUIESCED`. -/
theorem threads_conn_tracker_alternate {m : Threaded} (hm : Threaded.Reachable m) :
    (∃ n, connCalls m.log = alternating n) ∧
    ((∀ t, ¬ inProcessInput (m.fsm.frames t)) →
      ((connCalls m.log).getLast?).getD false = m.state.connsQuiesced) := by
  have hi := hm.inv
  obtain ⟨t, -, heq⟩ := hi.serial
  obtain ⟨n, hlog, hn⟩ := processAll_alternating m.edgeProxy m.fsm.calls
  rw [heq, connCalls_append] at hlog
  refine ⟨⟨_, alternating_of_prefix (hlog ▸ List.prefix_append _ _)⟩, fun hout => ?_⟩
  have hnil : connCalls (m.pending t) = [] := by rw [hi.pending_eq_nil (hout t)]; rfl
  rw [hnil, List.append_nil] at hlog
  rw [hlog, alternating_getLast, hn, heq]

theorem quiesceSchedule_conn_tracker :
    ∃ m, (Threaded.initial false).run quiesceSchedule = some m ∧
      connCalls m.log = [true] ∧ m.state = .quiescingConns ∧
      ((∃ n, connCalls m.log = alternating n) ∧
      ((∀ t, ¬ inProcessInput (m.fsm.frames t)) →
        ((connCalls m.log).getLast?).getD false = m.state.connsQuiesced)) :=
  ⟨_, rfl, rfl, rfl, threads_conn_tracker_alternate ((Threaded.Reachable.initial false).run quiesceSchedule rfl)⟩

/-- No interleaving gets stuck: whenever a thread is inside `send_input`, some thread
inside it can take its next step (the one holding `_lock`, or with the lock free any
of them, a thread inside `process_input` making its next call). -/
theorem threads_never_stuck {m : Threaded} {t : Nat} (hm : Threaded.Reachable m)
    (ht : m.fsm.frames t ≠ []) : ∃ u m', m.step (.advance u) = some m' := by
  obtain ⟨u, f, hf⟩ := hm.inv.fsm.exists_advance ht
  exact ⟨u, advance_enabled hf⟩

/-- After eight steps thread 0 is inside its nested `flows_gone()`, and can go on. -/
theorem quiesceSchedule_not_stuck :
    ∃ m, (Threaded.initial false).run (quiesceSchedule.take 8) = some m ∧
      m.fsm.frames 0 = [.lock .flowsGone, .process .quiesce] ∧
      (m.fsm.frames 0 ≠ [] ∧ ∃ u m', m.step (.advance u) = some m') :=
  ⟨_, rfl, rfl, by decide, threads_never_stuck (t := 0) ((Threaded.Reachable.initial false).run (quiesceSchedule.take 8) rfl) (by decide)⟩

end Sprout.QuiescingManager

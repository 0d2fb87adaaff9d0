import Mathlib.Data.List.Range

/-!
# QuiescingManager: the quiesce state machine

`QuiescingManager::process_input` switches on `_state`, then on the input. The
case for `STATE_ACTIVE` has no `break` after its inner switch, so every input
received in `STATE_ACTIVE` also runs the inner switch of
`STATE_QUIESCING_FLOWS`, with `_state` as the first switch left it.

## Implementation notes

`quiescing_manager.h` is not in the source. The states and inputs are the four
values each that the assertions at the head of `process_input` admit, and the
assignments `_state = QUIESCING_FLOWS` and so on set the `STATE_` value of the
same name. `flows_gone()` is taken to be `send_input(INPUT_FLOWS_GONE)`, as the
comment in `quiesce_untrusted_interface` describes; called from inside
`process_input` it only queues its input (`SynchronizedFSM` safety), which is how
`QuiescingManager.Threads` runs it. `invalid_input` logs and asserts: the model
records the call and goes on, as a build without assertions does.
-/

namespace Sprout.QuiescingManager

/-- `STATE_ACTIVE`, `STATE_QUIESCING_FLOWS`, `STATE_QUIESCING_CONNS`, `STATE_QUIESCED`. -/
inductive QState where
  | active
  | quiescingFlows
  | quiescingConns
  | quiesced
  deriving DecidableEq, Repr

/-- `INPUT_QUIESCE`, `INPUT_FLOWS_GONE`, `INPUT_CONNS_GONE`, `INPUT_UNQUIESCE`. -/
inductive Input where
  | quiesce
  | flowsGone
  | connsGone
  | unquiesce
  deriving DecidableEq, Repr

/-- The calls `process_input` makes, in the order it makes them. -/
inductive Call where
  | quiesceUntrustedInterface
  | unquiesceUntrustedInterface
  /-- `_conn_tracker->quiesce()`, from `quiesce_connections`. -/
  | connTrackerQuiesce
  /-- `_conn_tracker->unquiesce()`, from `unquiesce_connections`. -/
  | connTrackerUnquiesce
  | quiesceComplete
  /-- A nested `send_input`, which only queues. -/
  | sendInput (input : Input)
  | invalidInput (input : Input) (state : QState)
  deriving DecidableEq, Repr

/-- Without an edge proxy there are no flows, so `flows_gone()` is called at once. -/
def quiesceUntrustedInterface (edgeProxy : Bool) : List Call :=
  .quiesceUntrustedInterface :: if edgeProxy then [] else [.sendInput .flowsGone]

def quiesceConnections : List Call := [.connTrackerQuiesce]

def quiesceComplete : List Call := [.quiesceComplete]

def unquiesceConnections : List Call := [.connTrackerUnquiesce]

def unquiesceUntrustedInterface : List Call := [.unquiesceUntrustedInterface]

def invalidInput (input : Input) (state : QState) : List Call := [.invalidInput input state]

/-- The inner switch of `case STATE_ACTIVE`, with `_state` on entry. -/
def caseActive (edgeProxy : Bool) (state : QState) (input : Input) : QState × List Call :=
  match input with
  | .quiesce => (.quiescingFlows, quiesceUntrustedInterface edgeProxy)
  | .flowsGone | .connsGone => (state, [])
  | .unquiesce => (state, invalidInput input state)

/-- The inner switch of `case STATE_QUIESCING_FLOWS`, with `_state` on entry. -/
def caseQuiescingFlows (state : QState) (input : Input) : QState × List Call :=
  match input with
  | .quiesce => (state, invalidInput input state)
  | .flowsGone => (.quiescingConns, quiesceConnections)
  | .connsGone => (state, [])
  | .unquiesce => (.active, unquiesceUntrustedInterface)

/-- The inner switch of `case STATE_QUIESCING_CONNS`, with `_state` on entry. -/
def caseQuiescingConns (state : QState) (input : Input) : QState × List Call :=
  match input with
  | .quiesce => (state, invalidInput input state)
  | .flowsGone => (state, [])
  | .connsGone => (.quiesced, quiesceComplete)
  | .unquiesce => (.active, unquiesceConnections ++ unquiesceUntrustedInterface)

/-- The inner switch of `case STATE_QUIESCED`, with `_state` on entry. -/
def caseQuiesced (state : QState) (input : Input) : QState × List Call :=
  match input with
  | .quiesce | .unquiesce => (state, [])
  | .flowsGone | .connsGone => (state, invalidInput input state)

/-- `process_input`: the case for `STATE_ACTIVE` ends without `break` and runs on
into the case for `STATE_QUIESCING_FLOWS`; every other case breaks. -/
def processInput (edgeProxy : Bool) (state : QState) (input : Input) : QState × List Call :=
  match state with
  | .active =>
      let first := caseActive edgeProxy state input
      let second := caseQuiescingFlows first.1 input
      (second.1, first.2 ++ second.2)
  | .quiescingFlows => caseQuiescingFlows state input
  | .quiescingConns => caseQuiescingConns state input
  | .quiesced => caseQuiesced state input

/-- Inputs received in `STATE_ACTIVE` fall through into the `STATE_QUIESCING_FLOWS`
case: `FLOWS_GONE` quiesces connections although the untrusted interface never
was, `QUIESCE` reaches `invalid_input`, and `UNQUIESCE` reaches both
`invalid_input` and `unquiesce_untrusted_interface`. -/
theorem active_inputs_fall_through :
    processInput false .active .flowsGone = (.quiescingConns, [.connTrackerQuiesce]) ∧
    processInput false .active .quiesce =
      (.quiescingFlows, [.quiesceUntrustedInterface, .sendInput .flowsGone,
        .invalidInput .quiesce .quiescingFlows]) ∧
    processInput false .active .unquiesce =
      (.active, [.invalidInput .unquiesce .active, .unquiesceUntrustedInterface]) :=
  ⟨rfl, rfl, rfl⟩

/-! ### The connection tracker -/

/-- The connection tracker's calls in order: `true` for `quiesce()`, `false` for `unquiesce()`. -/
def connCalls (log : List Call) : List Bool :=
  log.filterMap fun
    | .connTrackerQuiesce => some true
    | .connTrackerUnquiesce => some false
    | _ => none

/-- `n` calls alternating from `quiesce()`: `quiesce()`, `unquiesce()`, `quiesce()`, ... -/
def alternating (n : Nat) : List Bool := (List.range n).map fun i => i % 2 == 0

/-- The states in which the connections are meant to be quiesced. -/
def QState.connsQuiesced : QState → Bool
  | .quiescingConns | .quiesced => true
  | _ => false

@[simp] theorem connCalls_append (l₁ l₂ : List Call) :
    connCalls (l₁ ++ l₂) = connCalls l₁ ++ connCalls l₂ := by
  simp [connCalls, List.filterMap_append]

theorem alternating_succ (n : Nat) : alternating (n + 1) = alternating n ++ [n % 2 == 0] := by
  simp [alternating, List.range_succ]

theorem even_beq_eq_not_odd (n : Nat) : (n % 2 == 0) = !(n % 2 == 1) := by
  rcases Nat.mod_two_eq_zero_or_one n with h | h <;> simp [h]

theorem succ_odd_beq_eq_not_odd (n : Nat) : ((n + 1) % 2 == 1) = !(n % 2 == 1) := by
  rcases Nat.mod_two_eq_zero_or_one n with h | h <;> simp [h, Nat.add_mod]

/-- The last of `n` alternating calls is `quiesce()` exactly when `n` is odd. -/
theorem alternating_getLast (n : Nat) :
    ((alternating n).getLast?).getD false = (n % 2 == 1) := by
  cases n with
  | zero => rfl
  | succ n =>
      rw [alternating_succ, List.getLast?_append_of_ne_nil _ (by simp), List.getLast?_singleton,
        Option.getD_some, even_beq_eq_not_odd, succ_odd_beq_eq_not_odd]

/-- One `process_input` call either leaves the connection tracker alone and
keeps whether the state quiesces connections, or makes exactly the one call
that matches the new state. -/
theorem connCalls_processInput (edgeProxy : Bool) (state : QState) (input : Input) :
    connCalls (processInput edgeProxy state input).2 =
      if (processInput edgeProxy state input).1.connsQuiesced = state.connsQuiesced then []
      else [(processInput edgeProxy state input).1.connsQuiesced] := by
  cases edgeProxy <;> cases state <;> cases input <;> rfl

/-- One `process_input` call keeps the connection tracker's calls alternating and in
step with the state: an odd number of calls exactly in the states that quiesce
connections. -/
theorem alternating_processInput {edgeProxy : Bool} {state : QState} {input : Input}
    {log : List Call} {n : Nat} (hlog : connCalls log = alternating n)
    (hn : (n % 2 == 1) = state.connsQuiesced) :
    ∃ n', connCalls (log ++ (processInput edgeProxy state input).2) = alternating n' ∧
      (n' % 2 == 1) = (processInput edgeProxy state input).1.connsQuiesced := by
  have hc := connCalls_processInput edgeProxy state input
  rw [connCalls_append, hlog]
  split at hc <;> rename_i hsame
  · exact ⟨n, by rw [hc, List.append_nil], hn.trans hsame.symm⟩
  · have hnew : (processInput edgeProxy state input).1.connsQuiesced = !(n % 2 == 1) := by
      rw [hn]; revert hsame
      cases (processInput edgeProxy state input).1.connsQuiesced <;> cases state.connsQuiesced <;> simp
    refine ⟨n + 1, ?_, ?_⟩
    · rw [hc, hnew, alternating_succ, even_beq_eq_not_odd]
    · rw [succ_odd_beq_eq_not_odd, hnew]

end Sprout.QuiescingManager

import Sprout.SynchronizedFSM.Invariant

/-!
# SynchronizedFSM: what every interleaving guarantees

Over every interleaving of any number of threads, nested calls from
`process_input` included: every input passed to `send_input` is pushed; each
queued input reaches `process_input` once and in push order, and nothing stays
queued once every call has returned; one thread at a time runs `process_input`,
never under `_lock`; and a call nested in `process_input` only queues, never
waiting on a lock its own thread holds.
-/

namespace Sprout.SynchronizedFSM

variable {α : Type} {s : State α}

/-- The thread is between the unlock at line 80 and the relock at line 82. -/
def inProcessInput (fs : List (Pc α)) : Prop := (∃ x, Pc.process x ∈ fs) ∨ Pc.relock ∈ fs

theorem WellNested.draining_of_inProcessInput {fs : List (Pc α)} (hn : WellNested fs)
    (h : inProcessInput fs) : draining fs = true := by
  cases hn with
  | idle => simp [inProcessInput] at h
  | outer pc =>
      obtain ⟨x, rfl⟩ | rfl : (∃ x, Pc.process x = pc) ∨ Pc.relock = pc := by
        simpa [inProcessInput] using h
      all_goals rfl
  | nestedLock | nestedEnqueue => rfl

/-- An FSM whose threads have all returned has nothing queued and no runner. -/
theorem Inv.quiescent (hi : Inv s) (h : ∀ t, s.frames t = []) :
    s.lock = none ∧ s.running = false := by
  refine ⟨?_, ?_⟩
  · cases hl : s.lock with
    | none => rfl
    | some t => simpa [h t] using (hi.lock_iff t).1 hl
  · cases hr : s.running with
    | false => rfl
    | true => obtain ⟨t, ht⟩ := hi.running_iff.1 hr; simp [h t] at ht

/-! ### Every input passed to `send_input` is pushed -/

/-- A call of `send_input` records its input and pushes an activation onto the caller's
stack, and changes nothing else. -/
theorem call_eq {s' : State α} {t : Nat} {x : α} (h : call s t x = some s') :
    s' = { s with frames := Function.update s.frames t (.lock x :: s.frames t), sent := s.sent ++ [x] } := by
  rcases call_cases h with ⟨hft, rfl⟩ | ⟨_, _, hft, rfl⟩ <;> simp [hft]

@[simp] theorem drainHead_frames_ne {u t : Nat} (rest : List (Pc α)) (hu : u ≠ t) :
    (drainHead s t rest).frames u = s.frames u := by
  unfold drainHead; split <;> simp [Function.update_noteq hu]

/-- A step of thread `t` leaves every other thread's stack alone. -/
theorem advance_frames_ne {s' : State α} {t u : Nat} (h : advance s t = some s') (hu : u ≠ t) :
    s'.frames u = s.frames u := by
  rcases advance_cases h with ⟨_, _, _, _, _, _, rfl⟩ | ⟨_, _, _, _, rfl⟩ | ⟨_, _, _, _, rfl⟩ |
    ⟨_, _, _, rfl⟩ | ⟨_, _, rfl⟩ <;> simp [Function.update_noteq hu, hu]

/-- The input an activation carries to the queue: the call's own, until its push. -/
def Pc.unpushed : Pc α → Option α
  | .lock x | .enqueue x => some x
  | _ => none

/-- The inputs the threads `ts` passed to `send_input` and have not pushed yet. -/
def State.waiting (s : State α) (ts : List Nat) : List α :=
  ts.flatMap fun t => (s.frames t).filterMap Pc.unpushed

/-- Every input passed to `send_input` has been pushed, or is carried by an activation
that has not pushed it yet: for a list of distinct threads holding every thread
inside `send_input`, the inputs sent are, up to order, those pushed and those waiting. -/
def Conserved (s : State α) : Prop :=
  ∃ ts : List Nat, ts.Nodup ∧ (∀ t, s.frames t ≠ [] → t ∈ ts) ∧ s.sent.Perm (s.pushed ++ s.waiting ts)

theorem waiting_congr {s' : State α} {ts : List Nat} (h : ∀ t ∈ ts, s'.frames t = s.frames t) :
    s'.waiting ts = s.waiting ts := by
  simp only [State.waiting, List.flatMap]
  rw [List.map_congr_left fun t ht => by rw [h t ht]]

/-- Over distinct threads one of which is `u`, changing `u`'s stack alone changes the
inputs waiting by what it changes in `u`'s. -/
theorem waiting_update {s' : State α} {ts : List Nat} {u : Nat} (hnd : ts.Nodup) (hu : u ∈ ts)
    (hne : ∀ t, t ≠ u → s'.frames t = s.frames t) :
    (s'.waiting ts ++ (s.frames u).filterMap Pc.unpushed).Perm
      (s.waiting ts ++ (s'.frames u).filterMap Pc.unpushed) := by
  classical
  have hsplit : ∀ r : State α, (r.waiting ts).Perm
      ((r.frames u).filterMap Pc.unpushed ++ r.waiting (ts.erase u)) := fun r => by
    simpa [State.waiting] using (List.perm_cons_erase hu).flatMap_right
      fun t => (r.frames t).filterMap Pc.unpushed
  have hrest : s'.waiting (ts.erase u) = s.waiting (ts.erase u) :=
    waiting_congr fun t ht => hne t (hnd.mem_erase_iff.1 ht).1
  rw [List.perm_iff_count]
  intro a
  have h' := List.perm_iff_count.1 (hsplit s') a
  have h := List.perm_iff_count.1 (hsplit s) a
  simp only [List.count_append, hrest] at h h' ⊢
  omega

@[simp] theorem drainHead_sent (t : Nat) (rest : List (Pc α)) : (drainHead s t rest).sent = s.sent := by
  unfold drainHead; split <;> rfl

@[simp] theorem drainHead_pushed (t : Nat) (rest : List (Pc α)) :
    (drainHead s t rest).pushed = s.pushed := by
  unfold drainHead; split <;> rfl

@[simp] theorem unpushed_drainHead (t : Nat) (rest : List (Pc α)) :
    ((drainHead s t rest).frames t).filterMap Pc.unpushed = rest.filterMap Pc.unpushed := by
  unfold drainHead; split <;> simp [Pc.unpushed]

/-- A step of a thread passes no input to `send_input`. -/
theorem advance_sent {s' : State α} {t : Nat} (h : advance s t = some s') : s'.sent = s.sent := by
  rcases advance_cases h with ⟨_, _, _, _, _, _, rfl⟩ | ⟨_, _, _, _, rfl⟩ | ⟨_, _, _, _, rfl⟩ |
    ⟨_, _, _, rfl⟩ | ⟨_, _, rfl⟩ <;> simp

theorem frames_ne_nil_of_advance {s' : State α} {t : Nat} (h : advance s t = some s') :
    s.frames t ≠ [] := fun h0 => by simp [advance, h0] at h

/-- The invariant holds for a list of threads that holds any given one. -/
theorem Conserved.exists_mem (hc : Conserved s) (t : Nat) :
    ∃ ts : List Nat, ts.Nodup ∧ (∀ u, s.frames u ≠ [] → u ∈ ts) ∧ t ∈ ts ∧
      s.sent.Perm (s.pushed ++ s.waiting ts) := by
  obtain ⟨ts, hnd, hcov, hp⟩ := hc
  by_cases ht : t ∈ ts
  · exact ⟨ts, hnd, hcov, ht, hp⟩
  · have h0 : s.frames t = [] := by_contra fun h => ht (hcov t h)
    refine ⟨t :: ts, List.nodup_cons.2 ⟨ht, hnd⟩, fun u hu => List.mem_cons_of_mem _ (hcov u hu),
      List.mem_cons_self _ _, ?_⟩
    simpa [State.waiting, h0] using hp

/-- A step that changes only thread `t`'s stack keeps every input accounted for when
what it records as sent and pushed balances what `t`'s stack carries. -/
theorem Conserved.update {s' : State α} {t : Nat} (hc : Conserved s)
    (hne : ∀ u, u ≠ t → s'.frames u = s.frames u)
    (hbal : (s'.sent ++ s.pushed ++ (s.frames t).filterMap Pc.unpushed).Perm
      (s.sent ++ s'.pushed ++ (s'.frames t).filterMap Pc.unpushed)) : Conserved s' := by
  classical
  obtain ⟨ts, hnd, hcov, ht, hp⟩ := hc.exists_mem t
  refine ⟨ts, hnd, fun u hu => ?_, ?_⟩
  · by_cases hut : u = t
    · exact hut ▸ ht
    · exact hcov u (by rwa [hne u hut] at hu)
  have hw := waiting_update hnd ht hne
  rw [List.perm_iff_count] at hp hw hbal ⊢
  intro a
  have := hp a
  have := hw a
  have := hbal a
  simp only [List.count_append] at *
  omega

/-- A step of a thread keeps every input sent accounted for: only the enqueue moves
an input, from its activation to the queue. -/
theorem Conserved.advance {s' : State α} {t : Nat} (hc : Conserved s)
    (h : SynchronizedFSM.advance s t = some s') : Conserved s' := by
  refine hc.update (fun u hu => advance_frames_ne h hu) ?_
  rcases advance_cases h with ⟨pc, pc', rest, hft, -, hpc, rfl⟩ | ⟨x, rest, hft, -, rfl⟩ |
    ⟨x, rest, hft, -, rfl⟩ | ⟨x, rest, hft, rfl⟩ | ⟨rest, hft, rfl⟩
  · rcases hpc with ⟨x, rfl, rfl⟩ | ⟨rfl, rfl⟩ <;> simp [hft, Pc.unpushed]
  all_goals simp [hft, Pc.unpushed]

/-- A call of `send_input` records its input and carries it in its new activation. -/
theorem Conserved.call {s' : State α} {t : Nat} {x : α} (hc : Conserved s)
    (h : SynchronizedFSM.call s t x = some s') : Conserved s' := by
  rw [call_eq h]
  refine hc.update (fun u hu => Function.update_noteq hu _ _) ?_
  simp only [Function.update_same, List.filterMap_cons, Pc.unpushed, List.append_assoc,
    List.singleton_append]
  exact List.perm_middle.symm.append_left _

theorem Conserved.initial : Conserved (initial : State α) :=
  ⟨[], List.nodup_nil, fun _ h => absurd rfl h, List.Perm.refl _⟩

theorem Conserved.step {s' : State α} {a : Action α} (hc : Conserved s)
    (h : SynchronizedFSM.step s a = some s') : Conserved s' := by
  cases a with
  | call t x => exact hc.call h
  | advance t => exact hc.advance h

/-- On every run, every input passed to `send_input` is accounted for. -/
theorem Reachable.conserved (hs : Reachable s) : Conserved s := by
  induction hs with
  | initial => exact .initial
  | step _ h ih => exact ih.step h

/-- Once every call of `send_input` has returned, the inputs pushed are those sent. -/
theorem Conserved.pushed_perm (hc : Conserved s) (h : ∀ t, s.frames t = []) : s.pushed.Perm s.sent := by
  obtain ⟨ts, -, -, hp⟩ := hc
  have hw : s.waiting ts = [] := by simp [State.waiting, h]
  rw [hw, List.append_nil] at hp
  exact hp.symm

/-- Every input pushed onto `_input_q` is passed to `process_input` at most once and
in push order, the rest still queued; an unlocked, non-running FSM has an empty
queue; once every `send_input` call has returned, every pushed input has been
passed to `process_input`; every input passed to `send_input` has been pushed or is
carried by its call before the push; and once every call has returned, the inputs
passed to `process_input` are, up to order, exactly those passed to `send_input`. -/
theorem inputs_processed_once_in_push_order (hs : Reachable s) :
    s.pushed = s.calls ++ s.inputQ ∧
    (s.lock = none → s.running = false → s.inputQ = []) ∧
    ((∀ t, s.frames t = []) → s.inputQ = [] ∧ s.calls = s.pushed) ∧
    Conserved s ∧
    ((∀ t, s.frames t = []) → s.calls.Perm s.sent) := by
  have hi := hs.inv
  have hidle : (∀ t, s.frames t = []) → s.inputQ = [] ∧ s.calls = s.pushed := fun h => by
    have hq := hi.idle_empty (hi.quiescent h).2
    exact ⟨hq, by simp [hi.pushed_eq, hq]⟩
  exact ⟨hi.pushed_eq, fun _ => hi.idle_empty, hidle, hs.conserved,
    fun h => (hidle h).2 ▸ hs.conserved.pushed_perm h⟩

/-- Thread 0 sends 1 and, inside `process_input(1)`, sends 2; meanwhile thread 1 sends 3. -/
def nestedSchedule : List (Action Nat) :=
  [.call 0 1, .advance 0, .advance 0, .call 0 2, .call 1 3, .advance 1, .advance 1,
   .advance 0, .advance 0, .advance 0, .advance 0, .advance 0, .advance 0, .advance 0,
   .advance 0, .advance 0, .advance 0, .advance 0]

theorem nestedSchedule_processed_in_push_order :
    ∃ s, run initial nestedSchedule = some s ∧ s.sent = [1, 2, 3] ∧ s.calls = [1, 3, 2] ∧
      (s.pushed = s.calls ++ s.inputQ ∧
      (s.lock = none → s.running = false → s.inputQ = []) ∧
      ((∀ t, s.frames t = []) → s.inputQ = [] ∧ s.calls = s.pushed) ∧
      Conserved s ∧
      ((∀ t, s.frames t = []) → s.calls.Perm s.sent)) :=
  ⟨_, rfl, rfl, rfl, inputs_processed_once_in_push_order (Reachable.initial.run nestedSchedule rfl)⟩

@[simp] theorem drainHead_lock (t : Nat) (rest : List (Pc α)) : (drainHead s t rest).lock = none := by
  unfold drainHead; split <;> rfl

/-- The thread holding `_lock` can always take its next step, and that step drops the lock. -/
theorem Inv.holder_releases (hi : Inv s) {u : Nat} (hl : s.lock = some u) :
    ∃ s', SynchronizedFSM.advance s u = some s' ∧ s'.lock = none := by
  have hh := (hi.lock_iff u).1 hl
  cases hft : s.frames u with
  | nil => simp [hft] at hh
  | cons pc rest =>
      cases pc with
      | enqueue x =>
          cases hr : s.running <;> simp [SynchronizedFSM.advance, hft, hr]
      | loop => simp [SynchronizedFSM.advance, hft]
      | lock _ | process _ | relock => simp [hft, Pc.holdsLock] at hh

/-- One thread at a time runs `process_input`, and never while holding `_lock`; a
`send_input` nested in `process_input` is still before its enqueue, finds
`_running` set and so only queues its input and returns to `process_input`; no
thread waits for a lock it holds itself; and the thread holding `_lock` drops it
in its next step, which is always enabled. -/
theorem process_input_exclusive_and_nested_calls_only_queue (hs : Reachable s) :
    (∀ t u, inProcessInput (s.frames t) → inProcessInput (s.frames u) → t = u) ∧
    (∀ t x rest, s.frames t = .process x :: rest → s.lock ≠ some t) ∧
    (∀ t g x rest, s.frames t = g :: .process x :: rest →
      rest = [] ∧ s.running = true ∧ ∃ y, g = .lock y ∨ g = .enqueue y) ∧
    (∀ t y x, s.frames t = [.enqueue y, .process x] →
      advance s t = some { s with inputQ := s.inputQ ++ [y], pushed := s.pushed ++ [y],
                                  lock := none, frames := Function.update s.frames t [.process x] }) ∧
    (∀ t rest, ((∃ x, s.frames t = .lock x :: rest) ∨ s.frames t = .relock :: rest) →
      s.lock ≠ some t) ∧
    (∀ u, s.lock = some u → ∃ s', advance s u = some s' ∧ s'.lock = none) := by
  have hi := hs.inv
  have hfree : ∀ t pc rest, s.frames t = pc :: rest → pc.holdsLock = false → s.lock ≠ some t :=
    fun t pc rest hft hpc hl => by simpa [hft, hpc] using (hi.lock_iff t).1 hl
  have hnest : ∀ t g x rest, s.frames t = g :: .process x :: rest →
      rest = [] ∧ s.running = true ∧ ∃ y, g = .lock y ∨ g = .enqueue y := by
    intro t g x rest hft
    have hn := hi.nested t
    rw [hft] at hn
    refine ⟨?_, hi.running_of_draining (hft ▸ hn.draining_of_nested), ?_⟩
    · cases hn <;> rfl
    · cases hn with
      | nestedLock y _ => exact ⟨y, .inl rfl⟩
      | nestedEnqueue y _ => exact ⟨y, .inr rfl⟩
  refine ⟨fun t u ht hu => hi.draining_unique t u ((hi.nested t).draining_of_inProcessInput ht)
      ((hi.nested u).draining_of_inProcessInput hu),
    fun t x rest hft => hfree t _ rest hft rfl, hnest, fun t y x hft => ?_, ?_,
    fun u => hi.holder_releases⟩
  · simp [advance, hft, (hnest t _ x [] hft).2.1]
  · rintro t rest (⟨x, hft⟩ | hft) <;> exact hfree t _ rest hft rfl

/-- After eight steps thread 0 holds the lock in its nested call `send_input(2)`. -/
theorem nestedSchedule_nested_call_only_queues :
    ∃ s, run initial (nestedSchedule.take 8) = some s ∧ s.frames 0 = [.enqueue 2, .process 1] ∧
      ((∀ t u, inProcessInput (s.frames t) → inProcessInput (s.frames u) → t = u) ∧
      (∀ t x rest, s.frames t = .process x :: rest → s.lock ≠ some t) ∧
      (∀ t g x rest, s.frames t = g :: .process x :: rest →
        rest = [] ∧ s.running = true ∧ ∃ y, g = .lock y ∨ g = .enqueue y) ∧
      (∀ t y x, s.frames t = [.enqueue y, .process x] →
        advance s t = some { s with inputQ := s.inputQ ++ [y], pushed := s.pushed ++ [y],
                                    lock := none, frames := Function.update s.frames t [.process x] }) ∧
      (∀ t rest, ((∃ x, s.frames t = .lock x :: rest) ∨ s.frames t = .relock :: rest) →
        s.lock ≠ some t) ∧
      (∀ u, s.lock = some u → ∃ s', advance s u = some s' ∧ s'.lock = none)) :=
  ⟨_, rfl, rfl, process_input_exclusive_and_nested_calls_only_queue
    (Reachable.initial.run (nestedSchedule.take 8) rfl)⟩

/-! ### What one step does to the other threads, to `process_input`, and to progress -/

theorem call_calls {s' : State α} {t : Nat} {x : α} (h : call s t x = some s') : s'.calls = s.calls := by
  rw [call_eq h]

theorem call_mem {s' : State α} {t u : Nat} {x : α} {pc : Pc α} (h : call s t x = some s')
    (hpc : pc ∈ s.frames u) : pc ∈ s'.frames u := by
  rw [call_eq h]
  by_cases hu : u = t
  · subst hu; simp [hpc]
  · simpa [Function.update_noteq hu] using hpc

/-- With `_lock` free, every thread inside `send_input` can take its next step. -/
theorem advance_of_unlocked {t : Nat} (hl : s.lock = none) (ht : s.frames t ≠ []) :
    ∃ s', advance s t = some s' := by
  cases hft : s.frames t with
  | nil => exact absurd hft ht
  | cons pc rest =>
      cases pc with
      | enqueue x => cases hr : s.running <;> simp [advance, hft, hr]
      | _ => simp [advance, hft, hl]

/-- The thread testing the queue after a relock runs no other activation. -/
theorem Inv.rest_nil_of_loop {t : Nat} {rest : List (Pc α)} (hi : Inv s)
    (hft : s.frames t = .loop :: rest) : rest = [] := by
  have hn := hi.nested t
  rw [hft] at hn
  exact hn.rest_nil fun y => ⟨nofun, nofun⟩

/-- An activation that finds no runner is its thread's only one. -/
theorem Inv.rest_nil_of_idle {t : Nat} {x : α} {rest : List (Pc α)} (hi : Inv s)
    (hft : s.frames t = .enqueue x :: rest) (hr : s.running = false) : rest = [] := by
  have hn := hi.nested t
  rw [hft] at hn
  rcases hn.tail_cases with h | ⟨y, rfl⟩
  · exact h
  · simpa [hft, Pc.drains] using hi.not_draining_of_idle (u := t) hr

/-- A step passes no input to `process_input`, or pops one into `process_input` on
its own thread at a moment when no thread is inside `process_input`. -/
theorem Inv.advance_calls {s' : State α} {t : Nat} (hi : Inv s) (h : SynchronizedFSM.advance s t = some s') :
    s'.calls = s.calls ∨ ∃ x rest, s'.calls = s.calls ++ [x] ∧
      s'.frames t = .process x :: rest ∧ ∀ u, ¬ inProcessInput (s.frames u) := by
  rcases advance_cases h with ⟨_, _, _, _, _, _, rfl⟩ | ⟨_, _, _, _, rfl⟩ | ⟨x, rest, hft, hr, rfl⟩ |
    ⟨_, _, _, rfl⟩ | ⟨rest, hft, rfl⟩
  · exact .inl rfl
  · exact .inl rfl
  · rw [drainHead_cons (x := x) (q := []) (by simp [hi.idle_empty hr])]
    refine .inr ⟨x, rest, by simp [hi.idle_empty hr], by simp, fun u hu => ?_⟩
    simp [hi.running_of_draining ((hi.nested u).draining_of_inProcessInput hu)] at hr
  · exact .inl rfl
  · cases hq : s.inputQ with
    | nil => exact .inl (by rw [drainHead_nil hq])
    | cons y q =>
        rw [drainHead_cons hq]
        refine .inr ⟨y, rest, rfl, by simp, fun u hu => ?_⟩
        obtain rfl := hi.rest_nil_of_loop hft
        obtain rfl := hi.draining_unique u t ((hi.nested u).draining_of_inProcessInput hu)
          (by simp [hft, Pc.drains])
        simp [hft, inProcessInput] at hu

/-- A step of a thread inside `process_input(x)` other than the return of
`process_input` is a step of a nested `send_input`, and leaves the thread inside
`process_input(x)`. -/
theorem Inv.process_mem_advance {s' : State α} {t : Nat} {x : α} (hi : Inv s)
    (h : SynchronizedFSM.advance s t = some s') (hx : Pc.process x ∈ s.frames t)
    (htop : ∀ y rest, s.frames t ≠ .process y :: rest) : Pc.process x ∈ s'.frames t := by
  have hn := hi.nested t
  generalize hft : s.frames t = fs at hn hx htop
  cases hn with
  | idle => simp at hx
  | outer pc => simp only [List.mem_singleton] at hx; exact absurd (by rw [hx]) (htop x [])
  | nestedLock y z =>
      simp only [SynchronizedFSM.advance, hft] at h
      split at h
      · cases h; simpa using hx
      · cases h
  | nestedEnqueue y z =>
      have hr := hi.running_of_draining (t := t) (by simp [hft, Pc.drains])
      simp only [SynchronizedFSM.advance, hft, hr, if_true, Option.some.injEq] at h
      subst h; simpa using hx

/-- Whenever some thread is inside `send_input`, some thread can take its next step:
the one holding `_lock`, or, with the lock free, any of them. -/
theorem Inv.exists_advance (hi : Inv s) {t : Nat} (ht : s.frames t ≠ []) :
    ∃ u s', SynchronizedFSM.advance s u = some s' := by
  cases hl : s.lock with
  | none => exact ⟨t, advance_of_unlocked hl ht⟩
  | some u => exact ⟨u, (hi.holder_releases hl).imp fun _ h => h.1⟩

end Sprout.SynchronizedFSM

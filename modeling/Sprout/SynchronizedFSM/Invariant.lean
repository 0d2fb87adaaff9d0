import Sprout.SynchronizedFSM.Model

/-!
# SynchronizedFSM: one runner, every input processed once and in order

`Inv` is the inductive invariant of the thread model. The lock belongs to the
thread whose innermost activation stands inside a locked region; at most one
thread drains the queue, and `_running` says whether one does; a call nested in
`process_input` is still before its enqueue; an idle FSM has an empty queue; and
the inputs pushed are those already passed to `process_input` followed by the
queue.
-/

namespace Sprout.SynchronizedFSM

variable {α : Type}

namespace Pc

/-- The activation holds `_lock` while it stands here. -/
def holdsLock : Pc α → Bool
  | .enqueue _ | .loop => true
  | _ => false

/-- The activation has set `_running` and not yet cleared it. -/
def drains : Pc α → Bool
  | .process _ | .relock | .loop => true
  | _ => false

end Pc

/-- A thread holds `_lock` when its innermost activation does. -/
def holding (fs : List (Pc α)) : Bool := fs.head?.any Pc.holdsLock

/-- A thread drains the queue when its outermost activation does. -/
def draining (fs : List (Pc α)) : Bool := fs.getLast?.any Pc.drains

@[simp] theorem holding_nil : holding ([] : List (Pc α)) = false := rfl

@[simp] theorem holding_cons (pc : Pc α) (fs : List (Pc α)) :
    holding (pc :: fs) = pc.holdsLock := rfl

@[simp] theorem draining_nil : draining ([] : List (Pc α)) = false := rfl

@[simp] theorem draining_singleton (pc : Pc α) : draining [pc] = pc.drains := rfl

@[simp] theorem draining_cons_cons (pc pc' : Pc α) (fs : List (Pc α)) :
    draining (pc :: pc' :: fs) = draining (pc' :: fs) := by
  simp [draining, List.getLast?_cons_cons]

/-- The stacks the code builds: idle, one activation, or a call nested in
`process_input` that has not yet queued its input. -/
inductive WellNested : List (Pc α) → Prop
  | idle : WellNested []
  | outer (pc : Pc α) : WellNested [pc]
  | nestedLock (y x : α) : WellNested [.lock y, .process x]
  | nestedEnqueue (y x : α) : WellNested [.enqueue y, .process x]

theorem WellNested.rest_nil {pc : Pc α} {rest : List (Pc α)} (h : WellNested (pc :: rest))
    (hpc : ∀ y, pc ≠ .lock y ∧ pc ≠ .enqueue y) : rest = [] := by
  cases h with
  | outer => rfl
  | nestedLock y x => exact absurd rfl (hpc y).1
  | nestedEnqueue y x => exact absurd rfl (hpc y).2

theorem WellNested.tail_cases {pc : Pc α} {rest : List (Pc α)} (h : WellNested (pc :: rest)) :
    rest = [] ∨ ∃ x, rest = [.process x] := by
  cases h with
  | outer => exact .inl rfl
  | nestedLock y x => exact .inr ⟨x, rfl⟩
  | nestedEnqueue y x => exact .inr ⟨x, rfl⟩

theorem draining_cons_congr {pc pc' : Pc α} {rest : List (Pc α)} (h : pc.drains = pc'.drains) :
    draining (pc :: rest) = draining (pc' :: rest) := by
  cases rest <;> simp [h]

theorem WellNested.draining_of_nested {g : Pc α} {x : α} {rest : List (Pc α)}
    (h : WellNested (g :: .process x :: rest)) : draining (g :: .process x :: rest) = true := by
  cases h <;> rfl

/-- The invariant of every reachable state. -/
structure Inv (s : State α) : Prop where
  lock_iff : ∀ t, s.lock = some t ↔ holding (s.frames t) = true
  nested : ∀ t, WellNested (s.frames t)
  running_iff : s.running = true ↔ ∃ t, draining (s.frames t) = true
  draining_unique : ∀ t u, draining (s.frames t) = true → draining (s.frames u) = true → t = u
  idle_empty : s.running = false → s.inputQ = []
  pushed_eq : s.pushed = s.calls ++ s.inputQ

theorem Inv.initial : Inv (initial : State α) where
  lock_iff t := by simp [SynchronizedFSM.initial]
  nested _ := .idle
  running_iff := by simp [SynchronizedFSM.initial]
  draining_unique t u h := by simp [SynchronizedFSM.initial] at h
  idle_empty _ := rfl
  pushed_eq := rfl

section Update

variable {β : Type} {f : Nat → List (Pc α)} {t : Nat} {fs : List (Pc α)}

/-- A view of thread stacks that `fs` shares with the stack it replaces is unchanged for every thread. -/
theorem view_update {g : List (Pc α) → β} (h : g fs = g (f t)) (u : Nat) :
    g (Function.update f t fs u) = g (f u) := by
  by_cases hu : u = t
  · subst hu; simpa using h
  · rw [Function.update_noteq hu]

end Update

section Steps

variable {s s' : State α} {t : Nat}

theorem drainHead_nil {rest : List (Pc α)} (h : s.inputQ = []) :
    drainHead s t rest =
      { s with running := false, lock := none, frames := Function.update s.frames t rest } := by
  simp [drainHead, h]

theorem drainHead_cons {rest : List (Pc α)} {x : α} {q : List α} (h : s.inputQ = x :: q) :
    drainHead s t rest =
      { s with inputQ := q, lock := none, calls := s.calls ++ [x],
               frames := Function.update s.frames t (.process x :: rest) } := by
  simp [drainHead, h]

/-- Everything one step of a thread can do, with its guard. -/
theorem advance_cases (h : advance s t = some s') :
    (∃ pc pc' rest, s.frames t = pc :: rest ∧ s.lock = none ∧
      ((∃ x, pc = .lock x ∧ pc' = .enqueue x) ∨ (pc = .relock ∧ pc' = .loop)) ∧
      s' = { s with lock := some t, frames := Function.update s.frames t (pc' :: rest) }) ∨
    (∃ x rest, s.frames t = .enqueue x :: rest ∧ s.running = true ∧
      s' = { s with inputQ := s.inputQ ++ [x], pushed := s.pushed ++ [x], lock := none,
                    frames := Function.update s.frames t rest }) ∨
    (∃ x rest, s.frames t = .enqueue x :: rest ∧ s.running = false ∧
      s' = drainHead { s with inputQ := s.inputQ ++ [x], pushed := s.pushed ++ [x],
                              running := true } t rest) ∨
    (∃ x rest, s.frames t = .process x :: rest ∧
      s' = { s with frames := Function.update s.frames t (.relock :: rest) }) ∨
    (∃ rest, s.frames t = .loop :: rest ∧ s' = drainHead s t rest) := by
  unfold advance at h
  split at h <;> rename_i heq
  · split at h
    · exact .inl ⟨_, _, _, heq, ‹_›, .inl ⟨_, rfl, rfl⟩, (Option.some.inj h).symm⟩
    · cases h
  · split at h
    · exact .inr (.inl ⟨_, _, heq, ‹_›, (Option.some.inj h).symm⟩)
    · exact .inr (.inr (.inl ⟨_, _, heq, Bool.eq_false_iff.mpr ‹_›, (Option.some.inj h).symm⟩))
  · exact .inr (.inr (.inr (.inl ⟨_, _, heq, (Option.some.inj h).symm⟩)))
  · split at h
    · exact .inl ⟨_, _, _, heq, ‹_›, .inr ⟨rfl, rfl⟩, (Option.some.inj h).symm⟩
    · cases h
  · exact .inr (.inr (.inr (.inr ⟨_, heq, (Option.some.inj h).symm⟩)))
  · cases h

theorem call_cases {x : α} (h : call s t x = some s') :
    (s.frames t = [] ∧
      s' = { s with frames := Function.update s.frames t [.lock x], sent := s.sent ++ [x] }) ∨
    (∃ y rest, s.frames t = .process y :: rest ∧
      s' = { s with frames := Function.update s.frames t (.lock x :: .process y :: rest),
                    sent := s.sent ++ [x] }) := by
  unfold call at h
  split at h <;> rename_i heq
  · exact .inl ⟨heq, (Option.some.inj h).symm⟩
  · exact .inr ⟨_, _, heq, (Option.some.inj h).symm⟩
  · cases h

end Steps

namespace Inv

variable {s : State α} {t : Nat}

theorem lock_eq (hi : Inv s) {pc : Pc α} {rest : List (Pc α)} (h : s.frames t = pc :: rest)
    (hpc : pc.holdsLock = true) : s.lock = some t :=
  (hi.lock_iff t).2 (by simp [h, hpc])

theorem not_holding_of_lock {u : Nat} (hi : Inv s) (hl : s.lock ≠ some u) :
    holding (s.frames u) = false :=
  Bool.eq_false_iff.mpr fun h => hl ((hi.lock_iff u).2 h)

theorem running_of_draining (hi : Inv s) (h : draining (s.frames t) = true) : s.running = true :=
  hi.running_iff.2 ⟨t, h⟩

/-- The lock condition after thread `t` alone changes its stack to `fs` and the lock to `l`. -/
theorem lock_iff_update (hi : Inv s) {fs : List (Pc α)} {l : Option Nat}
    (ht : l = some t ↔ holding fs = true) (hother : ∀ u, u ≠ t → s.lock ≠ some u)
    (hl : ∀ u, u ≠ t → l ≠ some u) (u : Nat) :
    l = some u ↔ holding (Function.update s.frames t fs u) = true := by
  by_cases hu : u = t
  · subst hu; simpa using ht
  · rw [Function.update_noteq hu, hi.not_holding_of_lock (hother u hu)]
    simpa using hl u hu

theorem nested_update (hi : Inv s) {fs : List (Pc α)} (hn : WellNested fs) (u : Nat) :
    WellNested (Function.update s.frames t fs u) := by
  by_cases hu : u = t
  · subst hu; simpa using hn
  · simpa [Function.update_noteq hu] using hi.nested u

/-- A step that only rewrites the stack of `t`, keeping whether it holds the lock and drains. -/
theorem update_frames (hi : Inv s) {fs : List (Pc α)}
    (hh : holding fs = holding (s.frames t)) (hd : draining fs = draining (s.frames t))
    (hn : WellNested fs) : Inv { s with frames := Function.update s.frames t fs } where
  lock_iff u := by simpa only [view_update hh] using hi.lock_iff u
  nested := hi.nested_update hn
  running_iff := by simpa only [view_update hd] using hi.running_iff
  draining_unique u v := by simpa only [view_update hd] using hi.draining_unique u v
  idle_empty := hi.idle_empty
  pushed_eq := hi.pushed_eq

/-- Thread `t` takes the free lock and enters a locked region. -/
theorem acquire (hi : Inv s) {pc pc' : Pc α} {rest : List (Pc α)} (hft : s.frames t = pc :: rest)
    (hl : s.lock = none) (hpc' : pc'.holdsLock = true) (hd : pc'.drains = pc.drains)
    (hn : WellNested (pc' :: rest)) :
    Inv { s with lock := some t, frames := Function.update s.frames t (pc' :: rest) } where
  lock_iff := hi.lock_iff_update (by simp [hpc']) (fun u _ => by simp [hl])
    (fun u hu => by simpa using Ne.symm hu)
  nested := hi.nested_update hn
  running_iff := by
    simpa only [view_update (hft ▸ draining_cons_congr hd)] using hi.running_iff
  draining_unique u v := by
    simpa only [view_update (hft ▸ draining_cons_congr hd)] using hi.draining_unique u v
  idle_empty := hi.idle_empty
  pushed_eq := hi.pushed_eq

/-- Thread `t` queues its input while another call drains, drops the lock and returns. -/
theorem enqueue_running (hi : Inv s) {x : α} {rest : List (Pc α)}
    (hft : s.frames t = .enqueue x :: rest) (hr : s.running = true) :
    Inv { s with inputQ := s.inputQ ++ [x], pushed := s.pushed ++ [x], lock := none,
                 frames := Function.update s.frames t rest } := by
  have hlock := hi.lock_eq hft rfl
  have hn := hi.nested t
  rw [hft] at hn
  have hd : draining rest = draining (s.frames t) := by
    rcases hn.tail_cases with rfl | ⟨y, rfl⟩ <;> simp [hft, Pc.drains]
  refine ⟨hi.lock_iff_update ?_ (fun u hu => by simpa [hlock] using Ne.symm hu) (fun _ _ => by simp),
    hi.nested_update ?_, by simpa only [view_update hd] using hi.running_iff,
    fun u v => by simpa only [view_update hd] using hi.draining_unique u v,
    fun h => by simp [hr] at h, by simp [hi.pushed_eq]⟩
  · rcases hn.tail_cases with rfl | ⟨y, rfl⟩ <;> simp [Pc.holdsLock]
  · rcases hn.tail_cases with rfl | ⟨y, rfl⟩
    exacts [.idle, .outer _]

theorem not_draining_of_idle {u : Nat} (hi : Inv s) (hr : s.running = false) :
    draining (s.frames u) = false :=
  Bool.eq_false_iff.mpr fun h => by simp [hi.running_of_draining h] at hr

/-- Thread `t` finds no runner: it queues its input, becomes the runner, pops that
same input and enters `process_input` with the lock dropped. -/
theorem enqueue_idle (hi : Inv s) {x : α} {rest : List (Pc α)}
    (hft : s.frames t = .enqueue x :: rest) (hr : s.running = false) :
    Inv (drainHead { s with inputQ := s.inputQ ++ [x], pushed := s.pushed ++ [x],
                            running := true } t rest) := by
  have hlock := hi.lock_eq hft rfl
  have hq := hi.idle_empty hr
  have hrest : rest = [] := by
    have hn := hi.nested t
    rw [hft] at hn
    rcases hn.tail_cases with h | ⟨y, rfl⟩
    · exact h
    · simpa [hft, Pc.drains] using hi.not_draining_of_idle (u := t) hr
  subst hrest
  rw [drainHead_cons (x := x) (q := []) (by simp [hq])]
  have hother : ∀ u, u ≠ t → draining (s.frames u) = false := fun _ _ => hi.not_draining_of_idle hr
  refine ⟨hi.lock_iff_update (by simp [Pc.holdsLock]) (fun u hu => by simpa [hlock] using Ne.symm hu)
    (fun _ _ => by simp), hi.nested_update (.outer _), ?_, ?_, fun h => by simp at h,
    by simp [hi.pushed_eq, hq]⟩
  · exact iff_of_true rfl ⟨t, by simp [Pc.drains]⟩
  · intro u v hu hv
    by_cases hut : u = t <;> by_cases hvt : v = t
    · rw [hut, hvt]
    all_goals simp_all [Function.update_noteq]

/-- Thread `t` tests the queue after relocking: it pops the head into
`process_input`, or clears `_running` and returns. -/
theorem loop (hi : Inv s) {rest : List (Pc α)} (hft : s.frames t = .loop :: rest) :
    Inv (drainHead s t rest) := by
  have hlock := hi.lock_eq hft rfl
  have hrest : rest = [] := by
    have hn := hi.nested t
    rw [hft] at hn
    exact hn.rest_nil fun y => ⟨nofun, nofun⟩
  subst hrest
  have hdt : draining (s.frames t) = true := by simp [hft, Pc.drains]
  have hother : ∀ u, u ≠ t → draining (s.frames u) = false := fun u hu =>
    Bool.eq_false_iff.mpr fun h => hu (hi.draining_unique u t h hdt)
  cases hq : s.inputQ with
  | nil =>
      rw [drainHead_nil hq]
      have hnone : ∀ u, draining (Function.update s.frames t [] u) = false := fun u => by
        by_cases hut : u = t
        · subst hut; simp
        · simp [Function.update_noteq hut, hother u hut]
      refine ⟨hi.lock_iff_update (by simp) (fun u hu => by simpa [hlock] using Ne.symm hu)
        (fun _ _ => by simp), hi.nested_update .idle, ?_, fun u _ hu => ?_, fun _ => hq, hi.pushed_eq⟩
      · exact iff_of_false (by simp) fun ⟨u, hu⟩ => by simp [hnone u] at hu
      · simp [hnone u] at hu
  | cons y q =>
      rw [drainHead_cons hq]
      have hd : draining [Pc.process y] = draining (s.frames t) := by simp [hft, Pc.drains]
      refine ⟨hi.lock_iff_update (by simp [Pc.holdsLock])
        (fun u hu => by simpa [hlock] using Ne.symm hu) (fun _ _ => by simp),
        hi.nested_update (.outer _), by simpa only [view_update hd] using hi.running_iff,
        fun u v => by simpa only [view_update hd] using hi.draining_unique u v,
        fun h => by simp [hi.running_of_draining hdt] at h, by simp [hi.pushed_eq, hq]⟩

theorem rest_nil_of_process (hi : Inv s) {x : α} {rest : List (Pc α)}
    (hft : s.frames t = .process x :: rest) : rest = [] := by
  have hn := hi.nested t
  rw [hft] at hn
  exact hn.rest_nil fun y => ⟨nofun, nofun⟩

theorem advance {s' : State α} (hi : Inv s) (h : SynchronizedFSM.advance s t = some s') : Inv s' := by
  rcases advance_cases h with ⟨pc, pc', rest, hft, hl, hpc, rfl⟩ | ⟨x, rest, hft, hr, rfl⟩ |
    ⟨x, rest, hft, hr, rfl⟩ | ⟨x, rest, hft, rfl⟩ | ⟨rest, hft, rfl⟩
  · have hn := hi.nested t
    rw [hft] at hn
    rcases hpc with ⟨x, rfl, rfl⟩ | ⟨rfl, rfl⟩
    · refine hi.acquire hft hl rfl rfl ?_
      rcases hn.tail_cases with rfl | ⟨y, rfl⟩
      exacts [.outer _, .nestedEnqueue _ _]
    · exact hi.acquire hft hl rfl rfl (by rw [hn.rest_nil fun y => ⟨nofun, nofun⟩]; exact .outer _)
  · exact hi.enqueue_running hft hr
  · exact hi.enqueue_idle hft hr
  · obtain rfl := hi.rest_nil_of_process hft
    exact hi.update_frames (by simp [hft, Pc.holdsLock]) (by simp [hft, Pc.drains]) (.outer _)
  · exact hi.loop hft

/-- The invariant does not read the inputs passed to `send_input`. -/
theorem withSent (hi : Inv s) (l : List α) : Inv { s with sent := l } :=
  ⟨hi.lock_iff, hi.nested, hi.running_iff, hi.draining_unique, hi.idle_empty, hi.pushed_eq⟩

theorem call {s' : State α} {x : α} (hi : Inv s) (h : SynchronizedFSM.call s t x = some s') :
    Inv s' := by
  rcases call_cases h with ⟨hft, rfl⟩ | ⟨y, rest, hft, rfl⟩
  · refine (hi.withSent (s.sent ++ [x])).update_frames ?_ ?_ (.outer _) <;>
      simp [hft, Pc.holdsLock, Pc.drains]
  · obtain rfl := hi.rest_nil_of_process hft
    refine (hi.withSent (s.sent ++ [x])).update_frames ?_ ?_ (.nestedLock _ _) <;>
      simp [hft, Pc.holdsLock]

theorem step {s' : State α} {a : Action α} (hi : Inv s) (h : SynchronizedFSM.step s a = some s') :
    Inv s' := by
  cases a with
  | call t x => exact hi.call h
  | advance t => exact hi.advance h

end Inv

/-- Every reachable state satisfies the invariant. -/
theorem Reachable.inv {s : State α} (hs : Reachable s) : Inv s := by
  induction hs with
  | initial => exact Inv.initial
  | step _ h ih => exact ih.step h

end Sprout.SynchronizedFSM

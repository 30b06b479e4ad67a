import BoundedQueue.Proofs.Session.Likeness

/-!
# Hooks that accept

A hook that accepts whatever it is shown might as well not be there.  `Case.disarm` takes the hooks
away that a queue is built with, and puts a hook that always accepts in the place of those that are
installed later.  As long as no hook of a case objects to an entry, this makes no difference but in
what hooks are shown (`Case.accepting_hooks_transparent`).

Whether hooks object is read off the run itself: a hook may be one that objects to other entries, or
after others.  So the likeness on which this rests is between a queue with hooks of which nothing is
known beforehand, and one whose hooks, if it has any, always accept.  They part only when a hook of
the first queue objects, and of that a note is left in its history.
-/

set_option autoImplicit false

namespace BoundedQueue

variable {α : Type}

/-! ## Hooks that do not object -/

/-- A hook that accepts every entry. -/
def Hook.accepting : Hook α := .ofVerdict fun _ _ => .accept

/-- The note is not about a hook that rejected an entry or panicked. -/
def Note.isUnopposed : Note α → Bool
  | consulted _ _ verdict => verdict == .accept
  | _ => true

namespace Queue

/-- No hook has objected to anything. -/
def Unopposed (history : List (Note α)) : Prop := ∀ n ∈ history, n.isUnopposed = true

instance (history : List (Note α)) : Decidable (Unopposed history) :=
  inferInstanceAs (Decidable (∀ n ∈ history, n.isUnopposed = true))

/-- The second queue is the first one, but for the hooks and for what was noted.  Its own hooks
always accept. -/
structure Disarmed (q q' : Queue α) : Prop where
  resembles : q.Resembles id q'
  log_eq : q'.log = q.log
  accepts : ∀ stage h, q'.hook? stage = some h → ∀ shown entry, h.verdict shown entry = .accept

namespace Disarmed

variable {q q' : Queue α} (hq : q.Disarmed q')

include hq

/-- Nothing is required of the hooks of the first queue. -/
theorem setHook_left (stage : Stage) (h : Hook α) : (q.setHook stage h).Disarmed q' := by
  cases stage <;> exact ⟨{ hq.resembles with }, hq.log_eq, hq.accepts⟩

/-- The second queue may get another hook that always accepts. -/
theorem setHook_right (stage : Stage) {h : Hook α}
    (hh : ∀ shown entry, h.verdict shown entry = .accept) : q.Disarmed (q'.setHook stage h) := by
  have haccepts : ∀ stage' h', (q'.setHook stage h).hook? stage' = some h' →
      ∀ shown entry, h'.verdict shown entry = .accept := by
    intro stage' h' heq
    cases stage <;> cases stage'
    · cases heq; exact hh
    · exact hq.accepts .dequeue h' heq
    · exact hq.accepts .enqueue h' heq
    · cases heq; exact hh
  cases stage <;> exact ⟨{ hq.resembles with }, hq.log_eq, haccepts⟩

/-- A hook of the first queue that does not object accepts. -/
theorem consult_left {stage : Stage} {entry : Entry α}
    (hunopposed : Unopposed (q.consult stage entry).2.history) :
    (q.consult stage entry).2.Disarmed q' ∧ (q.consult stage entry).1 = .accept := by
  rw [Queue.consult] at hunopposed ⊢
  cases hhook : q.hook? stage with
  | none => exact ⟨hq, rfl⟩
  | some h =>
    rw [hhook] at hunopposed
    have hverdict := hunopposed (.consulted stage entry (h.judge entry)) List.mem_cons_self
    obtain ⟨hresembles, hlog, haccepts⟩ := hq.setHook_left stage (h.remember entry)
    exact ⟨⟨{ hresembles with }, hlog, haccepts⟩, eq_of_beq hverdict⟩

/-- A hook of the second queue always accepts. -/
theorem consult_right (stage : Stage) (entry : Entry α) :
    q.Disarmed (q'.consult stage entry).2 ∧ (q'.consult stage entry).1 = .accept := by
  rw [Queue.consult]
  cases hhook : q'.hook? stage with
  | none => exact ⟨hq, rfl⟩
  | some h =>
    have hh := hq.accepts stage h hhook
    obtain ⟨hresembles, hlog, haccepts⟩ :=
      hq.setHook_right stage (h := h.remember entry) hh
    exact ⟨⟨{ hresembles with }, hlog, haccepts⟩, hh h.shown entry⟩

/-- The same was noted, and as much was written into the log. -/
theorem setLog {log log' : Logbook} (hlog : log' = log) :
    { q with log := log }.Disarmed { q' with log := log' } :=
  ⟨{ hq.resembles with springs_eq := fun r => congrArg (Logbook.springs · r) hlog }, hlog,
    hq.accepts⟩

end Disarmed

end Queue

/-- Hooks make no difference as long as they do not object. -/
def Likeness.disarmed : Likeness (id : α → α) where
  Like := Queue.Disarmed
  Sound := Queue.Unopposed
  Fit _ := True
  hook _ := .accepting
  resembles := Queue.Disarmed.resembles
  record hq r := hq.setLog (congrArg (Logbook.write · r) hq.log_eq)
  trap hq opening := hq.setLog (congrArg (Logbook.setTrap · opening) hq.log_eq)
  note hq n := ⟨{ hq.resembles with }, hq.log_eq, hq.accepts⟩
  poison hq l := by
    cases l
    · exact ⟨{ hq.resembles with bufferPoisoned_eq := rfl }, hq.log_eq, hq.accepts⟩
    · exact ⟨{ hq.resembles with producersPoisoned_eq := rfl }, hq.log_eq, hq.accepts⟩
  semaphore hq side s := by
    cases side
    · exact ⟨{ hq.resembles with free_eq := rfl }, hq.log_eq, hq.accepts⟩
    · exact ⟨{ hq.resembles with filled_eq := rfl }, hq.log_eq, hq.accepts⟩
  producers hq n := ⟨{ hq.resembles with producers_eq := rfl }, hq.log_eq, hq.accepts⟩
  ring hq r := ⟨{ hq.resembles with ring_eq := rfl }, hq.log_eq, hq.accepts⟩
  install hq stage h _ := (hq.setHook_left stage h).setHook_right stage fun _ _ => rfl
  consult hq stage entry hunopposed := by
    obtain ⟨hleft, hverdict⟩ := hq.consult_left hunopposed
    obtain ⟨hboth, hverdict'⟩ := hleft.consult_right stage entry
    rw [Entry.map_id, hverdict]
    exact ⟨hboth, hverdict'⟩
  sound_of_append notes _ h n hn := h n (List.mem_append_right notes hn)

/-! ## Cases without hooks of their own -/

/-- The call hands no hook to the builder. -/
def Builder.Call.isHookless : Builder.Call α → Bool
  | hook _ _ => false
  | capacity _ | pretty => true

/-- Puts a hook that always accepts in the place of one that is to be installed. -/
def Operation.disarm : Operation α → Operation α
  | install stage _ => install stage .accepting
  | op => op

/-- Takes away the hooks that the queue is built with, and puts hooks that always accept in the
place of those that are installed later. -/
def Case.disarm (c : Case α) : Case α :=
  { c with
    build := c.build.map (List.filter Builder.Call.isHookless)
    rounds := c.rounds.map (List.map (Assignment.map Operation.disarm)) }

/-- Puts hooks that always accept in the place of those whose installation is reported. -/
def Report.disarm (r : Report α) : Report α := { r with round := r.round.map Operation.disarm id }

/-- Leaves out what hooks were shown. -/
def Report.unshown (r : Report α) : Report α := { r with shown := [] }

theorem Operation.exchange_eq_disarm :
    Operation.exchange id (fun _ => .accepting) = Operation.disarm (α := α) := by
  funext op
  cases op <;> rfl

/-- What is reported of queues that are alike is the same, hooks apart. -/
theorem Likeness.report_disarmed {before after before' after' : Case.Tasks α}
    (hbefore : Likeness.disarmed.Rows before before')
    (hafter : Likeness.disarmed.Rows after after') :
    (Case.report before' after').unshown = (Case.report before after).disarm.unshown := by
  have hround : before'.roundSince after' = (before.roundSince after).map Operation.disarm id := by
    rw [hbefore.roundSince_eq hafter, ← Operation.exchange_eq_disarm, ← Answer.map_id]
    rfl
  have hresembles := hafter.world.shared.queue.resembles
  rw [Case.report, Case.report, hround, hafter.world.shared.queue.log_eq,
    hbefore.world.shared.queue.log_eq, hresembles.len_eq, hresembles.producers_eq]
  rfl

theorem Builder.build_ofCapacity_of_error {b : Builder α} {log : Logbook}
    {refusal : Error × Logbook} (h : b.build log = .error refusal) :
    (ofCapacity b.capacity : Builder α).build log = .error refusal := by
  rw [build] at h ⊢
  split at h
  · next hzero => rw [← h]; exact if_pos hzero
  · cases h

theorem Builder.build_ofCapacity_of_ok {b : Builder α} {log : Logbook} {queue : Queue α}
    (h : b.build log = .ok queue) :
    (ofCapacity b.capacity : Builder α).build log =
      .ok (.fresh queue.capacity none none log) := by
  rw [build] at h ⊢
  split at h
  · cases h
  · next hne => cases h; exact if_neg hne

/-- A queue that is built is like one that is built without hooks. -/
theorem Queue.disarmed_of_build {b : Builder α} {log : Logbook} {queue : Queue α}
    (h : b.build log = .ok queue) : queue.Disarmed (.fresh queue.capacity none none log) := by
  obtain ⟨-, hfresh⟩ := Builder.eq_fresh_of_build h
  rw [hfresh]
  refine ⟨⟨rfl, ?_, rfl, rfl, rfl, rfl, rfl, fun _ => rfl⟩, rfl, fun stage h hh => ?_⟩
  · rw [Entry.map_id, Ring.map_id]
    rfl
  · cases stage <;> cases hh

namespace Case

/-- Without its hooks, a builder comes to the same capacity. -/
theorem applyAll_isHookless (capacity : Nat) (onEnqueue onDequeue : Option (Hook α))
    (calls : List (Builder.Call α)) :
    ((Builder.ofCapacity capacity).applyAll (calls.filter Builder.Call.isHookless)).1 =
      .ofCapacity ((Builder.mk capacity onEnqueue onDequeue).applyAll calls).1.capacity := by
  induction calls generalizing capacity onEnqueue onDequeue with
  | nil => rfl
  | cons call calls ih =>
    cases call with
    | capacity n? => exact ih (n?.getD capacity) onEnqueue onDequeue
    | pretty => exact ih capacity onEnqueue onDequeue
    | hook stage h =>
      cases stage
      · exact ih capacity (some h) onDequeue
      · exact ih capacity onEnqueue (some h)

theorem builder_disarm (c : Case α) : c.disarm.builder.1 = .ofCapacity c.builder.1.capacity := by
  rcases c with ⟨capacity, _ | calls, wake, detail, rounds⟩
  · rfl
  · exact applyAll_isHookless capacity none none calls

/-- No hook of a case ever rejects an entry or panics. -/
def Unopposed (c : Case α) : Prop :=
  ∀ queue, c.builder.1.build (.blank c.detail) = .ok queue →
    Queue.Unopposed (afterRounds (c.initial queue) c.rounds).world.shared.queue.history

/-- **Hooks that accept are transparent.**  If no hook of a case ever rejects an entry or panics, it
comes to the same without the hooks that its queue is built with, and with hooks that always accept
in the place of those that are installed later: the same events in the same order, the same tasks
that are blocked, log records and counts. -/
theorem accepting_hooks_transparent {c : Case α} (hc : c.Unopposed) :
    c.disarm.run.result.map (List.map Report.unshown) =
      c.run.result.map (List.map fun r => r.disarm.unshown) := by
  cases hbuild : c.builder.1.build (.blank c.detail) with
  | error refusal =>
    have hbuild' : c.disarm.builder.1.build (.blank c.disarm.detail) = .error refusal := by
      rw [builder_disarm]
      exact Builder.build_ofCapacity_of_error hbuild
    rw [run_of_error hbuild, run_of_error hbuild']
    rfl
  | ok queue =>
    have hbuild' : c.disarm.builder.1.build (.blank c.disarm.detail) =
        .ok (.fresh queue.capacity none none (.blank c.detail)) := by
      rw [builder_disarm]
      exact Builder.build_ofCapacity_of_ok hbuild
    have hrows : Likeness.disarmed.Rows (c.initial queue)
        (c.disarm.initial (.fresh queue.capacity none none (.blank c.detail))) := by
      refine ⟨⟨⟨?_, rfl⟩, rfl, rfl, fun _ _ hop => absurd hop List.not_mem_nil⟩, rfl, rfl, rfl⟩
      exact Queue.disarmed_of_build hbuild
    have hfit : ∀ work ∈ c.rounds, ∀ a ∈ work, AllFit Likeness.disarmed.FitOperation a.todo :=
      fun _ _ _ _ _ _ _ _ _ => trivial
    have hreports := Likeness.disarmed.reports_eq (fun r => r.disarm.unshown) Report.unshown
      Likeness.report_disarmed hfit hrows (hc queue hbuild)
    rw [run_of_ok hbuild, run_of_ok hbuild']
    refine congrArg Except.ok (Eq.trans ?_ hreports)
    rw [Case.disarm, ← Operation.exchange_eq_disarm]
    rfl

/-- A hook that objects to the tenth entry that it is shown, and to every further one. -/
def weary : Hook Nat :=
  .ofVerdict fun shown _ => if shown.length < 9 then .accept else .reject (.plain "weary")

/-- A producer and a consumer share a single slot, with hooks that would get weary.  Later the queue
is cleared, the logger panics while a producer deregisters, a hook is exchanged, and the last call
is left waiting. -/
def easygoing : Case Nat where
  capacity := 1
  build := some [.hook .enqueue weary, .pretty, .hook .dequeue weary]
  wake := .later
  detail := some .trace
  rounds := [
    [⟨1, [.perform (.producer "p"), .perform (.send "p" 5), .perform (.send "p" 6),
      .perform (.finish "p")]⟩, ⟨2, [.perform .collect]⟩],
    [⟨3, [.perform .clear, .perform .register, .perform (.trap "producer dereg"),
      .perform .deregister, .perform (.install .enqueue weary), .perform (.enqueue 7),
      .perform .dequeue, .perform .dequeue]⟩]]

theorem accepting_hooks_transparent_easygoing : easygoing.Unopposed ∧
    easygoing.disarm.run.result.map (List.map Report.unshown) =
      easygoing.run.result.map (List.map fun r => r.disarm.unshown) ∧
    easygoing.run.result.toOption.map (List.map fun r => (r.round.blocked, r.shown.length)) =
      some [([], 7), ([3], 2)] ∧
    easygoing.disarm.run.result.toOption.map (List.map fun r => (r.round.blocked, r.shown.length)) =
      some [([], 0), ([3], 1)] := by
  have hunopposed : easygoing.Unopposed := by
    intro queue hbuild
    cases hbuild
    decide +kernel
  exact ⟨hunopposed, accepting_hooks_transparent hunopposed, by decide +kernel, by decide +kernel⟩

end Case

end BoundedQueue

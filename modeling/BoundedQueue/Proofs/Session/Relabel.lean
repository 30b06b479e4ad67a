import BoundedQueue.Hook.Rule
import BoundedQueue.Proofs.Queue.Relabel
import BoundedQueue.Proofs.Session.Likeness
import Mathlib.Data.List.Find

/-!
# Exchanging items in a case

What comes of a case does not depend on what the items are: if every item that is put is exchanged
for another one, the same happens as before, with the items exchanged in what the calls hand out or
hand back and in what the hooks are shown.  This is `Case.items_exchange`.  The exchange may confuse
items with each other, and no item is ever confused with the marker for the end of input, or with
there being none.

* `Operation.map`, `Report.map` and `Case.map` say where items are in what is put in and in what is
  seen from outside.
* Only a hook can look into an item.  A case is `Blind` if its hooks follow rules that do not
  (`Condition.isBlind`), the ones that it is built with and the ones that are installed later.
  `Hook.FollowsBlindRules.blind` says that such hooks see no difference.
* `Dictionary.ofItems` exchanges items wherever a session has them, and the theory of queues that
  are alike then says that every round is reported alike (`reports_map`).
-/

set_option autoImplicit false

namespace BoundedQueue

variable {α : Type} (f : α → α)

/-! ## Where items are -/

/-- Exchanges the item that is put.  Everything else is kept, hooks included. -/
def Operation.map : Operation α → Operation α
  | enqueue a => enqueue (f a)
  | tryEnqueue a => tryEnqueue (f a)
  | send handle a => send handle (f a)
  | op => op

/-- Exchanges the items in the queue. -/
def Session.map (s : Session α) : Session α := ⟨s.queue.map f, s.handles⟩

/-- Exchanges the items in the operations, the answers, and what the hooks were shown. -/
def Report.map (r : Report α) : Report α :=
  { r with
    round := r.round.map (Operation.map f) (Answer.map f)
    shown := r.shown.map (Prod.map id (Entry.map f)) }

/-- Exchanges the items in every report. -/
def CaseReport.map (r : CaseReport α) : CaseReport α :=
  { r with result := r.result.map (List.map (Report.map f)) }

/-- Exchanges every item that is put. -/
def Case.map (c : Case α) : Case α :=
  { c with rounds := c.rounds.map (List.map (Assignment.map (Operation.map f))) }

/-- Exchanges items wherever a session has them. -/
def Dictionary.ofItems : Dictionary (Session α) (Operation α) (Job α) (Answer α)
    (Session α) (Operation α) (Job α) (Answer α) where
  shared := Session.map f
  operation := Operation.map f
  place := Job.map f
  result := Answer.map f

/-- A hook that is installed was shown no item, and sees no difference. -/
def Operation.Blind (op : Operation α) : Prop :=
  ∀ stage h, op = .install stage h → h.shown = [] ∧ h.Blind f

/-- Exchanging items in an operation exchanges no hook. -/
theorem Operation.exchange_eq_map : Operation.exchange f id = Operation.map f := by
  funext op
  cases op <;> rfl

/-- The glossary of the likeness is that of the dictionary. -/
theorem Likeness.glossary_ofItems :
    (Likeness.ofItems f).glossary = (Dictionary.ofItems f).glossary :=
  congrArg (Glossary.mk · _ _) (Operation.exchange_eq_map f)

/-- A run queue is like the one with its items exchanged. -/
theorem Likeness.rows_ofItems_iff {s s' : Case.Tasks α} :
    (Likeness.ofItems f).Rows s s' ↔ s' = s.map (.ofItems f) ∧
      s.world.Translatable (fun s => s.queue.Blind f) (Operation.Blind f) := by
  have hjoint : (Likeness.ofItems f).Joint =
      fun s s' => s' = (Dictionary.ofItems f).shared s ∧ s.queue.Blind f := by
    funext s s'
    refine propext ⟨fun h => ⟨?_, h.queue.2⟩, ?_⟩
    · obtain ⟨queue, handles⟩ := s'
      obtain ⟨⟨rfl, -⟩, rfl⟩ := h
      rfl
    · rintro ⟨rfl, hblind⟩
      exact ⟨⟨rfl, hblind⟩, rfl⟩
  rw [Likeness.Rows, Likeness.glossary_ofItems, hjoint]
  exact RunQueue.alike_map_iff

/-! ## Reports -/

namespace Case

theorem report_map (before after : Tasks α) :
    report (before.map (.ofItems f)) (after.map (.ofItems f)) = (report before after).map f := by
  have hshown : Queue.shownIn (newSince
      (before.world.shared.queue.history.map (Note.map f))
      (after.world.shared.queue.history.map (Note.map f))) =
      (report before after).shown.map (Prod.map id (Entry.map f)) := by
    rw [newSince_map, Queue.shownIn_map]
    rfl
  rw [report, RunQueue.roundSince_map]
  exact congrArg (Report.mk _ _ · _ _) hshown

/-- Round by round, the reports are those with the items exchanged. -/
theorem reports_map {s : Tasks α}
    (hs : s.world.Translatable (fun s => s.queue.Blind f) (Operation.Blind f))
    {rounds : List (List (Assignment (Operation α)))}
    (hrounds : ∀ work ∈ rounds, ∀ a ∈ work, AllFit (Operation.Blind f) a.todo) :
    reports (s.map (.ofItems f)) (rounds.map (List.map (Assignment.map (Operation.map f)))) =
      (reports s rounds).map (Report.map f) := by
  have hreport {before after before' after' : Tasks α}
      (hbefore : (Likeness.ofItems f).Rows before before')
      (hafter : (Likeness.ofItems f).Rows after after') :
      id (report before' after') = (report before after).map f := by
    obtain ⟨rfl, -⟩ := (Likeness.rows_ofItems_iff f).1 hbefore
    obtain ⟨rfl, -⟩ := (Likeness.rows_ofItems_iff f).1 hafter
    exact report_map f before after
  have hreports := (Likeness.ofItems f).reports_eq (Report.map f) id hreport hrounds
    ((Likeness.rows_ofItems_iff f).2 ⟨rfl, hs⟩) trivial
  rw [List.map_id] at hreports
  rw [← hreports, ← Operation.exchange_eq_map]
  rfl

end Case

/-- Whatever holds of the hooks that are handed to a builder holds of the hooks that it has. -/
theorem Builder.forall_hook_applyAll {P : Hook α → Prop} {b : Builder α}
    (hb : ∀ h, b.onEnqueue = some h ∨ b.onDequeue = some h → P h) {calls : List (Builder.Call α)}
    (hcalls : ∀ stage h, .hook stage h ∈ calls → P h) (h : Hook α)
    (hlast : (b.applyAll calls).1.onEnqueue = some h ∨ (b.applyAll calls).1.onDequeue = some h) :
    P h := by
  induction calls generalizing b with
  | nil => exact hb h hlast
  | cons c calls ih =>
    refine ih (b := b.apply c) (fun h' hh' => ?_)
      (fun stage h' hh' => hcalls stage h' (List.mem_cons_of_mem _ hh')) hlast
    cases c with
    | capacity | pretty => exact hb h' hh'
    | hook stage new =>
      have hnew := hcalls stage new List.mem_cons_self
      cases stage
      · rcases hh' with he | hd
        · cases he; exact hnew
        · exact hb h' (.inr hd)
      · rcases hh' with he | hd
        · exact hb h' (.inl he)
        · cases hd; exact hnew

/-! ## Rules that do not look into items -/

/-- The condition can be decided without looking into an item. -/
def Condition.isBlind : Condition α → Bool
  | any | eof | item | nth _ | every _ => true
  | equals _ | below _ => false

section Rules

variable [Payload α]

/-- The hook follows rules that do not look into items, and is new. -/
def Hook.FollowsBlindRules (h : Hook α) : Prop :=
  ∃ rules : List (Rule α), (∀ r ∈ rules, r.condition.isBlind) ∧ h = .ofRules rules

theorem Condition.holds_map {c : Condition α} (hc : c.isBlind) (call : Nat) (entry : Entry α) :
    c.holds call (entry.map f) = c.holds call entry := by
  cases c with
  | equals | below => cases hc
  | any | nth | every => rfl
  | eof | item => cases entry <;> rfl

theorem Rule.decide_map {rules : List (Rule α)} (hrules : ∀ r ∈ rules, r.condition.isBlind)
    (call : Nat) (entry : Entry α) :
    Rule.decide rules call (entry.map f) = Rule.decide rules call entry := by
  have hfind : rules.find? (fun r => r.condition.holds call (entry.map f)) =
      rules.find? fun r => r.condition.holds call entry :=
    List.find?_congr fun r hr => Condition.holds_map f (hrules r hr) call entry
  rw [Rule.decide, hfind, Rule.decide]

/-- Such a hook sees no difference, whatever items are exchanged for. -/
theorem Hook.FollowsBlindRules.blind {h : Hook α} (hh : h.FollowsBlindRules) : h.Blind f := by
  obtain ⟨rules, hrules, rfl⟩ := hh
  intro shown entry
  show Rule.decide rules ((shown.map (Entry.map f)).length + 1) (entry.map f) = _
  rw [List.length_map, Rule.decide_map f hrules]
  rfl

theorem Hook.FollowsBlindRules.shown_eq {h : Hook α} (hh : h.FollowsBlindRules) :
    h.shown = [] := by
  obtain ⟨rules, -, rfl⟩ := hh
  rfl

/-- The hooks of a case, those of the builder and those installed later, follow rules that do not
look into items. -/
structure Case.Blind (c : Case α) : Prop where
  build : ∀ calls, c.build = some calls →
    ∀ stage h, .hook stage h ∈ calls → h.FollowsBlindRules
  rounds : ∀ work ∈ c.rounds, ∀ a ∈ work,
    ∀ stage h, .perform (.install stage h) ∈ a.todo → h.FollowsBlindRules

namespace Case

/-- The hooks of a blind case that its queue is built with are new and blind. -/
theorem Blind.followsBlindRules {c : Case α} (hc : c.Blind) (h : Hook α)
    (hh : c.builder.1.onEnqueue = some h ∨ c.builder.1.onDequeue = some h) :
    h.FollowsBlindRules := by
  refine Builder.forall_hook_applyAll (b := .ofCapacity c.capacity) ?_ ?_ h hh
  · rintro h (he | hd)
    · cases he
    · cases hd
  · intro stage h hmem
    cases hbuild : c.build with
    | none => rw [hbuild] at hmem; cases hmem
    | some calls => exact hc.build calls hbuild stage h (by rw [hbuild] at hmem; exact hmem)

/-- There is no item yet in a queue that is built, and its hooks see no difference. -/
theorem Blind.map_built {c : Case α} (hc : c.Blind) {queue : Queue α} {log : Logbook}
    (hbuild : c.builder.1.build log = .ok queue) : queue.map f = queue ∧ queue.Blind f := by
  have hhooks := hc.followsBlindRules
  rw [Builder.build] at hbuild
  split at hbuild
  · cases hbuild
  · cases hbuild
    refine ⟨Queue.map_fresh_of_new _ _ fun h hh => (hhooks h hh).shown_eq, fun stage h hh => ?_⟩
    cases stage
    · exact (hhooks h (.inl hh)).blind f
    · exact (hhooks h (.inr hh)).blind f

/-- **A queue never looks inside items.**  If every item that is put is exchanged for another one,
the same comes of a case whose hooks do not look into items, with the items exchanged wherever one
is handed out, handed back or shown to a hook: the same events in the same order, the same failures,
tasks that are blocked, counts, log records and markers. -/
theorem items_exchange (f : α → α) {c : Case α} (hc : c.Blind) : (c.map f).run = c.run.map f := by
  cases hbuild : c.builder.1.build (.blank c.detail) with
  | error refusal =>
    rw [run_of_error hbuild, run_of_error (c := c.map f) hbuild]
    rfl
  | ok queue =>
    obtain ⟨hmap, hblind⟩ := hc.map_built f hbuild
    have hinitial : (c.initial queue).map (.ofItems f) = (c.map f).initial (queue.map f) := rfl
    have hfit : ∀ work ∈ c.rounds, ∀ a ∈ work, AllFit (Operation.Blind f) a.todo := by
      rintro work hwork a ha op hop stage h rfl
      have hrules := hc.rounds work hwork a ha stage h hop
      exact ⟨hrules.shown_eq, hrules.blind f⟩
    have hreports := reports_map f (s := c.initial queue)
      ⟨hblind, fun _ _ hop => absurd hop List.not_mem_nil⟩ hfit
    rw [hinitial, hmap] at hreports
    rw [run_of_ok hbuild, run_of_ok (c := c.map f) hbuild]
    exact congrArg (fun rs => CaseReport.mk _ (.ok rs)) hreports

end Case

end Rules

instance : Payload Int := ⟨some⟩

namespace Case

/-- One task puts and takes with a single slot.  The enqueue hook rejects every third entry, and
the dequeue hook, which is installed later, the marker. -/
def selective : Case Int where
  capacity := 1
  build := some [.hook .enqueue (.ofRules [⟨.every 3, .reject (.plain "every third")⟩])]
  wake := .later
  detail := some .warn
  rounds := [[⟨1, [.perform (.enqueue 5), .perform (.tryEnqueue 6), .perform .dequeue,
    .perform (.enqueue 7), .perform .register, .perform .dequeue, .perform (.enqueue 8),
    .perform (.install .dequeue (.ofRules [⟨.eof, .reject (.plain "marker")⟩])),
    .perform .deregister, .perform .dequeue]⟩]]

theorem items_exchange_selective : selective.Blind ∧
    (selective.map fun _ => 0).run = selective.run.map (fun _ => 0) ∧
    (selective.map fun _ => 0).run.result.toOption.map (List.map Report.shown) =
      some [[(.enqueue, .item 0), (.enqueue, .item 0), (.enqueue, .item 0), (.enqueue, .eof),
        (.dequeue, .eof)]] := by
  have hblind : selective.Blind := by
    constructor
    · rintro calls ⟨⟩ stage h hmem
      obtain ⟨rfl, rfl⟩ := Builder.Call.hook.inj (List.mem_singleton.1 hmem)
      exact ⟨_, by decide, rfl⟩
    · intro work hwork a ha stage h hmem
      obtain rfl := List.mem_singleton.1 hwork
      obtain rfl := List.mem_singleton.1 ha
      simp only [List.mem_cons, Instruction.perform.injEq, Operation.install.injEq,
        List.not_mem_nil, reduceCtorEq, false_or, or_false] at hmem
      obtain ⟨rfl, rfl⟩ := hmem
      exact ⟨_, by decide, rfl⟩
  exact ⟨hblind, items_exchange _ hblind, by decide +kernel⟩

end Case

end BoundedQueue

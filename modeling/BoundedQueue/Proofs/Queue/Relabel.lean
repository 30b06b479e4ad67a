import BoundedQueue.Proofs.Queue.Likeness

/-!
# Exchanging items in a queue

Let `f` exchange items, several perhaps for the same one, and let the hooks be `Blind` to it.  Then
a queue and the queue with its items exchanged are alike (`Likeness.ofItems`): a section of a call
on the second one is the section of the call on the first one, with its items exchanged.
-/

set_option autoImplicit false

namespace BoundedQueue

variable {α : Type} (f : α → α)

/-! ## Where items are -/

/-- Exchanges the items that the hook was shown. -/
def Hook.map (h : Hook α) : Hook α := ⟨h.shown.map (Entry.map f), h.verdict⟩

/-- Exchanges the items in the ring, in the memory of the hooks, and in what happened so far. -/
def Queue.map (q : Queue α) : Queue α :=
  { q with
    ring := q.ring.map (Entry.map f)
    onEnqueue := q.onEnqueue.map (Hook.map f)
    onDequeue := q.onDequeue.map (Hook.map f)
    history := q.history.map (Note.map f) }

/-- The hooks are shown the entries with their items exchanged. -/
theorem Queue.shownIn_map (history : List (Note α)) :
    Queue.shownIn (history.map (Note.map f)) =
      (Queue.shownIn history).map (Prod.map id (Entry.map f)) := by
  rw [shownIn, shownIn, List.filterMap_map, List.map_filterMap]
  refine List.filterMap_congr fun n _ => ?_
  cases n <;> rfl

/-! ## Blind hooks -/

/-- The hook decides the same when items are exchanged, in what it is shown and in what it was shown
before. -/
def Hook.Blind (h : Hook α) : Prop :=
  ∀ shown entry, h.verdict (shown.map (Entry.map f)) (entry.map f) = h.verdict shown entry

variable {f}

/-- A hook that was shown nothing has no item to exchange. -/
theorem Hook.map_of_new {h : Hook α} (hnew : h.shown = []) : h.map f = h := by
  rw [map, hnew]
  exact congrArg (Hook.mk · _) hnew.symm

theorem Hook.Blind.judge_map {h : Hook α} (hh : h.Blind f) (entry : Entry α) :
    (h.map f).judge (entry.map f) = h.judge entry := hh h.shown entry

namespace Queue

variable (f) in
/-- No hook of the queue sees a difference. -/
def Blind (q : Queue α) : Prop := ∀ stage h, q.hook? stage = some h → h.Blind f

variable {q : Queue α}

@[simp] theorem hook?_map (q : Queue α) (stage : Stage) :
    (q.map f).hook? stage = (q.hook? stage).map (Hook.map f) := by
  cases stage <;> rfl

theorem setSemaphore_map (q : Queue α) (side : Side) (s : Semaphore) :
    (q.map f).setSemaphore side s = (q.setSemaphore side s).map f := by
  cases side <;> rfl

theorem setHook_map (q : Queue α) (stage : Stage) (h : Hook α) :
    (q.map f).setHook stage (h.map f) = (q.setHook stage h).map f := by
  cases stage <;> rfl

theorem poison_map (q : Queue α) (l : Lock) : (q.map f).poison l = (q.poison l).map f := by
  cases l <;> rfl

theorem Blind.setSemaphore (hq : q.Blind f) (side : Side) (s : Semaphore) :
    (q.setSemaphore side s).Blind f := by
  cases side <;> exact hq

theorem Blind.poison (hq : q.Blind f) (l : Lock) : (q.poison l).Blind f := by
  cases l <;> exact hq

theorem Blind.setHook (hq : q.Blind f) (stage : Stage) {h : Hook α} (hh : h.Blind f) :
    (q.setHook stage h).Blind f := by
  intro stage' h' heq
  cases stage <;> cases stage'
  · cases heq; exact hh
  · exact hq .dequeue h' heq
  · exact hq .enqueue h' heq
  · cases heq; exact hh

/-- There is no item in a fresh queue whose hooks are new. -/
theorem map_fresh_of_new (capacity : Nat) {onEnqueue onDequeue : Option (Hook α)} (log : Logbook)
    (hnew : ∀ h, onEnqueue = some h ∨ onDequeue = some h → h.shown = []) :
    (fresh capacity onEnqueue onDequeue log).map f = fresh capacity onEnqueue onDequeue log := by
  have hmap {hook? : Option (Hook α)} (hnew : ∀ h, hook? = some h → h.shown = []) :
      hook?.map (Hook.map f) = hook? := by
    cases hook? with
    | none => rfl
    | some h => exact congrArg some (Hook.map_of_new (hnew h rfl))
  simp only [fresh, map, Ring.empty_map, hmap fun h he => hnew h (.inl he),
    hmap fun h he => hnew h (.inr he), List.map_nil]

/-- A blind hook is consulted with the same result. -/
theorem Blind.consult_map (hq : q.Blind f) (stage : Stage) (entry : Entry α) :
    (q.map f).consult stage (entry.map f) =
        ((q.consult stage entry).1, (q.consult stage entry).2.map f) ∧
      (q.consult stage entry).2.Blind f := by
  rw [consult, hook?_map, consult]
  cases hh : q.hook? stage with
  | none => exact ⟨rfl, hq⟩
  | some h =>
    have hblind := hq stage h hh
    refine ⟨Prod.ext (hblind.judge_map entry) ?_, hq.setHook stage hblind⟩
    show ((q.map f).setHook stage ((h.remember entry).map f)).note
      (.consulted stage (entry.map f) ((h.map f).judge (entry.map f))) = _
    rw [hblind.judge_map, setHook_map]
    rfl

end Queue

/-- Exchanging items is a likeness, as long as the hooks are blind.  A hook that was shown no item
is installed as it is. -/
def Likeness.ofItems (f : α → α) : Likeness f where
  Like q q' := q' = q.map f ∧ q.Blind f
  Sound _ := True
  Fit h := h.shown = [] ∧ h.Blind f
  hook h := h
  resembles := by
    rintro q _ ⟨rfl, -⟩
    exact ⟨rfl, rfl, rfl, rfl, rfl, rfl, rfl, fun _ => rfl⟩
  record := by
    rintro q _ ⟨rfl, hq⟩ r
    exact ⟨rfl, hq⟩
  trap := by
    rintro q _ ⟨rfl, hq⟩ opening
    exact ⟨rfl, hq⟩
  note := by
    rintro q _ ⟨rfl, hq⟩ n
    exact ⟨rfl, hq⟩
  poison := by
    rintro q _ ⟨rfl, hq⟩ l
    exact ⟨q.poison_map l, hq.poison l⟩
  semaphore := by
    rintro q _ ⟨rfl, hq⟩ side s
    exact ⟨q.setSemaphore_map side s, hq.setSemaphore side s⟩
  producers := by
    rintro q _ ⟨rfl, hq⟩ n
    exact ⟨rfl, hq⟩
  ring := by
    rintro q _ ⟨rfl, hq⟩ r
    exact ⟨rfl, hq⟩
  install := by
    rintro q _ ⟨rfl, hq⟩ stage h ⟨hnew, hh⟩
    refine ⟨?_, hq.setHook stage hh⟩
    exact (congrArg _ (Hook.map_of_new hnew).symm).trans (q.setHook_map stage h)
  consult := by
    rintro q _ ⟨rfl, hq⟩ stage entry -
    obtain ⟨hconsult, hblind⟩ := hq.consult_map stage entry
    rw [hconsult]
    exact ⟨⟨rfl, hblind⟩, rfl⟩
  sound_of_append _ _ _ := trivial

end BoundedQueue

import BoundedQueue.Proofs.Session.Poison

/-!
# The handles of a session

Handles come and go while tasks are inside operations on others, and a name can be given to one
handle after another.  What an operation does to the handles it does in two places: before its call
(`Operation.claim`), and when the call is over (`Purpose.release`).

* The first part is about the table of handles: what is found under a name after something was put
  under it or taken away, and which names are taken (`names`) and are those of guards (`guards`).
* `Handles.Aside` lists what can become of the handles in an operation that makes no call.
* `Handles.Held` says that every handle that somebody holds is there and busy, of the kind it was,
  and held by nobody else.  There is one lemma for everything that can be done to the table while
  others hold handles: `Held.claim`, `Held.release`, `Held.aside`.
* `World.Held` is what makes sense of the release: the handle that a call has claimed is still what
  it was when the call is over.  It holds in every world of every run (`held_after`), whatever fails
  or panics.
-/

set_option autoImplicit false

namespace BoundedQueue

variable {α : Type}

/-! ## Looking up what was put in -/

namespace Handles

theorem get?_set (hs : Handles) (name wanted : String) (h : Handle) :
    (hs.set name h).get? wanted = if name = wanted then some h else hs.get? wanted := by
  induction hs with
  | nil => rfl
  | cons entry hs ih =>
    obtain ⟨first, old⟩ := entry
    by_cases heq : first = name
    · subst heq
      simp only [set, get?, if_true]
      split <;> rfl
    · simp only [set, get?, if_neg heq, ih]
      split
      · next hf => rw [if_neg fun hn => heq (hf.trans hn.symm)]
      · rfl

theorem get?_erase (hs : Handles) (name wanted : String) :
    (hs.erase name).get? wanted = if name = wanted then none else hs.get? wanted := by
  induction hs with
  | nil => simp [erase, get?]
  | cons entry hs ih =>
    obtain ⟨first, old⟩ := entry
    rw [erase] at ih ⊢
    by_cases heq : first = name
    · rw [List.filter_cons_of_neg (by simp [heq]), ih, get?, heq]
      split <;> rfl
    · simp only [List.filter_cons, bne_iff_ne, ne_eq, heq, not_false_eq_true, if_true, get?, ih]
      split
      · next hf => rw [if_neg fun hn => heq (hf.trans hn.symm)]
      · rfl

/-- A handle under a new name goes to the end. -/
theorem set_of_none {hs : Handles} {name : String} (h : hs.get? name = none) (x : Handle) :
    hs.set name x = hs ++ [(name, x)] := by
  induction hs with
  | nil => rfl
  | cons entry hs ih =>
    obtain ⟨first, old⟩ := entry
    rw [get?] at h
    split at h
    · cases h
    · next hne => rw [set, if_neg hne, ih h, List.cons_append]

/-- The names that are taken. -/
def names (hs : Handles) : List String := hs.map Prod.fst

theorem mem_names {hs : Handles} {name : String} : name ∈ hs.names ↔ hs.get? name ≠ none := by
  induction hs with
  | nil => simp [names, get?]
  | cons entry hs ih =>
    obtain ⟨first, old⟩ := entry
    rw [names, List.map_cons, List.mem_cons, get?]
    by_cases heq : first = name
    · simp [heq]
    · rw [if_neg heq, ← ih, or_iff_right fun h => heq h.symm, names]

theorem names_set_of_some {hs : Handles} {name : String} (h : hs.get? name ≠ none) (x : Handle) :
    (hs.set name x).names = hs.names := by
  induction hs with
  | nil => exact absurd rfl h
  | cons entry hs ih =>
    obtain ⟨first, old⟩ := entry
    rw [get?] at h
    rw [set]
    split
    · rfl
    · next hne => rw [if_neg hne] at h; exact congrArg (first :: ·) (ih h)

theorem nodup_names_set {hs : Handles} (h : hs.names.Nodup) (name : String) (x : Handle) :
    (hs.set name x).names.Nodup := by
  by_cases hnone : hs.get? name = none
  · have hnew : name ∉ hs.names := fun hm => mem_names.1 hm hnone
    rw [set_of_none hnone, names, List.map_append, List.nodup_append]
    refine ⟨h, List.nodup_singleton _, ?_⟩
    rintro a ha b hb rfl
    obtain rfl : a = name := List.mem_singleton.1 hb
    exact hnew ha
  · rwa [names_set_of_some hnone]

theorem nodup_names_erase {hs : Handles} (h : hs.names.Nodup) (name : String) :
    (hs.erase name).names.Nodup :=
  h.sublist (List.Sublist.map _ List.filter_sublist)

/-! ## Guards -/

/-- The names of the guards. -/
def guards (hs : Handles) : List String :=
  hs.filterMap fun entry => if entry.2.kind = .guard then some entry.1 else none

theorem guards_sublist (hs : Handles) : hs.guards.Sublist hs.names := by
  induction hs with
  | nil => exact .slnil
  | cons entry hs ih =>
    rw [guards, names, List.filterMap_cons, List.map_cons]
    split
    · exact ih.cons _
    · next hsome =>
      split at hsome
      · cases hsome; exact ih.cons_cons _
      · cases hsome

/-- A name is that of a guard if a guard is found under it. -/
theorem mem_guards {hs : Handles} (h : hs.names.Nodup) {name : String} :
    name ∈ hs.guards ↔ ∃ busy, hs.get? name = some ⟨.guard, busy⟩ := by
  induction hs with
  | nil => simp [guards, get?]
  | cons entry hs ih =>
    obtain ⟨first, kind, busy⟩ := entry
    obtain ⟨hfirst, hrest⟩ := List.nodup_cons.1 h
    have hnot : first ∉ guards hs := fun hm => hfirst ((guards_sublist hs).subset hm)
    rw [guards, List.filterMap_cons, get?]
    by_cases heq : first = name
    · subst heq
      cases kind with
      | guard => simp
      | iterator => simpa [guards] using hnot
    · rw [if_neg heq, ← ih hrest]
      cases kind with
      | guard => simp [Ne.symm heq, guards]
      | iterator => simp [guards]

/-- A new guard is the last one; any other new handle is none. -/
theorem guards_set_of_none {hs : Handles} {name : String} (h : hs.get? name = none) (x : Handle) :
    (hs.set name x).guards = hs.guards ++ if x.kind = .guard then [name] else [] := by
  rw [set_of_none h, guards, List.filterMap_append]
  congr 1
  split
  · next hk => simp [hk]
  · next hk => simp [hk]

/-- A handle that stays of the kind it is makes no difference to the guards. -/
theorem guards_set_of_some {hs : Handles} {name : String} {old x : Handle}
    (h : hs.get? name = some old) (hk : old.kind = .guard ↔ x.kind = .guard) :
    (hs.set name x).guards = hs.guards := by
  induction hs with
  | nil => cases h
  | cons entry hs ih =>
    obtain ⟨first, y⟩ := entry
    rw [get?] at h
    rw [set]
    split at h
    · next heq =>
      cases h
      rw [if_pos heq, guards, guards, List.filterMap_cons, List.filterMap_cons]
      simp only [hk]
    · next hne =>
      rw [if_neg hne, guards, guards, List.filterMap_cons, List.filterMap_cons]
      rw [guards, guards] at ih
      rw [ih h]

theorem guards_erase {hs : Handles} (h : hs.names.Nodup) (name : String) :
    (hs.erase name).guards = hs.guards.erase name := by
  rw [(h.sublist hs.guards_sublist).erase_eq_filter, guards, guards, erase,
    List.filterMap_filter, List.filter_filterMap]
  congr 1
  funext entry
  by_cases hk : entry.2.kind = .guard <;> by_cases hn : entry.1 = name <;>
    simp [hk, hn, Option.filter]

end Handles

/-! ## What an operation does to the handles -/

/-- What a purpose makes of the handles when the call is over that was made for it. -/
def Purpose.release (handles : Handles) : Purpose α → Outcome α → Handles
  | .producer handle, .done | .send handle, _ => handles.set handle ⟨.guard, false⟩
  | .next handle, .item _ | .next handle, .panicked _ =>
    handles.set handle ⟨.iterator false, false⟩
  | .next handle, _ => handles.set handle ⟨.iterator true, false⟩
  | _, _ => handles

/-- The handle that a call made for a purpose keeps busy, and its kind. -/
def Purpose.holds? : Purpose α → Option (String × HandleKind)
  | .send handle => some (handle, .guard)
  | .next handle => some (handle, .iterator false)
  | _ => none

/-- What can become of the handles in an operation that makes no call. -/
inductive Handles.Aside (handles : Handles) : Handles → Prop where
  | same : handles.Aside handles
  | made {name : String} (h : handles.get? name = none) :
      handles.Aside (handles.set name ⟨.iterator false, false⟩)
  | dropped {name : String} {ended : Bool}
      (h : handles.get? name = some ⟨.iterator ended, false⟩) :
      handles.Aside (handles.erase name)

namespace Session

variable {s : Session α} {alone : Bool} {op : Operation α} {purpose : Purpose α} {c : Call α}

theorem conclude_handles (s : Session α) (o : Outcome α) (purpose : Purpose α) :
    (s.conclude o purpose).1.handles = purpose.release s.handles o := by
  cases purpose with
  | plain | attempt | send => rfl
  | producer | drop | next => cases o <;> rfl
  | gather left got =>
    cases o with
    | item b =>
      cases left with
      | none => rfl
      | some n =>
        rw [conclude, concludeGather]
        split <;> rfl
    | done | drained | full | failed | panicked => rfl

theorem Skips.aside {s' : Session α} {a : Answer α} (h : s.Skips op s' a) :
    s.handles.Aside s'.handles := by
  cases h with
  | iter hnone => exact .made hnone
  | drop hsome => exact .dropped hsome
  | _ => exact .same

/-- A guard is made under a new name, and only with a registration. -/
theorem Opens.producer_new (h : s.Opens alone op purpose c) {name : String}
    (hp : purpose = .producer name) :
    s.handles.get? name = none ∧ op.claim s.handles = s.handles := by
  cases h with
  | producer hnone => cases hp; exact ⟨hnone, rfl⟩
  | _ => cases hp

end Session

/-! ## Handles in use -/

/-- Every handle that somebody holds is there, of the kind it was and busy, and held by nobody
else. -/
structure Handles.Held (handles : Handles) (holds : Int → Option (String × HandleKind)) :
    Prop where
  nodup : handles.names.Nodup
  busy : ∀ t name kind, holds t = some (name, kind) → handles.get? name = some ⟨kind, true⟩
  alone : ∀ t u name kind kind', holds t = some (name, kind) → holds u = some (name, kind') → t = u

namespace Handles.Held

variable {handles : Handles} {holds : Int → Option (String × HandleKind)} {t : Int} {name : String}
  {kind : HandleKind}

theorem update_none (h : handles.Held holds) (t : Int) :
    handles.Held (Function.update holds t none) where
  nodup := h.nodup
  busy u name kind hu := by
    rw [Function.update_apply] at hu
    split at hu
    · cases hu
    · exact h.busy u name kind hu
  alone u v name kind kind' hu hv := by
    rw [Function.update_apply] at hu hv
    split at hu
    · cases hu
    · split at hv
      · cases hv
      · exact h.alone u v name kind kind' hu hv

/-- A handle that is not busy is held by nobody. -/
theorem free (h : handles.Held holds) (hn : ∀ kind, handles.get? name ≠ some ⟨kind, true⟩) (t : Int)
    (kind : HandleKind) : holds t ≠ some (name, kind) :=
  fun ht => hn kind (h.busy t name kind ht)

theorem set (h : handles.Held holds) (hn : ∀ t kind, holds t ≠ some (name, kind)) (x : Handle) :
    (handles.set name x).Held holds where
  nodup := nodup_names_set h.nodup name x
  busy t other kind ht := by
    rw [get?_set, if_neg (by rintro rfl; exact hn t kind ht)]
    exact h.busy t other kind ht
  alone := h.alone

theorem erase (h : handles.Held holds) (hn : ∀ t kind, holds t ≠ some (name, kind)) :
    (handles.erase name).Held holds where
  nodup := nodup_names_erase h.nodup name
  busy t other kind ht := by
    rw [get?_erase, if_neg (by rintro rfl; exact hn t kind ht)]
    exact h.busy t other kind ht
  alone := h.alone

/-- Who takes a handle that nobody holds is the only one to hold it. -/
theorem take (h : handles.Held holds) (hn : ∀ t kind, holds t ≠ some (name, kind)) (t : Int)
    (kind : HandleKind) :
    (handles.set name ⟨kind, true⟩).Held (Function.update holds t (some (name, kind))) where
  nodup := nodup_names_set h.nodup name _
  busy u other kind' hu := by
    rw [Function.update_apply] at hu
    rw [get?_set]
    split at hu
    · cases hu; rw [if_pos rfl]
    · rw [if_neg (by rintro rfl; exact hn u kind' hu)]
      exact h.busy u other kind' hu
  alone u v other k k' hu hv := by
    rw [Function.update_apply] at hu hv
    split at hu <;> split at hv
    · next hut hvt => rw [hut, hvt]
    · cases hu; exact absurd hv (hn v k')
    · cases hv; exact absurd hu (hn u k)
    · exact h.alone u v other k k' hu hv

/-- A handle that is given back may be changed. -/
theorem giveBack (h : handles.Held holds) (ht : holds t = some (name, kind)) (x : Handle) :
    (handles.set name x).Held (Function.update holds t none) := by
  refine (h.update_none t).set (fun u kind' hu => ?_) x
  rw [Function.update_apply] at hu
  split at hu
  · cases hu
  · next hne => exact hne (h.alone u t name kind' kind hu ht)

/-- An operation holds what it claims. -/
theorem claim {s : Session α} {alone : Bool} {op : Operation α} {purpose : Purpose α} {c : Call α}
    (h : s.handles.Held holds) (ho : s.Opens alone op purpose c) (ht : holds t = none) :
    (op.claim s.handles).Held (Function.update holds t purpose.holds?) := by
  have hsame (hp : purpose.holds? = none) : Function.update holds t purpose.holds? = holds := by
    rw [hp, ← ht, Function.update_eq_self]
  have hfree {name : String} {kind : HandleKind} (hg : s.handles.get? name = some ⟨kind, false⟩) :
      ∀ u kind', holds u ≠ some (name, kind') :=
    h.free (by rw [hg]; exact fun _ => nofun)
  cases ho with
  | send _ hg | next hg => exact h.take (hfree hg) t _
  | finish hg | drop hg => rw [hsame rfl]; exact h.erase (hfree hg)
  | _ => rw [hsame rfl]; exact h

/-- A call that is over gives back what it held. -/
theorem release {purpose : Purpose α} (h : handles.Held holds) (ht : holds t = purpose.holds?)
    (hnew : ∀ name, purpose = .producer name → handles.get? name = none) (o : Outcome α) :
    (purpose.release handles o).Held (Function.update holds t none) := by
  cases purpose with
  | plain | attempt | drop | gather => exact h.update_none t
  | send name => exact h.giveBack ht _
  | next name => cases o <;> exact h.giveBack ht _
  | producer name =>
    have hfree : ∀ u kind, holds u ≠ some (name, kind) :=
      h.free (by rw [hnew name rfl]; exact fun _ => nofun)
    cases o with
    | done =>
      rw [← ht.trans (show (Purpose.producer name : Purpose α).holds? = none from rfl),
        Function.update_eq_self]
      exact h.set hfree _
    | item | drained | full | failed | panicked => exact h.update_none t

theorem aside {handles' : Handles} (h : handles.Held holds) (ha : handles.Aside handles') :
    handles'.Held holds := by
  cases ha with
  | same => exact h
  | made hn => exact h.set (h.free (by rw [hn]; exact fun _ => nofun)) _
  | dropped hn => exact h.erase (h.free (by rw [hn]; exact fun _ => nofun))

end Handles.Held

/-! ## Handles in a run -/

/-- The handle that a task keeps busy, and its kind. -/
def Task.holds? (task : Task (Operation α) (Job α)) : Option (String × HandleKind) :=
  match task.standing with
  | .inside _ job => job.purpose.holds?
  | _ => none

theorem Task.holds?_of_outside {task : Task (Operation α) (Job α)} (h : task.isInside = false) :
    task.holds? = none := by
  obtain ⟨standing, todo⟩ := task
  cases standing with
  | inside => cases h
  | idle | paused => rfl

/-- What a section makes of the handles, which is nothing if the call goes on. -/
def Engagement.release (e : Engagement α) (handles : Handles) :
    Move (Phase α) Side (Outcome α) → Handles
  | .finish o => e.purpose.release handles o
  | _ => handles

namespace World

variable {w : Traffic α} {t : Int} {e : Engagement α}

theorem handles_advance (he : w.engagement? t = some e) :
    (w.advance Session.machine t).1.shared.handles =
      e.release (e.claim w.shared.handles) (w.shared.queue.sectionAt e.spot).2 := by
  rw [advance_eq_of_engagement he, settleMove_shared]
  obtain ⟨q, move⟩ := w.shared.queue.sectionAt e.spot
  cases move with
  | go | wait | signal => rfl
  | finish o => exact Session.conclude_handles _ _ _

theorem aside_advance (he : w.engagement? t = none) :
    w.shared.handles.Aside (w.advance Session.machine t).1.shared.handles := by
  have hsteps := sidesteps he
  generalize w.advance Session.machine t = step at hsteps
  cases hsteps with
  | skips _ hskips => exact hskips.aside
  | rests | yields | goesOn | misreads => exact .same

/-- What holds of the handles of every run. -/
def Held (w : Traffic α) : Prop := w.shared.handles.Held fun t => (w.tasks.get t).holds?

theorem Quiet.holds_eq {w' : Traffic α} (h : Quiet w w') :
    (fun u => (w'.tasks.get u).holds?) = fun u => (w.tasks.get u).holds? := by
  funext u
  rcases h.get_cases u with hu | ⟨hout, hout'⟩
  · rw [hu]
  · rw [Task.holds?_of_outside hout, Task.holds?_of_outside hout']

/-- A task that is to make a guard has not begun to. -/
theorem Jobs.new_of_producer (hw : w.Jobs) (he : w.engagement? t = some e) {name : String}
    (hp : e.purpose = .producer name) : (e.claim w.shared.handles).get? name = none := by
  cases engaged he with
  | inside ht =>
    obtain ⟨⟨c, hc, hreach⟩, hserves⟩ := hw.reaches he
    obtain rfl := hserves.producer_iff.2 hp
    cases hc
    exact hreach.elim
  | opens ht ho =>
    obtain ⟨hnone, hclaim⟩ := (Session.opens_of_opening ho).1.producer_new hp
    rw [Engagement.claim, hclaim, hnone]

/-- Before its section, a task holds what its call is made for. -/
theorem Held.claim (h : w.Held) (he : w.engagement? t = some e) :
    (e.claim w.shared.handles).Held
      (Function.update (fun u => (w.tasks.get u).holds?) t e.purpose.holds?) := by
  cases engaged he with
  | @inside op job todo ht =>
    have hsame : (w.tasks.get t).holds? = job.purpose.holds? := by rw [ht]; rfl
    rw [← hsame, Function.update_eq_self (f := fun u => (w.tasks.get u).holds?)]
    exact h
  | opens ht ho => exact Handles.Held.claim h (Session.opens_of_opening ho).1 (by rw [ht]; rfl)

theorem Held.advance (h : w.Held) (hw : w.Regular) (t : Int) :
    (w.advance Session.machine t).1.Held := by
  rcases he : w.engagement? t with - | e
  · rw [Held, (quiet_advance he).1.holds_eq]
    exact Handles.Held.aside h (aside_advance he)
  · rcases hsec : w.shared.queue.sectionAt e.spot with ⟨q', move⟩
    obtain ⟨⟨-, -, -, x, new, hx, ht, -⟩, -⟩ := stride_advance he hsec
    have hclaimed := h.claim he
    have hholds : (fun u => ((w.advance Session.machine t).1.tasks.get u).holds?) =
        Function.update (Function.update (fun u => (w.tasks.get u).holds?) t e.purpose.holds?) t
          x.holds? := by
      funext u
      rw [ht, Roster.get_set, Function.update_apply, Function.update_apply]
      split <;> rfl
    rw [Held, hholds, handles_advance he, hsec]
    cases hx with
    | stay hp =>
      cases move with
      | go | wait | signal =>
        rw [Function.update_idem]
        exact hclaimed
      | finish => simp [Move.phases] at hp
    | finish =>
      exact hclaimed.release (Function.update_self _ _ _) (fun _ => hw.jobs.new_of_producer he) _
    | again hp =>
      rw [Engagement.release, hp]
      rw [hp] at hclaimed
      exact hclaimed.update_none t

/-- **Every handle that a call has claimed stays what it is until the call is over.** -/
theorem held_after {capacity : Nat} (onEnqueue onDequeue : Option (Hook α)) (log : Logbook)
    (hpos : 0 < capacity) (hmax : capacity ≤ Semaphore.maxPermits)
    (hs : List (Happening (Operation α))) :
    ((Traffic.fresh capacity onEnqueue onDequeue log).after Session.machine hs).Held := by
  induction hs with
  | nil => exact ⟨List.nodup_nil, nofun, nofun⟩
  | cons x hs ih =>
    rw [after_cons]
    cases x with
    | advance t => exact ih.advance (regular_after onEnqueue onDequeue log hpos hmax hs) t
    | handOut a =>
      rw [World.happen, Held, (quiet_handOut _ a).holds_eq, handOut_shared]
      exact ih

end World

end BoundedQueue

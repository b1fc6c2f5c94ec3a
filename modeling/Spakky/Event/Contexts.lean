import Spakky.Container.Capture
import Spakky.Event.Snapshots

/-!
Transactional calls of several contexts at once. The collector is declared to
be one for each context, but the repositories and the aspect that hold it are
singletons: all calls save into the collector these were given at start-up
(`Container.collector_captured`), publish what it has, and empty it.

A run is any interleaving of the moves of the calls; one that is possible at
the suspension points of publisher and database is one of them.
-/

namespace Spakky.Event

open Machine List Function Position

/-- Where the call of a context is. -/
inductive Phase (α β : Type) where
  | idle
  | running
  | publishing (position : Position α β)

/-- The calls of all contexts and what they share. The other fields are not read
by the code: the aggregates the current call of a context has saved, all events
that were on an aggregate at the return of its method or were added since, and
what it has published. -/
structure Calls (κ α β : Type) where
  store : Store α β
  phase : κ → Phase α β
  saved : κ → List α
  raised : κ → α → List β
  published : κ → List (α × β)

/-- A call begins, its method or a handler acts, its method returns, the
publishing goes on, or the method, a handler or the publisher raises. -/
inductive Move (α β : Type) where
  | enter
  | act (action : Action α β)
  | returns
  | advance
  | raises

namespace Calls

section Model

variable {κ α β : Type}

/-- No call is running and nothing is collected. -/
def initial (events : α → List β) : Calls κ α β where
  store := { events := events, collected := [] }
  phase _ := .idle
  saved _ := []
  raised _ := events
  published _ := []

variable [DecidableEq κ]

def enters (calls : Calls κ α β) (context : κ) : Calls κ α β :=
  { calls with phase := update calls.phase context .running }

/-- `for aggregate in self._collector.all()` -/
def methodReturns (calls : Calls κ α β) (context : κ) : Calls κ α β :=
  { calls with
    phase := update calls.phase context (.publishing ⟨none, calls.store.collected⟩)
    raised := update calls.raised context calls.store.events
    published := update calls.published context [] }

/-- The `after` advice empties the collector, whether the call returns or
raises. -/
def ends (calls : Calls κ α β) (context : κ) : Calls κ α β :=
  { calls with
    store := calls.store.clear
    phase := update calls.phase context .idle
    saved := update calls.saved context [] }

variable [DecidableEq α]

def adds (calls : Calls κ α β) (aggregate : α) (event : β) : Calls κ α β :=
  { calls with
    store := calls.store.act (.add aggregate event)
    raised := fun context => update (calls.raised context) aggregate
      (calls.raised context aggregate ++ [event]) }

def saves (calls : Calls κ α β) (context : κ) (aggregate : α) : Calls κ α β :=
  { calls with
    store := calls.store.act (.save aggregate)
    saved := update calls.saved context (calls.saved context ++ [aggregate]) }

def acts (calls : Calls κ α β) (context : κ) : Action α β → Calls κ α β
  | .add aggregate event => calls.adds aggregate event
  | .save aggregate => calls.saves context aggregate

def advances (calls : Calls κ α β) (context : κ) (position : Position α β) : Calls κ α β :=
  { calls with
    store := (position.next calls.store).2.1
    phase := update calls.phase context
      (.publishing (position.next calls.store).1)
    published := update calls.published context
      (calls.published context ++ (position.next calls.store).2.2.toList) }

def step (calls : Calls κ α β) : κ × Move α β → Calls κ α β
  | (context, .enter) =>
    match calls.phase context with
    | .idle => calls.enters context
    | _ => calls
  | (context, .act action) =>
    match calls.phase context with
    | .running => calls.acts context action
    -- handlers act while the event of an aggregate is published
    | .publishing ⟨some _, _⟩ => calls.acts context action
    | _ => calls
  | (context, .returns) =>
    match calls.phase context with
    | .running => calls.methodReturns context
    | _ => calls
  | (context, .advance) =>
    match calls.phase context with
    | .publishing ⟨none, []⟩ => calls.ends context
    | .publishing position => calls.advances context position
    | _ => calls
  | (context, .raises) =>
    match calls.phase context with
    | .idle => calls
    | _ => calls.ends context

end Model

section Properties

variable {κ α β : Type} (calls : Calls κ α β) (event : κ × Move α β)

/-- What the application code of the call does, if it can. -/
def acting : Option (Action α β) :=
  match event.2, calls.phase event.1 with
  | .act action, .running => some action
  | .act action, .publishing ⟨some _, _⟩ => some action
  | _, _ => none

/-- The call returns to its caller. -/
def Completes : Prop :=
  event.2 = .advance ∧ calls.phase event.1 = .publishing ⟨none, []⟩

/-- The call returns or raises, and empties the collector. -/
def Ends : Prop :=
  calls.Completes event ∨ event.2 = .raises ∧ calls.phase event.1 ≠ .idle

/-- The call saves, reads what is collected, or ends. -/
def UsesCollector : Prop :=
  (∃ aggregate, calls.acting event = some (.save aggregate)) ∨
    event.2 = .returns ∧ calls.phase event.1 = .running ∨ calls.Ends event

/-- A call uses the collector only while no other running call has saved an
aggregate. While a call publishes, events are added only to those of its
aggregates that wait, and its handlers save only its own aggregates or ones
without events. -/
structure Apart (calls : Calls κ α β) (event : κ × Move α β) : Prop where
  collector : calls.UsesCollector event → ∀ other ≠ event.1, calls.saved other = []
  adds : ∀ aggregate added, calls.acting event = some (.add aggregate added) →
    ∀ context position, calls.phase context = .publishing position →
      aggregate ∈ calls.saved context → position.Waits aggregate
  saves : ∀ aggregate, calls.acting event = some (.save aggregate) →
    ∀ position, calls.phase event.1 = .publishing position →
      aggregate ∉ calls.saved event.1 → calls.store.events aggregate = []

variable [DecidableEq α]

/-- The event that is published by a move. -/
def publishes : Option (α × β) :=
  match event.2, calls.phase event.1 with
  | .advance, .publishing position => (position.next calls.store).2.2
  | _, _ => none

/-- A call publishes events of aggregates it has saved only, all of these once
and in order by the time it returns, and its end takes no aggregate from the
collector that another running call has saved. -/
structure Isolated (calls : Calls κ α β) (event : κ × Move α β) : Prop where
  own : ∀ aggregate published, calls.publishes event = some (aggregate, published) →
    aggregate ∈ calls.saved event.1
  all : calls.Completes event → ∀ aggregate ∈ calls.saved event.1,
    eventsOf (calls.published event.1) aggregate = calls.raised event.1 aggregate
  others : calls.Ends event → ∀ other ≠ event.1, ∀ aggregate ∈ calls.saved other,
    aggregate ∉ calls.store.collected

end Properties

section Serial

variable {κ α β : Type}

/-- Where one call only has saved aggregates, it has saved every one there is. -/
theorem eq_of_mem_saved {saved : κ → List α} {context other : κ} {aggregate : α}
    (hothers : ∀ other ≠ context, saved other = []) (hmem : aggregate ∈ saved other) :
    other = context := by
  by_contra hother
  rw [hothers other hother] at hmem
  cases hmem

variable [DecidableEq α]

/-- Along a run in which calls keep apart: the collector has exactly the
aggregates saved by running calls, only one call has saved any, and the loops of
each call are concerned with its own aggregates. -/
structure Serial (calls : Calls κ α β) : Prop where
  idle : ∀ context, calls.phase context = .idle → calls.saved context = []
  owned : ∀ aggregate ∈ calls.store.collected, ∃ context, aggregate ∈ calls.saved context
  kept : ∀ context, ∀ aggregate ∈ calls.saved context, aggregate ∈ calls.store.collected
  alone : ∀ context other, calls.saved context ≠ [] → calls.saved other ≠ [] → context = other
  covered : ∀ context position, calls.phase context = .publishing position →
    ∀ aggregate, position.Covers aggregate → aggregate ∈ calls.saved context
  accounted : ∀ context position, calls.phase context = .publishing position →
    ∀ aggregate ∈ calls.saved context, eventsOf (calls.published context) aggregate ++
      position.pending calls.store aggregate = calls.raised context aggregate
  untouched : ∀ context position, calls.phase context = .publishing position →
    calls.saved context ≠ [] → ∀ aggregate, aggregate ∉ calls.saved context →
      eventsOf (calls.published context) aggregate = [] ∧
        calls.store.events aggregate = calls.raised context aggregate

theorem initial_serial (events : α → List β) : (initial events : Calls κ α β).Serial where
  idle _ _ := rfl
  owned _ hmem := absurd hmem not_mem_nil
  kept _ _ hmem := absurd hmem not_mem_nil
  alone _ _ hsaved _ := absurd rfl hsaved
  covered _ _ hphase := nomatch hphase
  accounted _ _ hphase := nomatch hphase
  untouched _ _ hphase := nomatch hphase

variable {calls : Calls κ α β} {context : κ} {position : Position α β}

section

variable (hser : calls.Serial)
include hser

/-- While one call has saved aggregates the loops of the others are done. -/
theorem Serial.not_covers
    (hphase : calls.phase context = .publishing position) {other : κ} (hother : other ≠ context)
    (hsaved : calls.saved other ≠ []) (aggregate : α) : ¬ position.Covers aggregate := by
  intro hcov
  have hmem := hser.covered context position hphase aggregate hcov
  exact hother (hser.alone other context hsaved (ne_nil_of_mem hmem))

variable {aggregate : α}

theorem Serial.adds (event : β)
    (hwaits : ∀ context position, calls.phase context = .publishing position →
      aggregate ∈ calls.saved context → position.Waits aggregate) :
    (calls.adds aggregate event).Serial where
  idle := hser.idle
  owned := hser.owned
  kept := hser.kept
  alone := hser.alone
  covered := hser.covered
  accounted context position hphase other hsaved := by
    have hbefore := hser.accounted context position hphase other hsaved
    show _ ++ position.pending (calls.store.addEvent aggregate event) other =
      update (calls.raised context) aggregate _ other
    by_cases hother : other = aggregate
    · subst hother
      rw [pending_add_waits (hwaits context position hphase hsaved),
        update_self, ← hbefore, append_assoc]
      rfl
    · rw [update_of_ne hother, ← hbefore]
      exact congrArg (_ ++ ·) (pending_congr (update_of_ne hother _ _))
  untouched context position hphase hsaved other hmem := by
    obtain ⟨hpub, hevs⟩ := hser.untouched context position hphase hsaved other hmem
    refine ⟨hpub, ?_⟩
    show update calls.store.events aggregate _ other =
      update (calls.raised context) aggregate _ other
    by_cases hother : other = aggregate
    · subst hother
      rw [update_self, update_self, hevs]
    · rw [update_of_ne hother, update_of_ne hother, hevs]

/-- An aggregate that a handler saves has nothing to be published. -/
theorem Serial.accounted_saves
    (hphase : calls.phase context = .publishing position) (hsome : calls.saved context ≠ [])
    (hfree : aggregate ∉ calls.saved context → calls.store.events aggregate = []) :
    eventsOf (calls.published context) aggregate ++ position.pending calls.store aggregate =
      calls.raised context aggregate := by
  by_cases hsaved : aggregate ∈ calls.saved context
  · exact hser.accounted context position hphase aggregate hsaved
  · obtain ⟨hpub, hevs⟩ := hser.untouched context position hphase hsome aggregate hsaved
    have hcov := fun h => hsaved (hser.covered context position hphase aggregate h)
    rw [pending_eq_waiting fun h => hcov (.inl h),
      waiting_of_not_mem fun h => hcov (.inr h), hpub, ← hevs, hfree hsaved]
    rfl

variable [DecidableEq κ]

theorem Serial.enters : (calls.enters context).Serial where
  idle other hphase := hser.idle other (update_other hphase nofun).2
  owned := hser.owned
  kept := hser.kept
  alone := hser.alone
  covered other position hphase := hser.covered other position (update_other hphase nofun).2
  accounted other position hphase := hser.accounted other position (update_other hphase nofun).2
  untouched other position hphase := hser.untouched other position (update_other hphase nofun).2

/-- A call that ends leaves nothing behind if no other one has saved. -/
theorem Serial.ends (hothers : ∀ other ≠ context, calls.saved other = []) :
    (calls.ends context).Serial := by
  have hsaved : ∀ other, (calls.ends context).saved other = [] := update_all hothers
  refine ⟨fun other _ => hsaved other, fun _ hmem => absurd hmem not_mem_nil, ?_, ?_, ?_, ?_, ?_⟩
  · intro other aggregate hmem
    rw [hsaved] at hmem
    exact absurd hmem not_mem_nil
  · intro other _ hsome
    exact absurd (hsaved other) hsome
  · intro other position hphase aggregate hcov
    obtain ⟨hother, hphase⟩ := update_other hphase nofun
    have hmem := hser.covered other position hphase aggregate hcov
    exact absurd (eq_of_mem_saved hothers hmem) hother
  · intro other _ _ aggregate hmem
    rw [hsaved] at hmem
    exact absurd hmem not_mem_nil
  · intro other _ _ hsome
    exact absurd (hsaved other) hsome

/-- A method returns while the collector has the aggregates of its call only. -/
theorem Serial.methodReturns (hothers : ∀ other ≠ context, calls.saved other = []) :
    (calls.methodReturns context).Serial where
  idle other hphase := hser.idle other (update_other hphase nofun).2
  owned := hser.owned
  kept := hser.kept
  alone := hser.alone
  covered other position hphase aggregate hcov := by
    rcases update_cases hphase with ⟨rfl, hnew⟩ | ⟨_, hphase⟩
    · cases hnew
      rcases hcov with ⟨_, hturn⟩ | hmem
      · cases hturn
      · obtain ⟨owner, howned⟩ := hser.owned aggregate hmem
        rwa [eq_of_mem_saved hothers howned] at howned
    · exact hser.covered other position hphase aggregate hcov
  accounted other position hphase aggregate hsaved := by
    rcases update_cases hphase with ⟨rfl, hnew⟩ | ⟨hother, _⟩
    · cases hnew
      show eventsOf (update calls.published other [] other) aggregate ++
        waiting calls.store.collected calls.store aggregate =
          update calls.raised other calls.store.events other aggregate
      rw [update_self, update_self, waiting_of_mem (hser.kept other aggregate hsaved)]
      rfl
    · exact absurd (eq_of_mem_saved hothers hsaved) hother
  untouched other position hphase hsome aggregate hmem := by
    rcases update_cases hphase with ⟨rfl, _⟩ | ⟨hother, _⟩
    · show eventsOf (update calls.published other [] other) aggregate = [] ∧
        calls.store.events aggregate = update calls.raised other calls.store.events other aggregate
      rw [update_self, update_self]
      exact ⟨rfl, rfl⟩
    · exact absurd (hothers other hother) hsome

omit hser in
theorem mem_saves {other : α} :
    other ∈ (calls.saves context aggregate).saved context ↔
      other ∈ calls.saved context ∨ other = aggregate := by
  show other ∈ update calls.saved context _ context ↔ _
  rw [update_self, mem_append, mem_singleton]

omit hser in
theorem saves_other {other : κ} (hother : other ≠ context) :
    (calls.saves context aggregate).saved other = calls.saved other :=
  update_of_ne hother _ _

theorem Serial.saves (hothers : ∀ other ≠ context, calls.saved other = [])
    (hactive : calls.phase context ≠ .idle)
    (hpublishing : ∀ position, calls.phase context = .publishing position →
      calls.saved context ≠ [] ∧
        (aggregate ∉ calls.saved context → calls.store.events aggregate = [])) :
    (calls.saves context aggregate).Serial := by
  have hnone : ∀ other ≠ context, (calls.saves context aggregate).saved other = [] :=
    update_rest hothers _
  refine ⟨?_, ?_, ?_, ?_, ?_, ?_, ?_⟩
  · intro other hphase
    apply hnone
    rintro rfl
    exact hactive hphase
  · intro found hmem
    refine ⟨context, mem_saves.mpr ?_⟩
    rcases mem_append.mp hmem with hold | hnew
    · obtain ⟨owner, howned⟩ := hser.owned found hold
      rw [eq_of_mem_saved hothers howned] at howned
      exact .inl howned
    · exact .inr (mem_singleton.mp hnew)
  · intro other found hmem
    obtain rfl := eq_of_mem_saved hnone hmem
    apply mem_append.mpr
    rcases mem_saves.mp hmem with hold | hnew
    · exact .inl (hser.kept other found hold)
    · exact .inr (mem_singleton.mpr hnew)
  · intro one other hone hother
    have hsame : one = context := by_contra fun h => hone (hnone one h)
    have hsame' : other = context := by_contra fun h => hother (hnone other h)
    rw [hsame, hsame']
  · intro other position hphase found hcov
    have hmem := hser.covered other position hphase found hcov
    by_cases hother : other = context
    · subst hother
      exact mem_saves.mpr (.inl hmem)
    · rwa [saves_other hother]
  · intro other position hphase found hmem
    obtain rfl := eq_of_mem_saved hnone hmem
    obtain ⟨hsome, hfree⟩ := hpublishing position hphase
    rcases mem_saves.mp hmem with hold | rfl
    · exact hser.accounted other position hphase found hold
    · exact hser.accounted_saves hphase hsome hfree
  · intro other position hphase hsome found hmem
    by_cases hother : other = context
    · subst hother
      apply hser.untouched other position hphase (hpublishing position hphase).1
      exact fun h => hmem (mem_saves.mpr (.inl h))
    · exact absurd (hnone other hother) hsome

/-- The loops of a call go on with its own aggregates, and the other calls have
none. -/
theorem Serial.advances (hphase : calls.phase context = .publishing position) :
    (calls.advances context position).Serial := by
  have hframe : ∀ other ≠ context, calls.saved other ≠ [] → ∀ aggregate,
      (position.next calls.store).2.1.events aggregate = calls.store.events aggregate :=
    fun other hother hsome aggregate =>
      (next_frame (hser.not_covers hphase hother hsome aggregate)).1
  refine ⟨?_, ?_, ?_, hser.alone, ?_, ?_, ?_⟩
  · intro other hidle
    exact hser.idle other (update_other hidle nofun).2
  · intro aggregate hmem
    apply hser.owned
    rwa [← next_collected position calls.store]
  · intro other aggregate hmem
    have hkept := hser.kept other aggregate hmem
    rwa [← next_collected position calls.store] at hkept
  · intro other later hlater aggregate hcov
    rcases update_cases hlater with ⟨rfl, hnew⟩ | ⟨_, hlater⟩
    · cases hnew
      exact hser.covered other position hphase aggregate (covers_of_next hcov)
    · exact hser.covered other later hlater aggregate hcov
  · intro other later hlater aggregate hmem
    rcases update_cases hlater with ⟨rfl, hnew⟩ | ⟨hother, hlater⟩
    · cases hnew
      show eventsOf (update calls.published other _ other) aggregate ++ _ = _
      rw [update_self]
      exact (next_conserves position calls.store _ aggregate).trans
        (hser.accounted other position hphase aggregate hmem)
    · show eventsOf (update calls.published context _ other) aggregate ++
        later.pending (position.next calls.store).2.1 aggregate = _
      rw [update_of_ne hother,
        pending_congr (hframe other hother (ne_nil_of_mem hmem) aggregate)]
      exact hser.accounted other later hlater aggregate hmem
  · intro other later hlater hsome aggregate hmem
    rcases update_cases hlater with ⟨rfl, _⟩ | ⟨hother, hlater⟩
    · have hcov := fun h => hmem (hser.covered other position hphase aggregate h)
      obtain ⟨hpub, hevs⟩ := hser.untouched other position hphase hsome aggregate hmem
      show eventsOf (update calls.published other _ other) aggregate = [] ∧ _
      rw [update_self, next_unpublished hcov]
      exact ⟨hpub, (next_frame hcov).1.trans hevs⟩
    · show eventsOf (update calls.published context _ other) aggregate = [] ∧
        (position.next calls.store).2.1.events aggregate = _
      rw [update_of_ne hother, hframe other hother hsome aggregate]
      exact hser.untouched other later hlater hsome aggregate hmem

end

end Serial

section Runs

variable {κ α β : Type} {calls : Calls κ α β} {context : κ} {action : Action α β}

theorem acting_active (hacting : calls.acting (context, .act action) = some action) :
    calls.phase context ≠ .idle := by
  intro hphase
  simp [acting, hphase] at hacting

variable [DecidableEq α]

/-- Handlers act in the turn of an aggregate, which their call has saved. -/
theorem Serial.saved_of_acting (hser : calls.Serial)
    (hacting : calls.acting (context, .act action) = some action) {position : Position α β}
    (hphase : calls.phase context = .publishing position) : calls.saved context ≠ [] := by
  obtain ⟨turn, _⟩ := position
  match turn with
  | none => simp [acting, hphase] at hacting
  | some (aggregate, queue) =>
    have hmem := hser.covered context _ hphase aggregate (.inl ⟨queue, rfl⟩)
    exact ne_nil_of_mem hmem

variable {event : κ × Move α β}

theorem Serial.isolated (hser : calls.Serial) (hapart : calls.Apart event) :
    calls.Isolated event where
  own aggregate published hpubs := by
    unfold publishes at hpubs
    split at hpubs
    · rename_i position _ hphase
      apply hser.covered event.1 position hphase
      by_contra hcov
      exact (next_frame hcov).2 published hpubs
    · cases hpubs
  all hcompletes aggregate hmem := by
    have hall := hser.accounted event.1 _ hcompletes.2 aggregate hmem
    rwa [pending_none, waiting_of_not_mem not_mem_nil, append_nil] at hall
  others hends other hother aggregate hmem := by
    exact absurd (eq_of_mem_saved (hapart.collector (.inr (.inr hends))) hmem) hother

variable [DecidableEq κ]

theorem Serial.acts (hser : calls.Serial) (hapart : calls.Apart (context, .act action))
    (hacting : calls.acting (context, .act action) = some action) :
    (calls.acts context action).Serial := by
  cases action with
  | add aggregate event => exact hser.adds event (hapart.adds aggregate event hacting)
  | save aggregate =>
    apply hser.saves (hapart.collector (.inl ⟨aggregate, hacting⟩)) (acting_active hacting)
    intro position hphase
    exact ⟨hser.saved_of_acting hacting hphase, hapart.saves aggregate hacting position hphase⟩

theorem step_cases (calls : Calls κ α β) (context : κ) (move : Move α β) :
    calls.step (context, move) = calls ∨
      calls.step (context, move) = calls.enters context ∨
      (∃ action, move = .act action ∧ calls.acting (context, move) = some action ∧
        calls.step (context, move) = calls.acts context action) ∨
      (move = .returns ∧ calls.phase context = .running ∧
        calls.step (context, move) = calls.methodReturns context) ∨
      (∃ position, calls.phase context = .publishing position ∧
        calls.step (context, move) = calls.advances context position) ∨
      (calls.Ends (context, move) ∧ calls.step (context, move) = calls.ends context) := by
  cases move with
  | enter | returns => cases hphase : calls.phase context <;> simp [step, hphase]
  | act =>
    match hphase : calls.phase context with
    | .idle => simp [step, hphase]
    | .running => simp [step, acting, hphase]
    | .publishing ⟨none, _⟩ => simp [step, hphase]
    | .publishing ⟨some _, _⟩ => simp [step, acting, hphase]
  | advance =>
    match hphase : calls.phase context with
    | .idle => simp [step, hphase]
    | .running => simp [step, hphase]
    | .publishing ⟨none, []⟩ => simp [step, Ends, Completes, hphase]
    | .publishing ⟨none, _ :: _⟩ => simp [step, hphase]
    | .publishing ⟨some _, _⟩ => simp [step, hphase]
  | raises => cases hphase : calls.phase context <;> simp [step, Ends, hphase]

theorem step_serial (hser : calls.Serial) (hapart : calls.Apart event) :
    (calls.step event).Serial := by
  obtain ⟨context, move⟩ := event
  rcases step_cases calls context move with hstep | hstep | ⟨_, rfl, hacting, hstep⟩ |
    ⟨rfl, hphase, hstep⟩ | ⟨_, hphase, hstep⟩ | ⟨hends, hstep⟩
  all_goals rw [hstep]
  · exact hser
  · exact hser.enters
  · exact hser.acts hapart hacting
  · exact hser.methodReturns (hapart.collector (.inr (.inl ⟨rfl, hphase⟩)))
  · exact hser.advances hphase
  · exact hser.ends (hapart.collector (.inr (.inr hends)))

/-- Calls that keep apart each publish the events of their own aggregates, and
take nothing from one another. -/
theorem apart_isolated (events : α → List β) {moves : List (κ × Move α β)}
    (hapart : Along step Apart (initial events) moves) :
    Along step Isolated (initial events) moves := by
  refine .imp ?_ ?_ (initial_serial events) hapart
  · intro calls event hserial hmove
    exact step_serial hserial hmove
  · intro calls event hserial hmove
    exact hserial.isolated hmove

end Runs

/-- Every order was placed. -/
def placed (_ : Nat) : List String := ["OrderPlaced"]

/-- The first call has saved its order and waits for the database. The second
one, which saves nothing, returns, publishes the event of that order and empties
the collector; the first call then publishes nothing. -/
def overlapping : List (Bool × Move Nat String) :=
  [(true, .enter), (true, .act (.save 7)), (false, .enter), (false, .returns), (false, .advance),
    (false, .advance), (false, .advance), (false, .advance), (true, .returns), (true, .advance)]

open Container in
/-- The collector of these calls is the one instance that the repository and the
aspect of both contexts hold. -/
theorem other_call_publishes_and_discards :
    (∀ holder ∈ [orderRepository, eventPublishingAspect],
      Captures eventRegistry 5 holder ⟨0, "aggregate_collector", false⟩) ∧
      (run step (initial placed) overlapping).published true = [] ∧
      (run step (initial placed) overlapping).published false = [(7, "OrderPlaced")] ∧
      (run step (initial placed) (overlapping.take 5)).saved true = [7] ∧
      (run step (initial placed) (overlapping.take 5)).saved false = [] ∧
      (run step (initial placed) (overlapping.take 8)).store.collected = [] ∧
      ¬ Along step Isolated (initial placed) overlapping := by
  refine ⟨collector_captured, rfl, rfl, rfl, rfl, rfl, ?_⟩
  intro halong
  obtain ⟨_, _, _, _, _, hisolated, _⟩ := halong
  have hown := hisolated.own 7 "OrderPlaced" rfl
  exact absurd hown not_mem_nil

theorem apart_of_alone {calls : Calls Bool Nat String} {context : Bool} {move : Move Nat String}
    (hother : calls.saved (!context) = [])
    (hadds : ∀ aggregate event, calls.acting (context, move) ≠ some (.add aggregate event))
    (hsaves : ∀ aggregate, calls.acting (context, move) = some (.save aggregate) →
      calls.phase context = .running) : calls.Apart (context, move) where
  collector _ other hne := by
    rwa [Bool.eq_not.mpr hne]
  adds aggregate event hacting := absurd hacting (hadds aggregate event)
  saves aggregate hacting position hphase := by
    rw [hsaves aggregate hacting] at hphase
    cases hphase

theorem enter_apart {calls : Calls Bool Nat String} {context : Bool} :
    calls.Apart (context, .enter) where
  collector huses := by rcases huses with ⟨_, h⟩ | ⟨h, _⟩ | ⟨h, _⟩ | ⟨h, _⟩ <;> cases h
  adds _ _ hacting := by cases hacting
  saves _ hacting := by cases hacting

/-- The second call enters while the first one runs, and saves its own order when
the first one has ended. -/
def takingTurns : List (Bool × Move Nat String) :=
  [(true, .enter), (true, .act (.save 7)), (false, .enter), (true, .returns), (true, .advance),
    (true, .advance), (true, .advance), (true, .advance), (false, .act (.save 8)),
    (false, .returns), (false, .advance), (false, .advance), (false, .advance), (false, .advance)]

theorem apart_isolated_turns :
    Along step Isolated (initial placed) takingTurns ∧
      (run step (initial placed) takingTurns).published true = [(7, "OrderPlaced")] ∧
      (run step (initial placed) takingTurns).published false = [(8, "OrderPlaced")] := by
  refine ⟨apart_isolated placed ?_, rfl, rfl⟩
  refine ⟨enter_apart, apart_of_alone rfl nofun fun _ _ => rfl, enter_apart, ?_, ?_, ?_, ?_, ?_,
    apart_of_alone rfl nofun fun _ _ => rfl, ?_, ?_, ?_, ?_, ?_, trivial⟩
  all_goals exact apart_of_alone rfl nofun nofun

end Calls

end Spakky.Event

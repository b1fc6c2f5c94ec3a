import Spakky.Machine
import Spakky.Event.Publishing

/-!
The loops that publish, one step at a time. Both of them run over copies, of
the collected aggregates and of the events an aggregate has when its turn comes,
and then the lists themselves are cleared. What handlers add in between is
published only if it goes to an aggregate that still waits for a turn.

The steps of the code are read off its log, so that every call of the code is
a run of the machine.
-/

namespace Spakky.Event

open Effect Exec Machine List Function

/-- Where the loops are: the aggregate whose turn it is, with the rest of the
copy of its events, and the rest of the copy of the collected aggregates. -/
structure Position (α β : Type) where
  turn : Option (α × List β)
  remaining : List α
  deriving DecidableEq

/-- The loops go on, or a handler acts. -/
inductive LoopStep (α β : Type) where
  | advance
  | act (action : Action α β)

/-- A call whose method has returned. `raised` has all events that were on an
aggregate at that time, or were added since. -/
structure Loop (α β : Type) where
  store : Store α β
  position : Position α β
  published : List (α × β)
  raised : α → List β

section Model

variable {α β : Type} [DecidableEq α]

/-- The events of one aggregate among those of all of them. -/
def eventsOf (entries : List (α × β)) (aggregate : α) : List β :=
  entries.filterMap fun entry => if entry.1 = aggregate then some entry.2 else none

namespace Position

variable (position : Position α β) (store : Store α β) (aggregate : α)

def next : Position α β × Store α β × Option (α × β) :=
  match position.turn, position.remaining with
  | some (aggregate, event :: queue), remaining =>
    (⟨some (aggregate, queue), remaining⟩, store, some (aggregate, event))
  | some (aggregate, []), remaining => (⟨none, remaining⟩, store.clearEvents aggregate, none)
  | none, aggregate :: remaining =>
    (⟨some (aggregate, store.events aggregate), remaining⟩, store, none)
  | none, [] => (⟨none, []⟩, store, none)

/-- It is the turn of the aggregate. -/
def InTurn : Prop :=
  ∃ queue, position.turn = some (aggregate, queue)

/-- It is not the turn of the aggregate, but one is to come. -/
def Waits : Prop :=
  ¬ position.InTurn aggregate ∧ aggregate ∈ position.remaining

/-- The events an aggregate will have published in a later turn. -/
def waiting (remaining : List α) (store : Store α β) (aggregate : α) : List β :=
  if aggregate ∈ remaining then store.events aggregate else []

/-- The events of an aggregate that are on their way to be published. -/
def pending : List β :=
  match position.turn with
  | some (current, queue) =>
    if aggregate = current then queue else waiting position.remaining store aggregate
  | none => waiting position.remaining store aggregate

end Position

namespace Loop

def start (store : Store α β) : Loop α β where
  store := store
  position := ⟨none, store.collected⟩
  published := []
  raised := store.events

variable (loop : Loop α β)

def step : LoopStep α β → Loop α β
  | .advance =>
    { loop with
      position := (loop.position.next loop.store).1
      store := (loop.position.next loop.store).2.1
      published := loop.published ++ (loop.position.next loop.store).2.2.toList }
  | .act (.add aggregate event) =>
    { loop with
      store := loop.store.act (.add aggregate event)
      raised := Function.update loop.raised aggregate (loop.raised aggregate ++ [event]) }
  | .act (.save aggregate) => { loop with store := loop.store.act (.save aggregate) }

/-- The call can return. -/
def Finished : Prop := loop.position = ⟨none, []⟩

def publishedOf (aggregate : α) : List β := eventsOf loop.published aggregate

/-- Each event of each collected aggregate was published once, in the order in
which they were added. -/
def NothingLost : Prop :=
  ∀ aggregate ∈ loop.store.collected, loop.publishedOf aggregate = loop.raised aggregate

/-- Handlers add events only to aggregates that wait or are not collected, and
save only aggregates that are collected already or have no event. -/
def Kept : LoopStep α β → Prop
  | .advance => True
  | .act (.add aggregate _) =>
    aggregate ∈ loop.store.collected → loop.position.Waits aggregate
  | .act (.save aggregate) =>
    aggregate ∉ loop.store.collected → loop.store.events aggregate = []

end Loop

end Model

section Accounting

variable {α β : Type} [DecidableEq α] {store : Store α β} {remaining : List α}
  (entries : List (α × β))

theorem eventsOf_append_self (aggregate : α) (event : β) :
    eventsOf (entries ++ [(aggregate, event)]) aggregate =
      eventsOf entries aggregate ++ [event] := by
  simp [eventsOf]

theorem eventsOf_append_other {aggregate other : α} (event : β) (hother : aggregate ≠ other) :
    eventsOf (entries ++ [(other, event)]) aggregate = eventsOf entries aggregate := by
  simp [eventsOf, Ne.symm hother]

namespace Position

variable {aggregate : α}

theorem waiting_of_mem (hmem : aggregate ∈ remaining) :
    waiting remaining store aggregate = store.events aggregate :=
  if_pos hmem

theorem waiting_of_not_mem (hmem : aggregate ∉ remaining) :
    waiting remaining store aggregate = [] :=
  if_neg hmem

/-- Only the events of the aggregate itself matter. -/
theorem waiting_congr {other : Store α β} (hevs : store.events aggregate = other.events aggregate) :
    waiting remaining store aggregate = waiting remaining other aggregate := by
  simp only [waiting, hevs]

theorem waiting_cons_other {current : α} (hne : aggregate ≠ current) :
    waiting (current :: remaining) store aggregate = waiting remaining store aggregate := by
  simp only [waiting, mem_cons, hne, false_or]

theorem pending_self (aggregate : α) (queue : List β) :
    pending ⟨some (aggregate, queue), remaining⟩ store aggregate = queue :=
  if_pos rfl

theorem pending_other {current : α} (hne : aggregate ≠ current) (queue : List β) :
    pending ⟨some (current, queue), remaining⟩ store aggregate =
      waiting remaining store aggregate :=
  if_neg hne

theorem pending_none (aggregate : α) :
    pending ⟨none, remaining⟩ store aggregate = waiting remaining store aggregate :=
  rfl

variable {position : Position α β}

/-- Outside its turn an aggregate is taken as it is then. -/
theorem pending_eq_waiting (hturn : ¬ position.InTurn aggregate) :
    position.pending store aggregate = waiting position.remaining store aggregate := by
  obtain ⟨turn, _⟩ := position
  match turn with
  | none => rfl
  | some (current, queue) =>
    apply pending_other
    rintro rfl
    exact hturn ⟨queue, rfl⟩

/-- During its turn an aggregate has the copy of its events. -/
theorem pending_inTurn (hturn : position.InTurn aggregate) (other : Store α β) :
    position.pending store aggregate = position.pending other aggregate := by
  obtain ⟨_, _⟩ := position
  obtain ⟨_, rfl⟩ := hturn
  rw [pending_self, pending_self]

theorem pending_congr {other : Store α β} (hevs : store.events aggregate = other.events aggregate) :
    position.pending store aggregate = position.pending other aggregate := by
  by_cases hturn : position.InTurn aggregate
  · exact pending_inTurn hturn other
  · rw [pending_eq_waiting hturn, pending_eq_waiting hturn]
    exact waiting_congr hevs

/-- An event is added to what is pending if the aggregate waits. -/
theorem pending_add_waits (hwaits : position.Waits aggregate) (event : β) :
    position.pending (store.addEvent aggregate event) aggregate =
      position.pending store aggregate ++ [event] := by
  rw [pending_eq_waiting hwaits.1, pending_eq_waiting hwaits.1, waiting_of_mem hwaits.2,
    waiting_of_mem hwaits.2]
  exact update_self _ _ _

theorem pending_add_idle (hwaits : ¬ position.Waits aggregate) (event : β) :
    position.pending (store.addEvent aggregate event) aggregate =
      position.pending store aggregate := by
  by_cases hturn : position.InTurn aggregate
  · exact pending_inTurn hturn store
  · have hmem : aggregate ∉ position.remaining := fun hmem => hwaits ⟨hturn, hmem⟩
    rw [pending_eq_waiting hturn, pending_eq_waiting hturn, waiting_of_not_mem hmem,
      waiting_of_not_mem hmem]

theorem waiting_cleared (aggregate : α) :
    waiting remaining (store.clearEvents aggregate) aggregate = [] := by
  simp [waiting, Store.clearEvents]

theorem waiting_cleared_other {current : α} (hne : aggregate ≠ current) :
    waiting remaining (store.clearEvents current) aggregate = waiting remaining store aggregate :=
  waiting_congr (update_of_ne hne _ _)

/-- Going on publishes what is pending, and drops nothing else. -/
theorem next_conserves (position : Position α β) (store : Store α β) (published : List (α × β))
    (aggregate : α) :
    eventsOf (published ++ (position.next store).2.2.toList) aggregate ++
        (position.next store).1.pending (position.next store).2.1 aggregate =
      eventsOf published aggregate ++ position.pending store aggregate := by
  obtain ⟨turn, remaining⟩ := position
  match turn, remaining with
  | some (current, event :: queue), remaining =>
    show eventsOf (published ++ [(current, event)]) aggregate ++
        pending ⟨some (current, queue), remaining⟩ store aggregate =
      eventsOf published aggregate ++
        pending ⟨some (current, event :: queue), remaining⟩ store aggregate
    by_cases hcur : aggregate = current
    · subst hcur
      rw [eventsOf_append_self, pending_self, pending_self, append_assoc]
      rfl
    · rw [eventsOf_append_other _ _ hcur, pending_other hcur, pending_other hcur]
  | some (current, []), remaining =>
    show eventsOf (published ++ []) aggregate ++
        pending ⟨none, remaining⟩ (store.clearEvents current) aggregate =
      eventsOf published aggregate ++ pending ⟨some (current, []), remaining⟩ store aggregate
    rw [append_nil, pending_none]
    by_cases hcur : aggregate = current
    · subst hcur
      rw [waiting_cleared, pending_self]
    · rw [waiting_cleared_other hcur, pending_other hcur]
  | none, current :: remaining =>
    show eventsOf (published ++ []) aggregate ++
        pending ⟨some (current, store.events current), remaining⟩ store aggregate =
      eventsOf published aggregate ++ pending ⟨none, current :: remaining⟩ store aggregate
    rw [append_nil, pending_none]
    by_cases hcur : aggregate = current
    · subst hcur
      rw [pending_self, waiting_of_mem (.head _)]
    · rw [pending_other hcur, waiting_cons_other hcur]
  | none, [] =>
    show eventsOf (published ++ []) aggregate ++ _ = _
    rw [append_nil]
    rfl

end Position

namespace Loop

open Position

/-- The events of an aggregate that are published or will be. -/
def accounted (loop : Loop α β) (aggregate : α) : List β :=
  loop.publishedOf aggregate ++ loop.position.pending loop.store aggregate

variable (loop : Loop α β)

theorem accounted_advance (aggregate : α) :
    (loop.step .advance).accounted aggregate = loop.accounted aggregate :=
  next_conserves loop.position loop.store loop.published aggregate

variable {aggregate : α}

theorem accounted_add_other {other : α} (hother : other ≠ aggregate) (loop : Loop α β) (event : β) :
    (loop.step (.act (.add aggregate event))).accounted other = loop.accounted other := by
  have hevs : (loop.store.addEvent aggregate event).events other = loop.store.events other :=
    update_of_ne hother _ _
  exact congrArg (loop.publishedOf other ++ ·) (pending_congr hevs)

theorem accounted_add_waits {loop : Loop α β} (hwaits : loop.position.Waits aggregate) (event : β) :
    (loop.step (.act (.add aggregate event))).accounted aggregate =
      loop.accounted aggregate ++ [event] := by
  show loop.publishedOf aggregate ++ _ = loop.publishedOf aggregate ++ _ ++ _
  rw [append_assoc]
  exact congrArg (loop.publishedOf aggregate ++ ·) (pending_add_waits hwaits event)

theorem accounted_add_idle {loop : Loop α β} (hwaits : ¬ loop.position.Waits aggregate)
    (event : β) :
    (loop.step (.act (.add aggregate event))).accounted aggregate = loop.accounted aggregate :=
  congrArg (loop.publishedOf aggregate ++ ·) (pending_add_idle hwaits event)

theorem accounted_save (aggregate other : α) :
    (loop.step (.act (.save aggregate))).accounted other = loop.accounted other := by
  have hevs : (loop.store.collect aggregate).events other = loop.store.events other := rfl
  exact congrArg (loop.publishedOf other ++ ·) (pending_congr hevs)

end Loop

end Accounting

section Outcome

variable {α β : Type} [DecidableEq α]

namespace Position

/-- The loops have yet to do with the aggregate. -/
def Covers (position : Position α β) (aggregate : α) : Prop :=
  position.InTurn aggregate ∨ aggregate ∈ position.remaining

variable {position : Position α β} {store : Store α β} {aggregate : α}

theorem covers_of_next (hcov : (position.next store).1.Covers aggregate) :
    position.Covers aggregate := by
  obtain ⟨turn, remaining⟩ := position
  match turn, remaining with
  | some (current, _ :: _), remaining =>
    rcases hcov with ⟨_, hturn⟩ | hmem
    · cases hturn
      exact .inl ⟨_, rfl⟩
    · exact .inr hmem
  | some (_, []), remaining =>
    rcases hcov with ⟨_, hturn⟩ | hmem
    · cases hturn
    · exact .inr hmem
  | none, current :: remaining =>
    rcases hcov with ⟨_, hturn⟩ | hmem
    · cases hturn
      exact .inr (.head _)
    · exact .inr (.tail _ hmem)
  | none, [] => exact hcov

theorem next_collected (position : Position α β) (store : Store α β) :
    (position.next store).2.1.collected = store.collected := by
  obtain ⟨turn, remaining⟩ := position
  match turn, remaining with
  | some (_, _ :: _), _ => rfl
  | some (_, []), _ => rfl
  | none, _ :: _ => rfl
  | none, [] => rfl

/-- The loops leave the other aggregates alone. -/
theorem next_frame (hcov : ¬ position.Covers aggregate) :
    (position.next store).2.1.events aggregate = store.events aggregate ∧
      ∀ event, (position.next store).2.2 ≠ some (aggregate, event) := by
  obtain ⟨turn, remaining⟩ := position
  match turn, remaining with
  | some (current, _ :: _), remaining =>
    refine ⟨rfl, ?_⟩
    intro event hevent
    cases hevent
    exact hcov (.inl ⟨_, rfl⟩)
  | some (current, []), remaining =>
    refine ⟨update_of_ne ?_ _ _, nofun⟩
    rintro rfl
    exact hcov (.inl ⟨_, rfl⟩)
  | none, _ :: _ => exact ⟨rfl, nofun⟩
  | none, [] => exact ⟨rfl, nofun⟩

theorem next_unpublished (hcov : ¬ position.Covers aggregate) (published : List (α × β)) :
    eventsOf (published ++ (position.next store).2.2.toList) aggregate =
      eventsOf published aggregate := by
  have hevent : ∀ event, (position.next store).2.2 ≠ some (aggregate, event) := (next_frame hcov).2
  cases hnext : (position.next store).2.2 with
  | none => exact congrArg (eventsOf · aggregate) (append_nil _)
  | some entry =>
    obtain ⟨other, event⟩ := entry
    rw [hnext] at hevent
    have hother : aggregate ≠ other := by
      rintro rfl
      exact hevent event rfl
    exact eventsOf_append_other _ event hother

end Position

namespace Loop

/-- Nothing is lost so far, and nothing will be if the loops just go on. -/
structure Sound (loop : Loop α β) : Prop where
  accounted : ∀ aggregate ∈ loop.store.collected, loop.accounted aggregate = loop.raised aggregate
  covered : ∀ aggregate, loop.position.Covers aggregate → aggregate ∈ loop.store.collected
  unpublished : ∀ aggregate, aggregate ∉ loop.store.collected → loop.publishedOf aggregate = []
  raised : ∀ aggregate, aggregate ∉ loop.store.collected →
    loop.store.events aggregate = loop.raised aggregate

/-- Too few events of some collected aggregate are published or pending. -/
def Spoiled (loop : Loop α β) : Prop :=
  ∃ aggregate ∈ loop.store.collected,
    (loop.accounted aggregate).length < (loop.raised aggregate).length

theorem advance_collected (loop : Loop α β) :
    (loop.step .advance).store.collected = loop.store.collected :=
  Position.next_collected loop.position loop.store

theorem start_sound (store : Store α β) : (start store).Sound where
  accounted _ hmem := Position.waiting_of_mem hmem
  covered aggregate hcov := by
    rcases hcov with ⟨_, hturn⟩ | hmem
    · cases hturn
    · exact hmem
  unpublished _ _ := rfl
  raised _ _ := rfl

variable {loop : Loop α β}

theorem Sound.advance (hsound : loop.Sound) : (loop.step .advance).Sound where
  accounted aggregate hmem := by
    rw [advance_collected] at hmem
    rw [accounted_advance]
    exact hsound.accounted aggregate hmem
  covered aggregate hcov := by
    rw [advance_collected]
    exact hsound.covered aggregate (Position.covers_of_next hcov)
  unpublished aggregate hmem := by
    rw [advance_collected] at hmem
    have hcov := fun h => hmem (hsound.covered aggregate h)
    exact (Position.next_unpublished hcov loop.published).trans
      (hsound.unpublished aggregate hmem)
  raised aggregate hmem := by
    rw [advance_collected] at hmem
    have hcov := fun h => hmem (hsound.covered aggregate h)
    exact (Position.next_frame hcov).1.trans (hsound.raised aggregate hmem)

variable {aggregate : α}

/-- An event that is added to a waiting aggregate will be published, and one
that is added to an aggregate that is not collected is kept with it. -/
theorem Sound.add (hsound : loop.Sound) (event : β)
    (hkept : loop.Kept (.act (.add aggregate event))) :
    (loop.step (.act (.add aggregate event))).Sound where
  accounted other hmem := by
    show _ = update loop.raised aggregate _ other
    by_cases hother : other = aggregate
    · subst hother
      rw [accounted_add_waits (hkept hmem), update_self]
      rw [hsound.accounted other hmem]
    · rw [accounted_add_other hother, update_of_ne hother]
      exact hsound.accounted other hmem
  covered := hsound.covered
  unpublished := hsound.unpublished
  raised other hmem := by
    show update loop.store.events aggregate _ other = update loop.raised aggregate _ other
    by_cases hother : other = aggregate
    · subst hother
      rw [update_self, update_self, hsound.raised other hmem]
    · rw [update_of_ne hother, update_of_ne hother]
      exact hsound.raised other hmem

theorem mem_collect {other : α} :
    other ∈ (loop.step (.act (.save aggregate))).store.collected ↔
      other ∈ loop.store.collected ∨ other = aggregate := by
  show other ∈ loop.store.collected ++ [aggregate] ↔ _
  rw [mem_append, mem_singleton]

/-- An aggregate that was not collected has nothing on its way. -/
theorem Sound.accounted_outside (hsound : loop.Sound) (hmem : aggregate ∉ loop.store.collected) :
    loop.accounted aggregate = [] := by
  have hturn : ¬ loop.position.InTurn aggregate := fun h =>
    hmem (hsound.covered aggregate (.inl h))
  have hrem : aggregate ∉ loop.position.remaining := fun h =>
    hmem (hsound.covered aggregate (.inr h))
  rw [Loop.accounted, hsound.unpublished aggregate hmem, Position.pending_eq_waiting hturn,
    Position.waiting_of_not_mem hrem]
  rfl

theorem Sound.save (hsound : loop.Sound) (hkept : loop.Kept (.act (.save aggregate))) :
    (loop.step (.act (.save aggregate))).Sound where
  accounted other hmem := by
    rw [accounted_save]
    show _ = loop.raised other
    by_cases hcoll : other ∈ loop.store.collected
    · exact hsound.accounted other hcoll
    · rcases mem_collect.mp hmem with hold | rfl
      · exact absurd hold hcoll
      · rw [hsound.accounted_outside hcoll, ← hsound.raised other hcoll]
        exact (hkept hcoll).symm
  covered other hcov := mem_collect.mpr (.inl (hsound.covered other hcov))
  unpublished other hmem :=
    hsound.unpublished other fun hcoll => hmem (mem_collect.mpr (.inl hcoll))
  raised other hmem := hsound.raised other fun hcoll => hmem (mem_collect.mpr (.inl hcoll))

/-- What is lost stays lost. -/
theorem Spoiled.step {loop : Loop α β} (hspoiled : loop.Spoiled) (step : LoopStep α β) :
    (loop.step step).Spoiled := by
  obtain ⟨lost, hmem, hless⟩ := hspoiled
  cases step with
  | advance =>
    refine ⟨lost, ?_, ?_⟩
    · rw [advance_collected]
      exact hmem
    · rw [accounted_advance]
      exact hless
  | act action =>
    cases action with
    | save =>
      refine ⟨lost, mem_collect.mpr (.inl hmem), ?_⟩
      exact hless
    | add aggregate =>
      refine ⟨lost, hmem, ?_⟩
      show _ < (update loop.raised aggregate _ lost).length
      by_cases hlost : lost = aggregate
      · subst hlost
        rw [update_self, length_append]
        by_cases hwaits : loop.position.Waits lost
        · rw [accounted_add_waits hwaits, length_append]
          omega
        · rw [accounted_add_idle hwaits]
          omega
      · rw [accounted_add_other hlost, update_of_ne hlost]
        exact hless

/-- A step that is not kept to loses an event. -/
theorem Sound.spoiled (hsound : loop.Sound) {step : LoopStep α β} (hkept : ¬ loop.Kept step) :
    (loop.step step).Spoiled := by
  match step with
  | .advance => exact absurd trivial hkept
  | .act (.add aggregate event) =>
    obtain ⟨hmem, hwaits⟩ := Classical.not_imp.mp hkept
    refine ⟨aggregate, hmem, ?_⟩
    rw [accounted_add_idle hwaits, hsound.accounted aggregate hmem]
    show _ < (update loop.raised aggregate _ aggregate).length
    rw [update_self, length_append]
    exact Nat.lt_succ_self _
  | .act (.save aggregate) =>
    obtain ⟨hmem, hevs⟩ := Classical.not_imp.mp hkept
    refine ⟨aggregate, mem_collect.mpr (.inr rfl), ?_⟩
    rw [accounted_save, hsound.accounted_outside hmem]
    rw [hsound.raised aggregate hmem] at hevs
    exact length_pos_iff.mpr hevs

theorem sound_or_spoiled (hsound : loop.Sound) (step : LoopStep α β) :
    loop.Kept step ∧ (loop.step step).Sound ∨ ¬ loop.Kept step ∧ (loop.step step).Spoiled := by
  by_cases hkept : loop.Kept step
  · refine .inl ⟨hkept, ?_⟩
    match step with
    | .advance => exact hsound.advance
    | .act (.add _ event) => exact hsound.add event hkept
    | .act (.save _) => exact hsound.save hkept
  · exact .inr ⟨hkept, hsound.spoiled hkept⟩

/-- Once the loops have ended nothing is pending. -/
theorem accounted_finished (hfinished : loop.Finished) (aggregate : α) :
    loop.accounted aggregate = loop.publishedOf aggregate := by
  rw [accounted, hfinished]
  exact append_nil _

theorem Spoiled.not_nothingLost (hspoiled : loop.Spoiled) (hfinished : loop.Finished) :
    ¬ loop.NothingLost := by
  obtain ⟨lost, hmem, hless⟩ := hspoiled
  intro hnothing
  rw [accounted_finished hfinished, hnothing lost hmem] at hless
  exact Nat.lt_irrefl _ hless

theorem Sound.nothingLost (hsound : loop.Sound) (hfinished : loop.Finished) : loop.NothingLost := by
  intro aggregate hmem
  rw [← accounted_finished hfinished]
  exact hsound.accounted aggregate hmem

theorem run_sound_or_spoiled (store : Store α β) (steps : List (LoopStep α β)) :
    Along step Kept (start store) steps ∧ (run step (start store) steps).Sound ∨
      ¬ Along step Kept (start store) steps ∧ (run step (start store) steps).Spoiled := by
  apply along_or_spoiled _ _ (start_sound store) (along_any _ steps)
  · intro loop step hsound _
    exact sound_or_spoiled hsound step
  · intro loop step hspoiled _
    exact hspoiled.step step

/-- A call that returns has published every event once and in order exactly if
its handlers kept to aggregates that wait. -/
theorem nothing_lost_iff_kept (store : Store α β) (steps : List (LoopStep α β)) :
    ((run step (start store) steps).Finished → (run step (start store) steps).NothingLost) ↔
      ((run step (start store) steps).Finished → Along step Kept (start store) steps) := by
  apply forall_congr'
  intro hfinished
  rcases run_sound_or_spoiled store steps with ⟨hkept, hsound⟩ | ⟨hkept, hspoiled⟩
  · exact iff_of_true (hsound.nothingLost hfinished) hkept
  · exact iff_of_false (hspoiled.not_nothingLost hfinished) hkept

end Loop

end Outcome

section Refinement

variable {α β ε : Type}

/-- The step a mark stands for. -/
def Mark.loopStep : Mark α β → Option (LoopStep α β)
  | .acted action => some (.act action)
  | .turned _ => some .advance
  | .published _ _ => some .advance
  | .cleared _ => some .advance
  | .committed => none

def Mark.publication : Mark α β → Option (α × β)
  | .published aggregate event => some (aggregate, event)
  | _ => none

variable [DecidableEq α]

/-- The run of the machine that the marks stand for. -/
def replay (store : Store α β) (marks : List (Mark α β)) : Loop α β :=
  run Loop.step (Loop.start store) (marks.filterMap Mark.loopStep)

/-- What was recorded since the first world is a run of the machine into the
position. -/
structure Follows (first : World α β) (position : Position α β) (world : World α β) : Prop where
  grown : first.log ++ recorded first world = world.log
  store : (replay first.toStore (recorded first world)).store = world.toStore
  position : (replay first.toStore (recorded first world)).position = position
  published : (replay first.toStore (recorded first world)).published =
    (recorded first world).filterMap Mark.publication

/-- The machine makes the step of a mark as the code does. -/
structure Marks (mark : Mark α β) (loop : Loop α β) (position : Position α β)
    (world : World α β) (step : LoopStep α β) : Prop where
  made : mark.loopStep = some step
  store : (loop.step step).store = world.toStore
  position : (loop.step step).position = position
  published : (loop.step step).published = loop.published ++ mark.publication.toList

theorem Follows.mark {first world next : World α β} {position position' : Position α β}
    (hfollows : Follows first position world) {mark : Mark α β}
    (hlog : next.log = world.log ++ [mark]) (step : LoopStep α β)
    (hmarks : ∀ loop : Loop α β, loop.store = world.toStore → loop.position = position →
      Marks mark loop position' next step) : Follows first position' next := by
  have hrec : recorded first next = recorded first world ++ [mark] := by
    rw [recorded, hlog, ← hfollows.grown, append_assoc, drop_left]
  have hmark := hmarks _ hfollows.store hfollows.position
  have hreplay : replay first.toStore (recorded first next) =
      (replay first.toStore (recorded first world)).step step := by
    rw [hrec, replay, filterMap_append, run_append]
    simp [hmark.made, replay]
  refine ⟨?_, ?_, ?_, ?_⟩
  · rw [hrec, ← append_assoc, hfollows.grown, hlog]
  · rw [hreplay]
    exact hmark.store
  · rw [hreplay]
    exact hmark.position
  · rw [hreplay, hmark.published, hfollows.published, hrec, filterMap_append]
    cases hpublication : mark.publication <;> simp [hpublication]

variable {first : World α β}

/-- Whatever application code does, the loops stay where they are. -/
theorem perform_follows (position : Position α β) {ρ : Type} (behaviour : Behaviour ε α β ρ) :
    Maintains (Follows first position) behaviour.perform := by
  intro world hworld
  show Follows first position ((behaviour world).1.foldl World.act world)
  generalize (behaviour world).1 = actions
  induction actions generalizing world with
  | nil => exact hworld
  | cons action _ ih =>
    apply ih
    apply hworld.mark rfl (.act action)
    rintro ⟨_, _, _, _⟩ rfl rfl
    cases action with
    | add | save => exact ⟨rfl, rfl, rfl, (append_nil _).symm⟩

variable {aggregate : α} {remaining : List α} {world : World α β}

theorem published_follows {event : β} {queue : List β}
    (hworld : Follows first ⟨some (aggregate, event :: queue), remaining⟩ world) :
    Follows first ⟨some (aggregate, queue), remaining⟩
      (world.mark (.published aggregate event)) := by
  apply hworld.mark rfl .advance
  rintro ⟨_, _, _, _⟩ rfl rfl
  exact ⟨rfl, rfl, rfl, rfl⟩

theorem turned_follows (hworld : Follows first ⟨none, aggregate :: remaining⟩ world) :
    Follows first ⟨some (aggregate, world.events aggregate), remaining⟩
      (world.mark (.turned aggregate)) := by
  apply hworld.mark rfl .advance
  rintro ⟨_, _, _, _⟩ rfl rfl
  exact ⟨rfl, rfl, rfl, rfl⟩

theorem cleared_follows (hworld : Follows first ⟨some (aggregate, []), remaining⟩ world) :
    Follows first ⟨none, remaining⟩ (world.clearEvents aggregate) := by
  apply hworld.mark rfl .advance
  rintro ⟨_, _, _, _⟩ rfl rfl
  exact ⟨rfl, rfl, rfl, rfl⟩

/-- A call that raises stops somewhere. -/
def Stopped (first : World α β) (world : World α β) : Prop :=
  ∃ position, Follows first position world

variable (handle : α → β → Behaviour ε α β Unit)

theorem publish_follows (aggregate : α) (event : β) (queue : List β) (remaining : List α) :
    Triple (Follows first ⟨some (aggregate, event :: queue), remaining⟩)
      (publish handle aggregate event)
      (fun _ => Follows first ⟨some (aggregate, queue), remaining⟩)
      (fun _ => Stopped first) := by
  refine .bind (M := fun _ => Follows first ⟨some (aggregate, queue), remaining⟩) ?_ ?_
  · exact .modify fun _ hworld => published_follows hworld
  · intro _
    apply (perform_follows _ _).triple.weaken (fun _ h => h) (fun _ _ h => h)
    exact fun _ _ h => ⟨_, h⟩

theorem publishEvents_follows (aggregate : α) (remaining : List α) :
    Triple (Follows first ⟨none, aggregate :: remaining⟩) (publishEvents handle aggregate)
      (fun _ => Follows first ⟨none, remaining⟩) (fun _ => Stopped first) := by
  refine .bind (M := fun _ world =>
    Follows first ⟨some (aggregate, world.events aggregate), remaining⟩ world) ?_ fun _ => ?_
  · exact .modify fun _ hworld => turned_follows hworld
  refine .bind (M := fun events =>
    Follows first ⟨some (aggregate, events), remaining⟩) ?_ fun events => ?_
  · exact .reads fun _ hworld => hworld
  refine .bind (M := fun _ => Follows first ⟨some (aggregate, []), remaining⟩) ?_ fun _ => ?_
  · exact .forEach (I := fun queue => Follows first ⟨some (aggregate, queue), remaining⟩)
      (fun event queue => publish_follows handle aggregate event queue remaining) events
  · exact .modify fun _ hworld => cleared_follows hworld

theorem start_follows (first : World α β) : Follows first ⟨none, first.collected⟩ first := by
  have hnone : recorded first first = [] := drop_length
  refine ⟨?_, ?_, ?_, ?_⟩
  · rw [hnone, append_nil]
  all_goals
    rw [hnone]
    rfl

/-- The code of the aspect runs the machine from its start, and to its end if
it returns. -/
theorem publishCollected_follows (first : World α β) :
    Triple (fun world => world = first) (publishCollected handle)
      (fun _ => Follows first ⟨none, []⟩) (fun _ => Stopped first) := by
  refine .bind (M := fun aggregates => Follows first ⟨none, aggregates⟩) ?_
    fun aggregates => ?_
  · apply Triple.reads
    rintro world rfl
    exact start_follows world
  · exact .forEach (I := fun remaining => Follows first ⟨none, remaining⟩)
      (publishEvents_follows handle) aggregates

/-- If the aspect returns, every event was published once and in order exactly
if what the handlers did was kept to waiting aggregates. -/
theorem publishCollected_nothing_lost_iff {first last : World α β}
    (hreturns : publishCollected handle first = (.ok (), last)) :
    (∀ aggregate ∈ last.collected,
        eventsOf ((recorded first last).filterMap Mark.publication) aggregate =
          (replay first.toStore (recorded first last)).raised aggregate) ↔
      Along Loop.step Loop.Kept (Loop.start first.toStore)
        ((recorded first last).filterMap Mark.loopStep) := by
  have hfollows := (publishCollected_follows handle first).ok rfl hreturns
  rcases Loop.run_sound_or_spoiled first.toStore
    ((recorded first last).filterMap Mark.loopStep) with ⟨hkept, hsound⟩ | ⟨hkept, hspoiled⟩
  · refine iff_of_true ?_ hkept
    rw [← hfollows.published, ← hfollows.store]
    exact hsound.nothingLost hfollows.position
  · refine iff_of_false ?_ hkept
    rw [← hfollows.published, ← hfollows.store]
    exact hspoiled.not_nothingLost hfollows.position

end Refinement

/-- The handler of a placed order confirms it. -/
def confirm (order : Nat) (event : String) : Behaviour String Nat String Unit := fun _ =>
  (if event = "OrderPlaced" then [.add order "OrderConfirmed"] else [], .ok ())

/-- An order was placed and saved. -/
def placedOrder : World Nat String :=
  { events := fun order => if order = 7 then ["OrderPlaced"] else [], collected := [7] }

theorem publishCollected_nothing_lost_iff_confirm :
    ¬ Along Loop.step Loop.Kept (Loop.start placedOrder.toStore)
      ((recorded placedOrder (publishCollected confirm placedOrder).2).filterMap
        Mark.loopStep) := by
  intro hkept
  have hlost := (publishCollected_nothing_lost_iff confirm rfl).mpr hkept 7 (.head _)
  revert hlost
  decide

/-- The aspect returns, and the event that the handler added is gone: it was
not published, and the order has no event left. -/
theorem handler_event_is_lost :
    (publishCollected confirm placedOrder).1 = .ok () ∧
      recorded placedOrder (publishCollected confirm placedOrder).2 =
        [.turned 7, .published 7 "OrderPlaced", .acted (.add 7 "OrderConfirmed"), .cleared 7] ∧
      (publishCollected confirm placedOrder).2.events 7 = [] ∧
      (run Loop.step (Loop.start placedOrder.toStore)
        [.advance, .advance, .act (.add 7 "OrderConfirmed"), .advance]).Finished ∧
      ¬ (run Loop.step (Loop.start placedOrder.toStore)
        [.advance, .advance, .act (.add 7 "OrderConfirmed"), .advance]).NothingLost := by
  refine ⟨rfl, rfl, rfl, rfl, ?_⟩
  intro hnothing
  have hlost := hnothing 7 (.head _)
  revert hlost
  decide

end Spakky.Event

import Spakky.Event.Publishing

/-!
Publishing and the commit. The events of a call are published while its
transaction is still open, so that a commit that raises leaves them published;
a call keeps the promised order exactly if it publishes nothing.

Everything a call does is appended to the log. One rule for each part of a call
says which marks it may append, for any property of marks.
-/

namespace Spakky.Event

open Effect Exec Data Aop List

section Log

variable {α β ε ι ρ : Type}

/-- Every event was published after a commit. -/
def CommitFirst (marks : List (Mark α β)) : Prop :=
  ∀ earlier aggregate event later,
    marks = earlier ++ .published aggregate event :: later → .committed ∈ earlier

/-- The log is the given one, followed by marks with the property. -/
def Appends (base : List (Mark α β)) (P : Mark α β → Prop) (world : World α β) : Prop :=
  ∃ marks, world.log = base ++ marks ∧ ∀ mark ∈ marks, P mark

variable {base : List (Mark α β)} {P : Mark α β → Prop}

theorem Appends.append {world next : World α β} (h : Appends base P world)
    {marks : List (Mark α β)} (hlog : next.log = world.log ++ marks)
    (hmarks : ∀ mark ∈ marks, P mark) : Appends base P next := by
  obtain ⟨former, hformer, hP⟩ := h
  refine ⟨former ++ marks, ?_, ?_⟩
  · rw [hlog, hformer, append_assoc]
  · exact forall_mem_append.mpr ⟨hP, hmarks⟩

theorem Appends.refl (world : World α β) : Appends world.log P world :=
  ⟨[], (append_nil _).symm, fun _ hmark => absurd hmark not_mem_nil⟩

theorem Appends.recorded {first last : World α β} (h : Appends first.log P last) :
    ∀ mark ∈ recorded first last, P mark := by
  obtain ⟨_, hlog, hP⟩ := h
  rw [Event.recorded, hlog, drop_left]
  exact hP

/-- A step that only marks keeps to marks with the property if its own has it. -/
theorem appends_modify {change : World α β → World α β} {mark : Mark α β}
    (hlog : ∀ world, (change world).log = world.log ++ [mark]) (hmark : P mark) :
    Maintains (Appends base P) (modify change : Exec (World α β) ε Unit) := by
  intro world hworld
  apply hworld.append (hlog world)
  intro other hother
  rwa [mem_singleton.mp hother]

theorem exit_appends (database : Database ε α β) (hcomm : P .committed) (error : Option ε) :
    Maintains (Appends base P) (database.transaction.exit error) := by
  apply AbstractTransaction.exit_maintains
  · exact Maintains.still fun _ => rfl
  · refine .bind ?_ fun _ => appends_modify (fun _ => rfl) hcomm
    exact .still fun _ => rfl
  · exact .still fun _ => rfl

variable [DecidableEq α]

theorem foldl_act_log (actions : List (Action α β)) (world : World α β) :
    (actions.foldl World.act world).log = world.log ++ actions.map .acted := by
  induction actions generalizing world with
  | nil => exact (append_nil _).symm
  | cons _ _ ih =>
    rw [foldl_cons, ih]
    exact append_assoc _ _ _

theorem perform_appends (hacted : ∀ action, P (.acted action)) (behaviour : Behaviour ε α β ρ) :
    Maintains (Appends base P) behaviour.perform := by
  intro world hworld
  apply hworld.append (foldl_act_log (behaviour world).1 world)
  intro mark hmark
  obtain ⟨action, _, rfl⟩ := mem_map.mp hmark
  exact hacted action

section Publishing

variable (hP : ∀ mark, mark ≠ .committed → P mark) (handle : α → β → Behaviour ε α β Unit)

include hP

theorem publish_appends (aggregate : α) (events : List β) :
    Maintains (Appends base P) (forEach (publish handle aggregate) events) := by
  refine .forEach fun event _ => ?_
  apply Maintains.bind (appends_modify (fun _ => rfl) (hP (.published aggregate event) nofun))
  exact fun _ => perform_appends (fun action => hP (.acted action) nofun) _

theorem publishEvents_appends (aggregate : α) :
    Maintains (Appends base P) (publishEvents handle aggregate) := by
  apply Maintains.bind (appends_modify (fun _ => rfl) (hP (.turned aggregate) nofun))
  intro _
  refine Maintains.bind (Maintains.still fun _ => rfl) fun events => ?_
  apply Maintains.bind (publish_appends hP handle aggregate events)
  exact fun _ => appends_modify (fun _ => rfl) (hP (.cleared aggregate) nofun)

theorem publishAll_appends (aggregates : List α) :
    Maintains (Appends base P) (forEach (publishEvents handle) aggregates) :=
  Maintains.forEach fun aggregate _ => publishEvents_appends hP handle aggregate

end Publishing

end Log

section Publishing

variable {α β ε ι ρ : Type} [DecidableEq α] (handle : α → β → Behaviour ε α β Unit)
  {world : World α β}

theorem publishEvents_silent {aggregate : α} (hsilent : world.events aggregate = []) :
    publishEvents handle aggregate world =
      (.ok (), { world with log := world.log ++ [.turned aggregate, .cleared aggregate] }) := by
  have hsame : Function.update world.events aggregate [] = world.events := by
    rw [← hsilent]
    exact Function.update_eq_self aggregate world.events
  simp [publishEvents, hsilent, forEach, World.mark, World.clearEvents, Store.clearEvents, hsame]

variable {aggregates : List α}

theorem publishAll_silent (hsilent : ∀ aggregate ∈ aggregates, world.events aggregate = [])
    {base : List (Mark α β)} {P : Mark α β → Prop} (hturned : ∀ aggregate, P (.turned aggregate))
    (hcleared : ∀ aggregate, P (.cleared aggregate)) (hworld : Appends base P world) :
    Appends base P (forEach (publishEvents handle) aggregates world).2 := by
  induction aggregates generalizing world with
  | nil => exact hworld
  | cons aggregate _ ih =>
    have hturn := publishEvents_silent handle (hsilent aggregate (.head _))
    rw [forEach, bind_ok _ hturn]
    apply ih
    · exact fun other hother => hsilent other (mem_cons_of_mem aggregate hother)
    · apply hworld.append rfl
      simp [hturned, hcleared]

/-- The first thing an aggregate with events does in its turn is to have one
published. -/
theorem publishAll_starts {aggregate : α} {event : β} {events : List β}
    (hevs : world.events aggregate = event :: events) (rest : List α) :
    Appends ((world.mark (.turned aggregate)).mark (.published aggregate event)).log
      (fun _ => True) (forEach (publishEvents handle) (aggregate :: rest) world).2 := by
  let going : Exec (World α β) ε Unit := do
    (handle aggregate event).perform
    forEach (publish handle aggregate) events
    modify fun world => world.clearEvents aggregate
    forEach (publishEvents handle) rest
  have hrun : forEach (publishEvents handle) (aggregate :: rest) world =
      going ((world.mark (.turned aggregate)).mark (.published aggregate event)) := by
    simp only [forEach, publishEvents, bind_then, modify_bind_run, reads_bind_run]
    rw [show (world.mark (.turned aggregate)).events aggregate = event :: events from hevs]
    simp only [forEach, publish, bind_then, modify_bind_run]
    rfl
  rw [hrun]
  apply Maintains.bind (perform_appends (fun _ => trivial) _) _ _ (Appends.refl _)
  intro _
  apply Maintains.bind (publish_appends (fun _ _ => trivial) handle aggregate events)
  intro _
  apply Maintains.bind (appends_modify (fun _ => rfl) trivial)
  exact fun _ => publishAll_appends (fun _ _ => trivial) handle rest

/-- The first aggregate with an event has it published, and nothing is
committed before that. -/
theorem publishAll_publishes (hevent : ∃ aggregate ∈ aggregates, world.events aggregate ≠ []) :
    ∃ earlier aggregate event later,
      (forEach (publishEvents handle) aggregates world).2.log =
        world.log ++ earlier ++ .published aggregate event :: later ∧ .committed ∉ earlier := by
  induction aggregates generalizing world with
  | nil => simp at hevent
  | cons aggregate rest ih =>
    cases hevs : world.events aggregate with
    | nil =>
      let next : World α β :=
        { world with log := world.log ++ [.turned aggregate, .cleared aggregate] }
      have hrest : ∃ other ∈ rest, next.events other ≠ [] := by
        obtain ⟨other, hother, hsome⟩ := hevent
        rcases mem_cons.mp hother with rfl | hmem
        · exact absurd hevs hsome
        · exact ⟨other, hmem, hsome⟩
      rw [forEach, bind_ok _ (publishEvents_silent handle hevs)]
      obtain ⟨earlier, found, event, later, hlog, hnone⟩ := ih hrest
      refine ⟨[.turned aggregate, .cleared aggregate] ++ earlier, found, event, later, ?_, ?_⟩
      · simpa [next] using hlog
      · simpa using hnone
    | cons event =>
      obtain ⟨later, hlog, _⟩ := publishAll_starts handle hevs rest
      refine ⟨[.turned aggregate], aggregate, event, later, ?_, by simp⟩
      rw [hlog]
      simp [World.mark]

end Publishing

section Call

variable {α β ε ι ρ : Type} [DecidableEq α] (isException : ε → Bool)

/-- A call through the proxy of a Pod for which the given aspects were found.
The pointcuts of the two aspects ask for `@transactional` only. -/
def transactionalCall (found : List (Aspect (World α β) ε ι ρ))
    (method : ι → Behaviour ε α β ρ) : ι → Exec (World α β) ε ρ :=
  call isException (fun _ => true) (postProcess found) fun arguments => (method arguments).perform

/-- What runs within the transaction. -/
def publishing (handle : α → β → Behaviour ε α β Unit) (method : Behaviour ε α β ρ) :
    Exec (World α β) ε ρ :=
  ensure
    (do
      let result ← method.perform
      publishCollected handle
      return result)
    (modify World.clear)

variable {database : Database ε α β}

/-- The aspect that publishes is the inner one. -/
theorem transactionalCall_eq {handle : α → β → Behaviour ε α β Unit}
    {found : List (Aspect (World α β) ε ι ρ)} (hfound : found.Perm
      [transactionalAspect database, transactionalEventPublishingAspect handle])
    (method : ι → Behaviour ε α β ρ) (arguments : ι) :
    transactionalCall isException found method arguments =
      database.transaction.around (publishing handle (method arguments)) := by
  rw [transactionalCall, call_pair isException Nat.zero_lt_one hfound rfl rfl]
  rw [transactionalAspect, advisor_around, transactionalEventPublishingAspect, advisor_after]
  rfl

/-- The call publishes nothing: it is refused a transaction, its method raises,
or no aggregate collected when the method returns has an event. -/
def PublishesNothing (database : Database ε α β) (method : Behaviour ε α β ρ)
    (world : World α β) : Prop :=
  (∃ error, database.initialise world = .error error) ∨
    (∃ error, (method world).2 = .error error) ∨
      ∀ aggregate ∈ (method.acted world).collected, (method.acted world).events aggregate = []

variable {handle : α → β → Behaviour ε α β Unit} {method : Behaviour ε α β ρ} {world : World α β}

theorem publishing_raises {error : ε} (hmeth : (method world).2 = .error error) :
    (publishing handle method world).2.log = (method.acted world).log := by
  have hrun : method.perform world = (.error error, method.acted world) := Prod.ext hmeth rfl
  rw [publishing, ensure, attempt_bind_run, bind_error _ hrun]
  rfl

theorem publishing_returns {result : ρ} (hmeth : (method world).2 = .ok result) :
    (publishing handle method world).2.log =
      (forEach (publishEvents handle) (method.acted world).collected
        (method.acted world)).2.log := by
  have hrun : method.perform world = (.ok result, method.acted world) := Prod.ext hmeth rfl
  rw [publishing, ensure, attempt_bind_run, bind_ok _ hrun]
  rw [then_pure_state]
  rfl

variable (handle)

/-- A call that publishes nothing before it leaves its transaction publishes
nothing at all. -/
theorem publishing_silent (henter : database.initialise world = .ok ())
    (hnothing : PublishesNothing database method world) :
    Appends world.log (fun mark => ∀ aggregate event, mark ≠ .published aggregate event)
      (publishing handle method world).2 := by
  have hacted : Appends world.log
      (fun mark => ∀ aggregate event, mark ≠ .published aggregate event) (method.acted world) :=
    perform_appends (fun _ _ _ => nofun) method world (.refl world)
  cases hmeth : (method world).2 with
  | error =>
    obtain ⟨marks, hlog, hmarks⟩ := hacted
    exact ⟨marks, (publishing_raises hmeth).trans hlog, hmarks⟩
  | ok =>
    have hsilent : ∀ aggregate ∈ (method.acted world).collected,
        (method.acted world).events aggregate = [] := by
      simpa [PublishesNothing, henter, hmeth] using hnothing
    obtain ⟨marks, hlog, hmarks⟩ := publishAll_silent handle hsilent (fun _ _ _ => nofun)
      (fun _ _ _ => nofun) hacted
    exact ⟨marks, (publishing_returns hmeth).trans hlog, hmarks⟩

/-- Otherwise an event is published before anything is committed. -/
theorem publishing_early (hsome : ¬ PublishesNothing database method world) :
    ∃ earlier aggregate event, .committed ∉ earlier ∧
      Appends (world.log ++ earlier ++ [.published aggregate event]) (fun _ => True)
        (publishing handle method world).2 := by
  simp only [PublishesNothing, not_or, not_exists, not_forall] at hsome
  obtain ⟨_, hreturns, aggregate, hcoll, hevs⟩ := hsome
  cases hmeth : (method world).2 with
  | error error => exact absurd hmeth (hreturns error)
  | ok =>
    obtain ⟨earlier, found, event, later, hlog, hnone⟩ :=
      publishAll_publishes handle ⟨aggregate, hcoll, hevs⟩
    have hacted : (method.acted world).log = world.log ++ (method world).1.map .acted :=
      foldl_act_log _ world
    refine ⟨(method world).1.map .acted ++ earlier, found, event, ?_, later, ?_, fun _ _ => trivial⟩
    · simpa using hnone
    · rw [publishing_returns hmeth, hlog, hacted]
      simp

end Call

/-- A database that accepts everything but the commit. -/
def failingCommit : Database String Nat String where
  autocommitEnabled := true
  initialise _ := .ok ()
  dispose _ := .ok ()
  commit _ := .error "commit failed"
  rollback _ := .ok ()

def unheard (_ : Nat) (_ : String) : Behaviour String Nat String Unit := fun _ => ([], .ok ())

/-- Places an order and saves it. -/
def placeOrder (order : Nat) : Behaviour String Nat String Unit := fun _ =>
  ([.add order "OrderPlaced", .save order], .ok ())

/-- Saves an order on which nothing has happened. -/
def touchOrder (order : Nat) : Behaviour String Nat String Unit := fun _ => ([.save order], .ok ())

def noOrders : World Nat String := { events := fun _ => [], collected := [] }

def orderAspects : List (Aspect (World Nat String) String Nat Unit) :=
  [transactionalAspect failingCommit, transactionalEventPublishingAspect unheard]

end Spakky.Event

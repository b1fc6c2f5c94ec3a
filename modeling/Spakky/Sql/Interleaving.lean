import Spakky.Sql.Session

/-!
Several contexts on one session manager. A context opens, uses and closes
sessions one after the other; between two operations, and wherever the
asynchronous `close` awaits the database, other contexts may run. A list of
events is an interleaving of all of them.

The shared field belongs to the context whose `open` assigned it last, until a
`close` of any context clears it. A context is given its own session exactly
while the field belongs to it; as long as every use respects that, the manager
behaves like one that keeps a private session for every context.
-/

namespace Spakky.Sql

open Effect Exec Machine Function SessionManager

/-- Where a `close` waits: for the current session to close, or for the scoped
one to be removed. -/
inductive Stage where
  | removing
  | clearing
  deriving DecidableEq, Repr

inductive Action (ω : Type) where
  | openSession
  | access (access : Access ω)
  | close
  | resume
  deriving DecidableEq, Repr

structure Event (κ ω : Type) where
  context : κ
  action : Action ω
  deriving DecidableEq, Repr

/-- The manager, how far each context has come in a `close`, and two records
of what happened: the session that each context opened last and has not
closed, and the context whose `open` assigned the shared field last. -/
structure Concurrent (κ ω : Type) where
  sessions : Sessions κ ω
  closing : κ → Option Stage
  opened : κ → Option SessionId
  owner : Option κ

namespace Concurrent

variable {κ ω : Type}

def initial : Concurrent κ ω where
  sessions := .initial
  closing := fun _ => none
  opened := fun _ => none
  owner := none

section Steps

variable [DecidableEq κ] (state : Concurrent κ ω) (context : κ)

def opens : Concurrent κ ω where
  sessions := (openSession context state.sessions).2
  closing := state.closing
  opened := update state.opened context
    (some (state.sessions.scopedSession context).1)
  owner := some context

def accesses (access : Access ω) : Concurrent κ ω :=
  { state with sessions := (access.perform state.sessions).2 }

/-- The context has begun to close its session. -/
def begins : Concurrent κ ω :=
  { state with
    closing := update state.closing context (some .removing)
    opened := update state.opened context none }

def removes : Concurrent κ ω :=
  { state with
    sessions := state.sessions.remove context
    closing := update state.closing context (some .clearing) }

/-- `close` up to its first `await`; without a current session that is the
one for the removal of the scoped session. -/
def closes : Concurrent κ ω :=
  match state.sessions.current with
  | some session =>
    { state.begins context with sessions := state.sessions.discard session }
  | none => (state.begins context).removes context

def clears : Concurrent κ ω :=
  { state with
    sessions := state.sessions.assign none
    closing := update state.closing context none
    owner := none }

/-- A context does one thing at a time: while its `close` waits, it can only
resume. -/
def step (event : Event κ ω) : Concurrent κ ω :=
  match state.closing event.context, event.action with
  | none, .openSession => state.opens event.context
  | none, .access access => state.accesses access
  | none, .close => state.closes event.context
  | some .removing, .resume => state.removes event.context
  | some .clearing, .resume => state.clears event.context
  | _, _ => state

end Steps

section Tracking

/-- The records fit the manager: a context that is not closing has the
session the registry has for it, and the shared field is empty or holds the
session of its owner. -/
structure Tracked (state : Concurrent κ ω) : Prop where
  registered : state.sessions.Registered
  idle : ∀ context, state.closing context = none →
    state.opened context = state.sessions.registry context
  busy : ∀ context, state.closing context ≠ none → state.opened context = none
  removed : ∀ context, state.closing context = some .clearing →
    state.sessions.registry context = none
  unowned : state.owner = none → state.sessions.current = none
  owned : ∀ context, state.owner = some context →
    ∃ session, state.sessions.current = some session ∧ session < state.sessions.created ∧
      (∀ other, state.sessions.registry other = some session → other = context) ∧
      (state.closing context = none → state.sessions.registry context = some session)

variable {state : Concurrent κ ω} {context : κ}

theorem Tracked.registry_of_opened (h : state.Tracked) {session : SessionId}
    (hopened : state.opened context = some session) :
    state.sessions.registry context = some session := by
  by_cases hidle : state.closing context = none
  · rw [← h.idle context hidle]
    exact hopened
  · rw [h.busy context hidle] at hopened
    cases hopened

theorem initial_tracked : (initial : Concurrent κ ω).Tracked where
  registered := ⟨nofun, nofun⟩
  idle := fun _ _ => rfl
  busy := fun _ h => absurd rfl h
  removed := nofun
  unowned := fun _ => rfl
  owned := nofun

/-- Nothing is recorded about the writes. -/
theorem Tracked.frame (h : state.Tracked) {sessions : Sessions κ ω}
    (hregistry : sessions.registry = state.sessions.registry)
    (hcreated : sessions.created = state.sessions.created)
    (hcur : sessions.current = state.sessions.current) : Tracked { state with sessions } := by
  obtain ⟨_, _, _, _, _⟩ := sessions
  subst hregistry hcreated hcur
  exact ⟨⟨h.registered.made, h.registered.distinct⟩, h.idle, h.busy, h.removed, h.unowned, h.owned⟩

theorem accesses_tracked (h : state.Tracked) (access : Access ω) :
    (state.accesses access).Tracked := by
  rw [accesses, Access.perform_run]
  split
  · cases access <;> exact h.frame rfl rfl rfl
  · exact h

variable [DecidableEq κ]

section

variable (h : state.Tracked)
include h

theorem opens_tracked (hidle : state.closing context = none) : (state.opens context).Tracked := by
  have hscp := Sessions.scopedSession_spec h.registered context
  refine ⟨⟨hscp.registered.made, hscp.registered.distinct⟩, ?_, ?_, ?_, nofun, ?_⟩
  · intro other hother
    show update state.opened context _ other =
      (state.sessions.scopedSession context).2.registry other
    rw [hscp.registry]
    by_cases hsame : other = context
    · rw [hsame, update_self, update_self]
    · rw [update_of_ne hsame, update_of_ne hsame]
      exact h.idle other hother
  · intro other hother
    have hne : other ≠ context := by
      rintro rfl
      exact hother hidle
    show update state.opened context _ other = none
    rw [update_of_ne hne]
    exact h.busy other hother
  · intro other hother
    have hne : other ≠ context := by
      rintro rfl
      rw [show state.closing other = some .clearing from hother] at hidle
      cases hidle
    show (state.sessions.scopedSession context).2.registry other = none
    rw [hscp.registry, update_of_ne hne]
    exact h.removed other hother
  · intro owner howner
    rw [← Option.some.inj howner]
    have hregistry : (state.sessions.scopedSession context).2.registry context =
        some (state.sessions.scopedSession context).1 := by
      rw [hscp.registry, update_self]
    refine ⟨(state.sessions.scopedSession context).1, rfl, hscp.made, ?_, fun _ => hregistry⟩
    intro other hother
    exact hscp.registered.distinct _ _ _ hother hregistry

theorem begins_tracked : (state.begins context).Tracked := by
  refine ⟨h.registered, ?_, ?_, ?_, h.unowned, ?_⟩
  · intro other hidle
    obtain ⟨hne, hidle⟩ := update_other hidle nofun
    exact (update_of_ne hne ..).trans (h.idle other hidle)
  · intro other hbusy
    by_cases hsame : other = context
    · rw [hsame]
      exact update_self ..
    · refine (update_of_ne hsame ..).trans (h.busy other ?_)
      rwa [← update_of_ne hsame (some Stage.removing) state.closing]
  · intro other hclearing
    exact h.removed other (update_other hclearing nofun).2
  · intro owner howner
    obtain ⟨session, hcur, hmade, honly, hregistry⟩ := h.owned owner howner
    refine ⟨session, hcur, hmade, honly, ?_⟩
    intro hidle
    exact hregistry (update_other hidle nofun).2

theorem removes_tracked (hbusy : state.closing context ≠ none) :
    (state.removes context).Tracked := by
  have hregistry : (state.removes context).sessions.registry =
      update state.sessions.registry context none :=
    Sessions.remove_registry state.sessions context
  refine ⟨h.registered.remove context, ?_, ?_, ?_, ?_, ?_⟩
  · intro other hidle
    obtain ⟨hne, hidle⟩ := update_other hidle nofun
    rw [hregistry, update_of_ne hne]
    exact h.idle other hidle
  · intro other hother
    by_cases hsame : other = context
    · rw [hsame]
      exact h.busy context hbusy
    · apply h.busy other
      rwa [← update_of_ne hsame (some Stage.clearing) state.closing]
  · intro other hclearing
    rw [hregistry]
    rcases update_cases hclearing with ⟨rfl, _⟩ | ⟨hne, hclearing⟩
    · exact update_self ..
    · rw [update_of_ne hne]
      exact h.removed other hclearing
  · intro howner
    exact (Sessions.remove_current ..).trans (h.unowned howner)
  · intro owner howner
    obtain ⟨session, hcur, hmade, honly, hsess⟩ := h.owned owner howner
    refine ⟨session, (Sessions.remove_current ..).trans hcur, ?_, ?_, ?_⟩
    · show session < (state.sessions.remove context).created
      rw [Sessions.remove_created]
      exact hmade
    · intro other hother
      rw [hregistry] at hother
      exact honly other (update_other hother nofun).2
    · intro hidle
      obtain ⟨hne, hidle⟩ := update_other hidle nofun
      rw [hregistry, update_of_ne hne]
      exact hsess hidle

theorem clears_tracked (hclearing : state.closing context = some .clearing) :
    (state.clears context).Tracked := by
  refine ⟨⟨h.registered.made, h.registered.distinct⟩, ?_, ?_, ?_, fun _ => rfl, nofun⟩
  · intro other hidle
    rcases update_cases hidle with ⟨rfl, _⟩ | ⟨_, hidle⟩
    · have hnone := h.busy other (by rw [hclearing]; nofun)
      exact hnone.trans (h.removed other hclearing).symm
    · exact h.idle other hidle
  · intro other hbusy
    have hne : other ≠ context := by
      rintro rfl
      exact hbusy (update_self ..)
    apply h.busy other
    rwa [← update_of_ne hne (none : Option Stage) state.closing]
  · intro other hother
    exact h.removed other (update_other hother nofun).2

theorem closes_tracked : (state.closes context).Tracked := by
  rw [closes]
  split
  · exact (begins_tracked h).frame rfl rfl rfl
  · apply removes_tracked (begins_tracked h)
    intro hnone
    exact nomatch (update_self ..).symm.trans hnone

end

/-- Every step of every context keeps the records right. -/
theorem step_tracked (state : Concurrent κ ω) (event : Event κ ω) (h : state.Tracked) :
    (step state event).Tracked := by
  rw [step]
  split
  · exact opens_tracked h ‹_›
  · exact accesses_tracked h _
  · exact closes_tracked h
  · rename_i hremoving _
    apply removes_tracked h
    rw [hremoving]
    nofun
  · exact clears_tracked h ‹_›
  · exact h

end Tracking

/-- What the sessions are for: every context has its own, if any, and sees
nothing of the others. -/
structure Private (κ ω : Type) where
  pending : κ → Option (List ω)
  committed : List ω

namespace Private

def initial : Private κ ω where
  pending := fun _ => none
  committed := []

variable [DecidableEq κ] (spec : Private κ ω) (context : κ)

def opens : Private κ ω :=
  { spec with
    pending := update spec.pending context (some ((spec.pending context).getD [])) }

def closes : Private κ ω :=
  { spec with pending := update spec.pending context none }

def accesses (access : Access ω) : Private κ ω :=
  match spec.pending context with
  | none => spec
  | some writes =>
    match access with
    | .read => spec
    | .flush write =>
      { spec with pending := update spec.pending context (some (writes ++ [write])) }
    | .commit =>
      { pending := update spec.pending context (some [])
        committed := spec.committed ++ writes }
    | .rollback =>
      { spec with pending := update spec.pending context (some []) }

def step (event : Event κ ω) : Private κ ω :=
  match event.action with
  | .openSession => spec.opens event.context
  | .access access => spec.accesses event.context access
  | .close => spec.closes event.context
  | .resume => spec

end Private

section Ownership

/-- The shared field was assigned last by an `open` of this context, or it is
empty and the context has no session open. -/
def Holds (state : Concurrent κ ω) (context : κ) : Prop :=
  state.owner = some context ∨ state.owner = none ∧ state.opened context = none

variable {state : Concurrent κ ω}

theorem Tracked.current_eq_opened_iff (h : state.Tracked) {context : κ}
    (hidle : state.closing context = none) :
    state.sessions.current = state.opened context ↔ state.Holds context := by
  constructor
  · intro hcur
    cases howner : state.owner with
    | none =>
      rw [h.unowned howner] at hcur
      exact .inr ⟨howner, hcur.symm⟩
    | some owner =>
      obtain ⟨_, hsess, _, honly, _⟩ := h.owned owner howner
      rw [hsess] at hcur
      rw [Holds, howner, honly context (h.registry_of_opened hcur.symm)]
      exact .inl rfl
  · rintro (howner | ⟨howner, hopened⟩)
    · obtain ⟨_, hsess, _, _, hregistry⟩ := h.owned context howner
      rw [hsess, h.idle context hidle, hregistry hidle]
    · rw [h.unowned howner, hopened]

/-- A use of the session gets the session that the context opened last and has
not closed, or raises if there is none; a `close` closes no other session. -/
def OwnSession (state : Concurrent κ ω) (event : Event κ ω) : Prop :=
  state.closing event.context = none →
    match event.action with
    | .access access =>
      (access.perform state.sessions).1 = initialized (state.opened event.context)
    | .close => ∀ session, state.sessions.current = some session →
        state.opened event.context = some session
    | .openSession | .resume => True

/-- A context uses the session only while it holds the shared field, and closes it
only while no other context does. -/
def Undisturbed (state : Concurrent κ ω) (event : Event κ ω) : Prop :=
  state.closing event.context = none →
    match event.action with
    | .access _ => state.Holds event.context
    | .close => ∀ owner, state.owner = some owner → owner = event.context
    | .openSession | .resume => True

theorem initialized_inj {a b : Option SessionId} :
    initialized a = initialized b ↔ a = b := by
  cases a <;> cases b <;> simp [initialized]

theorem Tracked.closes_own_iff (h : state.Tracked) {context : κ}
    (hidle : state.closing context = none) :
    (∀ session, state.sessions.current = some session → state.opened context = some session) ↔
      ∀ owner, state.owner = some owner → owner = context := by
  constructor
  · intro hown owner howner
    obtain ⟨session, hcur, _, honly, _⟩ := h.owned owner howner
    exact (honly context (h.registry_of_opened (hown session hcur))).symm
  · intro honly session hcur
    cases howner : state.owner with
    | none =>
      rw [h.unowned howner] at hcur
      cases hcur
    | some owner =>
      obtain rfl := honly owner howner
      rw [← hcur]
      exact ((h.current_eq_opened_iff hidle).mpr (.inl howner)).symm

theorem Tracked.ownSession_iff (h : state.Tracked) (event : Event κ ω) :
    OwnSession state event ↔ Undisturbed state event := by
  refine forall_congr' fun hidle => ?_
  cases event.action with
  | access access =>
    have hanswer : (access.perform state.sessions).1 = initialized state.sessions.current := by
      rw [Access.perform_run]
      cases state.sessions.current <;> rfl
    simp only [hanswer, initialized_inj, h.current_eq_opened_iff hidle]
  | close => exact h.closes_own_iff hidle
  | openSession | resume => exact Iff.rfl

variable [DecidableEq κ]

/-- In an interleaving every use of a session gets the context's own one, and
every `close` closes no other, exactly if every context uses the session only
while it holds the shared field, and closes it only while no other does. -/
theorem own_session_iff_undisturbed (events : List (Event κ ω)) :
    Along step OwnSession (initial : Concurrent κ ω) events ↔
      Along step Undisturbed (initial : Concurrent κ ω) events := by
  apply along_congr step_tracked
  · intro state event htracked
    exact htracked.ownSession_iff event
  · exact initial_tracked

end Ownership

section Refinement

/-- Beside the uses of a session, its `close` comes while the context holds
the shared field, and no context is asked for something else while it is
closing. -/
def Orderly (state : Concurrent κ ω) (event : Event κ ω) : Prop :=
  match event.action with
  | .openSession => state.closing event.context = none
  | .access _ | .close => state.closing event.context = none ∧ state.Holds event.context
  | .resume => True

/-- The manager and the private sessions agree: what is pending in the session
of each context, and what was committed. A session that is not made yet is
empty. -/
structure Mirrors (state : Concurrent κ ω) (spec : Private κ ω) : Prop where
  tracked : state.Tracked
  unmade : ∀ session, state.sessions.created ≤ session → state.sessions.pending session = []
  pending : ∀ context, spec.pending context = (state.opened context).map state.sessions.pending
  committed : spec.committed = state.sessions.committed

variable {state : Concurrent κ ω} {spec : Private κ ω} {context : κ}

theorem initial_mirrors : Mirrors (initial : Concurrent κ ω) Private.initial where
  tracked := initial_tracked
  unmade := fun _ _ => rfl
  pending := fun _ => rfl
  committed := rfl

variable {session : SessionId}

theorem Tracked.opened_distinct (h : state.Tracked) {other : κ}
    (hopened : state.opened context = some session) (hother : state.opened other = some session) :
    other = context :=
  h.registered.distinct _ _ _ (h.registry_of_opened hother) (h.registry_of_opened hopened)

theorem Mirrors.unmade_update (h : Mirrors state spec)
    (hopened : state.opened context = some session) (writes : List ω) {later : SessionId}
    (hlater : state.sessions.created ≤ later) :
    update state.sessions.pending session writes later = [] := by
  have hmade := h.tracked.registered.made _ _ (h.tracked.registry_of_opened hopened)
  have hne : later ≠ session := (Nat.lt_of_lt_of_le hmade hlater).ne'
  rw [update_of_ne hne]
  exact h.unmade later hlater

variable [DecidableEq κ]

section

variable (h : Mirrors state spec)
include h

/-- What a context does to its own session, nobody else notices. -/
theorem Mirrors.update_pending
    (hopened : state.opened context = some session) (writes : List ω) (other : κ) :
    update spec.pending context (some writes) other =
      (state.opened other).map (update state.sessions.pending session writes) := by
  by_cases hsame : other = context
  · rw [hsame, hopened, update_self, Option.map_some, update_self]
  · rw [update_of_ne hsame, h.pending]
    cases hother : state.opened other with
    | none => rfl
    | some theirs =>
      have hne : theirs ≠ session := by
        rintro rfl
        exact hsame (h.tracked.opened_distinct hopened hother)
      rw [Option.map_some, Option.map_some, update_of_ne hne]

theorem accesses_mirrors (hidle : state.closing context = none) (hholds : state.Holds context)
    (access : Access ω) : Mirrors (state.accesses access) (spec.accesses context access) := by
  have htrk := accesses_tracked h.tracked access
  have hcur := (h.tracked.current_eq_opened_iff hidle).mpr hholds
  rw [accesses, Access.perform_run, hcur] at htrk ⊢
  rw [Private.accesses, h.pending]
  cases hopened : state.opened context with
  | none => exact h
  | some session =>
    rw [hopened] at htrk
    have hunmade (writes : List ω) (later : SessionId)
        (hlater : state.sessions.created ≤ later) :
        update state.sessions.pending session writes later = [] :=
      h.unmade_update hopened writes hlater
    cases access with
    | read => exact h
    | flush | rollback =>
      exact ⟨htrk, hunmade _, h.update_pending hopened _, h.committed⟩
    | commit =>
      refine ⟨htrk, hunmade _, h.update_pending hopened _, ?_⟩
      exact congrArg (· ++ state.sessions.pending session) h.committed

theorem removes_mirrors (hbusy : state.closing context ≠ none) :
    Mirrors (state.removes context) spec := by
  refine ⟨removes_tracked h.tracked hbusy,
    Sessions.remove_unmade h.tracked.registered h.unmade context, ?_, ?_⟩
  · intro other
    rw [h.pending]
    cases hother : state.opened other with
    | none => rw [removes, hother]; rfl
    | some =>
      rw [removes, hother]
      refine congrArg some (Sessions.remove_pending ?_).symm
      intro hregistry
      have hsame := h.tracked.registered.distinct _ _ _ hregistry
        (h.tracked.registry_of_opened hother)
      rw [← hsame, h.tracked.busy context hbusy] at hother
      cases hother
  · exact h.committed.trans (Sessions.remove_committed ..).symm

theorem begins_mirrors : Mirrors (state.begins context) (spec.closes context) := by
  refine ⟨begins_tracked h.tracked, h.unmade, ?_, h.committed⟩
  intro other
  show update spec.pending context none other =
    (update state.opened context none other).map state.sessions.pending
  by_cases hsame : other = context
  · rw [hsame, update_self, update_self]
    rfl
  · rw [update_of_ne hsame, update_of_ne hsame, h.pending]

theorem opens_mirrors (hidle : state.closing context = none) :
    Mirrors (state.opens context) (spec.opens context) := by
  have hscp := Sessions.scopedSession_spec h.tracked.registered context
  refine ⟨opens_tracked h.tracked hidle, ?_, ?_, ?_⟩
  · intro session hsess
    show (state.sessions.scopedSession context).2.pending session = []
    rw [hscp.pending]
    exact h.unmade session (le_trans hscp.created hsess)
  · intro other
    show update spec.pending context _ other =
      Option.map (state.sessions.scopedSession context).2.pending
        (update state.opened context _ other)
    rw [hscp.pending]
    by_cases hsame : other = context
    · subst hsame
      rw [update_self, update_self, h.pending, h.tracked.idle other hidle]
      cases hregistry : state.sessions.registry other with
      | none =>
        have hnew := h.unmade _ (le_refl state.sessions.created)
        simp [hscp.fresh hregistry, hnew]
      | some => simp [Sessions.scopedSession, hregistry]
    · rw [update_of_ne hsame, update_of_ne hsame, h.pending]
  · exact h.committed.trans hscp.committed.symm

theorem clears_mirrors
    (hclearing : state.closing context = some .clearing) : Mirrors (state.clears context) spec :=
  ⟨clears_tracked h.tracked hclearing, h.unmade, h.pending, h.committed⟩

theorem closes_mirrors (hidle : state.closing context = none)
    (hholds : state.Holds context) : Mirrors (state.closes context) (spec.closes context) := by
  have htrk : (state.closes context).Tracked := closes_tracked h.tracked
  have hcur := (h.tracked.current_eq_opened_iff hidle).mpr hholds
  have hbeg : Mirrors (state.begins context) (spec.closes context) := begins_mirrors h
  rw [closes, hcur] at htrk ⊢
  cases hopened : state.opened context with
  | none =>
    apply removes_mirrors hbeg
    intro hnone
    exact nomatch (update_self ..).symm.trans hnone
  | some session =>
    rw [hopened] at htrk
    refine ⟨htrk, fun later => h.unmade_update hopened [], ?_, h.committed⟩
    intro other
    show update spec.pending context none other =
      (update state.opened context none other).map
        (update state.sessions.pending session [])
    by_cases hsame : other = context
    · rw [hsame, update_self, update_self]
      rfl
    · have hother := h.update_pending hopened [] other
      rw [update_of_ne hsame] at hother ⊢
      rw [update_of_ne hsame]
      exact hother

end

theorem step_mirrors (event : Event κ ω) (h : Mirrors state spec) (hord : Orderly state event) :
    Mirrors (step state event) (spec.step event) := by
  obtain ⟨context, action⟩ := event
  cases action with
  | openSession =>
    rw [step, show state.closing context = none from hord]
    exact opens_mirrors h hord
  | access access =>
    rw [step, hord.1]
    exact accesses_mirrors h hord.1 hord.2 access
  | close =>
    rw [step, hord.1]
    exact closes_mirrors h hord.1 hord.2
  | resume =>
    cases hclosing : state.closing context with
    | none =>
      rw [step, hclosing]
      exact h
    | some stage =>
      cases stage with
      | removing =>
        rw [step, hclosing]
        exact removes_mirrors h (by rw [hclosing]; nofun)
      | clearing =>
        rw [step, hclosing]
        exact clears_mirrors h hclosing

/-- An orderly interleaving does to the writes of every context what private
sessions would do. -/
theorem orderly_mirrors_private (events : List (Event κ ω))
    (hord : Along step Orderly (initial : Concurrent κ ω) events) :
    Mirrors (run step initial events) (run Private.step Private.initial events) := by
  apply Along.related _ initial_mirrors hord
  intro state spec event hmirrors hevent
  exact step_mirrors event hmirrors hevent

end Refinement

/-- The second context opens its session after the first one has committed. -/
theorem orderly_mirrors_private_in_turn :
    let events : List (Event Bool String) :=
      [⟨false, .openSession⟩, ⟨false, .access (.flush "order")⟩, ⟨false, .access .commit⟩,
        ⟨true, .openSession⟩]
    Mirrors (run step initial events) (run Private.step Private.initial events) :=
  orderly_mirrors_private _ ⟨rfl, ⟨rfl, .inl rfl⟩, ⟨rfl, .inl rfl⟩, rfl, trivial⟩

/-- The first context reads the session that the second one opened, it has none
to commit through once the second one has closed its own, and a second one that
opened before it closes its session in the middle of its work. -/
theorem second_context_takes_session :
    ¬ Along step OwnSession (initial : Concurrent Bool String)
      [⟨false, .openSession⟩, ⟨true, .openSession⟩, ⟨false, .access .read⟩] ∧
    ¬ Along step OwnSession (initial : Concurrent Bool String)
      [⟨false, .openSession⟩, ⟨true, .openSession⟩, ⟨true, .close⟩, ⟨true, .resume⟩,
        ⟨true, .resume⟩, ⟨false, .access .commit⟩] ∧
    ¬ Along step OwnSession (initial : Concurrent Bool String)
      [⟨true, .openSession⟩, ⟨false, .openSession⟩, ⟨false, .access (.flush "order")⟩,
        ⟨true, .close⟩, ⟨false, .access .commit⟩] := by
  refine ⟨?_, ?_, ?_⟩
  · rintro ⟨_, _, hread, _⟩
    have hsession : Except.ok 1 = initialized (some 0) := hread rfl
    exact nomatch hsession
  · rintro ⟨_, _, _, _, _, hcommit, _⟩
    have hraised : Except.error .sessionNotInitialized = initialized (some 0) := hcommit rfl
    exact nomatch hraised
  · rintro ⟨_, _, _, hclose, _⟩
    have hclosed : some 0 = some 1 := hclose rfl 1 rfl
    cases hclosed

end Concurrent

end Spakky.Sql

import Spakky.Redis.Settling

/-!
`get_or_set` against a stampede. While nothing expires, the factories of all
clients return one value, everybody who returns gets it, and a call fails only
with the error of its own factory or after 30 seconds of waiting.
-/

namespace Spakky.Redis

open KeyValue Machine

section Failures

variable {κ α ε π : Type}

/-- The deadline of a client that waits for a value. -/
def Phase.deadline : Phase α ε → Option Nat
  | .waiting _ deadline | .polling _ deadline | .reacquiring _ deadline => some deadline
  | _ => none

/-- The factory of the client raises the error. -/
def Raises (client : κ) (error : ε) (state : Clients κ α ε π) (event : ClientEvent κ α ε π) :
    Prop :=
  event = .produces client (.error error) ∧
    ∃ call since, state.phase client = .locked call since .produce

/-- The client begins to wait. -/
def BeginsToWait (client : κ) (began : Nat) (state : Clients κ α ε π)
    (event : ClientEvent κ α ε π) : Prop :=
  (∃ token, event = .runs client token) ∧ (∃ call, state.phase client = .queueing call) ∧
    state.store.clock = began

/-- The client has waited for as long as it may. -/
def GivesUp (client : κ) (began : Nat) (state : Clients κ α ε π) (event : ClientEvent κ α ε π) :
    Prop :=
  (∃ token, event = .runs client token) ∧
    (∃ call, state.phase client = .waiting call (began + waitMs)) ∧
    began + waitMs ≤ state.store.clock

variable [DecidableEq κ] (config : RedisCacheConfig) (runtime : Runtime α π)
  (start : Clients κ α ε π)

/-- A call fails with what its own factory raised, or with the timeout after 30
seconds of waiting. -/
inductive OwnFailure (events : List (ClientEvent κ α ε π)) (client : κ) : CacheError ε → Prop
  | factory (error)
      (hraised : Once (Clients.step config runtime) (Raises client error) start events) :
      OwnFailure events client (.factory error)
  | timeout (began)
      (hbegan : Once (Clients.step config runtime) (BeginsToWait client began) start events)
      (hgave : Once (Clients.step config runtime) (GivesUp client began) start events) :
      OwnFailure events client .lockTimeout

/-- Deadlines and errors of the state after the events have their cause among them. -/
structure Caused (events : List (ClientEvent κ α ε π)) (state : Clients κ α ε π) : Prop where
  waits : ∀ client deadline, (state.phase client).deadline = some deadline →
    ∃ began, deadline = began + waitMs ∧
      Once (Clients.step config runtime) (BeginsToWait client began) start events
  raised : ∀ client call since error,
    state.phase client = .locked call since (.release (.error (.factory error))) →
      Once (Clients.step config runtime) (Raises client error) start events
  failed : ∀ client error, (client, .error error) ∈ state.results →
    OwnFailure config runtime start events client error

variable {config runtime start} {events : List (ClientEvent κ α ε π)} {state : Clients κ α ε π}

theorem OwnFailure.later {client : κ} {error : CacheError ε}
    (hfail : OwnFailure config runtime start events client error) (event : ClientEvent κ α ε π) :
    OwnFailure config runtime start (events ++ [event]) client error := by
  cases hfail with
  | factory error hraised => exact .factory error (hraised.append _)
  | timeout began hbegan hgave => exact .timeout began (hbegan.append _) (hgave.append _)

section

variable (hcaused : Caused config runtime start events state)
include hcaused

theorem Caused.later
    (event : ClientEvent κ α ε π) : Caused config runtime start (events ++ [event]) state := by
  constructor
  · intro client deadline hdeadline
    obtain ⟨began, hsame, hbegan⟩ := hcaused.waits client deadline hdeadline
    exact ⟨began, hsame, hbegan.append _⟩
  · intro client call since error hphase
    exact (hcaused.raised client call since error hphase).append _
  · intro client error hmem
    exact (hcaused.failed client error hmem).later event

variable {next : Clients κ α ε π}

theorem Caused.of_same (hphase : next.phase = state.phase)
    (hresults : next.results = state.results) : Caused config runtime start events next := by
  constructor
  · rw [hphase]
    exact hcaused.waits
  · rw [hphase]
    exact hcaused.raised
  · rw [hresults]
    exact hcaused.failed

theorem Caused.enters (client : κ) {phase : Phase α ε}
    (hwaits : ∀ deadline, phase.deadline = some deadline → ∃ began, deadline = began + waitMs ∧
      Once (Clients.step config runtime) (BeginsToWait client began) start events)
    (hraised : ∀ call since error, phase = .locked call since (.release (.error (.factory error))) →
        Once (Clients.step config runtime) (Raises client error) start events) :
    Caused config runtime start events (state.enters client phase) := by
  constructor
  · intro other deadline hdeadline
    by_cases hsame : other = client
    · subst hsame
      simp only [Clients.enters, Function.update_self] at hdeadline
      exact hwaits deadline hdeadline
    · simp only [Clients.enters, Function.update_of_ne hsame] at hdeadline
      exact hcaused.waits other deadline hdeadline
  · intro other call since error hphase
    rcases update_cases hphase with ⟨rfl, hnew⟩ | ⟨_, hold⟩
    · exact hraised call since error hnew.symm
    · exact hcaused.raised other call since error hold
  · exact hcaused.failed

theorem Caused.ends (client : κ) {outcome : Except (CacheError ε) α}
    (hfail : ∀ error, outcome = .error error →
      OwnFailure config runtime start events client error) :
    Caused config runtime start events (state.ends client outcome) := by
  have hidle : Caused config runtime start events (state.enters client .idle) :=
    hcaused.enters client nofun nofun
  refine ⟨hidle.waits, hidle.raised, ?_⟩
  intro other error hmem
  rcases List.mem_append.mp hmem with hold | hnew
  · exact hcaused.failed other error hold
  · simp only [List.mem_singleton, Prod.mk.injEq] at hnew
    rw [hnew.1]
    exact hfail error hnew.2.symm

end

theorem Goes.deadline {clock : Nat} {phase next : Phase α ε} (hgoes : Goes clock phase next)
    {deadline : Nat} (hdeadline : next.deadline = some deadline) :
    phase.deadline = some deadline ∨
      (∃ call, phase = .queueing call) ∧ deadline = clock + waitMs := by
  cases hgoes with
  | misses | queues => cases hdeadline
  | waits call =>
    cases hdeadline
    exact .inr ⟨⟨call, rfl⟩, rfl⟩
  | polls | missesAgain | sleeps => exact .inl hdeadline

/-- A client that goes on without the lock keeps its deadline or sets it. -/
theorem Caused.goes (hcaused : Caused config runtime start events state)
    (hstate : run (Clients.step config runtime) start events = state) {client : κ} {token : π}
    {next : Phase α ε} (hgoes : Goes state.store.clock (state.phase client) next) :
    Caused config runtime start (events ++ [.runs client token]) (state.enters client next) := by
  refine (hcaused.later _).enters client ?_ ?_
  · intro deadline hdeadline
    rcases hgoes.deadline hdeadline with hbefore | ⟨hqueueing, hnow⟩
    · exact (hcaused.later _).waits client deadline hbefore
    · refine ⟨_, hnow, once_last ?_⟩
      rw [hstate]
      exact ⟨⟨token, rfl⟩, hqueueing, rfl⟩
  · rintro call since error rfl
    generalize state.phase client = phase at hgoes
    cases hgoes

variable {store : Store String π} (error : ε)

theorem lookup_ne_factory {key : String} :
    Clients.lookup config runtime store key ≠ .error (.factory error) := by
  rw [Clients.lookup]
  split
  · simp
  · simp
  · split <;> simp

theorem ttlMs_ne_factory {ttl : CacheTtl} : ttlMs runtime ttl ≠ .error (.factory error) := by
  rw [ttlMs.eq_def]
  split
  · simp
  · split
    · simp
    · split <;> simp
  · simp
  · simp
  · simp

theorem payloadOf_ne_factory {value : α} {ttl : CacheTtl} :
    Clients.payloadOf runtime value ttl ≠ .error (.factory error) := by
  rw [Clients.payloadOf]
  split
  · simp
  · split
    · rename_i other httl
      intro hsame
      cases hsame
      exact ttlMs_ne_factory error httl
    · simp

theorem afterTags_ne_release (value : α) (rest : List String) (error : CacheError ε) :
    Clients.afterTags value rest ≠ .release (.error error) := by
  cases rest <;> nofun

theorem Works.ne_factory {call : Population} {stage : Locked α ε} {error : ε}
    (hworks : Clients.Works config runtime store call stage (.release (.error (.factory error)))) :
    False := by
  cases hworks with
  | fails _ hlook => exact lookup_ne_factory error hlook
  | refuses _ _ hsent => exact payloadOf_ne_factory error hsent

variable {key : String} {store : Store String π} {first : Option α}

theorem Caused.moves {event : ClientEvent κ α ε π}
    (hcaused : Caused config runtime start events state)
    (hstate : run (Clients.step config runtime) start events = state)
    (hcalm : state.Calm config runtime key store first)
    (hmoves : Clients.Moves config runtime state event next) :
    Caused config runtime start (events ++ [event]) next := by
  have hlater := hcaused.later event
  cases hmoves with
  | passes => exact hlater.of_same rfl rfl
  | dies client | begins client => exact hlater.enters client nofun nofun
  | refuses | rests | ignores => exact hlater
  | goes _ _ _ hgoes => exact hcaused.goes hstate hgoes
  | finds client => exact hlater.ends client nofun
  | fails client _ call _ hphase hlook =>
    have hkey : call.key = key := (hphase.populates (hcalm.populates client)).on_key
    subst hkey
    obtain ⟨_, hreads⟩ := hcalm.settles.reads
    cases hreads.symm.trans hlook
  | timesOut client token call deadline hphase htime =>
    refine hlater.ends client ?_
    rintro _ ⟨⟩
    obtain ⟨began, rfl, hbegan⟩ := hlater.waits client deadline (by rw [hphase]; rfl)
    refine .timeout began hbegan (once_last ?_)
    rw [hstate]
    exact ⟨⟨token, rfl⟩, ⟨call, hphase⟩, htime⟩
  | acquires client token call =>
    have hlocked : Caused config runtime start (events ++ [.runs client token])
        (state.enters client (.locked call state.store.clock .check)) :=
      hlater.enters client nofun nofun
    exact hlocked.of_same rfl rfl
  | works client _ _ _ _ _ _ hworks =>
    refine hlater.enters client nofun ?_
    rintro _ _ error ⟨⟩
    exact (Works.ne_factory hworks).elim
  | stores client token call _ value sent =>
    have hput : Caused config runtime start (events ++ [.runs client token])
        (state.puts config call.key sent) := hlater.of_same rfl rfl
    refine hput.enters client nofun ?_
    intro _ _ error hnext
    simp only [Phase.locked.injEq] at hnext
    exact absurd hnext.2.2 (afterTags_ne_release value call.tags _)
  | tags client token call since value _ rest =>
    have htagged : Caused config runtime start (events ++ [.runs client token])
        (state.enters client (.locked call since (Clients.afterTags value rest))) := by
      refine hlater.enters client nofun ?_
      intro _ _ error hnext
      simp only [Phase.locked.injEq] at hnext
      exact absurd hnext.2.2 (afterTags_ne_release value rest _)
    exact htagged.of_same rfl rfl
  | releases client token call since outcome hphase =>
    have hends : Caused config runtime start (events ++ [.runs client token])
        (state.ends client outcome) := by
      refine hlater.ends client ?_
      rintro error rfl
      obtain ⟨raised, rfl⟩ := hcalm.settles.release_error hphase
      exact .factory raised (hlater.raised client call since raised hphase)
    exact hends.of_same rfl rfl
  | returns client call since value =>
    have hstored : Caused config runtime start (events ++ [.produces client (.ok value)])
        (state.enters client (.locked call since (.store value))) :=
      hlater.enters client nofun nofun
    exact hstored.of_same rfl rfl
  | raises client call since _ hphase =>
    refine hlater.enters client nofun ?_
    rintro _ _ _ ⟨⟩
    apply once_last
    rw [hstate]
    exact ⟨rfl, call, since, hphase⟩

end Failures

section ComputesOnce

variable {κ α ε π : Type} [DecidableEq κ]

/-- There is at most one value, the one that was there or the one that was computed;
everybody who returns has it; and a call fails for reasons of its own. -/
structure ComputesOnce (config : RedisCacheConfig) (runtime : Runtime α π)
    (store : Store String π) (found : Option α) (events : List (ClientEvent κ α ε π))
    (state : Clients κ α ε π) : Prop where
  once : (found.toList ++ state.produced.map Prod.snd).length ≤ 1
  same : ∀ client value, (client, .ok value) ∈ state.results →
    value ∈ found.toList ++ state.produced.map Prod.snd
  fails : ∀ client error, (client, .error error) ∈ state.results →
    OwnFailure config runtime (Clients.initial store) events client error

/-- Clients that populate one key, each with a valid time to live, values that can be
pickled and tags that can be extended, compute one value while nothing expires. -/
theorem computes_once (config : RedisCacheConfig) (runtime : Runtime α π) (key : String)
    (store : Store String π) (found : Option α)
    (hfound : (Clients.lookup config runtime store key : Except (CacheError ε) _) = .ok found)
    (events : List (ClientEvent κ α ε π))
    (hstorable : ∀ event ∈ events, event.Populates (Storable config runtime key store) ∧
      event.Serializes runtime)
    (hlasts : Along (Clients.step config runtime) Clients.NothingExpires (Clients.initial store)
      events) :
    ComputesOnce config runtime store found events
      (run (Clients.step config runtime) (Clients.initial store) events) := by
  have hpast := Along.history (fun before =>
      (run (Clients.step config runtime) (Clients.initial store) before).Calm config runtime key
        store found ∧
      Caused config runtime (Clients.initial store) before
        (run (Clients.step config runtime) (Clients.initial store) before))
    (by
      rintro before event ⟨hcalm, hcaused⟩ ⟨⟨hpopulates, hserializes⟩, hkept⟩
      rw [run_append]
      refine ⟨hcalm.step hpopulates hserializes hkept, ?_⟩
      exact hcaused.moves rfl hcalm (Clients.step_moves hcalm.populates hpopulates))
    ⟨Clients.calm_initial hfound, nofun, nofun, nofun⟩ (hlasts.and_events hstorable)
  obtain ⟨hcalm, hcaused⟩ := hpast
  obtain ⟨honce, hsame⟩ := hcalm.settles.once
  exact ⟨honce, hsame, hcaused.failed⟩

/-- One client calls, finds no value, takes the lock, computes a value and goes on to
the end. -/
def population (client : Nat) (ttl : CacheTtl) : List (ClientEvent Nat Unit Unit Unit) :=
  [.calls client (.getOrSet { key := "order", ttl := ttl }), .runs client (), .runs client (),
    .runs client (), .produces client (.ok ()), .runs client (), .runs client ()]

/-- A second client calls while the first one computes, waits and finds its value. -/
def awaited : List (ClientEvent Nat Unit Unit Unit) :=
  (population 0 none).take 4 ++ (population 1 none).take 4 ++ (population 0 none).drop 4 ++
    [.runs 1 (), .runs 1 ()]

theorem computes_once_awaited :
    let final := run (Clients.step {} unitRuntime) (Clients.initial ⟨0, []⟩) awaited
    ComputesOnce {} unitRuntime ⟨0, []⟩ none awaited final ∧ final.produced = [(0, ())] ∧
      final.results = [(0, .ok ()), (1, .ok ())] := by
  have hstorable : Storable {} unitRuntime "order" ⟨0, []⟩ { key := "order", ttl := none } :=
    ⟨rfl, ⟨none, rfl⟩, nofun⟩
  refine ⟨computes_once {} unitRuntime "order" ⟨0, []⟩ none rfl awaited ?_ ?_, rfl, rfl⟩
  · have hserializes : unitRuntime.serialize () ≠ none := nofun
    simp [awaited, population, ClientEvent.Populates, ClientEvent.Serializes, hstorable,
      hserializes]
  · simp [awaited, population, Along, Clients.NothingExpires]

/-- A time to live of 0 is refused after the factory has returned, so that the next
client computes again. -/
theorem computes_twice_refused_ttl :
    Along (Clients.step {} unitRuntime) Clients.NothingExpires (Clients.initial ⟨0, []⟩)
        (population 0 (some (.finite 0)) ++ population 1 (some (.finite 0))) ∧
      (run (Clients.step {} unitRuntime) (Clients.initial ⟨0, []⟩)
        (population 0 (some (.finite 0)) ++ population 1 (some (.finite 0)))).produced =
          [(0, ()), (1, ())] ∧
      (run (Clients.step {} unitRuntime) (Clients.initial ⟨0, []⟩)
        (population 0 (some (.finite 0)) ++ population 1 (some (.finite 0)))).results =
          [(0, .error .invalidCacheTtl), (1, .error .invalidCacheTtl)] := by
  refine ⟨?_, ?_, ?_⟩
  · simp [population, Along, Clients.NothingExpires]
  · rfl
  · rfl

end ComputesOnce

end Spakky.Redis

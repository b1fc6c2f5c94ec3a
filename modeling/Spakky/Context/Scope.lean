import Spakky.Heap
import Spakky.Machine

/-!
The context-scoped values of an `ApplicationContext`. They stand in a
dictionary that a `ContextVar` refers to. An execution context has its own
bindings of such variables; a fork copies the bindings and not the dictionary,
so the copy refers to the same object until one of the two replaces it.

Contexts may run in different threads, so a call is a sequence of moves between
which other contexts may move: it takes the dictionary, reads or writes in it,
and binds it.
-/

namespace Spakky.Context

/-- `CONTEXT_ID` -/
def contextId : String := "__spakky_context_id__"

/-- The calls. A get of a CONTEXT-scoped Pod is the lookup and, when it finds
nothing, the store of the instance it has constructed; the construction may
call anything in between. -/
inductive Call (ν : Type) where
  | getContextId (uuid : ν)
  /-- The identifier is read through `get_context_id`, with the UUID that is
  stored if there is none. -/
  | getContextValue (key : String) (uuid : ν)
  | setContextValue (key : String) (value : ν)
  | clearContext
  | getContextCache (podName : String)
  | setContextCache (podName : String) (value : ν)
  deriving Repr

/-- Where the call of a context is; the dictionary is the one it has taken. -/
inductive Phase (ν : Type) where
  | idle
  | checkingId (dict : Nat) (uuid : ν)
  | reading (dict : Nat) (key : String)
  /-- `returnsId` if the call goes on to return the identifier. -/
  | writing (dict : Nat) (key : String) (value : ν) (returnsId : Bool)
  | binding (dict : Nat) (returnsId : Bool)
  deriving Repr

def Phase.refs {ν : Type} : Phase ν → List Nat
  | .idle => []
  | .checkingId dict _ => [dict]
  | .reading dict _ => [dict]
  | .writing dict _ _ _ => [dict]
  | .binding dict _ => [dict]

structure ExecutionContext (ν : Type) where
  bound : Option Nat
  phase : Phase ν
  deriving Repr

/-- The dictionary objects that the context can reach. -/
def ExecutionContext.refs {ν : Type} (context : ExecutionContext ν) : List Nat :=
  context.bound.toList ++ context.phase.refs

inductive Happening (ν : Type) where
  | cleared (context : Nat)
  | forked (parent child : Nat)
  | stored (context : Nat) (key : String) (value : ν)
  | returned (context : Nat) (key : String) (result : Option ν)
  deriving DecidableEq, Repr

/-- All execution contexts and the dictionaries. The history is not read by the
code. -/
structure Contexts (ν : Type) where
  dicts : Heap (String → Option ν)
  contexts : Heap (ExecutionContext ν)
  history : List (Happening ν)

/-- A new thread starts with no bindings. A fork may copy the bindings of a
context at any time. -/
inductive Action (ν : Type) where
  | spawn
  | fork (parent : Nat)
  | call (context : Nat) (call : Call ν)
  | advance (context : Nat)
  deriving Repr

namespace Contexts

variable {ν : Type}

def initial : Contexts ν := ⟨Heap.empty, Heap.empty, []⟩

variable (state : Contexts ν) (index : Nat) (context : ExecutionContext ν)

def record (happening : Happening ν) : Contexts ν :=
  { state with history := state.history ++ [happening] }

def setContext : Contexts ν :=
  { state with contexts := state.contexts.update index fun _ => context }

/-- `self.__context_cache.get({})`: the dictionary that is bound, or a new one
that is not bound yet. -/
def take (next : Nat → Phase ν) : Contexts ν :=
  match context.bound with
  | some dict => state.setContext index { context with phase := next dict }
  | none =>
    { state with dicts := state.dicts.alloc fun _ => none }.setContext index
      { context with phase := next state.dicts.fresh }

/-- A call of an idle context up to the first move in which others could see
it. -/
def begin : Call ν → Contexts ν
  | .getContextId uuid => state.take index context (.checkingId · uuid)
  | .getContextValue key uuid =>
    if key = contextId then state.take index context (.checkingId · uuid)
    else state.take index context (.reading · key)
  | .setContextValue key value =>
    -- `CannotAssignSystemContextIDError`
    if key = contextId then state
    else state.take index context (.writing · key value false)
  | .clearContext =>
    ({ state with dicts := state.dicts.alloc fun _ => none }.setContext index
      { context with bound := some state.dicts.fresh }).record (.cleared index)
  | .getContextCache podName => state.take index context (.reading · podName)
  | .setContextCache podName value => state.take index context (.writing · podName value false)

/-- The next move of a context that is in a call. -/
def continues : Contexts ν :=
  match context.phase with
  | .idle => state
  | .checkingId dict uuid =>
    match state.dicts.read dict with
    | none => state
    | some values =>
      if (values contextId).isSome then
        state.setContext index { context with phase := .reading dict contextId }
      else state.setContext index { context with phase := .writing dict contextId uuid true }
  | .reading dict key =>
    match state.dicts.read dict with
    | none => state
    | some values =>
      (state.setContext index { context with phase := .idle }).record
        (.returned index key (values key))
  | .writing dict key value returnsId =>
    ({ state with
        dicts := state.dicts.update dict fun values =>
          Function.update values key (some value) }.setContext index
      { context with phase := .binding dict returnsId }).record (.stored index key value)
  | .binding dict returnsId =>
    state.setContext index
      { bound := some dict, phase := if returnsId then .reading dict contextId else .idle }

/-- A move of a context that does not exist, and a call in a call, are no
moves. -/
def step : Action ν → Contexts ν
  | .spawn => { state with contexts := state.contexts.alloc ⟨none, .idle⟩ }
  | .fork parent =>
    match state.contexts.read parent with
    | none => state
    | some context =>
      { state with contexts := state.contexts.alloc ⟨context.bound, .idle⟩ }.record
        (.forked parent state.contexts.fresh)
  | .call index call =>
    match state.contexts.read index with
    | some ⟨bound, .idle⟩ => state.begin index ⟨bound, .idle⟩ call
    | _ => state
  | .advance index =>
    match state.contexts.read index with
    | none => state
    | some context => state.continues index context

end Contexts

/-- What one action can do and what it adds to the history. A context only ever
comes to dictionaries that it reached before or that are new, and only writes
and reads in dictionaries that it reaches. -/
inductive Moves {ν : Type} (state : Contexts ν) : Option (Happening ν) → Contexts ν → Prop where
  | stays : Moves state none state
  | spawns : Moves state none { state with contexts := state.contexts.alloc ⟨none, .idle⟩ }
  | forks (parent : Nat) (context : ExecutionContext ν)
      (hparent : state.contexts.read parent = some context) :
      Moves state (some (.forked parent state.contexts.fresh))
        ({ state with contexts := state.contexts.alloc ⟨context.bound, .idle⟩ }.record
          (.forked parent state.contexts.fresh))
  | goes (index : Nat) (context next : ExecutionContext ν)
      (hctx : state.contexts.read index = some context) (hrefs : next.refs ⊆ context.refs) :
      Moves state none (state.setContext index next)
  | reads (index : Nat) (context next : ExecutionContext ν) (dict : Nat)
      (values : String → Option ν) (key : String)
      (hctx : state.contexts.read index = some context) (hrefs : next.refs ⊆ context.refs)
      (hdict : dict ∈ context.refs) (hvals : state.dicts.read dict = some values) :
      Moves state (some (.returned index key (values key)))
        ((state.setContext index next).record (.returned index key (values key)))
  | takesNew (index : Nat) (context next : ExecutionContext ν)
      (hctx : state.contexts.read index = some context)
      (hrefs : next.refs ⊆ state.dicts.fresh :: context.refs) :
      Moves state none
        ({ state with dicts := state.dicts.alloc fun _ => none }.setContext index next)
  | clears (index : Nat) (context : ExecutionContext ν)
      (hctx : state.contexts.read index = some context) :
      Moves state (some (.cleared index))
        (({ state with dicts := state.dicts.alloc fun _ => none }.setContext index
          ⟨some state.dicts.fresh, .idle⟩).record (.cleared index))
  | writes (index : Nat) (context next : ExecutionContext ν) (dict : Nat) (key : String)
      (value : ν) (hctx : state.contexts.read index = some context)
      (hrefs : next.refs ⊆ context.refs) (hdict : dict ∈ context.refs) :
      Moves state (some (.stored index key value))
        (({ state with
            dicts := state.dicts.update dict fun values =>
              Function.update values key (some value) }.setContext index next).record
          (.stored index key value))

theorem Moves.history {ν : Type} {state next : Contexts ν} {happening : Option (Happening ν)}
    (hmoves : Moves state happening next) : next.history = state.history ++ happening.toList := by
  cases hmoves with
  | stays | spawns | goes | takesNew => exact (List.append_nil _).symm
  | forks | reads | clears | writes => rfl

namespace Contexts

variable {ν : Type} {state : Contexts ν} {index : Nat}

theorem take_moves {bound : Option Nat} (hctx : state.contexts.read index = some ⟨bound, .idle⟩)
    (next : Nat → Phase ν) (hnext : ∀ dict, (next dict).refs = [dict]) :
    Moves state none (state.take index ⟨bound, .idle⟩ next) := by
  cases bound with
  | some =>
    apply Moves.goes index _ _ hctx
    simp [ExecutionContext.refs, hnext]
  | none =>
    apply Moves.takesNew index _ _ hctx
    simp [ExecutionContext.refs, hnext]

theorem begin_moves {bound : Option Nat}
    (hctx : state.contexts.read index = some ⟨bound, .idle⟩) (call : Call ν) :
    ∃ happening, Moves state happening (state.begin index ⟨bound, .idle⟩ call) := by
  cases call with
  | getContextId | getContextCache | setContextCache => exact ⟨_, take_moves hctx _ fun _ => rfl⟩
  | getContextValue =>
    simp only [begin]
    split
    · exact ⟨_, take_moves hctx _ fun _ => rfl⟩
    · exact ⟨_, take_moves hctx _ fun _ => rfl⟩
  | setContextValue =>
    simp only [begin]
    split
    · exact ⟨_, .stays⟩
    · exact ⟨_, take_moves hctx _ fun _ => rfl⟩
  | clearContext => exact ⟨_, .clears index _ hctx⟩

theorem continues_moves {context : ExecutionContext ν}
    (hctx : state.contexts.read index = some context) :
    ∃ happening, Moves state happening (state.continues index context) := by
  obtain ⟨_, phase⟩ := context
  cases phase with
  | idle => exact ⟨_, .stays⟩
  | checkingId =>
    simp only [continues]
    split
    · exact ⟨_, .stays⟩
    · split
      · exact ⟨_, .goes index _ _ hctx (List.Subset.refl _)⟩
      · exact ⟨_, .goes index _ _ hctx (List.Subset.refl _)⟩
  | reading dict key =>
    simp only [continues]
    split
    · exact ⟨_, .stays⟩
    next values hvals =>
      refine ⟨_, .reads index _ _ dict values key hctx ?_ ?_ hvals⟩
      · simp [ExecutionContext.refs, Phase.refs]
      · simp [ExecutionContext.refs, Phase.refs]
  | writing dict key value =>
    refine ⟨_, .writes index _ _ dict key value hctx (List.Subset.refl _) ?_⟩
    simp [ExecutionContext.refs, Phase.refs]
  | binding _ returnsId =>
    refine ⟨_, .goes index _ _ hctx ?_⟩
    cases returnsId with
    | false | true => simp [ExecutionContext.refs, Phase.refs]

theorem step_moves (state : Contexts ν) (action : Action ν) :
    ∃ happening, Moves state happening (state.step action) := by
  cases action with
  | spawn => exact ⟨_, .spawns⟩
  | fork parent =>
    simp only [step]
    split
    · exact ⟨_, .stays⟩
    next context hparent => exact ⟨_, .forks parent context hparent⟩
  | call _ call =>
    simp only [step]
    split
    next bound hctx => exact begin_moves hctx call
    next => exact ⟨_, .stays⟩
  | advance =>
    simp only [step]
    split
    · exact ⟨_, .stays⟩
    next context hctx => exact continues_moves hctx

end Contexts

end Spakky.Context

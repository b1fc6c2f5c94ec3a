import Spakky.Context.Scope

/-!
What a context reads after it has cleared its values. From the clear on, the
context and the contexts that are forked from it form a family; the
dictionaries that the family reaches were all allocated by the family since the
clear, and no other context reaches one of them. So all that stands in them was
stored by the family since the clear.
-/

namespace Spakky.Context

open Machine List

variable {ν : Type}

/-- A fork of a member of the family adds the copy. -/
def joins (family : List Nat) : Happening ν → List Nat
  | .forked parent child => if parent ∈ family then child :: family else family
  | _ => family

/-- The context and all contexts that were forked from it, directly or not, in
the course of a history. -/
def descendants (root : Nat) (since : List (Happening ν)) : List Nat := since.foldl joins [root]

@[simp]
theorem descendants_append (root : Nat) (since : List (Happening ν)) (happening : Happening ν) :
    descendants root (since ++ [happening]) = joins (descendants root since) happening := by
  unfold descendants
  rw [foldl_append]
  rfl

theorem mem_joins {family : List Nat} {context : Nat} (hctx : context ∈ family)
    (happening : Happening ν) : context ∈ joins family happening := by
  cases happening with
  | forked =>
    simp only [joins]
    split
    · exact .tail _ hctx
    · exact hctx
  | cleared | stored | returned => exact hctx

theorem root_mem_descendants (root : Nat) (since : List (Happening ν)) :
    root ∈ descendants root since := by
  induction since using reverseRecOn with
  | nil => exact .head _
  | append_singleton _ happening ih =>
    rw [descendants_append]
    exact mem_joins ih happening

/-- The value was stored under the key in the course of the history, by the
context or by one that had been forked from it before. -/
def StoredWithin (root : Nat) (since : List (Happening ν)) (key : String) (value : ν) : Prop :=
  ∃ before context after, since = before ++ .stored context key value :: after ∧
    context ∈ descendants root before

theorem StoredWithin.append {root : Nat} {since : List (Happening ν)} {key : String} {value : ν}
    (hstored : StoredWithin root since key value) (later : List (Happening ν)) :
    StoredWithin root (since ++ later) key value := by
  obtain ⟨before, context, after, rfl, hfamily⟩ := hstored
  exact ⟨before, context, after ++ later, by simp, hfamily⟩

theorem StoredWithin.last {root context : Nat} {since : List (Happening ν)}
    (hfamily : context ∈ descendants root since) (key : String) (value : ν) :
    StoredWithin root (since ++ [.stored context key value]) key value :=
  ⟨since, context, [], rfl, hfamily⟩

/-- Contexts reach only dictionaries that exist. -/
def Allocated (state : Contexts ν) : Prop :=
  ∀ index context, state.contexts.read index = some context →
    ∀ dict ∈ context.refs, dict < state.dicts.fresh

variable {state : Contexts ν}

/-- A context that comes to existing dictionaries only. -/
theorem Allocated.setContext (halloc : Allocated state) (dicts : Heap (String → Option ν))
    (hgrows : state.dicts.fresh ≤ dicts.fresh) (index : Nat) (next : ExecutionContext ν)
    (hnext : ∀ dict ∈ next.refs, dict < dicts.fresh) :
    Allocated ({ state with dicts := dicts }.setContext index next) := by
  intro other context hread dict hdict
  rcases Heap.read_update_cases hread with ⟨-, _, -, rfl⟩ | ⟨-, hold⟩
  · exact hnext dict hdict
  · exact Nat.lt_of_lt_of_le (halloc other context hold dict hdict) hgrows

/-- A new context that reaches existing dictionaries only. -/
theorem Allocated.addContext (halloc : Allocated state) (next : ExecutionContext ν)
    (hnext : ∀ dict ∈ next.refs, dict < state.dicts.fresh) :
    Allocated { state with contexts := state.contexts.alloc next } := by
  intro other context hread dict hdict
  rcases Heap.read_alloc_cases hread with ⟨-, hold⟩ | ⟨-, rfl⟩
  · exact halloc other context hold dict hdict
  · exact hnext dict hdict

theorem ExecutionContext.bound_refs_subset (context : ExecutionContext ν) :
    (⟨context.bound, .idle⟩ : ExecutionContext ν).refs ⊆ context.refs := by
  simp [ExecutionContext.refs, Phase.refs]

theorem Allocated.moves {next : Contexts ν} {happening : Option (Happening ν)}
    (halloc : Allocated state) (hmoves : Moves state happening next) : Allocated next := by
  cases hmoves with
  | stays => exact halloc
  | spawns => exact halloc.addContext _ fun dict hdict => nomatch hdict
  | forks parent context hparent =>
    apply halloc.addContext
    intro dict hdict
    exact halloc parent context hparent dict (context.bound_refs_subset hdict)
  | goes index context _ hctx hrefs | reads index context _ _ _ _ hctx hrefs =>
    apply halloc.setContext state.dicts (Nat.le_refl _)
    intro dict hdict
    exact halloc index context hctx dict (hrefs hdict)
  | takesNew index context _ hctx hrefs =>
    apply halloc.setContext (state.dicts.alloc fun _ => none)
    · simp
    intro dict hdict
    rw [Heap.fresh_alloc]
    rcases mem_cons.mp (hrefs hdict) with rfl | hbefore
    · exact Nat.lt_succ_self _
    · exact Nat.lt_succ_of_lt (halloc index context hctx dict hbefore)
  | clears =>
    apply halloc.setContext (state.dicts.alloc fun _ => none)
    · simp
    intro dict hdict
    have hnew : dict = state.dicts.fresh := by
      simpa [ExecutionContext.refs, Phase.refs] using hdict
    rw [hnew, Heap.fresh_alloc]
    exact Nat.lt_succ_self _
  | writes index context _ written _ _ hctx hrefs =>
    apply halloc.setContext (state.dicts.update written _)
    · simp
    intro dict hdict
    rw [Heap.fresh_update]
    exact halloc index context hctx dict (hrefs hdict)

/-- Since a clear of `root`, the family reaches exactly the dictionaries of
`own` among those that any context reaches, and these hold only what the family
has stored. -/
structure Secluded (state : Contexts ν) (root : Nat) (since : List (Happening ν))
    (own : Set Nat) : Prop where
  existing : ∀ member ∈ descendants root since, member < state.contexts.fresh
  allocated : ∀ dict ∈ own, dict < state.dicts.fresh
  separated : ∀ index context, state.contexts.read index = some context →
    ∀ dict ∈ context.refs, dict ∈ own ↔ index ∈ descendants root since
  contents : ∀ dict ∈ own, ∀ values, state.dicts.read dict = some values →
    ∀ key value, values key = some value → StoredWithin root since key value

namespace Secluded

variable {state : Contexts ν} {root index : Nat} {since : List (Happening ν)} {own : Set Nat}
  {context : ExecutionContext ν}

section

variable (hsecl : Secluded state root since own)
include hsecl

variable {next : ExecutionContext ν}

/-- A move within the dictionaries that the context reached before. -/
theorem setContext (hctx : state.contexts.read index = some context)
    (hrefs : next.refs ⊆ context.refs) :
    Secluded (state.setContext index next) root since own where
  existing := by
    intro member hmember
    exact (Heap.fresh_update ..).symm ▸ hsecl.existing member hmember
  allocated := hsecl.allocated
  separated := by
    intro other context' hread dict hdict
    rcases Heap.read_update_cases hread with ⟨rfl, _, -, rfl⟩ | ⟨-, hold⟩
    · exact hsecl.separated other context hctx dict (hrefs hdict)
    · exact hsecl.separated other context' hold dict hdict
  contents := hsecl.contents

/-- A happening that is not a fork only adds to the history. -/
theorem record (happening : Happening ν)
    (hfamily : joins (descendants root since) happening = descendants root since) :
    Secluded (state.record happening) root (since ++ [happening]) own where
  existing := by
    rw [descendants_append, hfamily]
    exact hsecl.existing
  allocated := hsecl.allocated
  separated := by
    rw [descendants_append, hfamily]
    exact hsecl.separated
  contents := by
    intro dict hdict values hread key value hvalue
    exact (hsecl.contents dict hdict values hread key value hvalue).append _

/-- A new dictionary belongs to the family if a member has taken it. -/
theorem takesNew (halloc : Allocated state) (hctx : state.contexts.read index = some context)
    (hrefs : next.refs ⊆ state.dicts.fresh :: context.refs) :
    Secluded ({ state with dicts := state.dicts.alloc fun _ => none }.setContext index next)
      root since {dict | dict ∈ own ∨ dict = state.dicts.fresh ∧ index ∈ descendants root since}
    where
  existing := by
    intro member hmember
    exact (Heap.fresh_update ..).symm ▸ hsecl.existing member hmember
  allocated := by
    intro dict hdict
    change dict < (state.dicts.alloc _).fresh
    rw [Heap.fresh_alloc]
    rcases hdict with hown | ⟨rfl, -⟩
    · exact Nat.lt_succ_of_lt (hsecl.allocated dict hown)
    · exact Nat.lt_succ_self _
  separated := by
    -- a dictionary that a context reached before the move is not the new one
    have hbefore : ∀ other context', state.contexts.read other = some context' →
        ∀ dict ∈ context'.refs,
          (dict ∈ own ∨ dict = state.dicts.fresh ∧ index ∈ descendants root since) ↔
            other ∈ descendants root since := by
      intro other context' hread dict hdict
      have hlt := halloc other context' hread dict hdict
      rw [← hsecl.separated other context' hread dict hdict]
      exact or_iff_left fun hnew => Nat.ne_of_lt hlt hnew.1
    intro other context' hread dict hdict
    rcases Heap.read_update_cases hread with ⟨rfl, _, -, rfl⟩ | ⟨-, hold⟩
    · rcases mem_cons.mp (hrefs hdict) with rfl | hreached
      · have hnot : state.dicts.fresh ∉ own := fun hown =>
          Nat.lt_irrefl _ (hsecl.allocated _ hown)
        simp [hnot]
      · exact hbefore other context hctx dict hreached
    · exact hbefore other context' hold dict hdict
  contents := by
    intro dict hdict values hread key value hvalue
    rcases Heap.read_alloc_cases hread with ⟨hlt, hold⟩ | ⟨-, rfl⟩
    · refine hsecl.contents dict ?_ values hold key value hvalue
      exact hdict.resolve_right fun hnew => Nat.ne_of_lt hlt hnew.1
    · cases hvalue

/-- A new context is outside of the family unless it is the copy of a member. -/
theorem addContext (next : ExecutionContext ν) (later : List (Happening ν))
    (hfamily : ∀ member, member ∈ descendants root (since ++ later) ↔
      member ∈ descendants root since ∨ member = state.contexts.fresh ∧
      state.contexts.fresh ∈ descendants root (since ++ later))
    (hnext : ∀ dict ∈ next.refs, dict ∈ own ↔
      state.contexts.fresh ∈ descendants root (since ++ later)) :
    Secluded { state with contexts := state.contexts.alloc next } root (since ++ later) own where
  existing := by
    intro member hmember
    rw [Heap.fresh_alloc]
    rcases (hfamily member).mp hmember with hold | ⟨rfl, -⟩
    · exact Nat.lt_succ_of_lt (hsecl.existing member hold)
    · exact Nat.lt_succ_self _
  allocated := hsecl.allocated
  separated := by
    intro other context hread dict hdict
    rcases Heap.read_alloc_cases hread with ⟨hlt, hold⟩ | ⟨rfl, rfl⟩
    · rw [hsecl.separated other context hold dict hdict, hfamily other]
      exact (or_iff_left fun hnew => Nat.ne_of_lt hlt hnew.1).symm
    · exact hnext dict hdict
  contents := by
    intro dict hdict values hread key value hvalue
    exact (hsecl.contents dict hdict values hread key value hvalue).append later

theorem spawns :
    Secluded { state with contexts := state.contexts.alloc ⟨none, .idle⟩ } root since own := by
  have hfresh : state.contexts.fresh ∉ descendants root since := fun hmember =>
    Nat.lt_irrefl _ (hsecl.existing _ hmember)
  have hadded := hsecl.addContext ⟨none, .idle⟩ []
    (by intro member; simp [hfresh]) (by intro dict hdict; cases hdict)
  rwa [append_nil] at hadded

theorem forks {parent : Nat} (hparent : state.contexts.read parent = some context) :
    Secluded ({ state with contexts := state.contexts.alloc ⟨context.bound, .idle⟩ }.record
        (.forked parent state.contexts.fresh)) root
      (since ++ [.forked parent state.contexts.fresh]) own := by
  have hfresh : state.contexts.fresh ∉ descendants root since := fun hmember =>
    Nat.lt_irrefl _ (hsecl.existing _ hmember)
  -- the copy is a member if and only if its parent is one
  have hmember : ∀ member,
      member ∈ descendants root (since ++ [.forked parent state.contexts.fresh]) ↔
        member ∈ descendants root since ∨
          member = state.contexts.fresh ∧ parent ∈ descendants root since := by
    intro member
    by_cases hfamily : parent ∈ descendants root since
    · simp [joins, hfamily, or_comm]
    · simp [joins, hfamily]
  have hcopy : state.contexts.fresh ∈
      descendants root (since ++ [.forked parent state.contexts.fresh]) ↔
        parent ∈ descendants root since := by
    rw [hmember]
    simp [hfresh]
  have hadded : Secluded { state with contexts := state.contexts.alloc ⟨context.bound, .idle⟩ }
      root (since ++ [.forked parent state.contexts.fresh]) own := by
    apply hsecl.addContext ⟨context.bound, .idle⟩
    · intro member
      rw [hcopy]
      exact hmember member
    · intro dict hdict
      rw [hcopy]
      exact hsecl.separated parent context hparent dict (context.bound_refs_subset hdict)
  exact ⟨hadded.existing, hadded.allocated, hadded.separated, hadded.contents⟩

/-- A write goes into a dictionary of the family only if a member writes. -/
theorem writes {written : Nat} (key : String) (value : ν)
    (hctx : state.contexts.read index = some context) (hrefs : next.refs ⊆ context.refs)
    (hwritten : written ∈ context.refs) :
    Secluded (({ state with
        dicts := state.dicts.update written fun values =>
          Function.update values key (some value) }.setContext index next).record
      (.stored index key value)) root (since ++ [.stored index key value]) own where
  existing := by
    rw [descendants_append]
    exact (hsecl.setContext hctx hrefs).existing
  allocated := by
    intro dict hdict
    exact (Heap.fresh_update ..).symm ▸ hsecl.allocated dict hdict
  separated := by
    rw [descendants_append]
    exact (hsecl.setContext hctx hrefs).separated
  contents := by
    intro dict hdict values hread key' value' hvalue
    rcases Heap.read_update_cases hread with ⟨rfl, old, hold, rfl⟩ | ⟨-, hold⟩
    · rcases Machine.update_cases hvalue with ⟨rfl, hnew⟩ | ⟨-, hother⟩
      · cases hnew
        exact .last ((hsecl.separated index context hctx dict hwritten).mp hdict) _ _
      · exact (hsecl.contents dict hdict old hold key' value' hother).append _
    · exact (hsecl.contents dict hdict values hold key' value' hvalue).append _

theorem moves (halloc : Allocated state) {next : Contexts ν} {happening : Option (Happening ν)}
    (hmoves : Moves state happening next) :
    ∃ own', Secluded next root (since ++ happening.toList) own' := by
  cases hmoves with
  | stays => exact ⟨own, by rwa [Option.toList_none, append_nil]⟩
  | spawns => exact ⟨own, by rw [Option.toList_none, append_nil]; exact hsecl.spawns⟩
  | forks _ _ hparent => exact ⟨own, hsecl.forks hparent⟩
  | goes _ _ _ hctx hrefs =>
    rw [Option.toList_none, append_nil]
    exact ⟨own, hsecl.setContext hctx hrefs⟩
  | reads _ _ _ _ _ _ hctx hrefs =>
    exact ⟨own, (hsecl.setContext hctx hrefs).record _ rfl⟩
  | takesNew _ _ _ hctx hrefs =>
    rw [Option.toList_none, append_nil]
    exact ⟨_, hsecl.takesNew halloc hctx hrefs⟩
  | clears _ _ hctx =>
    refine ⟨_, (hsecl.takesNew halloc hctx ?_).record _ rfl⟩
    simp [ExecutionContext.refs, Phase.refs]
  | writes _ _ _ _ key value hctx hrefs hwritten =>
    exact ⟨own, hsecl.writes key value hctx hrefs hwritten⟩

end

/-- The clear itself: the context holds a new dictionary that no one else
holds. -/
theorem clears (halloc : Allocated state) (hctx : state.contexts.read index = some context) :
    Secluded (({ state with dicts := state.dicts.alloc fun _ => none }.setContext index
        ⟨some state.dicts.fresh, .idle⟩).record (.cleared index)) index []
      {dict | dict = state.dicts.fresh} where
  existing := by
    intro member hmember
    rw [mem_singleton.mp hmember]
    exact (Heap.fresh_update ..).symm ▸ Heap.lt_of_read hctx
  allocated := by
    rintro dict rfl
    exact (Heap.fresh_alloc ..).symm ▸ Nat.lt_succ_self _
  separated := by
    intro other context' hread dict hdict
    rcases Heap.read_update_cases hread with ⟨rfl, _, -, rfl⟩ | ⟨hne, hold⟩
    · simpa [descendants, ExecutionContext.refs, Phase.refs] using hdict
    · have hlt := halloc other context' hold dict hdict
      simp [descendants, hne, Nat.ne_of_lt hlt]
  contents := by
    rintro dict rfl values hread key value hvalue
    rcases Heap.read_alloc_cases hread with ⟨hlt, -⟩ | ⟨-, rfl⟩
    · exact absurd hlt (Nat.lt_irrefl _)
    · cases hvalue

end Secluded

/-- What holds after every run: each clear has secluded the context, and every
value that a context was given after a clear was stored by its family since. -/
structure Justified (state : Contexts ν) : Prop where
  allocated : Allocated state
  secluded : ∀ before root since, state.history = before ++ .cleared root :: since →
    ∃ own, Secluded state root since own
  returned : ∀ before root since key value after,
    state.history = before ++ .cleared root :: (since ++ .returned root key (some value) :: after) →
    StoredWithin root since key value

theorem Justified.moves {next : Contexts ν} {happening : Option (Happening ν)}
    (hjust : Justified state) (hmoves : Moves state happening next) : Justified next where
  allocated := hjust.allocated.moves hmoves
  secluded := by
    intro before root since hhist
    rw [hmoves.history] at hhist
    cases happening with
    | none =>
      rw [Option.toList_none, append_nil] at hhist
      obtain ⟨_, hsecl⟩ := hjust.secluded before root since hhist
      simpa using hsecl.moves hjust.allocated hmoves
    | some =>
      rcases eq_nil_or_concat since with rfl | ⟨earlier, _, rfl⟩
      · obtain ⟨-, hlast⟩ := append_inj' hhist rfl
        cases hlast
        cases hmoves with
        | clears _ _ hctx => exact ⟨_, .clears hjust.allocated hctx⟩
      · rw [concat_eq_append, ← cons_append, ← append_assoc] at hhist
        obtain ⟨hearl, hlast⟩ := append_inj' hhist rfl
        cases hlast
        obtain ⟨_, hsecl⟩ := hjust.secluded before root earlier hearl
        rw [concat_eq_append]
        exact hsecl.moves hjust.allocated hmoves
  returned := by
    intro before root since key value after hhist
    rw [hmoves.history] at hhist
    cases happening with
    | none =>
      rw [Option.toList_none, append_nil] at hhist
      exact hjust.returned before root since key value after hhist
    | some =>
      rcases eq_nil_or_concat after with rfl | ⟨earlier, last, rfl⟩
      · rw [← cons_append, ← append_assoc] at hhist
        obtain ⟨hearl, hlast⟩ := append_inj' hhist rfl
        obtain ⟨own, hsecl⟩ := hjust.secluded before root since hearl
        obtain rfl := singleton_injective hlast
        -- the reader is a member of its own family, so what it reads in is its own
        generalize hres : some value = result at hmoves
        cases hmoves with
        | reads _ context _ dict values key hctx _ hdict hvals =>
          have hown : dict ∈ own := (hsecl.separated _ context hctx dict hdict).mpr
            (root_mem_descendants _ since)
          exact hsecl.contents dict hown values hvals key value hres.symm
      · have hsplit : before ++ Happening.cleared root ::
            (since ++ Happening.returned root key (some value) :: earlier.concat last) =
            (before ++ .cleared root :: (since ++ .returned root key (some value) :: earlier)) ++
              [last] := by simp
        rw [hsplit] at hhist
        obtain ⟨hearl, -⟩ := append_inj' hhist rfl
        exact hjust.returned before root since key value earlier hearl

theorem Justified.initial : Justified (Contexts.initial : Contexts ν) where
  allocated := by intro index context hread; cases hread
  secluded := by intro before root since hhist; cases before <;> cases hhist
  returned := by
    intro before root since key value after hhist
    cases before <;> cases hhist

theorem justified_run (actions : List (Action ν)) :
    Justified (run Contexts.step Contexts.initial actions) := by
  refine invariant_run ?_ Justified.initial actions
  intro state action hjust
  obtain ⟨_, hmoves⟩ := state.step_moves action
  exact hjust.moves hmoves

/-- `AUTH_CONTEXT_CONTEXT_KEY` -/
def authContextKey : String := "spakky.auth.context"

/-- In every interleaving, a value that a context is given after it has cleared
its values was stored since, by itself or by a context that had been forked
from it since. So an AuthContext that belongs to another message, that is one
that this family has not seeded, is never given to it. -/
theorem returned_stored_since_clear (actions : List (Action ν))
    (before : List (Happening ν)) (root : Nat) (since : List (Happening ν)) (key : String)
    (value : ν) (after : List (Happening ν))
    (hhistory : (run Contexts.step Contexts.initial actions).history =
      before ++ .cleared root :: (since ++ .returned root key (some value) :: after)) :
    StoredWithin root since key value ∧
    ∀ ofOtherMessage : ν → Prop,
      (∀ seeded, StoredWithin root since authContextKey seeded → ¬ ofOtherMessage seeded) →
      key = authContextKey → ¬ ofOtherMessage value := by
  have hstored : StoredWithin root since key value :=
    (justified_run actions).returned before root since key value after hhistory
  refine ⟨hstored, ?_⟩
  intro ofOtherMessage hothers hkey
  exact hothers value (hkey ▸ hstored)

/-- A context seeds the AuthContext of its message and is forked; the copy
clears its values, seeds the one of another message, and asks for it. -/
def twoMessages : List (Action Nat) :=
  [.spawn, .call 0 (.setContextValue authContextKey 1), .advance 0, .advance 0, .fork 0,
    .call 1 .clearContext, .call 1 (.setContextValue authContextKey 2), .advance 1,
    .call 0 (.getContextValue authContextKey 7), .advance 1,
    .call 1 (.getContextValue authContextKey 7), .advance 0, .advance 1]

theorem returned_stored_since_clear_two_messages :
    (run Contexts.step Contexts.initial twoMessages).history =
      [.stored 0 authContextKey 1, .forked 0 1] ++ .cleared 1 ::
        ([.stored 1 authContextKey 2, .returned 0 authContextKey (some 1)] ++
          .returned 1 authContextKey (some 2) :: []) ∧
    StoredWithin 1 [.stored 1 authContextKey 2, .returned 0 authContextKey (some 1)]
      authContextKey 2 :=
  have hhistory : (run Contexts.step Contexts.initial twoMessages).history =
      [.stored 0 authContextKey 1, .forked 0 1] ++ .cleared 1 ::
        ([.stored 1 authContextKey 2, .returned 0 authContextKey (some 1)] ++
          .returned 1 authContextKey (some 2) :: []) := by decide
  ⟨hhistory, (returned_stored_since_clear twoMessages _ 1 _ authContextKey 2 [] hhistory).1⟩

end Spakky.Context

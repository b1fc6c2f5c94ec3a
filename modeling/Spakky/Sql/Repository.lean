import Spakky.Effect

/-!
`AbstractGenericRepository`: where a version conflict that the session reports
becomes a `VersionConflictError`, and when aggregates are handed to the
collector. The aggregates that the operations return are left out.
-/

namespace Spakky.Sql

open Effect Exec List

/-- The calls of the session. -/
inductive Step (α : Type) where
  | merge (aggregate : α)
  | delete (aggregate : α)
  | flush

inductive PersistencyError (ι ε : Type) where
  | staleData
  | versionConflict (uid version : ι)
  | other (error : ε)

/-- What the session was asked for and whether it reported `StaleDataError`, and
the collected aggregates, each with the calls before it. -/
structure Work (α : Type) where
  steps : List (Step α)
  stale : Bool := false
  collected : List (α × List (Step α)) := []

abbrev RepositoryM (α ι ε : Type) := Exec (Work α) (PersistencyError ι ε)

/-- The session answers each call as it likes. -/
structure Repository (α ι ε : Type) where
  uid : α → ι
  version : α → ι
  answer : List (Step α) → Step α → Except (PersistencyError ι ε) Unit

namespace Repository

variable {α ι ε : Type} (repository : Repository α ι ε)

def call (step : Step α) : RepositoryM α ι ε Unit := fun work =>
  (repository.answer work.steps step,
    { work with
      steps := work.steps ++ [step]
      stale := work.stale || repository.answer work.steps step matches .error .staleData })

def collect (aggregate : α) : RepositoryM α ι ε Unit :=
  modify fun work => { work with collected := work.collected ++ [(aggregate, work.steps)] }

/-- `try: x; except StaleDataError: raise VersionConflictError(...)` -/
def translated (aggregate : α) (x : RepositoryM α ι ε Unit) : RepositoryM α ι ε Unit :=
  onError x fun
    | .staleData =>
      raise (.versionConflict (repository.uid aggregate) (repository.version aggregate))
    | _ => pure ()

def merge (aggregate : α) : RepositoryM α ι ε Unit := repository.call (.merge aggregate)

def mergeDeleted (aggregate : α) : RepositoryM α ι ε Unit := do
  repository.merge aggregate
  repository.call (.delete aggregate)

/-- An operation on one aggregate flushes and collects inside of its `try`. -/
def one (touch : α → RepositoryM α ι ε Unit) (aggregate : α) : RepositoryM α ι ε Unit :=
  repository.translated aggregate do
    touch aggregate
    repository.call .flush
    collect aggregate

/-- An operation on several aggregates has a `try` around each of them. -/
def all (touch : α → RepositoryM α ι ε Unit) (aggregates : List α) : RepositoryM α ι ε Unit := do
  forEach (fun aggregate => repository.translated aggregate (touch aggregate)) aggregates
  repository.call .flush
  forEach collect aggregates

def save := repository.one repository.merge

def saveAll := repository.all repository.merge

def delete := repository.one repository.mergeDeleted

def deleteAll := repository.all repository.mergeDeleted

/-- The error is the session's own. -/
def Fails (error : PersistencyError ι ε) (work : Work α) : Prop :=
  work.collected = [] ∧ (work.stale = true ↔ error = .staleData)

/-- Nothing is collected, and a conflict is raised as a conflict of an aggregate. -/
def Raises (aggregates : List α) (error : PersistencyError ι ε) (work : Work α) : Prop :=
  work.collected = [] ∧ (work.stale = true → ∃ aggregate ∈ aggregates,
    error = .versionConflict (repository.uid aggregate) (repository.version aggregate))

/-- An operation after some calls of the session: without a conflict the aggregates are
collected in order, after the flush. -/
def Surfaces (steps : List (Step α)) (operation : RepositoryM α ι ε Unit) (aggregates : List α) :
    Prop :=
  Triple (· = { steps }) operation
    (fun _ work => work.stale = false ∧ (∃ steps, work.steps = steps ++ [.flush]) ∧
      work.collected = aggregates.map (·, work.steps)) (repository.Raises aggregates)

/-- The session answers some calls, one after the other, without an error. -/
def Accepts (steps : List (Step α)) : List (Step α) → Prop
  | [] => True
  | step :: rest => repository.answer steps step = .ok () ∧ Accepts (steps ++ [step]) rest

/-- The calls before the flush return, and the flush reports a conflict. -/
def FlushConflicts (steps calls : List (Step α)) : Prop :=
  repository.Accepts steps calls ∧ repository.answer (steps ++ calls) .flush = .error .staleData

/-- The computation makes the calls and nothing else, and raises where one is refused. -/
def Performs (E : PersistencyError ι ε → Work α → Prop) (x : RepositoryM α ι ε Unit)
    (calls : List (Step α)) : Prop :=
  ∀ steps, Triple (· = { steps }) x
    (fun _ work => repository.Accepts steps calls ∧ work = { steps := steps ++ calls })
    fun error work => ¬ repository.Accepts steps calls ∧ E error work

variable {repository} {E : PersistencyError ι ε → Work α → Prop}

theorem accepts_append {steps first second : List (Step α)} :
    repository.Accepts steps (first ++ second) ↔
      repository.Accepts steps first ∧ repository.Accepts (steps ++ first) second := by
  induction first generalizing steps with
  | nil => simp [Accepts]
  | cons step rest ih => simp [Accepts, ih, and_assoc]

theorem call_performs (step : Step α) :
    repository.Performs Fails (repository.call step) [step] := by
  rintro steps _ rfl
  cases hanswer : repository.answer steps step with
  | ok => simp [call, hanswer, Accepts]
  | error error => cases error <;> simp [call, hanswer, Accepts, Fails]

theorem Performs.bind {x y : RepositoryM α ι ε Unit} {first second : List (Step α)}
    (hx : repository.Performs E x first) (hy : repository.Performs E y second) :
    repository.Performs E (do x; y) (first ++ second) := by
  intro steps
  refine .bind ((hx steps).weaken (fun _ => id) (fun _ _ => id) ?_) fun _ => ?_
  · rintro error work ⟨hrefused, herror⟩
    exact ⟨fun haccepts => hrefused (accepts_append.mp haccepts).1, herror⟩
  · rintro _ ⟨hfirst, rfl⟩
    refine (hy (steps ++ first)).weaken (fun _ => id) ?_ ?_ _ rfl
    · rintro _ work ⟨hsecond, rfl⟩
      exact ⟨accepts_append.mpr ⟨hfirst, hsecond⟩, by rw [append_assoc]⟩
    · rintro error work ⟨hrefused, herror⟩
      exact ⟨fun haccepts => hrefused (accepts_append.mp haccepts).2, herror⟩

theorem forEach_performs {body : α → RepositoryM α ι ε Unit} {calls : α → List (Step α)}
    {aggregates : List α}
    (hbody : ∀ aggregate ∈ aggregates, repository.Performs E (body aggregate) (calls aggregate)) :
    repository.Performs E (forEach body aggregates) (aggregates.flatMap calls) := by
  induction aggregates with
  | nil =>
    rintro steps _ rfl
    exact ⟨trivial, by rw [flatMap_nil, append_nil]⟩
  | cons aggregate rest ih =>
    exact (hbody aggregate (.head _)).bind (ih fun other hmem => hbody other (.tail _ hmem))

theorem translated_triple {P : Work α → Prop} {Q : Unit → Work α → Prop} {R : Prop}
    {aggregates : List α} {aggregate : α} {x : RepositoryM α ι ε Unit}
    (hx : Triple P x Q fun error work => R ∧ Fails error work) (hmem : aggregate ∈ aggregates) :
    Triple P (repository.translated aggregate x) Q
      fun error work => R ∧ repository.Raises aggregates error work := by
  intro work hwork
  have hrun := hx work hwork
  rw [translated, onError, attempt_bind_run]
  cases hres : x work with
  | mk result =>
    rw [hres] at hrun
    cases result with
    | ok => exact hrun
    | error error =>
      obtain ⟨hrefused, hnone, hstale⟩ := hrun
      cases error with
      | staleData => exact ⟨hrefused, hnone, fun _ => ⟨aggregate, hmem, rfl⟩⟩
      | versionConflict | other =>
        exact ⟨hrefused, hnone, fun hreported => absurd (hstale.mp hreported) (by simp)⟩

theorem collectAll_run (aggregates : List α) (work : Work α) :
    (forEach collect aggregates : RepositoryM α ι ε Unit) work =
      (.ok (), { work with collected := work.collected ++ aggregates.map (·, work.steps) }) := by
  induction aggregates generalizing work with
  | nil => simp [forEach]
  | cons _ _ ih => simp [forEach, collect, ih]

section

variable {touch : α → RepositoryM α ι ε Unit} {calls : α → List (Step α)}
  (htouch : ∀ aggregate, repository.Performs Fails (touch aggregate) (calls aggregate))
  (steps : List (Step α))
include htouch

theorem one_surfaces (aggregate : α) :
    repository.Surfaces steps (repository.one touch aggregate) [aggregate] := by
  have htouched := (htouch aggregate steps).weaken (fun _ => id) (fun _ _ => And.right)
    fun _ _ hfails => And.intro trivial hfails.2
  refine (translated_triple (.bind htouched fun _ => .bind ((call_performs .flush _).weaken
    (fun _ => id) (fun _ _ => And.right) fun _ _ hfails => ⟨trivial, hfails.2⟩) fun _ =>
      .modify ?_) (.head _)).weaken (fun _ => id) (fun _ _ => id) fun _ _ => And.right
  rintro _ rfl
  exact ⟨rfl, ⟨_, rfl⟩, rfl⟩

/-- The flush of several aggregates is outside of the `try`. -/
theorem all_surfaces_iff (aggregates : List α) :
    repository.Surfaces steps (repository.all touch aggregates) aggregates ↔
      ¬ repository.FlushConflicts steps (aggregates.flatMap calls) := by
  have hloop : repository.Performs (repository.Raises aggregates) (forEach
      (fun aggregate => repository.translated aggregate (touch aggregate)) aggregates)
        (aggregates.flatMap calls) :=
    forEach_performs fun aggregate hmem steps => translated_triple (htouch aggregate steps) hmem
  constructor
  · rintro hsurfaces ⟨haccepts, hstale⟩
    cases hrun : forEach (fun aggregate => repository.translated aggregate (touch aggregate))
        aggregates { steps } using exec_cases with
    | error => exact ((hloop steps).error rfl hrun).1 haccepts
    | ok =>
      obtain ⟨_, rfl⟩ := (hloop steps).ok rfl hrun
      have hall : repository.all touch aggregates { steps } = (.error .staleData, _) :=
        (bind_ok _ hrun).trans (bind_error _ (by rw [call, hstale]))
      obtain ⟨_, _, hconflict⟩ := (hsurfaces.error rfl hall).2 (by simp)
      cases hconflict
  · intro hflush
    let flushed : Work α := { steps := steps ++ aggregates.flatMap calls ++ [.flush] }
    refine .bind ((hloop steps).weaken (fun _ => id) (fun _ _ => id) fun _ _ => And.right)
      fun _ => .bind (M := fun _ => (· = flushed)) ?_ fun _ => ?_
    · rintro _ ⟨haccepts, rfl⟩
      cases hanswer : repository.answer (steps ++ aggregates.flatMap calls) .flush with
      | ok => simp [call, hanswer, flushed]
      | error error =>
        cases error with
        | staleData => exact absurd ⟨haccepts, hanswer⟩ hflush
        | versionConflict | other => simp [call, hanswer, Raises]
    · rintro _ rfl
      rw [collectAll_run]
      exact ⟨rfl, ⟨_, rfl⟩, rfl⟩

end

theorem conflicts_surface_iff (repository : Repository α ι ε) (steps : List (Step α)) :
    (∀ aggregate, repository.Surfaces steps (repository.save aggregate) [aggregate]) ∧
    (∀ aggregate, repository.Surfaces steps (repository.delete aggregate) [aggregate]) ∧
    ∀ aggregates,
      (repository.Surfaces steps (repository.saveAll aggregates) aggregates ↔
        ¬ repository.FlushConflicts steps (aggregates.flatMap fun item => [.merge item])) ∧
      (repository.Surfaces steps (repository.deleteAll aggregates) aggregates ↔
        ¬ repository.FlushConflicts steps
          (aggregates.flatMap fun item => [.merge item, .delete item])) := by
  have hmerge (item : α) : repository.Performs Fails (repository.merge item) [.merge item] :=
    call_performs _
  have hdelete (item : α) : repository.Performs Fails (repository.mergeDeleted item)
      [.merge item, .delete item] := (hmerge item).bind (call_performs _)
  exact ⟨one_surfaces hmerge steps, one_surfaces hdelete steps, fun aggregates =>
    ⟨all_surfaces_iff hmerge steps aggregates, all_surfaces_iff hdelete steps aggregates⟩⟩

/-- The versions are checked when the session flushes. -/
def flushChecks : Repository Nat Nat Unit where
  uid := id
  version := id
  answer _
    | .flush => .error .staleData
    | _ => .ok ()

theorem saveAll_leaks_stale_data :
    (flushChecks.saveAll [1] { steps := [] }).1 = .error .staleData ∧
      (flushChecks.save 1 { steps := [] }).1 = .error (.versionConflict 1 1) :=
  ⟨rfl, rfl⟩

end Repository

end Spakky.Sql

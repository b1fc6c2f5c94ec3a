import Spakky.Agent.Schema

/-!
The input schema of a tool and the binding of a model's payload to the tool's
parameters. The schema leaves out every parameter called `self` or `cls`, the
call signature drops only the first one. A payload with a key `args` or
`kwargs` is a structured call, any other one is the keyword arguments.
-/

namespace Spakky.Agent

open Effect List

inductive ParameterKind where
  | positionalOnly
  | positionalOrKeyword
  | varPositional
  | keywordOnly
  | varKeyword
  deriving DecidableEq, Repr

/-- A parameter with its resolved annotation; `ω` are the default values. -/
structure Parameter (ω : Type) where
  name : String
  kind : ParameterKind
  default : Option ω
  annotation : Option Annotation

/-- `resolves` says whether `get_type_hints` returns. -/
structure ToolFunction (ω : Type) where
  parameters : List (Parameter ω)
  resolves : Bool
  nodup : (parameters.map Parameter.name).Nodup

structure AgentToolBindingError where
  message : String

structure AgentToolBoundInvocation (ω : Type) where
  args : List (JsonValue ⊕ ω)
  kwargs : List (String × (JsonValue ⊕ ω))

variable {ω : Type}

def Parameter.isOwner (p : Parameter ω) : Bool := p.name == "self" || p.name == "cls"

def validateSchemaParameter (p : Parameter ω) : Except AgentError Unit :=
  match p.kind with
  | .positionalOnly =>
    .error (.agentDefinitionError "Agent tool parameters cannot be positional-only")
  | .varPositional | .varKeyword =>
    .error (.agentDefinitionError "Agent tool parameters cannot use variable arguments")
  | .positionalOrKeyword | .keywordOnly => .ok ()

/-- One round of the loop of `_build_input_schema`. -/
def parameterSchema (p : Parameter ω) : Except AgentError (String × Bool × SchemaExtraction) := do
  validateSchemaParameter p
  match p.annotation with
  | none => .error (.agentDefinitionError "Agent tool parameters must be type annotated")
  | some hint => do
      let extracted ← schemaForAnnotation hint ("Agent tool parameter '" ++ p.name ++ "'") [p.name]
      pure (p.name, p.default.isNone, extracted)

def buildInputSchema (function : ToolFunction ω) (schemaName : String) :
    Except AgentError SchemaExtraction :=
  if function.resolves then do
    let fields ← (function.parameters.filter (!·.isOwner)).mapM parameterSchema
    -- the parameters are described as the fields of a dataclass are, under a title
    pure { dataclassSchema fields with
      schema := ("title", .string (schemaName ++ ".input")) :: (dataclassSchema fields).schema }
  else .error (.agentDefinitionError "Agent tool type annotations cannot be resolved")

def dropOwnerParameter : List (Parameter ω) → List (Parameter ω)
  | [] => []
  | p :: rest => if p.isOwner then rest else p :: rest

/-- The keyword argument of that name, or else the default. -/
def Parameter.given (kwargs : JsonObject) (p : Parameter ω) : Option (JsonValue ⊕ ω) :=
  match kwargs.lookup p.name with
  | some value => some (.inl value)
  | none => p.default.map .inr

/-- How `BoundArguments.args` and `.kwargs` pass a value on. -/
def Parameter.passes (p : Parameter ω) (value : JsonValue ⊕ ω)
    (later : AgentToolBoundInvocation ω) : AgentToolBoundInvocation ω :=
  if p.kind = .keywordOnly then { later with kwargs := (p.name, value) :: later.kwargs }
  else { later with args := value :: later.args }

/-- The second loop of `Signature.bind`, with `apply_defaults`; no value is the
`TypeError`. -/
def bindKeywords : List (Parameter ω) → JsonObject → Option (AgentToolBoundInvocation ω)
  | [], kwargs => if kwargs.isEmpty then some ⟨[], []⟩ else none
  | p :: rest, kwargs =>
    match p.kind with
    | .varKeyword => some ⟨[], kwargs.map fun entry => (entry.1, .inl entry.2)⟩
    | .varPositional => bindKeywords rest kwargs
    | .positionalOnly => do
        guard (kwargs.lookup p.name).isNone
        let value ← p.default
        let later ← bindKeywords rest kwargs
        pure (p.passes (.inr value) later)
    | .positionalOrKeyword | .keywordOnly => do
        let value ← p.given kwargs
        let later ← bindKeywords rest (popEntry p.name kwargs)
        pure (p.passes value later)

def bindArguments : List (Parameter ω) → List JsonValue → JsonObject →
    Option (AgentToolBoundInvocation ω)
  | parameters, [], kwargs => bindKeywords parameters kwargs
  | [], _ :: _, _ => none
  | p :: rest, value :: values, kwargs =>
    match p.kind with
    | .varKeyword | .keywordOnly => none
    | .varPositional => do
        let later ← bindKeywords rest kwargs
        pure { later with args := (value :: values).map .inl }
    | kind => do
        guard (kind = .positionalOnly ∨ (kwargs.lookup p.name).isNone)
        let later ← bindArguments rest values kwargs
        pure (p.passes (.inl value) later)

def parseInvocationPayload (payload : JsonObject) :
    Except AgentToolBindingError (List JsonValue × JsonObject) := do
  if (payload.lookup "args").isNone && (payload.lookup "kwargs").isNone then
    return ([], payload)
  if payload.any fun entry => entry.1 != "args" && entry.1 != "kwargs" then
    throw ⟨"Agent tool structured invocation payload cannot mix direct arguments"⟩
  let args ← match (payload.lookup "args").getD (.array []) with
    | .array items => pure items
    | _ => throw ⟨"Agent tool invocation args must be an array"⟩
  let kwargs ← match (payload.lookup "kwargs").getD (.object []) with
    | .object entries => pure entries
    | _ => throw ⟨"Agent tool invocation kwargs must be an object"⟩
  return (args, kwargs)

def bindAgentToolInvocation (function : ToolFunction ω) (payload : JsonObject) :
    Except AgentToolBindingError (AgentToolBoundInvocation ω) := do
  let invocation ← parseInvocationPayload payload
  match bindArguments (dropOwnerParameter function.parameters) invocation.1 invocation.2 with
  | some bound => pure bound
  | none => throw ⟨"Agent tool invocation payload cannot be bound"⟩

def properties (schema : JsonObject) : JsonObject :=
  match schema.lookup "properties" with
  | some (.object entries) => entries
  | _ => []

def required (schema : JsonObject) : List JsonValue :=
  match schema.lookup "required" with
  | some (.array names) => names
  | _ => []

/-- The payload is valid for an object schema without additional properties;
`validates` is validity for the schema of a property. -/
def Conforms (validates : JsonValue → JsonValue → Prop) (schema payload : JsonObject) : Prop :=
  (∀ entry ∈ payload, ∃ property, (entry.1, property) ∈ properties schema ∧
    validates property entry.2) ∧
  ∀ name, .string name ∈ required schema → (payload.lookup name).isSome

theorem parameterSchema_ok {p : Parameter ω} {field : String × Bool × SchemaExtraction}
    (hfield : parameterSchema p = .ok field) :
    field.1 = p.name ∧ field.2.1 = p.default.isNone ∧
      (p.kind = .positionalOrKeyword ∨ p.kind = .keywordOnly) := by
  obtain ⟨_, hvalid, hfield⟩ := except_bind_ok hfield
  split at hfield
  · cases hfield
  · obtain ⟨_, _, hfield⟩ := except_bind_ok hfield
    cases hfield
    refine ⟨rfl, rfl, ?_⟩
    cases hkind : p.kind <;> simp [validateSchemaParameter, hkind] at hvalid ⊢

theorem exists_field_iff {parameters : List (Parameter ω)}
    {fields : List (String × Bool × SchemaExtraction)}
    (hfields : parameters.mapM parameterSchema = .ok fields) (holds : String → Bool → Prop) :
    (∃ field ∈ fields, holds field.1 field.2.1) ↔
      ∃ p ∈ parameters, holds p.name p.default.isNone := by
  simp only [mem_of_mapM_ok hfields]
  constructor
  · rintro ⟨field, ⟨p, hp, hfield⟩, hholds⟩
    obtain ⟨hname, hdefault, _⟩ := parameterSchema_ok hfield
    rw [hname, hdefault] at hholds
    exact ⟨p, hp, hholds⟩
  · rintro ⟨p, hp, hholds⟩
    obtain ⟨field, hfield⟩ := mapM_ok_of_mem hfields hp
    obtain ⟨hname, hdefault, _⟩ := parameterSchema_ok hfield
    rw [← hname, ← hdefault] at hholds
    exact ⟨field, ⟨p, hp, hfield⟩, hholds⟩

/-- What the schema declares and requires are the parameters it was built from. -/
theorem buildInputSchema_ok {function : ToolFunction ω} {schemaName : String}
    {extraction : SchemaExtraction}
    (haccepted : buildInputSchema function schemaName = .ok extraction) :
    (∀ name, name ∈ (properties extraction.schema).map Prod.fst ↔
      ∃ p ∈ function.parameters.filter (!·.isOwner), p.name = name) ∧
    (∀ name, .string name ∈ required extraction.schema ↔
      ∃ p ∈ function.parameters.filter (!·.isOwner), p.default = none ∧ p.name = name) ∧
    ∀ p ∈ function.parameters.filter (!·.isOwner),
      p.kind = .positionalOrKeyword ∨ p.kind = .keywordOnly := by
  unfold buildInputSchema at haccepted
  split at haccepted
  swap
  · cases haccepted
  obtain ⟨fields, hfields, hext⟩ := except_bind_ok haccepted
  cases hext
  refine ⟨fun name => ?_, fun name => ?_, fun p hp => ?_⟩
  · rw [← exists_field_iff hfields fun declared _ => declared = name]
    change name ∈ (fields.map fun field => (field.1, JsonValue.object field.2.2.schema)).map _ ↔ _
    simp
  · simp only [← Option.isNone_iff_eq_none]
    rw [← exists_field_iff hfields fun declared needed => needed = true ∧ declared = name]
    trans .string name ∈ (fields.filter (·.2.1)).map fun field => JsonValue.string field.1
    · simp only [dataclassSchema]
      split <;> simp_all [required, lookup_cons]
    · simp [and_assoc]
  · obtain ⟨field, hfield⟩ := mapM_ok_of_mem hfields hp
    exact (parameterSchema_ok hfield).2.2

theorem drop_eq_filter {parameters : List (Parameter ω)}
    (hlater : ∀ p ∈ parameters.tail, p.isOwner = false) :
    dropOwnerParameter parameters = parameters.filter (!·.isOwner) := by
  cases parameters with
  | nil => rfl
  | cons p rest =>
    have hrest : rest.filter (!·.isOwner) = rest :=
      filter_eq_self.mpr fun q hq => by simp [hlater q hq]
    cases hp : p.isOwner <;> simp [dropOwnerParameter, hp, hrest]

/-- Every parameter gets what the payload gives it. -/
def Binds (parameters : List (Parameter ω)) (kwargs : JsonObject)
    (bound : AgentToolBoundInvocation ω) : Prop :=
  bound.args.map some = (parameters.filter (·.kind ≠ .keywordOnly)).map (Parameter.given kwargs) ∧
  bound.kwargs.map (fun entry => (entry.1, some entry.2)) =
    (parameters.filter (·.kind = .keywordOnly)).map fun p => (p.name, p.given kwargs)

/-- Each keyword is a parameter's and each parameter has a value. -/
def Fits (parameters : List (Parameter ω)) (kwargs : JsonObject) : Prop :=
  (∀ entry ∈ kwargs, entry.1 ∈ parameters.map Parameter.name) ∧
    ∀ p ∈ parameters, (p.given kwargs).isSome

section Keywords

variable {p : Parameter ω} {rest : List (Parameter ω)} {kwargs : JsonObject}

theorem given_popEntry (hnew : p.name ∉ rest.map Parameter.name) (kwargs : JsonObject)
    (q : Parameter ω) (hq : q ∈ rest) : q.given (popEntry p.name kwargs) = q.given kwargs := by
  have hne : q.name ≠ p.name := fun heq => hnew (heq ▸ mem_map_of_mem hq)
  rw [Parameter.given, lookup_popEntry_other hne, Parameter.given]

theorem fits_cons (hnew : p.name ∉ rest.map Parameter.name) :
    Fits (p :: rest) kwargs ↔ (p.given kwargs).isSome ∧ Fits rest (popEntry p.name kwargs) := by
  have hkeys : (∀ entry ∈ popEntry p.name kwargs, entry.1 ∈ rest.map Parameter.name) ↔
      ∀ entry ∈ kwargs, entry.1 ∈ (p :: rest).map Parameter.name := by
    simp only [popEntry, mem_filter, decide_eq_true_eq, and_imp, map_cons, mem_cons]
    exact forall₂_congr fun entry _ => or_iff_not_imp_left.symm
  have hvalues : (∀ q ∈ rest, (q.given (popEntry p.name kwargs)).isSome) ↔
      ∀ q ∈ rest, (q.given kwargs).isSome :=
    forall₂_congr fun q hq => by rw [given_popEntry hnew kwargs q hq]
  rw [Fits, Fits, hkeys, hvalues, forall_mem_cons]
  exact and_left_comm

theorem Binds.cons {value : JsonValue ⊕ ω} {later : AgentToolBoundInvocation ω}
    (hgiven : p.given kwargs = some value) (hnew : p.name ∉ rest.map Parameter.name)
    (hlater : Binds rest (popEntry p.name kwargs) later) :
    Binds (p :: rest) kwargs (p.passes value later) := by
  have hsame := given_popEntry hnew kwargs
  obtain ⟨hargs, hkwargs⟩ := hlater
  rw [map_congr_left fun q hq => hsame q (mem_of_mem_filter hq)] at hargs
  have hnamed : ∀ q ∈ rest.filter (·.kind = .keywordOnly),
      (q.name, q.given (popEntry p.name kwargs)) = (q.name, q.given kwargs) :=
    fun q hq => by rw [hsame q (mem_of_mem_filter hq)]
  rw [map_congr_left hnamed] at hkwargs
  by_cases hkind : p.kind = .keywordOnly
  all_goals simpa [Binds, Parameter.passes, hkind, hgiven] using And.intro hargs hkwargs

end Keywords

theorem bindKeywords_spec {parameters : List (Parameter ω)}
    (hkinds : ∀ p ∈ parameters, p.kind = .positionalOrKeyword ∨ p.kind = .keywordOnly)
    (hnodup : (parameters.map Parameter.name).Nodup) (kwargs : JsonObject) :
    (Fits parameters kwargs →
      ∃ bound, bindKeywords parameters kwargs = some bound ∧ Binds parameters kwargs bound) ∧
    (¬Fits parameters kwargs → bindKeywords parameters kwargs = none) := by
  induction parameters generalizing kwargs with
  | nil =>
    cases kwargs with
    | nil => exact ⟨fun _ => ⟨_, rfl, rfl, rfl⟩, fun hno => (hno ⟨nofun, nofun⟩).elim⟩
    | cons entry =>
      exact ⟨fun hfits => (nomatch hfits.1 entry (.head _)), fun _ => rfl⟩
  | cons p rest ih =>
    obtain ⟨hnew, hrest⟩ := nodup_cons.mp hnodup
    have hstep : bindKeywords (p :: rest) kwargs = (p.given kwargs).bind fun value =>
        (bindKeywords rest (popEntry p.name kwargs)).map (p.passes value) := by
      rcases hkinds p (.head _) with hkind | hkind
      all_goals
        simp only [bindKeywords, hkind]
        cases p.given kwargs <;> cases bindKeywords rest (popEntry p.name kwargs) <;> rfl
    obtain ⟨hbinds, hfails⟩ := ih (fun q hq => hkinds q (.tail _ hq)) hrest
      (popEntry p.name kwargs)
    rw [fits_cons hnew, hstep]
    cases hgiven : p.given kwargs with
    | none => exact ⟨fun hfits => (nomatch hfits.1), fun _ => rfl⟩
    | some value =>
      constructor
      · rintro ⟨_, hfits⟩
        obtain ⟨later, hbind, hlater⟩ := hbinds hfits
        exact ⟨p.passes value later, by simp [hbind], hlater.cons hgiven hnew⟩
      · intro hno
        simp [hfails fun hfits => hno ⟨rfl, hfits⟩]

/-- A payload that is not a structured call binds as the schema says, if only
the first parameter may be the owner. -/
theorem payload_binds_as_declared (function : ToolFunction ω) (schemaName : String)
    (extraction : SchemaExtraction)
    (haccepted : buildInputSchema function schemaName = .ok extraction)
    (hlater : ∀ p ∈ function.parameters.tail, p.isOwner = false) (payload : JsonObject)
    (hargs : payload.lookup "args" = none) (hkwargs : payload.lookup "kwargs" = none) :
    (∀ validates, Conforms validates extraction.schema payload →
      ∃ bound, bindAgentToolInvocation function payload = .ok bound ∧
        Binds (dropOwnerParameter function.parameters) payload bound) ∧
    ((∃ name, .string name ∈ required extraction.schema ∧ payload.lookup name = none) ∨
        (∃ entry ∈ payload, entry.1 ∉ (properties extraction.schema).map Prod.fst) →
      ∃ error, bindAgentToolInvocation function payload = .error error) := by
  obtain ⟨hprops, hreq, hkinds⟩ := buildInputSchema_ok haccepted
  have hnodup := function.nodup.sublist
    ((filter_sublist (p := (!·.isOwner))).map Parameter.name)
  rw [← drop_eq_filter hlater] at hprops hreq hkinds hnodup
  obtain ⟨hbinds, hfails⟩ := bindKeywords_spec hkinds hnodup payload
  have hrun : bindAgentToolInvocation function payload =
      match bindKeywords (dropOwnerParameter function.parameters) payload with
      | some bound => .ok bound
      | none => .error ⟨"Agent tool invocation payload cannot be bound"⟩ := by
    have hparse : parseInvocationPayload payload = .ok ([], payload) := by
      rw [parseInvocationPayload, hargs, hkwargs]
      rfl
    rw [bindAgentToolInvocation, hparse, ← bindArguments]
    rfl
  rw [hrun]
  constructor
  · rintro validates ⟨hvalid, hneeds⟩
    have hfits : Fits (dropOwnerParameter function.parameters) payload := by
      refine ⟨fun entry hmem => ?_, fun p hp => ?_⟩
      · obtain ⟨property, hfound, _⟩ := hvalid entry hmem
        exact mem_map.mpr ((hprops entry.1).mp (mem_map.mpr ⟨_, hfound, rfl⟩))
      · cases hdefault : p.default with
        | none =>
          obtain ⟨value, hvalue⟩ := Option.isSome_iff_exists.mp
            (hneeds p.name ((hreq p.name).mpr ⟨p, hp, hdefault, rfl⟩))
          simp [Parameter.given, hvalue]
        | some => cases hvalue : payload.lookup p.name <;>
            simp [Parameter.given, hvalue, hdefault]
    obtain ⟨bound, hbound, hvalues⟩ := hbinds hfits
    exact ⟨bound, by rw [hbound], hvalues⟩
  · intro hbad
    have hnone : bindKeywords (dropOwnerParameter function.parameters) payload = none := by
      refine hfails ?_
      rintro ⟨hkeys, hvalues⟩
      rcases hbad with ⟨name, hname, habsent⟩ | ⟨entry, hmem, hundeclared⟩
      · obtain ⟨p, hp, hdefault, rfl⟩ := (hreq name).mp hname
        have hsome := hvalues p hp
        simp [Parameter.given, habsent, hdefault] at hsome
      · exact hundeclared ((hprops entry.1).mpr (mem_map.mp (hkeys entry hmem)))
    rw [hnone]
    exact ⟨_, rfl⟩

/-- `def search(self, query: str, *, limit: int = 10)` -/
def searchTool : ToolFunction Nat where
  parameters := [⟨"self", .positionalOrKeyword, none, none⟩,
    ⟨"query", .positionalOrKeyword, none, some (.primitive .str)⟩,
    ⟨"limit", .keywordOnly, some 10, some (.primitive .int)⟩]
  resolves := true
  nodup := by decide

/-- A payload that conforms binds the query, and the limit to its default; an empty one
lacks the query. -/
theorem payload_binds_as_declared_search :
    (∃ bound, bindAgentToolInvocation searchTool [("query", .string "spakky")] = .ok bound ∧
      Binds (dropOwnerParameter searchTool.parameters) [("query", .string "spakky")] bound ∧
      bound = ⟨[.inl (.string "spakky")], [("limit", .inr 10)]⟩) ∧
    ∃ error, bindAgentToolInvocation searchTool [] = .error error := by
  have hlater : ∀ p ∈ searchTool.parameters.tail, p.isOwner = false := by
    simp [searchTool, Parameter.isOwner]
  refine ⟨?_, (payload_binds_as_declared searchTool "search" _ rfl hlater [] rfl rfl).2
    (.inl ⟨"query", mem_singleton_self _, rfl⟩)⟩
  have hbinds := (payload_binds_as_declared searchTool "search" _ rfl hlater
    [("query", .string "spakky")] rfl rfl).1
      fun property value => property = .object [("type", .string "string")] ∧
        ∃ text, value = .string text
  obtain ⟨bound, hbound, hvalues⟩ := hbinds ⟨by
      intro entry hentry
      rw [mem_singleton.mp hentry]
      exact ⟨_, .head _, rfl, "spakky", rfl⟩, by
      intro name hname
      cases mem_singleton.mp hname
      rfl⟩
  exact ⟨bound, hbound, hvalues, (Except.ok.inj hbound).symm⟩

/-- `def count(x: int)` -/
def countTool : ToolFunction Unit where
  parameters := [⟨"x", .positionalOrKeyword, none, some (.primitive .int)⟩]
  resolves := true
  nodup := by simp

/-- A structured call binds although the schema does not declare its key. -/
theorem structured_call_binds_undeclared :
    ((buildInputSchema countTool "count").toOption.map fun extraction =>
      ((properties extraction.schema).map Prod.fst)) = some ["x"] ∧
    bindAgentToolInvocation countTool [("args", .array [.integer 1])] =
      .ok ⟨[.inl (.integer 1)], []⟩ :=
  ⟨rfl, rfl⟩

end Spakky.Agent

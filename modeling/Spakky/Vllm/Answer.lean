import Mathlib.Data.List.Sort
import Spakky.Vllm.Model

/-!
A well-formed answer of vLLM apart from its JSON, and the ways of cutting it into
chunks. Tool calls are reassembled from fragments by index: a buffer holds what the
fragments of its index amount to, however those of the indices are interleaved.
-/

namespace Spakky.Vllm

open Agent Effect Exec List

structure AnswerCall where
  callId : Option String
  name : String
  arguments : String
  deriving DecidableEq, Repr

/-- The one choice of an answer. -/
structure Answer where
  content : Option String
  toolCalls : List AnswerCall
  refusal : Option String
  finishReason : String
  deriving DecidableEq, Repr

/-- What one member of `tool_calls` of a delta says about a call. -/
structure Fragment where
  index : Int
  callId : Option String
  name : Option String
  arguments : Option String
  deriving DecidableEq, Repr

/-- The choice of a chunk. -/
structure Piece where
  content : Option String := none
  refusal : Option String := none
  fragments : List Fragment := []
  finishReason : Option String := none
  deriving DecidableEq, Repr

/-- A chunk without a choice carries only the usage. -/
structure Chunk where
  usage : Option ModelUsage := none
  choice : Option Piece
  deriving DecidableEq, Repr

inductive IsCall : JsonValue → AnswerCall → Prop
  | call {item function : JsonObject} {call : AnswerCall}
      (hid : optionalString (get item "id") = .ok call.callId)
      (hfun : get item "function" = .object function)
      (hname : get function "name" = .string call.name)
      (hargs : get function "arguments" = .string call.arguments) :
      IsCall (.object item) call

inductive IsCalls : JsonValue → List AnswerCall → Prop
  | absent : IsCalls .null []
  | present {rawCalls : List JsonValue} {calls : List AnswerCall}
      (hcalls : List.Forall₂ IsCall rawCalls calls) : IsCalls (.array rawCalls) calls

/-- The JSON of an uncut answer. -/
inductive IsResponse : JsonObject → Answer → Prop
  | response {response choice message : JsonObject} {answer : Answer} {usage : ModelUsage}
      (hchoices : get response "choices" = .array [.object choice])
      (hfin : get choice "finish_reason" = .string answer.finishReason)
      (hmsg : get choice "message" = .object message)
      (hrefusal : optionalString (get message "refusal") = .ok answer.refusal)
      (hcalls : IsCalls (get message "tool_calls") answer.toolCalls)
      (hcont : optionalString (get message "content") = .ok answer.content)
      (husage : toUsage (get response "usage") = .ok usage) : IsResponse response answer

/-- A fragment without an index is about the call of its position. -/
inductive IsFragment : JsonValue × Nat → Fragment → Prop
  | bare {item : JsonObject} {position : Nat} {given : Option Int} {fragment : Fragment}
      (hgiven : optionalInt (get item "index") = .ok given)
      (hindex : fragment.index = given.getD position)
      (hid : optionalString (get item "id") = .ok fragment.callId)
      (hfun : get item "function" = .null)
      (hname : fragment.name = none) (hargs : fragment.arguments = none) :
      IsFragment (.object item, position) fragment
  | function {item function : JsonObject} {position : Nat} {given : Option Int}
      {fragment : Fragment}
      (hgiven : optionalInt (get item "index") = .ok given)
      (hindex : fragment.index = given.getD position)
      (hid : optionalString (get item "id") = .ok fragment.callId)
      (hfun : get item "function" = .object function)
      (hname : optionalString (get function "name") = .ok fragment.name)
      (hargs : optionalString (get function "arguments") = .ok fragment.arguments) :
      IsFragment (.object item, position) fragment

inductive IsFragments : JsonValue → List Fragment → Prop
  | absent : IsFragments .null []
  | present {rawCalls : List JsonValue} {fragments : List Fragment}
      (hfrags : List.Forall₂ IsFragment rawCalls.zipIdx fragments) :
      IsFragments (.array rawCalls) fragments

inductive IsDelta : JsonValue → Option String → Option String → List Fragment → Prop
  | absent : IsDelta .null none none []
  | present {delta : JsonObject} {content refusal : Option String} {fragments : List Fragment}
      (hcont : optionalString (get delta "content") = .ok content)
      (hrefusal : optionalString (get delta "refusal") = .ok refusal)
      (hcalls : IsFragments (get delta "tool_calls") fragments) :
      IsDelta (.object delta) content refusal fragments

inductive IsUsage : JsonValue → Option ModelUsage → Prop
  | absent : IsUsage .null none
  | present {entries : JsonObject} {usage : ModelUsage}
      (husage : toUsage (.object entries) = .ok usage) : IsUsage (.object entries) (some usage)

/-- The JSON of a chunk. -/
inductive IsChunk : JsonObject → Chunk → Prop
  | usage {chunk : JsonObject} {usage : Option ModelUsage}
      (herror : get chunk "error" = .null)
      (husage : IsUsage (get chunk "usage") usage)
      (hchoices : get chunk "choices" = .array []) : IsChunk chunk ⟨usage, none⟩
  | choice {chunk choice : JsonObject} {usage : Option ModelUsage} {piece : Piece}
      (herror : get chunk "error" = .null)
      (husage : IsUsage (get chunk "usage") usage)
      (hchoices : get chunk "choices" = .array [.object choice])
      (hdelta : IsDelta (get choice "delta") piece.content piece.refusal piece.fragments)
      (hfin : optionalString (get choice "finish_reason") = .ok piece.finishReason) :
      IsChunk chunk ⟨usage, some piece⟩

/-- Every one of the values is the whole, of which there is at least one if there is a
whole. -/
structure Repeats {α : Type} (values : List α) (whole : Option α) : Prop where
  same : ∀ value ∈ values, whole = some value
  given : values = [] → whole = none

/-- The fragments of one call: the arguments are split, the identifier and the name may
be repeated. -/
structure Amounts (fragments : List Fragment) (call : AnswerCall) : Prop where
  callId : Repeats (fragments.filterMap (·.callId)) call.callId
  name : Repeats (fragments.filterMap (·.name)) (some call.name)
  arguments : String.join (fragments.filterMap (·.arguments)) = call.arguments

/-- The fragments of a whole answer, interleaved in any way. -/
structure Reassembles (fragments : List Fragment) (calls : List AnswerCall) : Prop where
  index : ∀ fragment ∈ fragments, ∃ index < calls.length, fragment.index = index
  call : ∀ index (hindex : index < calls.length),
    Amounts (fragments.filter (·.index = index)) calls[index]

/-- A way of cutting an answer: the finish reason is in the last chunk with a choice. -/
structure Cut (answer : Answer) where
  chunks : List Chunk
  init : List Piece
  last : Piece
  pieces : chunks.filterMap (·.choice) = init ++ [last]
  unfinished : ∀ piece ∈ init, piece.finishReason = none
  finished : last.finishReason = some answer.finishReason
  content : String.join ((init ++ [last]).filterMap (·.content)) = answer.content.getD ""
  refusal : String.join ((init ++ [last]).filterMap (·.refusal)) = answer.refusal.getD ""
  calls : Reassembles ((init ++ [last]).flatMap (·.fragments)) answer.toolCalls

/-- The chunks of a cut are those before the last with a choice, it, and those after it. -/
theorem Cut.split {answer : Answer} (cut : Cut answer) :
    ∃ before usage after, cut.chunks = before ++ ⟨usage, some cut.last⟩ :: after ∧
      before.filterMap (·.choice) = cut.init ∧ ∀ chunk ∈ after, chunk.choice = none := by
  obtain ⟨first, _, hchunks, hfirst, hrest⟩ := filterMap_eq_append_iff.mp cut.pieces
  obtain ⟨bare, final, after, rfl, hbare, hfinal, hafter⟩ := filterMap_eq_cons_iff.mp hrest
  obtain ⟨usage, choice⟩ := final
  refine ⟨first ++ bare, usage, after, ?_, ?_, ?_⟩
  · have hchoice : choice = some cut.last := hfinal
    rw [hchunks, hchoice, append_assoc]
  · rw [filterMap_append, hfirst, filterMap_eq_nil_iff.mpr hbare, append_nil]
  · exact filterMap_eq_nil_iff.mp hafter

section Buffers

/-- What a fragment adds to the buffer of its index. -/
def Fragment.add (fragment : Fragment) (buffer : ToolCallBuffer) : ToolCallBuffer where
  callId := fragment.callId.or buffer.callId
  name := fragment.name.or buffer.name
  argumentsFragments := buffer.argumentsFragments ++ fragment.arguments.toList

/-- The buffers after some more fragments. -/
def addFragments (buffers : List (Int × ToolCallBuffer)) (fragments : List Fragment) :
    List (Int × ToolCallBuffer) :=
  fragments.foldl (fun buffers fragment => changeBuffer fragment.index fragment.add buffers) buffers

variable (buffers : List (Int × ToolCallBuffer))

theorem addFragments_append (first rest : List Fragment) :
    addFragments buffers (first ++ rest) = addFragments (addFragments buffers first) rest :=
  foldl_append

variable (index : Int)

theorem changeBuffer_twice (first second : ToolCallBuffer → ToolCallBuffer)
    (buffers : List (Int × ToolCallBuffer)) :
    changeBuffer index second (changeBuffer index first buffers) =
      changeBuffer index (second ∘ first) buffers := by
  induction buffers with
  | nil => simp [changeBuffer]
  | cons entry _ ih =>
    obtain ⟨other, _⟩ := entry
    by_cases hother : other = index
    · simp [changeBuffer, hother]
    · simp [changeBuffer, hother, ih]

theorem lookup_changeBuffer (other : Int) (change : ToolCallBuffer → ToolCallBuffer)
    (buffers : List (Int × ToolCallBuffer)) :
    ((changeBuffer index change buffers).lookup other).getD {} =
      if index = other then change ((buffers.lookup other).getD {})
      else (buffers.lookup other).getD {} := by
  induction buffers with
  | nil =>
    by_cases hother : index = other
    · simp [changeBuffer, hother]
    · have hne : other ≠ index := fun heq => hother heq.symm
      simp [changeBuffer, lookup_cons, hother, beq_eq_false_iff_ne.mpr hne]
  | cons entry _ ih =>
    obtain ⟨key, _⟩ := entry
    rw [changeBuffer]
    by_cases hkey : key = index
    · subst hkey
      by_cases hother : key = other
      · simp [hother]
      · have hne : other ≠ key := fun heq => hother heq.symm
        simp [lookup_cons, hother, beq_eq_false_iff_ne.mpr hne]
    · rw [if_neg hkey, lookup_cons, lookup_cons]
      by_cases hother : other = key
      · subst hother
        have hne : index ≠ other := fun heq => hkey heq.symm
        simp [hne]
      · rw [beq_eq_false_iff_ne.mpr hother]
        exact ih

theorem keys_changeBuffer (change : ToolCallBuffer → ToolCallBuffer)
    (buffers : List (Int × ToolCallBuffer)) :
    (changeBuffer index change buffers).map Prod.fst =
      if index ∈ buffers.map Prod.fst then buffers.map Prod.fst
      else buffers.map Prod.fst ++ [index] := by
  induction buffers with
  | nil => simp [changeBuffer]
  | cons entry rest ih =>
    obtain ⟨key, _⟩ := entry
    rw [changeBuffer]
    by_cases hkey : key = index
    · simp [hkey]
    · have hne : index ≠ key := fun heq => hkey heq.symm
      rw [if_neg hkey, map_cons, ih]
      by_cases hmem : index ∈ rest.map Prod.fst
      · rw [if_pos hmem, if_pos (by rw [map_cons]; exact .tail _ hmem), map_cons]
      · rw [if_neg hmem, if_neg]
        · simp
        · rw [map_cons, mem_cons]
          rintro (heq | hrest)
          · exact hne heq
          · exact hmem hrest

variable (fragments : List Fragment)

/-- The keys of the buffers are the indices of the fragments, each once. -/
theorem keys_addFragments (hnodup : (buffers.map Prod.fst).Nodup) :
    ((addFragments buffers fragments).map Prod.fst).Nodup ∧
      ∀ index, index ∈ (addFragments buffers fragments).map Prod.fst ↔
        index ∈ buffers.map Prod.fst ∨ ∃ fragment ∈ fragments, fragment.index = index := by
  induction fragments generalizing buffers with
  | nil => exact ⟨hnodup, fun index => by simp [addFragments]⟩
  | cons fragment _ ih =>
    have hkeys := keys_changeBuffer fragment.index fragment.add buffers
    have hnext : ((changeBuffer fragment.index fragment.add buffers).map Prod.fst).Nodup := by
      rw [hkeys]
      split
      · exact hnodup
      · rename_i hnew
        exact nodup_append.mpr ⟨hnodup, nodup_singleton _, by
          intro key hkey other hother heq
          exact hnew (mem_singleton.mp hother ▸ heq ▸ hkey)⟩
    obtain ⟨hall, hmem⟩ := ih _ hnext
    refine ⟨hall, fun index => ?_⟩
    have hstep : index ∈ (changeBuffer fragment.index fragment.add buffers).map Prod.fst ↔
        index ∈ buffers.map Prod.fst ∨ fragment.index = index := by
      rw [hkeys]
      split
      · rename_i hold
        exact ⟨.inl, fun h => h.elim id fun heq => heq ▸ hold⟩
      · rw [mem_append, mem_singleton, eq_comm (a := index)]
    rw [addFragments, foldl_cons, ← addFragments, hmem index, hstep, or_assoc, exists_mem_cons_iff]

/-- A buffer holds the fragments of its index only. -/
theorem lookup_addFragments (index : Int) :
    ((addFragments buffers fragments).lookup index).getD {} =
      (fragments.filter (·.index = index)).foldl (fun buffer fragment => fragment.add buffer)
        ((buffers.lookup index).getD {}) := by
  induction fragments generalizing buffers with
  | nil => rfl
  | cons fragment _ ih =>
    rw [addFragments, foldl_cons, ← addFragments, ih, lookup_changeBuffer]
    by_cases hindex : fragment.index = index
    · simp [hindex]
    · simp [hindex]

theorem filterMap_cons_append {α β : Type} (f : α → Option β) (head : α) (rest : List α) :
    (head :: rest).filterMap f = (f head).toList ++ rest.filterMap f := by
  cases hhead : f head with
  | none | some => simp [hhead]

theorem getLast?_or_or {α : Type} (values : List α) (value old : Option α) :
    values.getLast?.or (value.or old) = (value.toList ++ values).getLast?.or old := by
  rw [getLast?_append, Option.or_assoc]
  cases value with
  | none => rfl
  | some => rfl

theorem foldl_add (buffer : ToolCallBuffer) :
    fragments.foldl (fun buffer fragment => fragment.add buffer) buffer =
      { callId := (fragments.filterMap (·.callId)).getLast?.or buffer.callId
        name := (fragments.filterMap (·.name)).getLast?.or buffer.name
        argumentsFragments := buffer.argumentsFragments ++ fragments.filterMap (·.arguments) } := by
  induction fragments generalizing buffer with
  | nil => simp
  | cons _ _ ih =>
    rw [foldl_cons, ih, Fragment.add]
    simp only [filterMap_cons_append, getLast?_or_or, append_assoc]

theorem Repeats.getLast {α : Type} {values : List α} {whole : Option α}
    (hrepeats : Repeats values whole) : values.getLast? = whole := by
  cases hlast : values.getLast? with
  | none => rw [hrepeats.given (getLast?_eq_none_iff.mp hlast)]
  | some value => rw [hrepeats.same value (mem_of_getLast? hlast)]

/-- The buffer of a call that has come in whole. -/
structure Holds (buffer : ToolCallBuffer) (call : AnswerCall) : Prop where
  callId : buffer.callId = call.callId
  name : buffer.name = some call.name
  arguments : String.join buffer.argumentsFragments = call.arguments

theorem Amounts.holds {fragments : List Fragment} {call : AnswerCall}
    (hamounts : Amounts fragments call) :
    Holds (fragments.foldl (fun buffer fragment => fragment.add buffer) {}) call := by
  rw [foldl_add]
  exact
    { callId := by simp [hamounts.callId.getLast]
      name := by simp [hamounts.name.getLast]
      arguments := by simpa using hamounts.arguments }

/-- The indices of the buffers of a whole answer are those of its calls. -/
theorem Reassembles.keys {fragments : List Fragment} {calls : List AnswerCall}
    (hcalls : Reassembles fragments calls) :
    ((addFragments [] fragments).map Prod.fst).mergeSort =
      (List.range calls.length).map fun index : Nat => (index : Int) := by
  obtain ⟨hnodup, hmem⟩ := keys_addFragments [] fragments nodup_nil
  have hperm : ((addFragments [] fragments).map Prod.fst).Perm
      ((range calls.length).map fun index : Nat => (index : Int)) := by
    refine (perm_ext_iff_of_nodup hnodup ?_).mpr fun index => ?_
    · exact nodup_range.map fun first second => Int.ofNat.inj
    · rw [hmem]
      constructor
      · rintro (hnone | ⟨fragment, hfrag, rfl⟩)
        · cases hnone
        · obtain ⟨position, hpos, heq⟩ := hcalls.index fragment hfrag
          exact mem_map.mpr ⟨position, mem_range.mpr hpos, heq.symm⟩
      · intro hindex
        obtain ⟨position, hpos, rfl⟩ := mem_map.mp hindex
        have hamounts := hcalls.call position (mem_range.mp hpos)
        -- a call has a name, which some fragment of its index gives
        have hnames := mt hamounts.name.given (by simp)
        obtain ⟨_, hname⟩ := exists_mem_of_ne_nil _ hnames
        obtain ⟨fragment, hfrag, _⟩ := mem_filterMap.mp hname
        obtain ⟨hin, heq⟩ := mem_filter.mp hfrag
        exact .inr ⟨fragment, hin, by simpa using heq⟩
  have hrange : ((range calls.length).map fun index : Nat => (index : Int)).SortedLE := by
    refine Pairwise.sortedLE ?_
    rw [pairwise_map]
    exact pairwise_le_range.imp fun hle => Int.ofNat_le.mpr hle
  exact Perm.eq_of_sortedLE sortedLE_mergeSort hrange
    ((mergeSort_perm _ _).trans hperm)

/-- The sorted buffers of a whole answer are its calls in order. -/
theorem Reassembles.sortedBuffers {fragments : List Fragment} {calls : List AnswerCall}
    (hcalls : Reassembles fragments calls) :
    List.Forall₂ Holds (sortedBuffers (addFragments [] fragments)) calls := by
  rw [Vllm.sortedBuffers, hcalls.keys, map_map]
  refine forall₂_iff_get.mpr ⟨by simp, fun index hleft hright => ?_⟩
  rw [get_eq_getElem, getElem_map, getElem_range, Function.comp_apply, lookup_addFragments]
  exact (hcalls.call index hright).holds

end Buffers

end Spakky.Vllm

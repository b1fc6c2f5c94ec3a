import Spakky.Logging.Aspect

/-!
When the line of a call does not depend on its masked strings. The masking expression
puts a text between two quotation marks in the place of another such text, so a line
keeps its number of quotation marks. A masked string that is written brings two of
them, and one more for an apostrophe in it: the lines of some two calls that differ in
masked strings only are then different, whatever is masked. So the calls are logged
alike for all masked strings exactly if none of the strings is written.
-/

namespace Spakky.Logging

open Python Regex List LoggingAspect

section Quotes

def quotes (s : Text) : Nat := s.countP isQuote

@[simp]
theorem quotes_append (s t : Text) : quotes (s ++ t) = quotes s + quotes t := countP_append

theorem quotes_le_length (s : Text) : quotes s ≤ s.length := countP_le_length

theorem quotes_mask (keys : List Text) (s : Text) : quotes (mask keys s) = quotes s := by
  refine countP_sub ?_ ?_ s
  · rintro ⟨_, _, hnil, ⟨_, _, rfl⟩, _⟩
    cases hnil
  · rintro _ ⟨_, _, rfl, ⟨q, hq, rfl⟩, inner, _, rfl, hinner, q', hq', rfl⟩
    have hnone : inner.countP isQuote = 0 :=
      countP_eq_zero.mpr fun c hc hquote => by simpa [hquote] using hinner c hc
    have hreplacement : (text "'******'").countP isQuote = 2 := by decide
    rw [hreplacement]
    simp [countP_append, hq, hq', hnone]

variable (aspect : LoggingAspect)

theorem quotes_maskIfEnabled (s : Text) : quotes (aspect.maskIfEnabled s) = quotes s := by
  unfold maskIfEnabled
  split
  · exact quotes_mask _ s
  · rfl

/-- The line of a call has the quotation marks of the message before it is masked. -/
theorem quotes_around (call : Call) :
    quotes (aspect.around call).message =
      quotes (aspect.message call) := by
  have hslow : quotes (text "[SLOW] ") = 0 := by decide
  unfold around
  split
  · exact quotes_maskIfEnabled ..
  · split
    · simp only [quotes_append, hslow, quotes_maskIfEnabled, Nat.zero_add]
    · exact quotes_maskIfEnabled ..

end Quotes

section Fill

variable (keys : List Text) (filler : Text)

/-- The value of a dictionary entry is masked if it is a string under a mask key. -/
def masked? : Value → Value → Option Text
  | .str name, .str value => if name ∈ keys then some value else none
  | _, _ => none

mutual

/-- A value with some string in the place of each masked one. -/
def Value.fill : Value → Value
  | .str value => .str value
  | .list items => .list (fillItems items)
  | .tuple items => .tuple (fillItems items)
  | .dict entries => .dict (fillEntries entries)
  | .other repr => .other repr

def fillItems : List Value → List Value
  | [] => []
  | item :: rest => item.fill :: fillItems rest

def fillEntries : List (Value × Value) → List (Value × Value)
  | [] => []
  | entry :: rest => fillEntry entry :: fillEntries rest

def fillEntry : Value × Value → Value × Value
  | (key, value) => (key, if (masked? keys key value).isSome then .str filler else value.fill)

end

/-- The value of a keyword argument is masked if it is a string and the name a mask key. -/
def fillArgument (argument : Text × Value) : Text × Value :=
  (argument.1,
    if (masked? keys (.str argument.1) argument.2).isSome then .str filler else argument.2)

/-- A value without its masked strings. -/
def Value.erase (value : Value) : Value := value.fill keys []

/-- A call without its masked strings. Two calls that differ in these only have the same
erasure. -/
def Call.erase (call : Call) : Call :=
  { call with
    kwargs := call.kwargs.map (fillArgument keys [])
    outcome := call.outcome.map (·.erase keys) }

variable {keys filler}

theorem masked?_some {key value : Value} {secret : Text}
    (hmasked : masked? keys key value = some secret) :
    value = .str secret ∧ ∀ other, masked? keys key (.str other) = some other := by
  unfold masked? at hmasked
  split at hmasked
  next name _ =>
    split at hmasked
    next hname =>
      cases hmasked
      exact ⟨rfl, fun other => by simp [masked?, hname]⟩
    next => cases hmasked
  next => cases hmasked

theorem masked?_fill_none {key value : Value} (hmasked : masked? keys key value = none) :
    masked? keys key (value.fill keys filler) = none := by
  cases value with
  | str => exact hmasked
  | list | tuple | dict | other => cases key <;> rfl

variable (filler)

mutual

theorem Value.fill_fill (other : Text) (value : Value) :
    (value.fill keys filler).fill keys other = value.fill keys other := by
  cases value with
  | str | other => rfl
  | list items | tuple items => simp only [Value.fill, fillItems_fill other items]
  | dict entries => simp only [Value.fill, fillEntries_fill other entries]

theorem fillItems_fill (other : Text) (items : List Value) :
    fillItems keys other (fillItems keys filler items) = fillItems keys other items := by
  cases items with
  | nil => rfl
  | cons item rest =>
    simp only [fillItems, item.fill_fill other, fillItems_fill other rest]

theorem fillEntries_fill (other : Text) (entries : List (Value × Value)) :
    fillEntries keys other (fillEntries keys filler entries) = fillEntries keys other entries := by
  cases entries with
  | nil => rfl
  | cons entry rest =>
    simp only [fillEntries, fillEntry_fill other entry, fillEntries_fill other rest]

theorem fillEntry_fill (other : Text) (entry : Value × Value) :
    fillEntry keys other (fillEntry keys filler entry) = fillEntry keys other entry := by
  obtain ⟨key, value⟩ := entry
  cases hmasked : masked? keys key value with
  | none => simp [fillEntry, hmasked, masked?_fill_none hmasked, value.fill_fill other]
  | some secret => simp [fillEntry, hmasked, (masked?_some hmasked).2]

end

theorem fillArgument_fill (other : Text) (argument : Text × Value) :
    fillArgument keys other (fillArgument keys filler argument) =
      fillArgument keys other argument := by
  obtain ⟨name, value⟩ := argument
  cases hmasked : masked? keys (.str name) value with
  | none => simp [fillArgument, hmasked]
  | some secret => simp [fillArgument, hmasked, (masked?_some hmasked).2]

end Fill

/-- A text is written in pieces, some of which are masked strings. -/
inductive Piece where
  | shown (text : Text)
  | secret (value : Text)

def Piece.fill (filler : Text) : Piece → Piece
  | .shown text => .shown text
  | .secret _ => .secret filler

@[simp]
theorem Piece.fill_shown (filler text : Text) : (Piece.shown text).fill filler = .shown text := rfl

@[simp]
theorem Piece.fill_secret (filler value : Text) :
    (Piece.secret value).fill filler = .secret filler := rfl

section Written

variable (printable : CodePoint → Bool)

def Piece.written : Piece → Text
  | .shown text => text
  | .secret value => strRepr printable value

def written (pieces : List Piece) : Text := pieces.flatMap (·.written printable)

@[simp]
theorem written_nil : written printable [] = [] := rfl

@[simp]
theorem written_append (pieces others : List Piece) :
    written printable (pieces ++ others) = written printable pieces ++ written printable others :=
  flatMap_append

@[simp]
theorem written_shown (text : Text) (pieces : List Piece) :
    written printable (.shown text :: pieces) = text ++ written printable pieces := rfl

@[simp]
theorem written_secret (value : Text) (pieces : List Piece) :
    written printable (.secret value :: pieces) =
      strRepr printable value ++ written printable pieces := rfl

theorem written_intercalate (separator : Text) (items : List (List Piece)) :
    written printable (intercalate [.shown separator] items) =
      intercalate separator (items.map (written printable)) := by
  induction items with
  | nil => rfl
  | cons item rest ih =>
    cases rest with
    | nil => simp
    | cons => simpa using ih

theorem map_intercalate {α β : Type} (f : α → β) (separator : List α) (items : List (List α)) :
    (intercalate separator items).map f = intercalate (separator.map f) (items.map (·.map f)) := by
  induction items with
  | nil => rfl
  | cons item rest ih =>
    cases rest with
    | nil => simp
    | cons => simpa using ih

/-- What is written before the first masked string. -/
def leading : List Piece → Text
  | [] => []
  | .shown text :: rest => text ++ leading rest
  | .secret _ :: _ => []

def HasSecret (pieces : List Piece) : Prop := ∃ value, .secret value ∈ pieces

variable {printable} {pieces : List Piece}

theorem leading_fill (filler : Text) (pieces : List Piece) :
    leading (pieces.map (Piece.fill filler)) = leading pieces := by
  induction pieces with
  | nil => rfl
  | cons piece rest ih =>
    cases piece with
    | shown => simp only [map_cons, Piece.fill_shown, leading, ih]
    | secret => rfl

theorem hasSecret_cons_shown {text : Text} :
    HasSecret (.shown text :: pieces) ↔ HasSecret pieces := by
  simp [HasSecret]

theorem hasSecret_fill (filler : Text) (pieces : List Piece) :
    HasSecret (pieces.map (Piece.fill filler)) ↔ HasSecret pieces := by
  induction pieces with
  | nil => rfl
  | cons piece rest ih =>
    cases piece with
    | shown => exact hasSecret_cons_shown.trans (ih.trans hasSecret_cons_shown.symm)
    | secret => simp [HasSecret]

/-- The first masked string stands where the leading text ends. -/
theorem written_of_hasSecret (printable : CodePoint → Bool) (hsecret : HasSecret pieces) :
    ∃ value rest,
      written printable pieces = leading pieces ++ strRepr printable value ++ rest := by
  induction pieces with
  | nil => obtain ⟨_, hmem⟩ := hsecret; cases hmem
  | cons piece rest ih =>
    cases piece with
    | shown text =>
      obtain ⟨value, after, hwritten⟩ := ih (hasSecret_cons_shown.mp hsecret)
      exact ⟨value, after, by simp [leading, hwritten]⟩
    | secret value => exact ⟨value, written printable rest, rfl⟩

theorem written_fill_of_hasSecret (printable : CodePoint → Bool) (filler : Text)
    (hsecret : HasSecret pieces) :
    ∃ rest, written printable (pieces.map (Piece.fill filler)) =
      leading pieces ++ strRepr printable filler ++ rest := by
  induction pieces with
  | nil => obtain ⟨_, hmem⟩ := hsecret; cases hmem
  | cons piece rest ih =>
    cases piece with
    | shown text =>
      obtain ⟨after, hwritten⟩ := ih (hasSecret_cons_shown.mp hsecret)
      exact ⟨after, by simp [leading, hwritten]⟩
    | secret => exact ⟨_, rfl⟩

/-- Nothing is written shorter than without the masked strings. -/
theorem length_written_erase (pieces : List Piece) :
    (written printable (pieces.map (Piece.fill []))).length ≤
      (written printable pieces).length := by
  induction pieces with
  | nil => exact le_rfl
  | cons piece rest ih =>
    cases piece with
    | shown => simpa using ih
    | secret value =>
      have hmarks : (strRepr printable []).length ≤ (strRepr printable value).length := by
        simp [strRepr]
      simp only [map_cons, Piece.fill_secret, written_secret, length_append]
      omega

/-- Without a masked string there is nothing in which the pieces could differ. -/
theorem pieces_eq_of_erase {others : List Piece} (hnone : ¬ HasSecret pieces)
    (hsame : others.map (Piece.fill []) = pieces.map (Piece.fill [])) : others = pieces := by
  induction pieces generalizing others with
  | nil => exact map_eq_nil_iff.mp hsame
  | cons piece rest ih =>
    cases piece with
    | secret value => exact absurd ⟨value, .head _⟩ hnone
    | shown text =>
      obtain ⟨other, others, rfl, hother, hrest⟩ := map_eq_cons_iff.mp hsame
      rw [ih (fun hsecret => hnone (hasSecret_cons_shown.mpr hsecret)) hrest]
      cases other with
      | shown => exact congrArg (· :: rest) hother
      | secret => cases hother

theorem strRepr_cons (printable : CodePoint → Bool) (value : Text) :
    ∃ inner, strRepr printable value = quoteOf value :: inner := ⟨_, rfl⟩

theorem strRepr_nil : strRepr printable [] = text "''" := rfl

theorem strRepr_apostrophe : strRepr printable (text "'") = text "\"'\"" := rfl

/-- An apostrophe in each of the masked strings is one more quotation mark for each. -/
theorem quotes_written_apostrophe (pieces : List Piece) :
    let erased := quotes (written printable (pieces.map (Piece.fill [])))
    let marked := quotes (written printable (pieces.map (Piece.fill (text "'"))))
    erased ≤ marked ∧ (HasSecret pieces → erased < marked) := by
  have hnone : quotes (strRepr printable []) = 2 := rfl
  have hone : quotes (strRepr printable (text "'")) = 3 := rfl
  induction pieces with
  | nil => simp [HasSecret]
  | cons piece rest ih =>
    cases piece with
    | shown => simpa [hasSecret_cons_shown] using ih
    | secret =>
      simp only [map_cons, Piece.fill_secret, written_secret, quotes_append, hnone, hone]
      omega

end Written

section Pieces

variable (printable : CodePoint → Bool) (keys : List Text)

mutual

/-- The pieces of a `repr`. -/
def Value.pieces : Value → List Piece
  | .str value => [.shown (strRepr printable value)]
  | .list items =>
    .shown (text "[") :: (intercalate [.shown (text ", ")] (piecesOfItems items) ++
      [.shown (text "]")])
  | .tuple items =>
    .shown (text "(") :: (intercalate [.shown (text ", ")] (piecesOfItems items) ++
      [.shown (if items.length = 1 then text ",)" else text ")")])
  | .dict entries =>
    .shown (text "\x7b") :: (intercalate [.shown (text ", ")] (piecesOfEntries entries) ++
      [.shown (text "\x7d")])
  | .other repr => [.shown repr]

def piecesOfItems : List Value → List (List Piece)
  | [] => []
  | item :: rest => item.pieces :: piecesOfItems rest

def piecesOfEntries : List (Value × Value) → List (List Piece)
  | [] => []
  | entry :: rest => piecesOfEntry entry :: piecesOfEntries rest

def piecesOfEntry : Value × Value → List Piece
  | (key, value) => .shown (key.repr printable) :: .shown (text ": ") ::
    (masked? keys key value).elim value.pieces fun secret => [.secret secret]

end

def piecesOfArgument (argument : Text × Value) : List Piece :=
  .shown (argument.1 ++ text "=") :: (masked? keys (.str argument.1) argument.2).elim
    [.shown (argument.2.repr printable)] fun secret => [.secret secret]

def piecesOfArguments (args : List Value) (kwargs : List (Text × Value)) : List Piece :=
  intercalate [.shown (text ", ")] (args.map (fun arg => [.shown (arg.repr printable)]) ++
    kwargs.map (piecesOfArgument printable keys))

variable {printable keys}

theorem tupleRepr_eq (items : List Text) :
    tupleRepr items = text "(" ++ (intercalate (text ", ") items ++
      (if items.length = 1 then text ",)" else text ")")) := by
  match items with
  | [] => rfl
  | [item] => simp [tupleRepr]
  | first :: second :: rest => simp [tupleRepr]

theorem length_reprItems (items : List Value) :
    (reprItems printable items).length = items.length := by
  induction items with
  | nil => rfl
  | cons _ _ ih => simp [reprItems, ih]

theorem length_fillItems (filler : Text) (items : List Value) :
    (fillItems keys filler items).length = items.length := by
  induction items with
  | nil => rfl
  | cons _ _ ih => simp [fillItems, ih]

mutual

theorem Value.written_pieces (value : Value) :
    written printable (value.pieces printable keys) = value.repr printable := by
  cases value with
  | str | other => simp [Value.pieces, Value.repr]
  | list items =>
    simp only [Value.pieces, Value.repr, written_shown, written_append, written_intercalate,
      map_written_items items]
    simp
  | tuple items =>
    simp only [Value.pieces, Value.repr, written_shown, written_append, written_intercalate,
      map_written_items items, tupleRepr_eq, length_reprItems]
    simp
  | dict entries =>
    simp only [Value.pieces, Value.repr, written_shown, written_append, written_intercalate,
      map_written_entries entries]
    simp

theorem map_written_items (items : List Value) :
    (piecesOfItems printable keys items).map (written printable) = reprItems printable items := by
  cases items with
  | nil => rfl
  | cons item rest =>
    simp only [piecesOfItems, reprItems, map_cons, item.written_pieces, map_written_items rest]

theorem map_written_entries (entries : List (Value × Value)) :
    (piecesOfEntries printable keys entries).map (written printable) =
      reprEntries printable entries := by
  cases entries with
  | nil => rfl
  | cons entry rest =>
    simp only [piecesOfEntries, reprEntries, map_cons, written_entry entry,
      map_written_entries rest]

theorem written_entry (entry : Value × Value) :
    written printable (piecesOfEntry printable keys entry) = reprEntry printable entry := by
  obtain ⟨key, value⟩ := entry
  cases hmasked : masked? keys key value with
  | none => simp [piecesOfEntry, reprEntry, hmasked, value.written_pieces]
  | some secret =>
    obtain ⟨rfl, hmasks⟩ := masked?_some hmasked
    simp [piecesOfEntry, reprEntry, hmasks, Value.repr]

end

variable (filler : Text)

mutual

theorem Value.pieces_fill (value : Value) :
    (value.fill keys filler).pieces printable keys =
      (value.pieces printable keys).map (Piece.fill filler) := by
  cases value with
  | str | other => rfl
  | list items | tuple items =>
    simp [Value.fill, Value.pieces, map_intercalate, piecesOfItems_fill items, length_fillItems]
  | dict entries =>
    simp [Value.fill, Value.pieces, map_intercalate, piecesOfEntries_fill entries]

theorem piecesOfItems_fill (items : List Value) :
    piecesOfItems printable keys (fillItems keys filler items) =
      (piecesOfItems printable keys items).map (·.map (Piece.fill filler)) := by
  cases items with
  | nil => rfl
  | cons item rest =>
    simp only [fillItems, piecesOfItems, map_cons, item.pieces_fill, piecesOfItems_fill rest]

theorem piecesOfEntries_fill (entries : List (Value × Value)) :
    piecesOfEntries printable keys (fillEntries keys filler entries) =
      (piecesOfEntries printable keys entries).map (·.map (Piece.fill filler)) := by
  cases entries with
  | nil => rfl
  | cons entry rest =>
    simp only [fillEntries, piecesOfEntries, map_cons, piecesOfEntry_fill entry,
      piecesOfEntries_fill rest]

theorem piecesOfEntry_fill (entry : Value × Value) :
    piecesOfEntry printable keys (fillEntry keys filler entry) =
      (piecesOfEntry printable keys entry).map (Piece.fill filler) := by
  obtain ⟨key, value⟩ := entry
  cases hmasked : masked? keys key value with
  | none =>
    simp [fillEntry, piecesOfEntry, hmasked, masked?_fill_none hmasked, value.pieces_fill]
  | some secret => simp [fillEntry, piecesOfEntry, hmasked, (masked?_some hmasked).2]

end

theorem piecesOfArgument_fill (argument : Text × Value) :
    piecesOfArgument printable keys (fillArgument keys filler argument) =
      (piecesOfArgument printable keys argument).map (Piece.fill filler) := by
  obtain ⟨name, value⟩ := argument
  cases hmasked : masked? keys (.str name) value with
  | none => simp [fillArgument, piecesOfArgument, hmasked]
  | some secret => simp [fillArgument, piecesOfArgument, hmasked, (masked?_some hmasked).2]

variable (args : List Value) (kwargs : List (Text × Value))

theorem piecesOfArguments_fill :
    piecesOfArguments printable keys args (kwargs.map (fillArgument keys filler)) =
      (piecesOfArguments printable keys args kwargs).map (Piece.fill filler) := by
  simp [piecesOfArguments, map_intercalate, piecesOfArgument_fill, Function.comp_def]

theorem written_argument (argument : Text × Value) :
    written printable (piecesOfArgument printable keys argument) =
      argument.1 ++ text "=" ++ argument.2.repr printable := by
  obtain ⟨name, value⟩ := argument
  cases hmasked : masked? keys (.str name) value with
  | none => simp [piecesOfArgument, hmasked]
  | some secret =>
    obtain ⟨rfl, hmasks⟩ := masked?_some hmasked
    simp [piecesOfArgument, hmasks, Value.repr]

theorem written_arguments :
    written printable (piecesOfArguments printable keys args kwargs) =
      formatArgs printable args kwargs := by
  rw [piecesOfArguments, written_intercalate, formatArgs]
  simp [written_argument, Function.comp_def]

theorem mem_intercalate {α : Type} {x : α} {separator : List α} {items : List (List α)}
    (hsep : x ∉ separator) : x ∈ intercalate separator items ↔ ∃ item ∈ items, x ∈ item := by
  induction items with
  | nil => simp
  | cons item rest ih =>
    cases rest with
    | nil => simp
    | cons => rw [intercalate_cons_cons, mem_append, mem_append, ih]; simp [hsep]

theorem hasSecret_arguments :
    HasSecret (piecesOfArguments printable keys args kwargs) ↔
      ∃ argument ∈ kwargs, masked? keys (.str argument.1) argument.2 ≠ none := by
  have hargument (argument : Text × Value) :
      (∃ value, .secret value ∈ piecesOfArgument printable keys argument) ↔
        masked? keys (.str argument.1) argument.2 ≠ none := by
    cases hmasked : masked? keys (.str argument.1) argument.2 <;> simp [piecesOfArgument, hmasked]
  have hmem (value : Text) : .secret value ∈ piecesOfArguments printable keys args kwargs ↔
      ∃ argument ∈ kwargs, .secret value ∈ piecesOfArgument printable keys argument := by
    rw [piecesOfArguments, mem_intercalate (by simp)]
    simp [or_and_right, exists_or]
  simp only [HasSecret, hmem, ← hargument]
  exact exists_comm.trans (exists_congr fun argument => exists_and_left)

end Pieces

section Truncation

variable {printable : CodePoint → Bool} {lead rest : Text} {length : Int}

/-- What is shown of a text that is cut off at the latest after the symbol that follows
its leading part. -/
theorem truncate_cut {mark : CodePoint} (hlong : length < (lead ++ mark :: rest).length)
    (hbegins : 3 ≤ length) (hearly : length ≤ lead.length + 4) :
    truncate (lead ++ mark :: rest) length =
      (lead ++ [mark]).take (length - 3).toNat ++ text "..." := by
  have htake : (length - 3).toNat ≤ (lead ++ [mark]).length := by
    rw [length_append, length_singleton]
    omega
  rw [truncate, if_neg (by omega), takeTo, if_pos (by omega),
    append_cons, take_append_of_le_length htake]

/-- A length below three takes so many symbols from the end. -/
theorem quotes_truncate_short (s : Text) (hshort : length < 3) :
    quotes s ≤ quotes (truncate s length) + (3 - length).toNat := by
  unfold truncate
  split
  · omega
  · rw [takeTo, if_neg (by omega), quotes_append]
    have hsplit := quotes_append (s.take (s.length - (-(length - 3)).toNat))
      (s.drop (s.length - (-(length - 3)).toNat))
    have hdropped := quotes_le_length (s.drop (s.length - (-(length - 3)).toNat))
    rw [take_append_drop] at hsplit
    rw [length_drop] at hdropped
    omega

theorem length_truncate_le (s : Text) : (truncate s length).length ≤ s.length + 3 := by
  have hdots : (text "...").length = 3 := rfl
  unfold truncate takeTo
  split
  · omega
  · rw [length_append, hdots]
    split <;> simp only [length_take] <;> omega

theorem quotes_replicate_apostrophe (count : Nat) :
    count ≤ quotes (strRepr printable (replicate count (ofChar '\''))) := by
  have hescape (quote : CodePoint) :
      1 ≤ quotes (escape printable quote (ofChar '\'')) := by
    by_cases hquote : ofChar '\'' = quote
    · rw [escape, if_pos (.inl hquote)]
      decide
    · have hescaped : ¬ (ofChar '\'' = quote ∨ ofChar '\'' = ofChar '\\') := by
        rintro (hsame | hslash)
        · exact hquote hsame
        · exact absurd hslash (by decide)
      rw [escape, if_neg hescaped]
      exact le_refl 1
  have hall (quote : CodePoint) : count ≤
      quotes ((replicate count (ofChar '\'')).flatMap (escape printable quote)) := by
    induction count with
    | zero => exact Nat.zero_le _
    | succ _ ih =>
      rw [replicate_succ, flatMap_cons, quotes_append]
      have hone := hescape quote
      omega
  rw [strRepr, quotes_append, quotes_append]
  have hinner := hall (quoteOf (replicate count (ofChar '\'')))
  omega

theorem strRepr_replicate_letter (count : Nat) :
    strRepr printable (replicate count (ofChar 'a')) =
      ofChar '\'' :: (replicate count (ofChar 'a') ++ [ofChar '\'']) := by
  have hquote : quoteOf (replicate count (ofChar 'a')) = ofChar '\'' := by
    refine if_neg fun hmem => ?_
    exact absurd (eq_of_mem_replicate hmem.1) (by decide)
  have hescape : ∀ c ∈ replicate count (ofChar 'a'),
      escape printable (ofChar '\'') c = [c] := by
    intro c hc
    rw [eq_of_mem_replicate hc]
    rfl
  rw [strRepr, hquote, flatMap_congr hescape, flatMap_singleton']
  rfl

/-- A long string without quotation marks shows its first mark only. -/
theorem quotes_truncate_letters {count : Nat} (hbegins : 3 ≤ length) (hcount : length ≤ count) :
    quotes (truncate (lead ++ strRepr printable (replicate count (ofChar 'a')) ++ rest) length) ≤
      quotes lead + 1 := by
  have hletters : quotes (replicate count (ofChar 'a')) = 0 := by
    refine countP_eq_zero.mpr fun c hc => ?_
    rw [eq_of_mem_replicate hc]
    decide
  have hdots : quotes (text "...") = 0 := by decide
  have hmark : quotes [ofChar '\''] = 1 := by decide
  let shown := lead ++ [ofChar '\''] ++ replicate count (ofChar 'a')
  have hsplit : lead ++ strRepr printable (replicate count (ofChar 'a')) ++ rest =
      shown ++ (ofChar '\'' :: rest) := by
    simp [shown, strRepr_replicate_letter]
  have hlength : shown.length = lead.length + 1 + count := by simp [shown]; omega
  have hshown : quotes shown = quotes lead + 1 := by
    simp only [shown, quotes_append, hletters, hmark]
  rw [hsplit, truncate, if_neg (by rw [length_append]; omega), takeTo, if_pos (by omega),
    take_append_of_le_length (by omega), quotes_append, hdots]
  have htake : quotes (shown.take (length - 3).toNat) ≤ quotes shown :=
    (take_sublist _ shown).countP_le
  omega

/-- A text around some string that shows as many quotation marks whatever the string is
is cut off before the string is shown: otherwise letters and apostrophes make a difference. -/
theorem cut_of_quotes {shown : Text → Text}
    (hshown : ∀ filler, ∃ rest, shown filler = lead ++ strRepr printable filler ++ rest)
    (hshortest : ∀ filler, (shown []).length ≤ (shown filler).length)
    (hquotes : ∀ filler, quotes (truncate (shown filler) length) =
      quotes (truncate (shown []) length)) :
    3 ≤ length ∧ length < (shown []).length ∧ length ≤ lead.length + 4 := by
  have hbegins : 3 ≤ length := by
    by_contra hshort
    -- more apostrophes than the shortest text has symbols
    let count := (shown []).length + 3 + (3 - length).toNat + 1
    obtain ⟨rest, htext⟩ := hshown (replicate count (ofChar '\''))
    have hall := quotes_truncate_short (shown (replicate count (ofChar '\'')))
      (Int.not_le.mp hshort)
    rw [hquotes, htext, quotes_append, quotes_append] at hall
    have hmany : count ≤ quotes (strRepr printable (replicate count (ofChar '\''))) :=
      quotes_replicate_apostrophe count
    have hfew := (quotes_le_length (truncate (shown []) length)).trans (length_truncate_le _)
    omega
  have hletters : quotes (truncate (shown []) length) ≤ quotes lead + 1 := by
    obtain ⟨rest, htext⟩ := hshown (replicate length.toNat (ofChar 'a'))
    rw [← hquotes (replicate length.toNat (ofChar 'a')), htext]
    exact quotes_truncate_letters hbegins (by omega)
  have hlong : length < (shown []).length := by
    by_contra hfits
    obtain ⟨rest, htext⟩ := hshown []
    have hmarks : quotes (strRepr printable []) = 2 := rfl
    rw [truncate, if_pos (Int.not_lt.mp hfits), htext, quotes_append, quotes_append, hmarks]
      at hletters
    omega
  refine ⟨hbegins, hlong, ?_⟩
  by_contra hlate
  obtain ⟨rest, htext⟩ := hshown (text "'")
  have hmarks : quotes (text "\"'") = 2 := by decide
  have hopening : (lead ++ text "\"'").length = lead.length + 2 := by
    rw [length_append]
    rfl
  have hsplit : shown (text "'") = (lead ++ text "\"'") ++ (ofChar '"' :: rest) := by
    rw [htext, strRepr_apostrophe]
    simp [text]
  have hlength := hshortest (text "'")
  rw [← hquotes (text "'"), truncate, if_neg (by omega), takeTo, if_pos (by omega), hsplit,
    take_append, take_of_length_le (by omega), quotes_append, quotes_append, quotes_append,
    hmarks] at hletters
  omega

end Truncation

section Interference

variable (aspect : LoggingAspect)

def Call.returning (call : Call) (value : Value) : Call := { call with outcome := .ok value }

/-- The pieces of a result. -/
def LoggingAspect.resultPieces (value : Value) : List Piece :=
  value.pieces aspect.printable aspect.maskKeys

/-- The `repr` of a result without its masked strings, the first of them opened by some
quotation mark. -/
def LoggingAspect.opened (value : Value) (mark : Char) : Text :=
  ((value.erase aspect.maskKeys).repr aspect.printable).set
    (leading (aspect.resultPieces value)).length (ofChar mark)

/-- However long the masked strings of a result are, it is cut off before the first of
them, or at the quotation mark that opens it, where either kind gives the same line. -/
structure LoggingAspect.CutOff (call : Call) (value : Value) : Prop where
  long : aspect.resultLength < ((value.erase aspect.maskKeys).repr aspect.printable).length
  begins : 3 ≤ aspect.resultLength
  early : aspect.resultLength ≤ (leading (aspect.resultPieces value)).length + 4
  mark : aspect.around (call.returning (.other (aspect.opened value '"'))) =
    aspect.around (call.returning (.other (aspect.opened value '\'')))

/-- No masked string of a call is written. -/
structure LoggingAspect.Unwritten (call : Call) : Prop where
  arguments : aspect.logged.logArgs = true → ∀ argument ∈ call.kwargs,
    masked? aspect.maskKeys (.str argument.1) argument.2 = none
  result : ∀ value, call.outcome = .ok value → aspect.logged.logResult = true →
    HasSecret (aspect.resultPieces value) → aspect.CutOff call value

variable {aspect} {call other : Call}

theorem around_congr {f : Value → Value}
    (hmessage : aspect.message other = aspect.message call)
    (helapsed : other.elapsedMs = call.elapsedMs)
    (houtcome : other.outcome.map f = call.outcome.map f) :
    aspect.around other = aspect.around call := by
  unfold around
  rw [hmessage, helapsed]
  cases hcall : call.outcome <;> cases hother : other.outcome <;>
    simp [hcall, hother, Except.map] at houtcome ⊢

/-- Calls that write the same results and different arguments do not write the same number
of quotation marks. -/
theorem quotes_arguments_eq (kwargs : List (Text × Value))
    (hsame : aspect.around { call with kwargs := kwargs } = aspect.around call) :
    quotes (aspect.formattedArgs { call with kwargs := kwargs }) =
      quotes (aspect.formattedArgs call) := by
  have hquotes := congrArg (fun record => quotes record.message) hsame
  simp only [quotes_around, message, quotes_append] at hquotes
  have hout : aspect.formattedOutcome { call with kwargs := kwargs } =
      aspect.formattedOutcome call := rfl
  rw [hout] at hquotes
  omega

theorem quotes_result_eq {value value' : Value} (hlog : aspect.logged.logResult = true)
    (hsame : aspect.around (call.returning value) = aspect.around (call.returning value')) :
    quotes (truncate (value.repr aspect.printable) aspect.resultLength) =
      quotes (truncate (value'.repr aspect.printable) aspect.resultLength) := by
  have hquotes := congrArg (fun record => quotes record.message) hsame
  have hargs (value : Value) : aspect.formattedArgs (call.returning value) =
      aspect.formattedArgs call := rfl
  have hout (value : Value) : aspect.formattedOutcome (call.returning value) =
      text "-> " ++ truncate (value.repr aspect.printable) aspect.resultLength := by
    simp [formattedOutcome, Call.returning, hlog]
  simp only [quotes_around, message, hargs, hout, quotes_append] at hquotes
  simp only [Call.returning] at hquotes
  omega

theorem repr_fill (value : Value) (filler : Text) :
    (value.fill aspect.maskKeys filler).repr aspect.printable =
      written aspect.printable ((aspect.resultPieces value).map (Piece.fill filler)) := by
  rw [resultPieces, ← Value.pieces_fill, Value.written_pieces]

theorem message_returning {value value' : Value}
    (hshown : truncate (value.repr aspect.printable) aspect.resultLength =
      truncate (value'.repr aspect.printable) aspect.resultLength) :
    aspect.message (call.returning value) = aspect.message (call.returning value') := by
  simp only [message, Call.returning, formattedOutcome, formattedArgs, hshown]

section Cut

variable {value value' : Value} (hsecret : HasSecret (aspect.resultPieces value))
include hsecret

theorem opened_eq (mark : Char) :
    ∃ rest, aspect.opened value mark =
      leading (aspect.resultPieces value) ++ ofChar mark :: rest := by
  obtain ⟨rest, hwritten⟩ := written_fill_of_hasSecret aspect.printable [] hsecret
  refine ⟨ofChar '\'' :: rest, ?_⟩
  rw [opened, Value.erase, repr_fill, hwritten, strRepr_nil, append_assoc,
    set_append_right _ _ le_rfl, Nat.sub_self]
  rfl

/-- Alike results have the same leading text, which a quotation mark follows. -/
theorem repr_eq_of_alike
    (hsame : value'.erase aspect.maskKeys = value.erase aspect.maskKeys) :
    ∃ mark rest, (mark = '\'' ∨ mark = '"') ∧ value'.repr aspect.printable =
      leading (aspect.resultPieces value) ++ ofChar mark :: rest := by
  have hpieces : (aspect.resultPieces value').map (Piece.fill []) =
      (aspect.resultPieces value).map (Piece.fill []) := by
    simpa only [Value.erase, resultPieces, Value.pieces_fill] using
      congrArg (aspect.resultPieces) hsame
  have hlead := congrArg leading hpieces
  rw [leading_fill, leading_fill] at hlead
  have hsecret' : HasSecret (aspect.resultPieces value') := by
    rw [← hasSecret_fill [], hpieces, hasSecret_fill]
    exact hsecret
  obtain ⟨secret, rest, hwritten⟩ := written_of_hasSecret aspect.printable hsecret'
  rw [resultPieces, Value.written_pieces, ← resultPieces, hlead] at hwritten
  have hquote : quoteOf secret = ofChar '\'' ∨ quoteOf secret = ofChar '"' := by
    unfold quoteOf
    split
    · exact .inr rfl
    · exact .inl rfl
  obtain ⟨inner, hinner⟩ := strRepr_cons aspect.printable secret
  rcases hquote with hmark | hmark
  · exact ⟨'\'', inner ++ rest, .inl rfl, by simp [hwritten, hinner, hmark]⟩
  · exact ⟨'"', inner ++ rest, .inr rfl, by simp [hwritten, hinner, hmark]⟩

/-- The line of a result that is cut off at the mark that opens its first masked string. -/
theorem around_opened {mark : Char} {rest : Text} (hbegins : 3 ≤ aspect.resultLength)
    (hearly : aspect.resultLength ≤ (leading (aspect.resultPieces value)).length + 4)
    (hlong : aspect.resultLength < ((value.erase aspect.maskKeys).repr aspect.printable).length)
    (hsame : value'.erase aspect.maskKeys = value.erase aspect.maskKeys)
    (hrepr : value'.repr aspect.printable =
      leading (aspect.resultPieces value) ++ ofChar mark :: rest) :
    aspect.around (call.returning value') =
      aspect.around (call.returning (.other (aspect.opened value mark))) := by
  obtain ⟨rest', hopened⟩ := opened_eq hsecret mark
  have hwritten : written aspect.printable (aspect.resultPieces value') =
      value'.repr aspect.printable := value'.written_pieces
  have hlength : ((value.erase aspect.maskKeys).repr aspect.printable).length ≤
      (value'.repr aspect.printable).length := by
    rw [← hsame, ← hwritten, Value.erase, repr_fill]
    exact length_written_erase _
  have hlength' : (aspect.opened value mark).length =
      ((value.erase aspect.maskKeys).repr aspect.printable).length := length_set
  refine around_congr (f := fun _ => .str []) (message_returning ?_) rfl rfl
  change _ = truncate (aspect.opened value mark) _
  rw [hrepr] at hlength ⊢
  rw [hopened] at hlength' ⊢
  rw [truncate_cut (by omega) hbegins hearly, truncate_cut (by omega) hbegins hearly]

end Cut

section Probes

variable {value : Value} (hlog : aspect.logged.logResult = true)
  (hsecret : HasSecret (aspect.resultPieces value))
  (hsame : ∀ filler, aspect.around (call.returning (value.fill aspect.maskKeys filler)) =
    aspect.around (call.returning value))
include hlog hsecret hsame

/-- A result whose masked strings make no difference to the line is cut off before they
are shown. -/
theorem cutOff_of_alike : aspect.CutOff call value := by
  have hrepr (filler : Text) : ∃ rest, (value.fill aspect.maskKeys filler).repr
      aspect.printable = leading (aspect.resultPieces value) ++
        strRepr aspect.printable filler ++ rest := by
    rw [repr_fill]
    exact written_fill_of_hasSecret aspect.printable filler hsecret
  have hshortest (filler : Text) :
      ((value.fill aspect.maskKeys []).repr aspect.printable).length ≤
        ((value.fill aspect.maskKeys filler).repr aspect.printable).length := by
    rw [← Value.fill_fill filler, repr_fill, ← Value.written_pieces]
    exact length_written_erase _
  obtain ⟨hbegins, hlong, hearly⟩ := cut_of_quotes hrepr hshortest fun filler =>
    quotes_result_eq hlog ((hsame filler).trans (hsame []).symm)
  have hopened (filler : Text) (mark : Char) (hmark : quoteOf filler = ofChar mark) :
      aspect.around (call.returning (.other (aspect.opened value mark))) =
      aspect.around (call.returning value) := by
    obtain ⟨rest, htext⟩ := hrepr filler
    obtain ⟨inner, hinner⟩ := strRepr_cons aspect.printable filler
    rw [hinner, hmark, append_assoc, cons_append] at htext
    rw [← hsame filler]
    exact (around_opened hsecret hbegins hearly hlong (Value.fill_fill ..) htext).symm
  exact ⟨hlong, hbegins, hearly,
    (hopened (text "'") '"' (by decide)).trans (hopened [] '\'' (by decide)).symm⟩

end Probes

theorem formattedArgs_eq (hlog : aspect.logged.logArgs = true) (call : Call) :
    aspect.formattedArgs call = written aspect.printable
      (piecesOfArguments aspect.printable aspect.maskKeys call.args call.kwargs) := by
  rw [formattedArgs, if_pos hlog, written_arguments]

theorem formattedArgs_of_alike (hunwritten : aspect.Unwritten call)
    (hargs : other.args = call.args)
    (hkwargs : other.kwargs.map (fillArgument aspect.maskKeys []) =
      call.kwargs.map (fillArgument aspect.maskKeys [])) :
    aspect.formattedArgs other = aspect.formattedArgs call := by
  by_cases hlog : aspect.logged.logArgs = true
  · have hnone : ¬ HasSecret (piecesOfArguments aspect.printable aspect.maskKeys
        call.args call.kwargs) := by
      intro hsecret
      obtain ⟨argument, harg, hmasked⟩ := (hasSecret_arguments ..).mp hsecret
      exact hmasked (hunwritten.arguments hlog argument harg)
    have hpieces := congrArg (piecesOfArguments aspect.printable aspect.maskKeys call.args) hkwargs
    rw [piecesOfArguments_fill, piecesOfArguments_fill] at hpieces
    rw [formattedArgs_eq hlog other, formattedArgs_eq hlog call, hargs,
      pieces_eq_of_erase hnone hpieces]
  · simp [formattedArgs, hlog]

/-- Alike results give the same line if no masked string of them is written. -/
theorem around_returning_of_unwritten {value value' : Value}
    (hunwritten : aspect.Unwritten call) (hvalue : call.outcome = .ok value)
    (hsame : value'.erase aspect.maskKeys = value.erase aspect.maskKeys) :
    aspect.around (call.returning value') = aspect.around (call.returning value) := by
  by_cases hlog : aspect.logged.logResult = true
  case neg =>
    refine around_congr (f := fun _ => value) ?_ rfl rfl
    simp [message, Call.returning, formattedOutcome, formattedArgs, hlog]
  by_cases hsecret : HasSecret (aspect.resultPieces value)
  · have hcut := hunwritten.result value hvalue hlog hsecret
    -- a line that is cut off is that of either mark
    have hopened {value' : Value}
        (hsame : value'.erase aspect.maskKeys = value.erase aspect.maskKeys) :
        aspect.around (call.returning value') = aspect.around
          (call.returning (.other (aspect.opened value '\''))) := by
      obtain ⟨mark, rest, hmark, hrepr⟩ := repr_eq_of_alike hsecret hsame
      have hline : aspect.around (call.returning value') = _ :=
        around_opened hsecret hcut.begins hcut.early hcut.long hsame hrepr
      rcases hmark with rfl | rfl
      · exact hline
      · exact hline.trans hcut.mark
    exact (hopened hsame).trans (hopened rfl).symm
  · have hpieces : aspect.resultPieces value' =
        aspect.resultPieces value := by
      refine pieces_eq_of_erase hsecret ?_
      simpa only [Value.erase, resultPieces, Value.pieces_fill] using
        congrArg (aspect.resultPieces) hsame
    have hrepr : value'.repr aspect.printable = value.repr aspect.printable := by
      simpa only [resultPieces, Value.written_pieces] using
        congrArg (written aspect.printable) hpieces
    exact around_congr (f := fun _ => value) (message_returning (by rw [hrepr])) rfl rfl

/-- The line is the same for any masked strings if none of them is written. -/
theorem around_of_unwritten (hunwritten : aspect.Unwritten call)
    (hsame : other.erase aspect.maskKeys = call.erase aspect.maskKeys) :
    aspect.around other = aspect.around call := by
  obtain ⟨hqualname, hargs, hkwargs, houtcome, helapsed⟩ := Call.mk.inj hsame
  have hqualname : other.qualname = call.qualname := hqualname
  have helapsed : other.elapsedMs = call.elapsedMs := helapsed
  have harguments := formattedArgs_of_alike hunwritten hargs hkwargs
  have hother : aspect.around other = aspect.around { call with outcome := other.outcome } := by
    refine around_congr (f := id) ?_ helapsed rfl
    simp only [message, hqualname, harguments, helapsed]
    rfl
  rw [hother]
  cases hcall : call.outcome with
  | error errorType =>
    cases hraised : other.outcome with
    | ok => simp [hcall, hraised, Except.map] at houtcome
    | error =>
      have hsame : other.outcome = call.outcome := by
        simpa [hcall, hraised, Except.map] using houtcome
      rw [← hraised, hsame]
  | ok value =>
    cases hreturned : other.outcome with
    | error => simp [hcall, hreturned, Except.map] at houtcome
    | ok value' =>
      have herase : value'.erase aspect.maskKeys = value.erase aspect.maskKeys := by
        simpa [hcall, hreturned, Except.map] using houtcome
      have hvalue : call.returning value = call := by rw [Call.returning, ← hcall]
      have hline : aspect.around (call.returning value') = _ :=
        around_returning_of_unwritten hunwritten hcall herase
      rwa [hvalue] at hline

/-- The defaults; every number is written as zero. -/
def plainAspect : LoggingAspect where
  printable _ := false
  twoDecimals _ := text "0.00"
  config := none
  logged := {}

/-- `unlock(key=…)`, which returns nothing. -/
def unlock (key : String) : Call where
  qualname := text "unlock"
  args := []
  kwargs := [(text "key", .str (text key))]
  outcome := .ok (.other (text "None"))
  elapsedMs := 0

end Interference

end Spakky.Logging

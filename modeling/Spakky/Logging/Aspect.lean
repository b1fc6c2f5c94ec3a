import Mathlib.Data.Rat.Defs
import Spakky.Python.Text
import Spakky.Regex

/-!
`LoggingAspect`: a call is written to one line with its arguments, its result and its
duration, and the masking expression is run over that line. The values are those whose
`repr` shows strings under names: strings, lists, tuples and dictionaries; any other
object has some text for its `repr`.
-/

namespace Spakky.Logging

open Python Regex

inductive Value where
  | str (value : Text)
  | list (items : List Value)
  | tuple (items : List Value)
  | dict (entries : List (Value × Value))
  | other (repr : Text)

/-- What is left to Python: the printable code points, and a number with two decimals. -/
structure Runtime where
  printable : CodePoint → Bool
  twoDecimals : ℚ → Text

section Repr

variable (printable : CodePoint → Bool)

mutual

/-- `repr` -/
def Value.repr : Value → Text
  | .str value => strRepr printable value
  | .list items => text "[" ++ List.intercalate (text ", ") (reprItems items) ++ text "]"
  | .tuple items => tupleRepr (reprItems items)
  | .dict entries =>
    text "\x7b" ++ List.intercalate (text ", ") (reprEntries entries) ++ text "\x7d"
  | .other repr => repr

def reprItems : List Value → List Text
  | [] => []
  | item :: rest => item.repr :: reprItems rest

def reprEntries : List (Value × Value) → List Text
  | [] => []
  | entry :: rest => reprEntry entry :: reprEntries rest

def reprEntry : Value × Value → Text
  | (key, value) => key.repr ++ text ": " ++ value.repr

end

/-- `_format_args` -/
def formatArgs (args : List Value) (kwargs : List (Text × Value)) : Text :=
  List.intercalate (text ", ")
    (args.map (·.repr printable) ++
      kwargs.map fun argument => argument.1 ++ text "=" ++ argument.2.repr printable)

end Repr

def isQuote (c : CodePoint) : Bool := c = ofChar '\'' ∨ c = ofChar '"'

def isSeparator (c : CodePoint) : Bool := c = ofChar ':' ∨ c = ofChar '='

/-- The white space of `\s`. -/
def isSpace (c : CodePoint) : Bool :=
  0x09 ≤ c.val ∧ c.val ≤ 0x0d ∨ 0x1c ≤ c.val ∧ c.val ≤ 0x20 ∨ c.val = 0x85 ∨ c.val = 0xa0 ∨
    c.val = 0x1680 ∨ 0x2000 ≤ c.val ∧ c.val ≤ 0x200a ∨ c.val = 0x2028 ∨ c.val = 0x2029 ∨
    c.val = 0x202f ∨ c.val = 0x205f ∨ c.val = 0x3000

/-- The second group of `MASKING_REGEX`. -/
def maskEntry (keys : List Text) : Pattern CodePoint :=
  .seq (.maybe isQuote) (.seq (.ahead keys) (.seq (.many fun c => !isQuote c)
    (.seq (.maybe isQuote) (.seq (.one isSeparator) (.many isSpace)))))

/-- The rest of `MASKING_REGEX`. -/
def maskValue : Pattern CodePoint :=
  .seq (.one isQuote) (.seq (.many fun c => !isQuote c) (.one isQuote))

/-- `_build_mask(keys).sub(MASKING_REPLACEMENT, message)` -/
def mask (keys : List Text) (message : Text) : Text :=
  sub (maskEntry keys) maskValue (text "'******'") message

/-- The slice `value[:end]`. -/
def takeTo (value : Text) (stop : Int) : Text :=
  if 0 ≤ stop then value.take stop.toNat else value.take (value.length - (-stop).toNat)

/-- `_truncate` -/
def truncate (value : Text) (maxLength : Int) : Text :=
  if (value.length : Int) ≤ maxLength then value
  else takeTo value (maxLength - 3) ++ text "..."

section Aspect

/-- `Logged` -/
structure Logged where
  enableMasking : Bool := true
  maskingKeys : List Text := []
  slowThresholdMs : Option ℚ := none
  maxResultLength : Option Int := none
  logArgs : Bool := true
  logResult : Bool := true

/-- `LoggingConfig` -/
structure LoggingConfig where
  maskKeys : List Text
  slowThresholdMs : ℚ
  maxResultLength : Int

def defaultMaskKeys : List Text := [text "password", text "secret", text "token", text "key"]

def defaultSlowThresholdMs : ℚ := 1000

def defaultMaxResultLength : Int := 200

/-- A call of a logged method: how it is called, and that it returns a value or raises an
exception of some type, after some time. -/
structure Call where
  qualname : Text
  args : List Value
  kwargs : List (Text × Value)
  outcome : Except Text Value
  elapsedMs : ℚ

inductive Level where
  | info
  | warning
  | error
  deriving DecidableEq, Repr

structure LogRecord where
  level : Level
  message : Text
  deriving DecidableEq

/-- The aspect at a method: its configuration, and the annotation of the method. -/
structure LoggingAspect extends Runtime where
  config : Option LoggingConfig
  logged : Logged

namespace LoggingAspect

variable (aspect : LoggingAspect)

/-- An annotation without keys uses those of the configuration. -/
def maskKeys : List Text :=
  if aspect.logged.maskingKeys = [] then (aspect.config.map (·.maskKeys)).getD defaultMaskKeys
  else aspect.logged.maskingKeys

/-- A number of the annotation that is zero counts as missing. -/
def slowThreshold : ℚ :=
  let configured := (aspect.config.map (·.slowThresholdMs)).getD defaultSlowThresholdMs
  match aspect.logged.slowThresholdMs with
  | some threshold => if threshold = 0 then configured else threshold
  | none => configured

def resultLength : Int :=
  let configured := (aspect.config.map (·.maxResultLength)).getD defaultMaxResultLength
  match aspect.logged.maxResultLength with
  | some length => if length = 0 then configured else length
  | none => configured

def maskIfEnabled (message : Text) : Text :=
  if aspect.logged.enableMasking then mask aspect.maskKeys message else message

def formattedArgs (call : Call) : Text :=
  if aspect.logged.logArgs then formatArgs aspect.printable call.args call.kwargs else text "..."

def formattedOutcome (call : Call) : Text :=
  match call.outcome with
  | .error errorType => text "raised " ++ errorType
  | .ok result =>
    text "-> " ++
      (if aspect.logged.logResult then truncate (result.repr aspect.printable) aspect.resultLength
      else text "...")

/-- The message of a call, before it is masked. -/
def message (call : Call) : Text :=
  text "[LoggingAspect] " ++ call.qualname ++ text "(" ++ aspect.formattedArgs call ++
    text ") " ++ aspect.formattedOutcome call ++
    text " (" ++ aspect.twoDecimals call.elapsedMs ++ text "ms)"

/-- `LoggingAspect.around`: what it logs for a call. -/
def around (call : Call) : LogRecord :=
  let masked := aspect.maskIfEnabled (aspect.message call)
  match call.outcome with
  | .error _ => ⟨.error, masked⟩
  | .ok _ =>
    if aspect.slowThreshold ≤ call.elapsedMs then ⟨.warning, text "[SLOW] " ++ masked⟩
    else ⟨.info, masked⟩

end LoggingAspect

end Aspect

end Spakky.Logging

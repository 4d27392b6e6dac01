import JsonGrammar.Rule.Value

/-!
# Command-line arguments

The command takes one text, as its only positional argument or from a file,
and options that name the rule, bound the nesting and forbid leftovers.

Arguments are read from left to right and the first one that settles the
matter wins, be it a mistake or a wish for the version.  An option takes its
value from behind an equals sign or from the next argument.  Whatever looks
like an option but is none is text, as long as the text is still missing.
-/

namespace JsonGrammar

namespace Command

/-- The rules that can be asked for. -/
inductive RuleName where
  | null
  | boolean
  | number
  | string
  | value
  deriving DecidableEq

/-- The rule with a name.  Case counts. -/
def RuleName.ofText? : String → Option RuleName
  | "null" => some .null
  | "boolean" => some .boolean
  | "number" => some .number
  | "string" => some .string
  | "value" => some .value
  | _ => none

/-- Where the text to read is. -/
inductive Source where
  | text (text : String)
  | file (path : String)
  deriving DecidableEq

/-- What a run of the command has to do. -/
structure Request where
  source : Source
  rule : RuleName
  strict : Bool
  limits : Limits
  deriving DecidableEq

/-- What the arguments ask for. -/
inductive Invocation where
  | run (request : Request)
  | showVersion
  | showHelp
  | misused
  deriving DecidableEq

/-! ## Options and their values -/

/-- The options that take a value. -/
inductive OptionName where
  | rule
  | file
  | maxDepth
  deriving DecidableEq

/-- The option with a long name. -/
def OptionName.ofText? : String → Option OptionName
  | "rule" => some .rule
  | "file" => some .file
  | "max-depth" => some .maxDepth
  | _ => none

/-- The deepest nesting that can be asked for. -/
def depthCeiling : Nat :=
  512

/-- A nesting limit: decimal digits, perhaps behind a plus sign, from 1 up to
the ceiling. -/
def readDepth? (text : String) : Option Nat :=
  let digits :=
    match text.toList with
    | '+' :: digits => digits
    | digits => digits
  let depth := Nat.ofDigitChars 10 digits 0
  if digits ≠ [] ∧ digits.all Char.isDigit ∧ 1 ≤ depth ∧ depth ≤ depthCeiling then some depth
  else none

/-! ## Shapes of an argument -/

/-- What an argument looks like. -/
inductive Shape where
  /-- Two dashes alone: only texts follow. -/
  | divider
  /-- Two dashes and a name, perhaps with a value behind an equals sign. -/
  | long (name : String) (value? : Option String)
  /-- A dash and letters. -/
  | short (letters : List Char)
  /-- Anything else, a dash alone among it. -/
  | plain
  deriving DecidableEq

/-- What an argument looks like.  A single dash is text, and only the first
equals sign behind a name parts it from a value. -/
def Shape.ofText (argument : String) : Shape :=
  match argument.toList with
  | ['-', '-'] => .divider
  | '-' :: '-' :: body =>
      let name := body.takeWhile (· != '=')
      match body.dropWhile (· != '=') with
      | [] => .long (String.ofList name) none
      | _ :: value => .long (String.ofList name) (some (String.ofList value))
  | ['-'] => .plain
  | '-' :: letters => .short letters
  | _ => .plain

/-- The name belongs to an option or a switch. -/
def isKnownName (name : String) : Bool :=
  ["rule", "file", "max-depth", "strict", "version", "help"].contains name

/-- The letter belongs to a switch. -/
def isKnownLetter (letter : Char) : Bool :=
  letter == 'V' || letter == 'h'

/-- The argument names an option or a switch, or is the divider. -/
def Shape.isReserved : Shape → Bool
  | divider => true
  | long name _ => isKnownName name
  | short letters => letters.all isKnownLetter
  | plain => false

/-! ## Reading -/

/-- What has been read so far. -/
structure Settings where
  text? : Option String := none
  file? : Option String := none
  rule? : Option RuleName := none
  maxDepth? : Option Nat := none
  strict : Bool := false
  deriving DecidableEq

/-- Why the arguments need not be read to their end. -/
inductive Verdict where
  | version
  | help
  | mistake
  deriving DecidableEq

namespace Settings

/-- Take the text; there is only one. -/
def addText (settings : Settings) (text : String) : Except Verdict Settings :=
  if settings.text?.isSome then .error .mistake
  else .ok { settings with text? := some text }

/-- Give an option its value; no option is given twice. -/
def setOption (settings : Settings) (name : OptionName) (value : String) :
    Except Verdict Settings :=
  match name with
  | .rule =>
      match settings.rule?, RuleName.ofText? value with
      | none, some rule => .ok { settings with rule? := some rule }
      | _, _ => .error .mistake
  | .file =>
      if settings.file?.isSome ∨ value = "" then .error .mistake
      else .ok { settings with file? := some value }
  | .maxDepth =>
      match settings.maxDepth?, readDepth? value with
      | none, some depth => .ok { settings with maxDepth? := some depth }
      | _, _ => .error .mistake

/-- A switch by its long name, which takes no value; any other name is
text. -/
def setSwitch (settings : Settings) (argument name : String) (value? : Option String) :
    Except Verdict Settings :=
  if isKnownName name then
    match name, value? with
    | "strict", none =>
        if settings.strict then .error .mistake else .ok { settings with strict := true }
    | "version", none => .error .version
    | "help", none => .error .help
    | _, _ => .error .mistake
  else settings.addText argument

/-- Letters behind a dash: the first one acts, unless they can be text. -/
def setLetters (settings : Settings) (argument : String) (letters : List Char) :
    Except Verdict Settings :=
  if settings.text? = none ∧ ¬ letters.all isKnownLetter then settings.addText argument
  else
    match letters with
    | 'V' :: _ => .error .version
    | 'h' :: _ => .error .help
    | _ => .error .mistake

/-- The argument can be the value of the option before it. -/
def canBeValue (settings : Settings) (argument : String) : Bool :=
  match Shape.ofText argument with
  | .plain => true
  | shape => settings.text?.isNone && !shape.isReserved

/-- Read the arguments; `waiting?` is the option that still lacks its
value. -/
def read (settings : Settings) (waiting? : Option OptionName) :
    List String → Except Verdict Settings
  | [] => if waiting?.isSome then .error .mistake else .ok settings
  | argument :: arguments =>
      match waiting? with
      | some name =>
          if settings.canBeValue argument then do
            (← settings.setOption name argument).read none arguments
          else .error .mistake
      | none =>
          match Shape.ofText argument with
          | .divider => arguments.foldlM addText settings
          | .plain => do (← settings.addText argument).read none arguments
          | .short letters => do (← settings.setLetters argument letters).read none arguments
          | .long name value? =>
              match OptionName.ofText? name, value? with
              | some name, none => settings.read (some name) arguments
              | some name, some value => do
                  (← settings.setOption name value).read none arguments
              | none, value? => do
                  (← settings.setSwitch argument name value?).read none arguments

/-- The request that settings amount to: the text comes from one place, and
what was not said has its default. -/
def request? (settings : Settings) : Option Request :=
  let withSource (source : Source) : Request :=
    { source := source
      rule := settings.rule?.getD .value
      strict := settings.strict
      limits := (settings.maxDepth?.map Limits.mk).getD {} }
  match settings.text?, settings.file? with
  | some text, none => some (withSource (.text text))
  | none, some path => some (withSource (.file path))
  | _, _ => none

end Settings

/-- What a list of arguments asks for. -/
def Invocation.ofArguments (arguments : List String) : Invocation :=
  match ({} : Settings).read none arguments with
  | .error .version => .showVersion
  | .error .help => .showHelp
  | .error .mistake => .misused
  | .ok settings =>
      match settings.request? with
      | some request => .run request
      | none => .misused

end Command

end JsonGrammar

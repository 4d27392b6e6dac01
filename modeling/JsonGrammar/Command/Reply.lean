import JsonGrammar.Command.Arguments
import JsonGrammar.Command.Folder
import JsonGrammar.Json.Printer
import JsonGrammar.Text.Quoted

/-!
# The command

One run of the command as a function from its arguments, from the way to read
them and the way to read a file, to what it writes and the code it ends with: 0
where the text was read, 1 where it was not, 2 where there was no text to read.
-/

namespace JsonGrammar

namespace Command

/-- What a run leaves behind. -/
structure Reply where
  exitCode : Nat
  stdout : String
  stderr : String
  deriving DecidableEq

/-- The name of the command and its version. -/
def versionText : String :=
  "jsoncomb 0.1.0\n"

/-- What the command takes and what each option does. -/
def helpText : String :=
  "Parse JSON text with combinator parsers.\n\n" ++
    "Usage: jsoncomb [OPTIONS] <INPUT|--file <FILE>>\n\n" ++
    "Arguments:\n" ++
    "  [INPUT]  Text to parse\n\n" ++
    "Options:\n" ++
    "      --file <FILE>            Read the text to parse from a file\n" ++
    "      --rule <RULE>            Grammar rule to run [default: value] " ++
    "[possible values: null, boolean, number, string, value]\n" ++
    "      --strict                 Fail when input remains after the parsed value\n" ++
    "      --max-depth <MAX_DEPTH>  Deepest allowed nesting of arrays and objects " ++
    "[default: 128]\n" ++
    "  -h, --help                   Print help\n" ++
    "  -V, --version                Print version\n"

/-- The parser behind a rule's name. -/
def RuleName.parser (limits : Limits) : RuleName → Parser Json
  | null => Rule.null
  | boolean => Rule.boolean
  | number => Rule.number.map Json.number
  | string => Rule.stringLiteral.map Json.string
  | value => Rule.value limits

/-- The parser a request asks for. -/
def Request.parser (request : Request) : Parser Json :=
  let p := request.rule.parser request.limits
  if request.strict then p.thenSkip Parser.endOfInput else p

/-- The line about what was left over, where something was. -/
def leftoverLine (rest : Cursor) : String :=
  if rest.isAtEnd then ""
  else
    "unconsumed input at position " ++ toString rest.position ++ ": " ++
      String.ofList (Quoted.encode rest.rest) ++ "\n"

/-- The reply to a run of a rule. -/
def Reply.ofOutcome : Outcome Json → Reply
  | .done value rest =>
      { exitCode := 0, stdout := value.display ++ "\n" ++ leftoverLine rest, stderr := "" }
  | .failed failure => { exitCode := 1, stdout := "", stderr := failure.report }
  | .stuck => { exitCode := 1, stdout := "", stderr := "error: the rule does not end\n" }

/-- Run the rule of a request on a text. -/
def Request.run (request : Request) (text : String) : Reply :=
  .ofOutcome (request.parser.parse text)

/-- The text of a file. -/
def textOf (bytes : ByteArray) : Except ReadProblem String :=
  match String.fromUTF8? bytes with
  | some text => .ok text
  | none => .error .notUtf8

/-- The reply to a problem with a file. -/
def Reply.cannotRead (path : String) (problem : ReadProblem) : Reply where
  exitCode := 2
  stdout := ""
  stderr := "error: cannot read " ++ path ++ ": " ++ problem.message ++ "\n"

/-- The reply to a request. -/
def Request.answer (readFile : String → Except ReadProblem ByteArray) (request : Request) :
    Reply :=
  match request.source with
  | .text text => request.run text
  | .file path =>
      match readFile path >>= textOf with
      | .ok text => request.run text
      | .error problem => .cannotRead path problem

/-- The reply to the arguments, by what they are read as. -/
def respond (readArguments : List String → Invocation)
    (readFile : String → Except ReadProblem ByteArray) (arguments : List String) : Reply :=
  match readArguments arguments with
  | .run request => request.answer readFile
  | .showVersion => { exitCode := 0, stdout := versionText, stderr := "" }
  | .showHelp => { exitCode := 0, stdout := helpText, stderr := "" }
  | .misused => { exitCode := 2, stdout := "", stderr := "usage error" }

end Command

end JsonGrammar

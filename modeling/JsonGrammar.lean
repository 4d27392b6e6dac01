import JsonGrammar.Main
import JsonGrammar.Proofs.Cursor.Reached
import JsonGrammar.Proofs.Parser.Contract
import JsonGrammar.Proofs.Parser.Placement
import JsonGrammar.Proofs.Rule.Placement
import JsonGrammar.Proofs.Parser.Built
import JsonGrammar.Proofs.Number.Conversion
import JsonGrammar.Proofs.Grammar.Text
import JsonGrammar.Proofs.Number.Order
import JsonGrammar.Proofs.Number.Shortest
import JsonGrammar.Proofs.Number.Digits
import JsonGrammar.Proofs.Number.Reading
import JsonGrammar.Proofs.Grammar.Numbers
import JsonGrammar.Proofs.Grammar.Strings
import JsonGrammar.Proofs.Grammar.Containers
import JsonGrammar.Proofs.Grammar.Values
import JsonGrammar.Proofs.Number.Printing
import JsonGrammar.Proofs.Grammar.Printing
import JsonGrammar.Proofs.Grammar.Beginnings
import JsonGrammar.Proofs.Grammar.Escapes
import JsonGrammar.Proofs.Grammar.Failures
import JsonGrammar.Proofs.Parser.Settling
import JsonGrammar.Proofs.Rule.Settling
import JsonGrammar.Proofs.Parser.Longest
import JsonGrammar.Proofs.Grammar.Prefixes
import JsonGrammar.Proofs.Grammar.Munch
import JsonGrammar.Proofs.Parser.Coupling
import JsonGrammar.Proofs.Parser.Relocation
import JsonGrammar.Proofs.Rule.Coupling
import JsonGrammar.Proofs.Grammar.Choice
import JsonGrammar.Proofs.Parser.Relocatable
import JsonGrammar.Proofs.Grammar.Brackets
import JsonGrammar.Proofs.Rule.Causes
import JsonGrammar.Proofs.Grammar.Depth
import JsonGrammar.Proofs.Grammar.Spelling
import JsonGrammar.Proofs.Grammar.BrokenStrings
import JsonGrammar.Proofs.Parser.Looping
import JsonGrammar.Proofs.Parser.Halting
import JsonGrammar.Proofs.Parser.Terminating
import JsonGrammar.Proofs.Parser.Backtracking
import JsonGrammar.Proofs.Parser.Advancing
import JsonGrammar.Proofs.Parser.Literals
import JsonGrammar.Proofs.Parser.Spans
import JsonGrammar.Proofs.Text.Quoted
import JsonGrammar.Proofs.Text.Coordinates
import JsonGrammar.Proofs.Text.Context
import JsonGrammar.Proofs.Json.Display
import JsonGrammar.Proofs.Json.Equality
import JsonGrammar.Proofs.Json.Lookup
import JsonGrammar.Proofs.Command.Runs
import JsonGrammar.Proofs.Command.Normalizing
import JsonGrammar.Proofs.Command.Decoding
import JsonGrammar.Proofs.Command.Strictness
import JsonGrammar.Proofs.Grammar.Delimiting

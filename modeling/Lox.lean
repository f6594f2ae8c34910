import Lox.CommandLine
import Lox.CommandLine.Arguments
import Lox.CommandLine.Path
import Lox.Diagnostic
import Lox.Eval
import Lox.Failure
import Lox.Json
import Lox.Json.Display
import Lox.Json.Read
import Lox.Json.Same
import Lox.Json.Write
import Lox.Main
import Lox.Number.Binary64
import Lox.Number.Decimal
import Lox.Number.Text
import Lox.Operator
import Lox.Program
import Lox.Run
import Lox.Scope
import Lox.Session
import Lox.Syntax
import Lox.Syntax.Cursor
import Lox.Syntax.Parse
import Lox.Syntax.Reader
import Lox.Text
import Lox.Text.Printable
import Lox.Text.Quoted
import Lox.Token
import Lox.Token.Listing
import Lox.Token.Piece
import Lox.Token.Scan
import Lox.Tree
import Lox.Tree.OfSyntax
import Lox.Tree.Print
import Lox.Tree.Saved
import Lox.Value
import Lox.Proofs.Grammar
import Lox.Proofs.Grammar.Lenient
import Lox.Proofs.Syntax.Parser
import Lox.Proofs.Syntax.Reads
import Lox.Proofs.Syntax.Settled
import Lox.Proofs.Syntax.Budget
import Lox.Proofs.Syntax.Loud
import Lox.Proofs.Syntax.Cursor
import Lox.Proofs.Syntax.Bounds
import Lox.Proofs.Syntax.Sound
import Lox.Proofs.Syntax.Complete
import Lox.Proofs.Syntax.Exact
import Lox.Proofs.Syntax.Soft
import Lox.Proofs.Syntax.Fenced
import Lox.Proofs.Syntax.Recovery
import Lox.Proofs.Syntax.Cascade
import Lox.Proofs.Run.Alike
import Lox.Proofs.Run.Lawful
import Lox.Proofs.Run.Restored
import Lox.Proofs.Syntax.MadeOf
import Lox.Proofs.Syntax.Proper
import Lox.Proofs.Scope
import Lox.Proofs.Scope.Rooted
import Lox.Proofs.Scope.Shared
import Lox.Proofs.Run.Realm
import Lox.Proofs.Run.Safe
import Lox.Proofs.Run.Steps
import Lox.Proofs.Run.Reachable
import Lox.Proofs.Run.Moment
import Lox.Proofs.Run.Declarations
import Lox.Proofs.Run.Rooted
import Lox.Proofs.Run.Part
import Lox.Proofs.Run.Ending
import Lox.Proofs.Run.Blame
import Lox.Proofs.Run.Returns
import Lox.Proofs.Run.Layout
import Lox.Proofs.Run.Padded
import Lox.Proofs.Run.ForLoop
import Lox.Proofs.Run.Encapsulated
import Lox.Proofs.Run.Placed
import Lox.Proofs.Lexical
import Lox.Proofs.Token.Tiling
import Lox.Proofs.Token.Lines
import Lox.Proofs.Token.Alone
import Lox.Proofs.Token.Written
import Lox.Proofs.Token.Finds
import Lox.Proofs.Syntax.Relined
import Lox.Proofs.Tree.Relined
import Lox.Proofs.Run.Relined
import Lox.Proofs.Run.Lines
import Lox.Proofs.Run.Prompt
import Lox.Proofs.Run.Tracing
import Lox.Proofs.Number.Binary64
import Lox.Proofs.Operator
import Lox.Proofs.Number.Rounding
import Lox.Proofs.Number.Decimal
import Lox.Proofs.Number.Value
import Lox.Proofs.Number.Shortest
import Lox.Proofs.Json.Number
import Lox.Proofs.Number.Text
import Lox.Proofs.Number.Denoted
import Lox.Proofs.Number.Printed
import Lox.Proofs.Json.ReadBack
import Lox.Proofs.Json.LineEnds
import Lox.Proofs.Tree.Saved
import Lox.Proofs.Tree.Loading
import Lox.Proofs.Tree.Stable
import Lox.Proofs.Tree.OfSyntax
import Lox.Proofs.Tree.Form
import Lox.Proofs.Tree.Printed
import Lox.Proofs.Tree.Canonical
import Lox.Proofs.Tree.Unprinted
import Lox.Proofs.CommandLine.Saved
import Lox.Proofs.CommandLine.Loading

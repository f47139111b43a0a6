import ExpressionTyping.Main
import ExpressionTyping.Proofs.Grammar.Coverage
import ExpressionTyping.Proofs.Grammar.FileCoverage
import ExpressionTyping.Proofs.Grammar.Nesting
import ExpressionTyping.Proofs.Grammar.Numbering
import ExpressionTyping.Proofs.Grammar.Precedence
import ExpressionTyping.Proofs.Grammar.Recovery
import ExpressionTyping.Proofs.Grammar.RoundTrip
import ExpressionTyping.Proofs.Grammar.Scanning
import ExpressionTyping.Proofs.Grammar.Termination
import ExpressionTyping.Proofs.Program.Circularity
import ExpressionTyping.Proofs.Program.DeclarationOrder
import ExpressionTyping.Proofs.Program.DisplayRoundTrip
import ExpressionTyping.Proofs.Program.Duplicates
import ExpressionTyping.Proofs.Program.Initializers
import ExpressionTyping.Proofs.Program.Interfaces
import ExpressionTyping.Proofs.Program.Interning
import ExpressionTyping.Proofs.Program.Isolation
import ExpressionTyping.Proofs.Program.Joining
import ExpressionTyping.Proofs.Program.Narrowing
import ExpressionTyping.Proofs.Program.Safety
import ExpressionTyping.Proofs.Program.UnknownTypes
import ExpressionTyping.Proofs.Session.BuiltInKinds
import ExpressionTyping.Proofs.Session.Calls
import ExpressionTyping.Proofs.Session.Interchange
import ExpressionTyping.Proofs.Session.Permanence
import ExpressionTyping.Proofs.Text.Lines
import ExpressionTyping.Proofs.Text.NameTable
import ExpressionTyping.Proofs.Text.Substitution
import ExpressionTyping.Proofs.Token.Faithfulness
import ExpressionTyping.Proofs.Token.Literals
import ExpressionTyping.Proofs.Token.Rescanning
import ExpressionTyping.Proofs.Typing.Gradual
import ExpressionTyping.Proofs.Typing.LoadingOnce
import ExpressionTyping.Proofs.Typing.RuleTable
import ExpressionTyping.Proofs.Typing.Splice
import ExpressionTyping.Proofs.Typing.Truncation
import ExpressionTyping.Syntax.Outline
import ExpressionTyping.Text.NameTable
import ExpressionTyping.Token.Cursor

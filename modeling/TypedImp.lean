import TypedImp.FrontEnd
import TypedImp.Typing.Check
import TypedImp.Execution.Interpreter
import TypedImp.Session
import TypedImp.CommandLine.Command
import TypedImp.Main
import TypedImp.Proofs.Binary64
import TypedImp.Proofs.Decimal.Layout
import TypedImp.Proofs.Decimal.Numeral
import TypedImp.Proofs.Decimal.RoundTrip
import TypedImp.Proofs.Decimal.Shortest
import TypedImp.Proofs.Execution.Containment
import TypedImp.Proofs.Execution.Covering
import TypedImp.Proofs.Execution.DeadCode
import TypedImp.Proofs.Execution.Guard
import TypedImp.Proofs.Execution.Hoisting
import TypedImp.Proofs.Execution.Isolation
import TypedImp.Proofs.Execution.Joining
import TypedImp.Proofs.Execution.Judgment
import TypedImp.Proofs.Execution.Located
import TypedImp.Proofs.Execution.Lockstep
import TypedImp.Proofs.Execution.LoopExpansion
import TypedImp.Proofs.Execution.Moments
import TypedImp.Proofs.Execution.Noninterference
import TypedImp.Proofs.Execution.Outlasting
import TypedImp.Proofs.Execution.Resolution
import TypedImp.Proofs.Execution.Retyping
import TypedImp.Proofs.Execution.Safety
import TypedImp.Proofs.Execution.Shadowing
import TypedImp.Proofs.Execution.Simulation
import TypedImp.Proofs.Execution.Step
import TypedImp.Proofs.Execution.StoreTyping
import TypedImp.Proofs.Execution.Task
import TypedImp.Proofs.Execution.Termination
import TypedImp.Proofs.Execution.TypeSoundness
import TypedImp.Proofs.FrontEnd
import TypedImp.Proofs.Grammar.Completeness
import TypedImp.Proofs.Grammar.Cutting
import TypedImp.Proofs.Grammar.Expected
import TypedImp.Proofs.Grammar.ExpressionTrees
import TypedImp.Proofs.Grammar.Faults
import TypedImp.Proofs.Grammar.First
import TypedImp.Proofs.Grammar.Items
import TypedImp.Proofs.Grammar.Lexing
import TypedImp.Proofs.Grammar.Matching
import TypedImp.Proofs.Grammar.Meaning
import TypedImp.Proofs.Grammar.Pattern
import TypedImp.Proofs.Grammar.Readers
import TypedImp.Proofs.Grammar.Soundness
import TypedImp.Proofs.Grammar.Stack
import TypedImp.Proofs.Grammar.StatementTrees
import TypedImp.Proofs.Grammar.Viable
import TypedImp.Proofs.IntegerRange
import TypedImp.Proofs.Json.Numbers
import TypedImp.Proofs.Json.Printing
import TypedImp.Proofs.Json.Reading
import TypedImp.Proofs.Json.Strings
import TypedImp.Proofs.Json.Texts
import TypedImp.Proofs.Node.Interchange
import TypedImp.Proofs.Node.Loading
import TypedImp.Proofs.Program.Literals
import TypedImp.Proofs.Program.Tree
import TypedImp.Proofs.Program.Trimming
import TypedImp.Proofs.Session
import TypedImp.Proofs.State
import TypedImp.Proofs.Store.Nesting
import TypedImp.Proofs.Store.Operation
import TypedImp.Proofs.Syntax.Completeness
import TypedImp.Proofs.Syntax.Derivation
import TypedImp.Proofs.Syntax.FaultyLiteral
import TypedImp.Proofs.Syntax.FirstUnfit
import TypedImp.Proofs.Syntax.Literal
import TypedImp.Proofs.Syntax.Literals
import TypedImp.Proofs.Syntax.Mending
import TypedImp.Proofs.Syntax.Names
import TypedImp.Proofs.Syntax.Places
import TypedImp.Proofs.Syntax.Progress
import TypedImp.Proofs.Syntax.Reading
import TypedImp.Proofs.Syntax.Recognition
import TypedImp.Proofs.Syntax.Regular
import TypedImp.Proofs.Syntax.Sight
import TypedImp.Proofs.Syntax.Soundness
import TypedImp.Proofs.Syntax.Steps
import TypedImp.Proofs.Syntax.WellFormed
import TypedImp.Proofs.Syntax.Writing
import TypedImp.Proofs.Syntax.Written
import TypedImp.Proofs.Token.Cover
import TypedImp.Proofs.Token.Digits
import TypedImp.Proofs.Token.Gaps
import TypedImp.Proofs.Token.Order
import TypedImp.Proofs.Token.Progress
import TypedImp.Proofs.Token.Respacing
import TypedImp.Proofs.Token.Respelling
import TypedImp.Proofs.Token.Spelling
import TypedImp.Proofs.Typing.Accepted
import TypedImp.Proofs.Typing.Admitted
import TypedImp.Proofs.Typing.ArenaContext
import TypedImp.Proofs.Typing.Checked
import TypedImp.Proofs.Typing.Composed
import TypedImp.Proofs.Typing.Context
import TypedImp.Proofs.Typing.Decision
import TypedImp.Proofs.Typing.Homes
import TypedImp.Proofs.Typing.Rules
import TypedImp.Proofs.Typing.ScopeStack
import TypedImp.Proofs.Typing.Scoping
import TypedImp.Proofs.Typing.Weakening
import TypedImp.Proofs.Value.Arithmetic
import TypedImp.Proofs.Value.Operation
import TypedImp.Proofs.Value.Printing
import TypedImp.Proofs.Value.Proper

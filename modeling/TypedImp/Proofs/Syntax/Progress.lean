import TypedImp.Proofs.Syntax.Steps

/-! The parser always gets ahead. Whatever procedure of the parser is called on whatever tokens, it comes to an end, it
    has consumed a token when it succeeds, it never goes back, and it always stands at a token. The one procedure that
    may succeed without consuming anything is that of a whole program. -/

namespace TypedImp
namespace Syntax
open TypedImp.Parser

/-- The procedures that answer an expression. Operators end no text. -/
inductive Operand where
  | expression
  | operators (kinds : List Token.Kind) (passes : Passes (.oneOf kinds)) (operand : Operand)
  | expressionFrom (level : Nat)
  | unary
  | primary

def Operand.parser : Operand → Parser Expr
  | expression => Parser.expression
  | operators kinds _ operand => Parser.binary operand.parser [kinds]
  | expressionFrom level => Parser.expressionFrom level
  | unary => Parser.unaryExpression
  | primary => Parser.primaryExpression

/-- The procedures of the parser by what they answer. -/
inductive Procedure : Type → Type 1
  | program : Procedure Program
  | statement : Procedure Stmt
  | typeName (voidAllowed : Bool) : Procedure Ty
  | varDecl : Procedure Stmt
  | assignment (semicolonRequired : Bool) : Procedure Stmt
  | printStatement : Procedure Stmt
  | inputStatement : Procedure Stmt
  | block : Procedure (List Stmt)
  | ifStatement : Procedure Stmt
  | whileStatement : Procedure Stmt
  | forStatement : Procedure Stmt
  | functionDeclaration : Procedure Stmt
  | parameters : Procedure (List Param)
  | returnStatement : Procedure Stmt
  | operand (o : Operand) : Procedure Expr
  | callArguments : Procedure (List Expr)

namespace Procedure
variable {α : Type}

def parser : Procedure α → Parser α
  | program => Parser.program
  | statement => Parser.statement
  | typeName voidAllowed => if voidAllowed then resultType else valueType
  | varDecl => Parser.varDecl
  | assignment semicolonRequired => Parser.assignment semicolonRequired
  | printStatement => Parser.printStatement
  | inputStatement => Parser.inputStatement
  | block => Parser.block
  | ifStatement => Parser.ifStatement Parser.block
  | whileStatement => Parser.whileStatement Parser.block
  | forStatement => Parser.forStatement Parser.block
  | functionDeclaration => Parser.functionDeclaration Parser.block
  | parameters => Parser.parameters
  | returnStatement => Parser.returnStatement
  | operand o => o.parser
  | callArguments => Parser.callArguments

/-- How many tokens it consumes at least when it succeeds. -/
def least : Procedure α → Nat
  | program => 0
  | _ => 1

/-- Calls the procedure on tokens, from a place in them. -/
def call (p : Procedure α) (ts : List Token) (c : Cursor) : Parsed α := p.parser.run (TokenStream.ofList ts) c

end Procedure

/-! ### The procedures that go into others of their kind -/

section
variable {ts : TokenStream} (closed : ts.Closed)
include closed

theorem block_advances : ∀ {room : Nat}, Advances ts room 1 block
  | 0 => .zero _
  | _ + 1 => blockOf_advances closed (statement_advances closed)

theorem primaryExpression_advances : ∀ {room : Nat}, Advances ts room 1 primaryExpression
  | 0 => .zero _
  | _ + 1 => primary_advances closed (expression_advances closed)

theorem unaryExpression_advances {room : Nat} : Advances ts room 1 unaryExpression :=
  .stepBound fun _ _ hn _ => signed_advances closed (primaryExpression_advances closed) hn

theorem Operand.advances {room : Nat} : ∀ o : Operand, Advances ts room 1 o.parser
  | expression => expression_advances closed
  | operators kinds passes operand =>
    binary_advances closed operand.advances [kinds] (List.forall_mem_singleton.mpr passes)
  | expressionFrom level => by
    have hlevels : ∀ kinds ∈ levels, Passes (.oneOf kinds) := by decide
    refine binary_advances closed (unaryExpression_advances closed) _ fun kinds h => ?_
    exact hlevels kinds (List.mem_of_mem_drop h)
  | unary => unaryExpression_advances closed
  | primary => primaryExpression_advances closed

theorem Procedure.advances {α : Type} {room : Nat} (p : Procedure α) : Advances ts room p.least p.parser := by
  cases p with
  | program => exact program_advances closed
  | statement => exact statement_advances closed
  | typeName voidAllowed => exact .ite (typeName_advances closed _) (typeName_advances closed _) voidAllowed
  | varDecl => exact varDecl_advances closed
  | assignment semicolonRequired => exact assignment_advances closed semicolonRequired
  | printStatement => exact printStatement_advances closed
  | inputStatement => exact inputStatement_advances closed
  | block => exact block_advances closed
  | ifStatement => exact ifStatement_advances closed (block_advances closed)
  | whileStatement => exact whileStatement_advances closed (block_advances closed)
  | forStatement => exact forStatement_advances closed (block_advances closed)
  | functionDeclaration => exact functionDeclaration_advances closed (block_advances closed)
  | parameters => exact parameters_advances closed
  | returnStatement => exact returnStatement_advances closed
  | operand o => exact o.advances closed
  | callArguments => exact arguments_advances closed (expression_advances closed)

end

/-- Called at a token, a procedure does not use up its steps and stands at a token again, not before the one where it
    began; if it succeeds it has consumed a token, unless it is that of a program. -/
theorem procedure_makes_progress {α : Type} (p : Procedure α) (ts : List Token) (c : Cursor)
    (hc : c.consumed < (TokenStream.ofList ts).tokens.size) :
    (p.call ts c).answer ≠ .error .outOfSteps ∧ c.consumed ≤ (p.call ts c).cursor.consumed ∧
      (p.call ts c).cursor.consumed < (TokenStream.ofList ts).tokens.size ∧
      ∀ a, (p.call ts c).answer = .ok a → c.consumed + p.least ≤ (p.call ts c).cursor.consumed := by
  have hadvanced := p.advances (TokenStream.closed_ofList ts) c hc (Nat.le_add_left _ _)
  unfold Procedure.call Parser.run ReaderT.run
  cases hr : p.parser (TokenStream.ofList ts) c with
  | ok a d =>
    rw [hr] at hadvanced
    obtain ⟨hle, hd⟩ := hadvanced
    exact ⟨nofun, Nat.le_trans (Nat.le_add_right _ _) hle, hd, fun _ _ => hle⟩
  | error e d =>
    rw [hr] at hadvanced
    obtain ⟨hle, hd, he⟩ := hadvanced
    exact ⟨fun h => he (Except.error.inj h), hle, hd, nofun⟩

/-- A block that an end of input interrupts behind its first statement; nothing final stands at its end. -/
def interruptedBlock : List Token :=
  [⟨.lbrace, "\x7b", ⟨1, 1⟩⟩, ⟨.ident, "f", ⟨1, 2⟩⟩, ⟨.semicolon, ";", ⟨1, 3⟩⟩, ⟨.ident, "g", ⟨1, 4⟩⟩,
    ⟨.lparen, "(", ⟨1, 5⟩⟩, ⟨.eof, "", ⟨1, 6⟩⟩, ⟨.rparen, ")", ⟨1, 7⟩⟩]

/-- The block cannot be read, its first statement can. -/
theorem interruptedBlock_makes_progress :
    (Parser.start.consumed < (TokenStream.ofList interruptedBlock).tokens.size ∧
      (Procedure.block.call interruptedBlock Parser.start).answer ≠ .error .outOfSteps ∧
      0 ≤ (Procedure.block.call interruptedBlock Parser.start).cursor.consumed ∧
      (Procedure.block.call interruptedBlock Parser.start).cursor.consumed <
        (TokenStream.ofList interruptedBlock).tokens.size ∧
      ∀ a, (Procedure.block.call interruptedBlock Parser.start).answer = .ok a →
        1 ≤ (Procedure.block.call interruptedBlock Parser.start).cursor.consumed) ∧
    (1 < (TokenStream.ofList interruptedBlock).tokens.size ∧
      (Procedure.statement.call interruptedBlock ⟨1, []⟩).answer = .ok (.expr (.var "f")) ∧
      2 ≤ (Procedure.statement.call interruptedBlock ⟨1, []⟩).cursor.consumed ∧
      (Procedure.statement.call interruptedBlock ⟨1, []⟩).cursor.consumed <
        (TokenStream.ofList interruptedBlock).tokens.size) := by
  have hstart : Parser.start.consumed < (TokenStream.ofList interruptedBlock).tokens.size := by decide
  have hinside : 1 < (TokenStream.ofList interruptedBlock).tokens.size := by decide
  have hread : (Procedure.statement.call interruptedBlock ⟨1, []⟩).answer = .ok (.expr (.var "f")) := by rfl
  obtain ⟨-, -, hbound, hconsumed⟩ := procedure_makes_progress .statement interruptedBlock ⟨1, []⟩ hinside
  exact ⟨⟨hstart, procedure_makes_progress .block interruptedBlock Parser.start hstart⟩,
    hinside, hread, hconsumed _ hread, hbound⟩

end Syntax
end TypedImp

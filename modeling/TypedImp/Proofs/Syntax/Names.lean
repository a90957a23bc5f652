import TypedImp.Proofs.Syntax.Derivation

/-! The names in programs, and where they stand among the tokens. Every identifier among the tokens that derive a
    program is a name in the program or names a type, so the program tells which words its text uses as names. -/

namespace TypedImp

/-! ### Names in programs -/

namespace Expr

mutual
/-- The names of the identifiers and calls of an expression. -/
def mentions : Expr → List String
  | var x => [x]
  | unary _ operand => mentions operand
  | binary left _ right => mentions left ++ mentions right
  | call x args => x :: mentionsAll args
  | _ => []

def mentionsAll : List Expr → List String
  | [] => []
  | e :: es => mentions e ++ mentionsAll es
end

end Expr

namespace Stmt

mutual
/-- The names of the variables, parameters and functions that a statement declares, of those that it assigns and
    reads from the input, and those of its expressions. -/
def mentions : Stmt → List String
  | varDecl x _ init => x :: init.elim [] Expr.mentions
  | assign x value => x :: value.mentions
  | print e => e.mentions
  | input x => [x]
  | ifThen cond body => cond.mentions ++ mentionsAll body
  | ifElse cond yes no => cond.mentions ++ (mentionsAll yes ++ mentionsAll no)
  | whileLoop cond body => cond.mentions ++ mentionsAll body
  | forLoop init cond step body => mentions init ++ (cond.mentions ++ (mentions step ++ mentionsAll body))
  | function x params _ body => x :: (params.map Param.name ++ mentionsAll body)
  | ret value => value.elim [] Expr.mentions
  | expr e => e.mentions
  | block body => mentionsAll body
  | misnamed _ init _ => init.elim [] fun d => d.2.mentions
  | _ => []

def mentionsAll : List Stmt → List String
  | [] => []
  | s :: ss => mentions s ++ mentionsAll ss
end

end Stmt

def Program.mentions (p : Program) : List String := Stmt.mentionsAll p.body

namespace Syntax
open Grammar (Level)

/-! ### Names among tokens -/

/-- Every identifier among the tokens is one of the names, or names a type. -/
def NamedBy (ts : List Token) (names : List String) : Prop :=
  ∀ t ∈ ts, t.kind = .ident → t.text ∈ names ∨ ∃ ty : Ty, t.text = ty.name

section
variable {ts us : List Token} {xs ys : List String} {t : Token} {k : Token.Kind}

theorem NamedBy.nil : NamedBy [] xs := List.forall_mem_nil _

theorem NamedBy.append (hts : NamedBy ts xs) (hus : NamedBy us ys) : NamedBy (ts ++ us) (xs ++ ys) :=
  List.forall_mem_append.mpr
    ⟨fun t ht hk => (hts t ht hk).imp_left (List.mem_append_left _),
      fun t ht hk => (hus t ht hk).imp_left (List.mem_append_right _)⟩

/-- A token of another kind in front. -/
theorem NamedBy.skip (h : NamedBy ts xs) (ht : t.kind = k) (hk : k ≠ .ident := by decide) : NamedBy (t :: ts) xs :=
  List.forall_mem_cons.mpr ⟨fun hident => absurd (ht.symm.trans hident) hk, h⟩

/-- A name in front. -/
theorem NamedBy.name (h : NamedBy ts xs) : NamedBy (t :: ts) (t.text :: xs) :=
  List.forall_mem_cons.mpr
    ⟨fun _ => .inl (List.mem_cons_self ..), fun t ht hk => (h t ht hk).imp_left (List.mem_cons_of_mem _)⟩

/-- The name of a type in front. -/
theorem NamedBy.type {ty : Ty} (h : NamedBy ts xs) (ht : Names t ty) : NamedBy (t :: ts) xs :=
  List.forall_mem_cons.mpr ⟨fun _ => .inr ⟨ty, ht.2⟩, h⟩

/-- A token of another kind behind. -/
theorem NamedBy.closed (h : NamedBy ts xs) (ht : t.kind = k) (hk : k ≠ .ident := by decide) :
    NamedBy (ts ++ [t]) xs := by
  have hlast : NamedBy [t] [] := .skip .nil ht hk
  have happend := h.append hlast
  rwa [List.append_nil] at happend

end

theorem ne_ident_of_level {l : Level} {k : Token.Kind} (h : k ∈ l.kinds) : k ≠ .ident := by
  rintro rfl
  revert h
  cases l <;> decide

/-! ### Expressions -/

mutual
theorem Chain.named {ls : List Level} {ts : List Token} {e : Expr} : Chain ls ts e → NamedBy ts e.mentions
  | .signed h => h.named
  | .operand h => h.named
  | .operator hl hop hr => hl.named.append (hr.named.skip rfl (ne_ident_of_level hop))

theorem Signed.named {ts : List Token} {e : Expr} : Signed ts e → NamedBy ts e.mentions
  | .primary h => h.named
  | .sign hop h => h.named.skip rfl (by rcases hop with hop | hop <;> rw [hop] <;> decide)

theorem Primary.named {ts : List Token} {e : Expr} : Primary ts e → NamedBy ts e.mentions
  | .integer hk _ _ => .skip .nil hk
  | .float hk _ _ _ => .skip .nil hk
  | .boolean hk => .skip .nil hk
  | .char hk => .skip .nil hk
  | .string hk => .skip .nil hk
  | .var _ => .name .nil
  | .call _ hlp h hrp => .name ((h.named.closed hrp).skip hlp)
  | .parens hlp h hrp => (h.named.closed hrp).skip hlp

theorem Arguments.named {ts : List Token} {es : List Expr} : Arguments ts es → NamedBy ts (Expr.mentionsAll es)
  | .none => .nil
  | .some h h' => h.named.append h'.named

theorem MoreArguments.named {ts : List Token} {es : List Expr} : MoreArguments ts es → NamedBy ts (Expr.mentionsAll es)
  | .none => .nil
  | .some hcomma h h' => (h.named.append h'.named).skip hcomma
end

/-! ### Statements -/

section
variable {ts : List Token} {s : Stmt}

theorem VarDecl.named (h : VarDecl ts s) : NamedBy ts s.mentions := by
  cases h with
  | plain hword _ hcolon htype hsemi => exact .skip (.name (.skip (.type (.skip .nil hsemi) htype.1) hcolon)) hword
  | init hword _ hcolon htype heq he hsemi =>
    exact .skip (.name (.skip (.type (.skip (he.named.closed hsemi) heq) htype.1) hcolon)) hword

theorem Assign.named (h : Assign ts s) : NamedBy ts s.mentions := by
  obtain ⟨-, heq, he⟩ := h
  exact .name (.skip he.named heq)

theorem ForInit.named (h : ForInit ts s) : NamedBy ts s.mentions := by
  cases h with
  | decl h => exact h.named
  | assign h hsemi => exact h.named.closed hsemi

theorem ForStep.named (h : ForStep ts s) : NamedBy ts s.mentions := by
  cases h with
  | assign h => exact h.named
  | assignClosed h hsemi => exact h.named.closed hsemi
  | expr h => exact h.named
  | exprClosed h hsemi => exact h.named.closed hsemi

theorem Condition.named {k : Token.Kind} {e : Expr} (h : Condition k ts e) (hk : k ≠ .ident := by decide) :
    NamedBy ts e.mentions := by
  obtain ⟨hword, hlp, he, hrp⟩ := h
  exact ((he.named.closed hrp).skip hlp).skip hword hk

theorem Parameter.named {p : Param} (h : Parameter ts p) : NamedBy ts [p.name] := by
  obtain ⟨-, hcolon, htype⟩ := h
  exact .name (.skip (.type .nil htype.1) hcolon)

theorem Parameters.named {ps : List Param} (h : Parameters ts ps) : NamedBy ts (ps.map Param.name) := by
  induction h with
  | one h => exact h.named
  | more h hcomma _ ih => exact h.named.append (ih.skip hcomma)

theorem ParameterList.named {ps : List Param} (h : ParameterList ts ps) : NamedBy ts (ps.map Param.name) := by
  cases h with
  | none => exact .nil
  | some h => exact h.named

end

mutual
theorem Statement.named {ts : List Token} {s : Stmt} : Statement ts s → NamedBy ts s.mentions
  | .varDecl h => h.named
  | .assign h hsemi => h.named.closed hsemi
  | .print h hsemi => h.named.closed hsemi
  | .input hword hlp _ hrp hsemi => .skip (.skip (.name (.skip (.skip .nil hsemi) hrp)) hlp) hword
  | .ifThen h hbody => h.named.append hbody.named
  | .ifElse h hyes hword hno => h.named.append (hyes.named.append (hno.named.skip hword))
  | .whileLoop h hbody => h.named.append hbody.named
  | .forLoop hword hlp hinit hcond hsemi hstep hrp hbody =>
    .skip (.skip (hinit.named.append (hcond.named.append (.skip (hstep.named.append (hbody.named.skip hrp)) hsemi)))
      hlp) hword
  | .function hword _ hlp hparams hrp hcolon htype hbody =>
    .skip (.name (.skip (hparams.named.append (.skip (.skip (.type hbody.named htype) hcolon) hrp)) hlp)) hword
  | .retNone hword hsemi => .skip (.skip .nil hsemi) hword
  | .retSome hword h hsemi => .skip (h.named.closed hsemi) hword
  | .expr h hsemi => h.named.closed hsemi

theorem Block.named {ts : List Token} {ss : List Stmt} : Block ts ss → NamedBy ts (Stmt.mentionsAll ss)
  | .mk hlb h hrb => .skip (h.named.closed hrb) hlb

theorem Statements.named {ts : List Token} {ss : List Stmt} : Statements ts ss → NamedBy ts (Stmt.mentionsAll ss)
  | .none => .nil
  | .some h h' => h.named.append h'.named
end

end Syntax
end TypedImp

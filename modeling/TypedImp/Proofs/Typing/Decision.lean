import TypedImp.Proofs.Typing.Accepted

/-! The checker decides the typing rules with scopes: it accepts just the programs that are well typed, and when it
    refuses one it tells the user why. -/

namespace TypedImp
namespace Typing
namespace Checker

/-! ### What is refused is complained about -/

/-- Whenever the check fails, the user is told why. -/
def Complains {α : Type} (c : Checker α) : Prop := ∀ a e a', c a = .error e a' → e.complaint?.isSome = true

namespace Complains
variable {α β : Type} {c : Checker α}

theorem pure (x : α) : Complains (pure x : Checker α) := fun _ _ _ h => nomatch h

theorem throw {e : Error} (h : e.complaint?.isSome = true) : Complains (throw e : Checker α) := by
  intro a e' a' heq
  cases heq
  exact h

theorem bind {k : α → Checker β} (hc : Complains c) (hk : ∀ x, Complains (k x)) : Complains (c >>= k) := by
  intro a e a' h
  cases hca : c a with
  | ok x b =>
    rw [State.bind_of_ok hca] at h
    exact hk x b e a' h
  | error e' b =>
    rw [State.bind_of_error hca] at h
    cases h
    exact hc a _ _ hca

theorem discard (hc : Complains c) : Complains (discard c) := hc.bind fun _ => pure _

theorem look : Complains (get : Checker Arena) := fun _ _ _ h => nomatch h

theorem ite {p : Prop} [Decidable p] {c c' : Checker α} (h : p → Complains c) (h' : ¬p → Complains c') :
    Complains (if p then c else c') := by
  split
  · next hp => exact h hp
  · next hp => exact h' hp

theorem asValue (t : Ty) : Complains (asValue t) := ite (fun _ => throw rfl) fun _ => pure _

theorem ofExcept {r : Except Error α} (h : ∀ e, r = .error e → e.complaint?.isSome = true) :
    Complains (MonadExcept.ofExcept r : Checker α) := by
  cases r with
  | ok x => exact pure x
  | error e => exact throw (h e rfl)

theorem unaryType (op : UnaryOp) (t : Ty) : Complains (MonadExcept.ofExcept (unaryType op t) : Checker Ty) := by
  refine ofExcept fun e h => ?_
  unfold Checker.unaryType at h
  split at h <;> cases h
  rfl

theorem binaryType (op : BinaryOp) (s t : Ty) :
    Complains (MonadExcept.ofExcept (binaryType op s t) : Checker Ty) := by
  refine ofExcept fun e h => ?_
  unfold Checker.binaryType at h
  repeat' split at h
  all_goals cases h
  all_goals rfl

theorem resolve (x : String) : Complains (resolve x) := by
  refine look.bind fun a => ?_
  split
  · exact pure _
  · exact throw rfl

theorem resolveVariable (x : String) : Complains (resolveVariable x) :=
  (resolve x).bind fun _ => ite (fun _ => throw rfl) fun _ => pure _

mutual
theorem typeOf : {e : Expr} → e.WellFormed → Complains (typeOf e)
  | .literal v, _ => by
    rw [Checker.typeOf]
    exact pure _
  | .var x, _ => by
    rw [Checker.typeOf]
    exact resolveVariable x
  | .unary op e, .unary _ he => by
    rw [Checker.typeOf]
    exact (typeOf he).bind fun _ => (asValue _).bind fun _ => unaryType op _
  | .binary l op r, .binary _ hl hr => by
    rw [Checker.typeOf]
    exact (typeOf hl).bind fun _ => (asValue _).bind fun _ => (typeOf hr).bind fun _ => (asValue _).bind fun _ =>
      binaryType op _ _
  | .call x args, .call _ hargs => by
    rw [Checker.typeOf]
    refine (resolve x).bind fun symbol => ?_
    split
    · exact throw rfl
    · next params _ =>
      refine ite (fun _ => (throw rfl).bind fun _ => ?_) fun _ => ?_
      · exact (checkArguments hargs x 1 params).bind fun _ => pure _
      · exact (checkArguments hargs x 1 params).bind fun _ => pure _

theorem checkArguments : {es : List Expr} → (∀ e ∈ es, e.WellFormed) → ∀ (x : String) (index : Nat) (ps : List Param),
    Complains (checkArguments x index ps es)
  | [], _, x, index, ps => by
    rw [Checker.checkArguments.eq_def]
    split
    · next heq => cases heq
    · exact pure _
  | e :: es, h, x, index, [] => by
    rw [Checker.checkArguments.eq_def]
    exact pure _
  | e :: es, h, x, index, p :: ps => by
    rw [List.forall_mem_cons] at h
    rw [Checker.checkArguments]
    refine (typeOf h.1).bind fun _ => (asValue _).bind fun t => ite (fun _ => (throw rfl).bind fun _ => ?_) fun _ => ?_
    · exact checkArguments h.2 x (index + 1) ps
    · exact checkArguments h.2 x (index + 1) ps
end

/-- A check of a type behind that of an expression. -/
theorem refusal {p : Prop} [Decidable p] {e : Error} (h : e.complaint?.isSome = true) :
    Complains (if p then MonadExcept.throw e else Pure.pure () : Checker Unit) :=
  ite (fun _ => throw h) fun _ => pure _

theorem valueType {e : Expr} (he : e.WellFormed) : Complains (valueType e) := (typeOf he).bind fun _ => asValue _

theorem checkCondition (construct : Construct) {e : Expr} (he : e.WellFormed) :
    Complains (checkCondition construct e) := (valueType he).bind fun _ => refusal rfl

theorem checkInitializer (x : String) (t : Ty) {e : Expr} (he : e.WellFormed) :
    Complains (checkInitializer x t e) := (valueType he).bind fun _ => refusal rfl

theorem checkAssignment (x : String) {e : Expr} (he : e.WellFormed) : Complains (checkAssignment x e) :=
  (resolveVariable x).bind fun _ => (valueType he).bind fun _ => refusal rfl

theorem declare (x : String) (symbol : Symbol) : Complains (declare x symbol) := by
  refine look.bind fun a => ite (fun _ => throw ?_) fun _ => fun _ _ _ h => nomatch h
  split <;> rfl

theorem record (e : Event) : Complains (record e) := fun _ _ _ h => nomatch h

theorem checkVarDecl (x : String) (t : Ty) {init : Option Expr} (hinit : ∀ e ∈ init, e.WellFormed) :
    Complains (checkVarDecl x t init) := by
  have hrest := (declare x (.variable t)).bind fun _ => record (.declareVariable x t)
  cases init with
  | none => exact hrest
  | some e => exact (checkInitializer x t (hinit e rfl)).bind fun _ => hrest

theorem checkReturn {value : Option Expr} (hvalue : ∀ e ∈ value, e.WellFormed) : Complains (checkReturn value) := by
  refine look.bind fun a => ?_
  split
  · exact throw rfl
  · exact refusal rfl
  · next t e _ =>
    have hrest := (valueType (hvalue e rfl)).bind fun u =>
      refusal (p := (!t.accepts u) = true) (e := .badReturn t u) rfl
    exact ite (fun _ => (throw rfl).bind fun _ => hrest) fun _ => hrest

theorem declareParameters (x : String) (params : List Param) : Complains (declareParameters x params) := by
  induction params with
  | nil => exact pure _
  | cons p params ih =>
    have hrest := (declare p.name (.variable p.ty)).bind fun _ => ih
    exact look.bind fun _ => ite (fun _ => (throw rfl).bind fun _ => hrest) fun _ => hrest

theorem requireTop (x : String) : Complains (requireTop x) := look.bind fun _ => refusal rfl

theorem exitScope : Complains exitScope := by
  refine look.bind fun a => ?_
  split
  · exact throw rfl
  · exact (record _).bind fun _ => fun _ _ _ h => nomatch h

theorem inScope {c : Checker Unit} (hc : Complains c) : Complains (inScope c) :=
  bind (fun _ _ _ h => nomatch h) fun _ => hc.bind fun _ => exitScope

theorem withResult (t : Ty) {c : Checker Unit} (hc : Complains c) : Complains (withResult t c) := by
  intro a e a' h
  unfold Checker.withResult at h
  split at h
  · cases h
  · next hcheck =>
    cases h
    exact hc _ _ _ hcheck

mutual
theorem checkStatement : {s : Stmt} → s.WellFormed → Complains (checkStatement s)
  | .varDecl x t _, .varDecl _ _ hinit => by
    rw [Checker.checkStatement]
    exact checkVarDecl x t hinit
  | .assign x _, .assign _ he => by
    rw [Checker.checkStatement]
    exact checkAssignment x he
  | .print _, .print he => by
    rw [Checker.checkStatement]
    exact (valueType he).discard
  | .input x, .input _ => by
    rw [Checker.checkStatement]
    exact (resolveVariable x).discard
  | .ifThen _ _, .ifThen hcond hbody => by
    rw [Checker.checkStatement]
    exact (checkCondition _ hcond).bind fun _ => (checkStatements hbody).inScope
  | .ifElse _ _ _, .ifElse hcond hyes hno => by
    rw [Checker.checkStatement]
    exact (checkCondition _ hcond).bind fun _ => (checkStatements hyes).inScope.bind fun _ =>
      (checkStatements hno).inScope
  | .whileLoop _ _, .whileLoop hcond hbody => by
    rw [Checker.checkStatement]
    exact (checkCondition _ hcond).bind fun _ => (checkStatements hbody).inScope
  | .forLoop _ _ _ _, .forLoop _ hinit hcond _ hstep hbody => by
    rw [Checker.checkStatement]
    exact inScope <| (checkStatement hinit).bind fun _ => (checkCondition _ hcond).bind fun _ =>
      (checkStatement hstep).bind fun _ => (checkStatements hbody).inScope
  | .function x params t _, .function _ _ hbody => by
    rw [Checker.checkStatement]
    exact (requireTop x).bind fun _ => inScope <|
      (declareParameters x params).bind fun _ => (checkStatements hbody).withResult t
  | .ret _, .ret hvalue => by
    rw [Checker.checkStatement]
    exact checkReturn hvalue
  | .expr _, .expr he => by
    rw [Checker.checkStatement]
    exact (typeOf he).discard

theorem checkStatements : {ss : List Stmt} → (∀ s ∈ ss, s.WellFormed) → Complains (checkStatements ss)
  | [], _ => by
    rw [Checker.checkStatements]
    exact pure _
  | s :: ss, h => by
    rw [List.forall_mem_cons] at h
    rw [Checker.checkStatements]
    exact (checkStatement h.1).bind fun _ => checkStatements h.2
end

theorem declareFunctions (fs : List Function) : Complains (declareFunctions fs) := by
  induction fs with
  | nil => exact pure _
  | cons f fs ih => exact (declare _ _).bind fun _ => (record _).bind fun _ => ih

theorem checkProgram {p : Program} (hp : p.WellFormed) : Complains (checkProgram p) :=
  (declareFunctions _).bind fun _ => checkStatements hp

end Complains
end Checker

open Checker

/-! ### The decision -/

/-- The checker accepts a well-formed program just if it is well typed. -/
theorem accepts_iff_wellTyped {p : Program} (hp : p.WellFormed) : (check p).answer = .ok () ↔ p.WellTyped := by
  constructor
  · intro hok
    unfold check Checker.run at hok
    split at hok
    · next hcheck => exact checkProgram_wellTyped hp hcheck
    · cases hok
  · intro htyped
    obtain ⟨a, ha⟩ := checkProgram_of_wellTyped hp htyped
    rw [check, Checker.run, ha]

/-- The checker accepts a program that a text is parsed to just if it is well typed, and of any other it says to the
    user why it is not. -/
theorem check_decides {text : String} {p : Program} (h : Program.parse text = .ok p) :
    ((check p).answer = .ok () ↔ p.WellTyped) ∧
      (¬ p.WellTyped → ∃ e d, (check p).answer = .error e ∧ e.diagnostic? = some d ∧ d.stage = .checking) := by
  have hp := Syntax.wellFormed_of_parse h
  refine ⟨accepts_iff_wellTyped hp, fun hill => ?_⟩
  cases hcheck : (check p).answer with
  | ok u => exact absurd ((accepts_iff_wellTyped hp).mp hcheck) hill
  | error e =>
    have hcomplaint : e.complaint?.isSome = true := by
      unfold check Checker.run at hcheck
      split at hcheck
      · cases hcheck
      · next hrun =>
        cases hcheck
        exact Complains.checkProgram hp _ _ _ hrun
    obtain ⟨m, hm⟩ := Option.isSome_iff_exists.mp hcomplaint
    exact ⟨e, ⟨.checking, m, none⟩, rfl, by rw [Error.diagnostic?, hm]; rfl, rfl⟩

/-- A global, a function whose parameter shadows it, and a loop whose header and whose body shadow it in turn. -/
def nestedText : String :=
  "var x: int = 1; func f(x: float): float \x7b return x * 2; \x7d " ++
    "for (var x: float = f(x); x > 1; x = x - 1) \x7b var x: bool = true; print(x); \x7d"

def nestedProgram : Program :=
  ⟨[.varDecl "x" .int (some (.literal (.int 1))),
    .function "f" [⟨"x", .float⟩] .float [.ret (some (.binary (.var "x") .mul (.literal (.int 2))))],
    .forLoop (.varDecl "x" .float (some (.call "f" [.var "x"])))
      (.binary (.var "x") .gt (.literal (.int 1)))
      (.assign "x" (.binary (.var "x") .sub (.literal (.int 1))))
      [.varDecl "x" .bool (some (.literal (.bool true))), .print (.var "x")]]⟩

theorem tokenize_nestedText : tokenize nestedText =
    [⟨.varWord, "var", ⟨1, 1⟩⟩, ⟨.ident, "x", ⟨1, 5⟩⟩, ⟨.colon, ":", ⟨1, 6⟩⟩, ⟨.ident, "int", ⟨1, 8⟩⟩,
      ⟨.assign, "=", ⟨1, 12⟩⟩, ⟨.integer, "1", ⟨1, 14⟩⟩, ⟨.semicolon, ";", ⟨1, 15⟩⟩, ⟨.funcWord, "func", ⟨1, 17⟩⟩,
      ⟨.ident, "f", ⟨1, 22⟩⟩, ⟨.lparen, "(", ⟨1, 23⟩⟩, ⟨.ident, "x", ⟨1, 24⟩⟩, ⟨.colon, ":", ⟨1, 25⟩⟩,
      ⟨.ident, "float", ⟨1, 27⟩⟩, ⟨.rparen, ")", ⟨1, 32⟩⟩, ⟨.colon, ":", ⟨1, 33⟩⟩, ⟨.ident, "float", ⟨1, 35⟩⟩,
      ⟨.lbrace, "\x7b", ⟨1, 41⟩⟩, ⟨.returnWord, "return", ⟨1, 43⟩⟩, ⟨.ident, "x", ⟨1, 50⟩⟩, ⟨.star, "*", ⟨1, 52⟩⟩,
      ⟨.integer, "2", ⟨1, 54⟩⟩, ⟨.semicolon, ";", ⟨1, 55⟩⟩, ⟨.rbrace, "\x7d", ⟨1, 57⟩⟩, ⟨.forWord, "for", ⟨1, 59⟩⟩,
      ⟨.lparen, "(", ⟨1, 63⟩⟩, ⟨.varWord, "var", ⟨1, 64⟩⟩, ⟨.ident, "x", ⟨1, 68⟩⟩, ⟨.colon, ":", ⟨1, 69⟩⟩,
      ⟨.ident, "float", ⟨1, 71⟩⟩, ⟨.assign, "=", ⟨1, 77⟩⟩, ⟨.ident, "f", ⟨1, 79⟩⟩, ⟨.lparen, "(", ⟨1, 80⟩⟩,
      ⟨.ident, "x", ⟨1, 81⟩⟩, ⟨.rparen, ")", ⟨1, 82⟩⟩, ⟨.semicolon, ";", ⟨1, 83⟩⟩, ⟨.ident, "x", ⟨1, 85⟩⟩,
      ⟨.gt, ">", ⟨1, 87⟩⟩, ⟨.integer, "1", ⟨1, 89⟩⟩, ⟨.semicolon, ";", ⟨1, 90⟩⟩, ⟨.ident, "x", ⟨1, 92⟩⟩,
      ⟨.assign, "=", ⟨1, 94⟩⟩, ⟨.ident, "x", ⟨1, 96⟩⟩, ⟨.minus, "-", ⟨1, 98⟩⟩, ⟨.integer, "1", ⟨1, 100⟩⟩,
      ⟨.rparen, ")", ⟨1, 101⟩⟩, ⟨.lbrace, "\x7b", ⟨1, 103⟩⟩, ⟨.varWord, "var", ⟨1, 105⟩⟩, ⟨.ident, "x", ⟨1, 109⟩⟩,
      ⟨.colon, ":", ⟨1, 110⟩⟩, ⟨.ident, "bool", ⟨1, 112⟩⟩, ⟨.assign, "=", ⟨1, 117⟩⟩, ⟨.boolean, "true", ⟨1, 119⟩⟩,
      ⟨.semicolon, ";", ⟨1, 123⟩⟩, ⟨.printWord, "print", ⟨1, 125⟩⟩, ⟨.lparen, "(", ⟨1, 130⟩⟩, ⟨.ident, "x", ⟨1, 131⟩⟩,
      ⟨.rparen, ")", ⟨1, 132⟩⟩, ⟨.semicolon, ";", ⟨1, 133⟩⟩, ⟨.rbrace, "\x7d", ⟨1, 135⟩⟩, ⟨.eof, "", ⟨1, 136⟩⟩] := by
  rw [tokenize_eq_tokensWithin]
  decide +kernel

theorem parse_nestedText : Program.parse nestedText = .ok nestedProgram := by
  rw [Program.parse, tokenize_nestedText]
  rfl

theorem nested_wellTyped : Program.parse nestedText = .ok nestedProgram ∧ nestedProgram.WellTyped :=
  ⟨parse_nestedText, (check_decides parse_nestedText).1.mp rfl⟩

end Typing
end TypedImp

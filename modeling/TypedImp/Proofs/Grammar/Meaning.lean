import TypedImp.Proofs.Grammar.Lexing
import TypedImp.Proofs.Syntax.Literal

/-! What derivation trees mean. A tree that has a value is a derivation of that value by the grammar over tokens, from
    tokens that its lexemes write. One rule is looked at after the other; a list that grows to the right means what
    it adds behind a list in front of it. -/

namespace TypedImp
namespace Grammar
open Syntax

/-! ### Leaves -/

/-- The lexeme is one of the terminal and writes the token. -/
def Leaf (t : Terminal) (l : Lexeme) (token : Token) : Prop := l.terminal = t ∧ l.Writes token

/-- The kind of a terminal's tokens, where there is only one. -/
def Terminal.kind? (t : Terminal) : Option Token.Kind :=
  match Token.Kind.all.filter fun k => k.terminal = t with
  | [k] => some k
  | _ => none

section
variable {t : Terminal} {l : Lexeme} {token : Token}

theorem Leaf.mem_kinds (h : Leaf t l token) : token.kind ∈ Token.Kind.all.filter fun k => k.terminal = t :=
  List.mem_filter.mpr ⟨token.kind.mem_all, decide_eq_true (h.2.terminal.symm.trans h.1)⟩

theorem Leaf.kind_eq (h : Leaf t l token) {k : Token.Kind} (hk : t.kind? = some k) : token.kind = k := by
  have hmem := h.mem_kinds
  unfold Terminal.kind? at hk
  split at hk
  · next heq =>
    cases hk
    rw [heq] at hmem
    exact List.mem_singleton.mp hmem
  · cases hk

theorem Leaf.text_eq (h : Leaf t l token) (hchar : t ≠ .char) (hstring : t ≠ .string) : l.text = token.text := by
  rw [← h.2.content, Lexeme.content_of_plain (h.1 ▸ hchar) (h.1 ▸ hstring)]

end

/-! ### Lists that grow to the right -/

theorem MoreArguments.concat {us : List Token} {comma : Token} {e : Expr} (hcomma : comma.kind = .comma)
    (he : Expression us e) : {ts : List Token} → {es : List Expr} → MoreArguments ts es →
    MoreArguments (ts ++ comma :: us) (es ++ [e])
  | _, _, .none => by simpa using MoreArguments.some hcomma he .none
  | _, _, .some hc h hrest => by simpa using MoreArguments.some hc h (MoreArguments.concat hcomma he hrest)

theorem Parameters.concat {ts us : List Token} {comma : Token} {ps : List Param} {p : Param}
    (hcomma : comma.kind = .comma) (hp : Parameter us p) (h : Parameters ts ps) :
    Parameters (ts ++ comma :: us) (ps ++ [p]) := by
  induction h with
  | one hq => exact .more hq hcomma (.one hp)
  | more hq hc _ ih =>
    rw [List.append_assoc, List.cons_append]
    exact .more hq hc ih

theorem Statements.concat {us : List Token} {s : Stmt} (hs : Statement us s) :
    {ts : List Token} → {ss : List Stmt} → Statements ts ss → Statements (ts ++ us) (ss ++ [s])
  | _, _, .none => by simpa using Statements.some hs .none
  | _, _, .some h hrest => by simpa using Statements.some h (Statements.concat hs hrest)

/-! ### Symbols -/

/-- The levels that operands of a level are built of. -/
def Level.tighter : Level → List Level
  | or => [.and, .equality, .relational, .additive, .multiplicative]
  | and => [.equality, .relational, .additive, .multiplicative]
  | equality => [.relational, .additive, .multiplicative]
  | relational => [.additive, .multiplicative]
  | additive => [.multiplicative]
  | multiplicative => []

/-- The tokens write the value of what a nonterminal derives. -/
def Nonterminal.Means : (n : Nonterminal) → n.Value → List Token → Prop
  | root, p, ts => Statements ts (p : Program).body
  | start, p, ts => Statements ts (p : Program).body
  | statements, ss, ts => Statements ts ss
  | statement, s, ts => Statement ts s
  | form .varDecl, s, ts => VarDecl ts s
  | form .assignment, s, ts => ∃ us semi, ts = us ++ [semi] ∧ Assign us s ∧ semi.kind = .semicolon
  | form _, s, ts => Statement ts s
  | forInit, s, ts => ForInit ts s
  | forStep, s, ts => ForStep ts s
  | param, p, ts => Parameter ts p
  | paramTail, ps, ts => ∀ us p, Parameter us p → Parameters (us ++ ts) (p :: ps)
  | block, ss, ts => Block ts ss
  | expr, e, ts => Expression ts e
  | level l, e, ts => Chain (l :: l.tighter) ts e
  | levelTail l, rest, ts =>
    ∀ us first, Chain (l :: l.tighter) us first → Chain (l :: l.tighter) (us ++ ts) (chained first rest)
  | unary, e, ts => Signed ts e
  | primary, e, ts => Primary ts e
  | argumentTail, es, ts => MoreArguments ts es

/-- The tokens write the values of a list of symbols, one behind the other. -/
def Values.Means : (ss : List Symbol) → Values ss → List Token → Prop
  | [], _, ts => ts = []
  | .terminal t :: ss, (l, vs), ts => ∃ token us, ts = token :: us ∧ Leaf t l token ∧ Values.Means ss vs us
  | .nonterminal n :: ss, (v, vs), ts => ∃ us ws, ts = us ++ ws ∧ n.Means v us ∧ Values.Means ss vs ws

/-! ### Rules -/

theorem ok_of_bind {ε α β : Type} {x : Except ε α} {f : α → Except ε β} {b : β} (h : (x >>= f) = .ok b) :
    ∃ a, x = .ok a ∧ f a = .ok b := by
  cases x with
  | error => cases h
  | ok a => exact ⟨a, rfl, h⟩

theorem operand_means (l : Level) {e : l.operand.Value} {ts : List Token} (h : l.operand.Means e ts) :
    Chain l.tighter ts (l.operandValue e) := by
  cases l with
  | multiplicative => exact .signed h
  | _ => exact h

theorem operator_means {l : Level} {op : Lexeme} {token : Token} (h : Leaf l.operator op token) :
    token.kind ∈ l.kinds ∧ op.binaryOp = BinaryOp.ofText token.text := by
  have key : ∀ l ∈ Level.all, ∀ k ∈ Token.Kind.all, k.terminal = l.operator → k ∈ l.kinds := by decide
  have hplain : l.operator ≠ .char ∧ l.operator ≠ .string := by cases l <;> decide
  have hl : l ∈ Level.all := by cases l <;> decide
  refine ⟨key l hl _ token.kind.mem_all (h.2.terminal.symm.trans h.1), ?_⟩
  rw [Lexeme.binaryOp, h.text_eq hplain.1 hplain.2]

theorem chained_append (first e : Expr) (rest : List (BinaryOp × Expr)) (op : BinaryOp) :
    chained first (rest ++ [(op, e)]) = .binary (chained first rest) op e := by
  rw [chained, List.foldl_append]
  rfl

theorem tail_concat {l : Level} {ts us : List Token} {rest : List (BinaryOp × Expr)} {op : Lexeme} {token : Token}
    {e : Expr} (hrest : (Nonterminal.levelTail l).Means rest ts) (hop : Leaf l.operator op token)
    (he : Chain l.tighter us e) :
    (Nonterminal.levelTail l).Means (List.append rest [(op.binaryOp, e)]) (ts ++ token :: us) := by
  intro ws first hfirst
  obtain ⟨hkind, htext⟩ := operator_means hop
  have happend : chained first (List.append rest [(op.binaryOp, e)]) =
      .binary (chained first rest) (BinaryOp.ofText token.text) e := by
    rw [List.append_eq, chained_append, htext]
  rw [happend, ← List.append_assoc]
  exact .operator (hrest ws first hfirst) hkind he

theorem sign_means {op : Lexeme} {token : Token} (h : Leaf .additive op token) :
    token.kind = .plus ∨ token.kind = .minus := by
  have key : ∀ k ∈ Token.Kind.all.filter (fun k => k.terminal = .additive), k = .plus ∨ k = .minus := by decide
  exact key _ h.mem_kinds

theorem int_means {l : Lexeme} {token : Token} {e : Expr} (h : Leaf .int l token) (hl : intLiteral l = .ok e) :
    Primary [token] e := by
  have hkind : token.kind = .integer := h.kind_eq rfl
  have hfits := h.2.fits (by rw [hkind]; decide)
  unfold Token.Fits at hfits
  rw [hkind] at hfits
  unfold intLiteral at hl
  rw [h.text_eq (by decide) (by decide), Token.integer_digits hfits.1 hfits.2] at hl
  by_cases hlength : Decimal.maxIntegerDigits < token.text.length
  · rw [if_pos hlength] at hl
    cases hl
  · rw [if_neg hlength] at hl
    dsimp only at hl
    split at hl
    · cases hl
    · next hrange =>
      cases hl
      exact .integer hkind (Nat.le_of_not_lt hlength) (Int.not_lt.mp hrange)

theorem float_means {l : Lexeme} {token : Token} {e : Expr} (h : Leaf .float l token) (hl : floatLiteral l = .ok e) :
    Primary [token] e := by
  have hkind : token.kind = .float := h.kind_eq rfl
  have hfits := h.2.fits (by rw [hkind]; decide)
  unfold Token.Fits at hfits
  rw [hkind] at hfits
  obtain ⟨whole, fraction, htext, hne, hwhole, hfraction⟩ := hfits
  unfold floatLiteral at hl
  rw [h.text_eq (by decide) (by decide), Token.number?_point htext hne hwhole hfraction] at hl
  cases hl
  exact .float hkind htext hwhole hfraction

theorem char_text {l : Lexeme} {token : Token} (h : Leaf .char l token) :
    String.ofList (unwrapped l.text) = token.text := by
  rw [← h.2.content, Lexeme.content, h.1]

theorem string_text {l : Lexeme} {token : Token} (h : Leaf .string l token) :
    String.ofList (unescaped (unwrapped l.text)) = token.text := by
  rw [← h.2.content, Lexeme.content, h.1]

theorem Leaf.name {l : Lexeme} {token : Token} (h : Leaf .name l token) :
    token.kind = .ident ∧ l.text = token.text :=
  ⟨h.kind_eq rfl, h.text_eq (by decide) (by decide)⟩

theorem typeNamed_means {l : Lexeme} {token : Token} {ty : Ty} (h : Leaf .name l token)
    (hty : typeNamed Ty.ofName? l = .ok ty) : Names token ty := by
  unfold typeNamed at hty
  split at hty
  · next heq =>
    cases hty
    exact ⟨h.name.1, h.name.2.symm.trans (Ty.ofName?_eq_some.mp heq)⟩
  · cases hty

theorem valueTypeNamed_means {l : Lexeme} {token : Token} {ty : Ty} (h : Leaf .name l token)
    (hty : typeNamed Ty.ofValueName? l = .ok ty) : NamesValue token ty := by
  unfold typeNamed at hty
  split at hty
  · next heq =>
    cases hty
    obtain ⟨hname, hvoid⟩ := Ty.ofValueName?_eq_some.mp heq
    exact ⟨⟨h.name.1, h.name.2.symm.trans hname⟩, hvoid⟩
  · cases hty

theorem function_means {word name lp rp colon type : Token} {l m : Lexeme} {ts us : List Token} {params : List Param}
    {body : List Stmt} {s : Stmt} (hword : word.kind = .funcWord) (hname : Leaf .name l name) (hlp : lp.kind = .lparen)
    (hparams : ParameterList ts params) (hrp : rp.kind = .rparen) (hcolon : colon.kind = .colon)
    (htype : Leaf .name m type) (hbody : Block us body) (hs : functionOf l params m body = .ok s) :
    Statement (word :: name :: lp :: (ts ++ rp :: colon :: type :: us)) s := by
  obtain ⟨ty, hty, heq⟩ := ok_of_bind hs
  cases heq
  rw [hname.name.2]
  exact .function hword hname.name.1 hlp hparams hrp hcolon (typeNamed_means htype hty) hbody

theorem call_means {name lp rp : Token} {l : Lexeme} {ts : List Token} {es : List Expr} (hname : Leaf .name l name)
    (hlp : lp.kind = .lparen) (hes : Arguments ts es) (hrp : rp.kind = .rparen) :
    Primary (name :: lp :: (ts ++ [rp])) (.call l.text es) := by
  rw [hname.name.2]
  exact .call hname.name.1 hlp hes hrp

/-- Symbols that begin with a condition behind a word. -/
theorem condition_means {t : Terminal} {k : Token.Kind} (hk : t.kind? = some k) {ss : List Symbol}
    {word lp rp : Lexeme} {e : Expr} {vs : Values ss} {ts : List Token}
    (h : Values.Means (.terminal t :: .terminal .lparen :: .nonterminal .expr :: .terminal .rparen :: ss)
      (word, lp, e, rp, vs) ts) :
    ∃ us ws, ts = us ++ ws ∧ Condition k us e ∧ Values.Means ss vs ws := by
  obtain ⟨word, _, rfl, hword, lp, _, rfl, hlp, us, _, rfl, he, rp, ws, rfl, hrp, hvs⟩ := h
  refine ⟨word :: lp :: (us ++ [rp]), ws, by simp, ?_, hvs⟩
  exact .mk (hword.kind_eq hk) (hlp.kind_eq rfl) he (hrp.kind_eq rfl)

/-- Symbols that begin with an assignment. -/
theorem assign_means {ss : List Symbol} {name eq : Lexeme} {e : Expr} {vs : Values ss} {ts : List Token}
    (h : Values.Means (.terminal .name :: .terminal .equal :: .nonterminal .expr :: ss) (name, eq, e, vs) ts) :
    ∃ us ws, ts = us ++ ws ∧ Assign us (.assign name.text e) ∧ Values.Means ss vs ws := by
  obtain ⟨token, _, rfl, hname, eq, _, rfl, heq, us, ws, rfl, he, hvs⟩ := h
  refine ⟨token :: eq :: us, ws, rfl, ?_, hvs⟩
  rw [hname.name.2]
  exact .mk hname.name.1 (heq.kind_eq rfl) he

/-- What a rule puts together means what its parts mean. -/
theorem build_means (r : Rule) {vs : Values r.rhs} {v : r.lhs.Value} {ts : List Token} (hv : r.build vs = .ok v)
    (h : Values.Means r.rhs vs ts) : r.lhs.Means v ts := by
  cases r with
  | root | startSome | forInitDecl | unsigned | expr =>
    obtain ⟨ts, _, rfl, hpart, rfl⟩ := h
    cases hv
    rw [List.append_nil]
    first
      | exact hpart
      | exact ForInit.decl hpart
      | exact Signed.primary hpart
  | startNone =>
    cases h
    cases hv
    exact .none
  | statementsOne =>
    obtain ⟨ts, _, rfl, hs, rfl⟩ := h
    cases hv
    exact .some hs .none
  | statementsMore =>
    obtain ⟨ts, _, rfl, hss, us, _, rfl, hs, rfl⟩ := h
    cases hv
    rw [List.append_nil]
    exact Statements.concat hs hss
  | statement f =>
    obtain ⟨ts, _, rfl, hs, rfl⟩ := h
    cases hv
    rw [List.append_nil]
    cases f with
    | varDecl => exact Statement.varDecl hs
    | assignment =>
      obtain ⟨us, semi, rfl, hassign, hsemi⟩ := hs
      exact Statement.assign hassign hsemi
    | _ => exact hs
  | varDecl =>
    obtain ⟨word, _, rfl, hword, name, _, rfl, hname, colon, _, rfl, hcolon, type, _, rfl, htype, semi, _, rfl, hsemi,
      rfl⟩ := h
    obtain ⟨ty, hty, heq⟩ := ok_of_bind hv
    cases heq
    show VarDecl _ (.varDecl _ _ _)
    rw [hname.name.2]
    exact .plain (hword.kind_eq rfl) hname.name.1 (hcolon.kind_eq rfl) (valueTypeNamed_means htype hty)
      (hsemi.kind_eq rfl)
  | varDeclInit =>
    obtain ⟨word, _, rfl, hword, name, _, rfl, hname, colon, _, rfl, hcolon, type, _, rfl, htype, eq, _, rfl, heq, ts, _,
      rfl, he, semi, _, rfl, hsemi, rfl⟩ := h
    obtain ⟨ty, hty, hstmt⟩ := ok_of_bind hv
    cases hstmt
    show VarDecl _ (.varDecl _ _ _)
    rw [hname.name.2]
    exact .init (hword.kind_eq rfl) hname.name.1 (hcolon.kind_eq rfl) (valueTypeNamed_means htype hty)
      (heq.kind_eq rfl) he (hsemi.kind_eq rfl)
  | assignment =>
    obtain ⟨us, _, rfl, hassign, semi, _, rfl, hsemi, rfl⟩ := assign_means h
    cases hv
    exact ⟨us, semi, rfl, hassign, hsemi.kind_eq rfl⟩
  | print =>
    obtain ⟨us, _, rfl, hcondition, semi, _, rfl, hsemi, rfl⟩ := condition_means rfl h
    cases hv
    exact Statement.print hcondition (hsemi.kind_eq rfl)
  | input =>
    obtain ⟨word, _, rfl, hword, lp, _, rfl, hlp, name, _, rfl, hname, rp, _, rfl, hrp, semi, _, rfl, hsemi, rfl⟩ := h
    cases hv
    show Statement _ (.input _)
    rw [hname.name.2]
    exact .input (hword.kind_eq rfl) (hlp.kind_eq rfl) hname.name.1 (hrp.kind_eq rfl) (hsemi.kind_eq rfl)
  | ifThen =>
    obtain ⟨us, _, rfl, hcondition, ws, _, rfl, hbody, rfl⟩ := condition_means rfl h
    cases hv
    rw [List.append_nil]
    exact Statement.ifThen hcondition hbody
  | ifElse =>
    obtain ⟨us, _, rfl, hcondition, vs, _, rfl, hyes, word, _, rfl, hword, ws, _, rfl, hno, rfl⟩ := condition_means rfl h
    cases hv
    rw [List.append_nil]
    exact Statement.ifElse hcondition hyes (hword.kind_eq rfl) hno
  | whileLoop =>
    obtain ⟨us, _, rfl, hcondition, ws, _, rfl, hbody, rfl⟩ := condition_means rfl h
    cases hv
    rw [List.append_nil]
    exact Statement.whileLoop hcondition hbody
  | forLoop =>
    obtain ⟨word, _, rfl, hword, lp, _, rfl, hlp, ts, _, rfl, hinit, us, _, rfl, hcond, semi, _, rfl, hsemi, vs, _, rfl,
      hstep, rp, _, rfl, hrp, ws, _, rfl, hbody, rfl⟩ := h
    cases hv
    rw [List.append_nil]
    exact Statement.forLoop (hword.kind_eq rfl) (hlp.kind_eq rfl) hinit hcond (hsemi.kind_eq rfl) hstep
      (hrp.kind_eq rfl) hbody
  | forInitAssign =>
    obtain ⟨ts, _, rfl, ⟨us, semi, rfl, hassign, hsemi⟩, rfl⟩ := h
    cases hv
    rw [List.append_nil]
    exact ForInit.assign hassign hsemi
  | stepAssign =>
    obtain ⟨us, _, rfl, hassign, rfl⟩ := assign_means h
    cases hv
    rw [List.append_nil]
    exact ForStep.assign hassign
  | stepAssignClosed =>
    obtain ⟨us, _, rfl, hassign, semi, _, rfl, hsemi, rfl⟩ := assign_means h
    cases hv
    exact ForStep.assignClosed hassign (hsemi.kind_eq rfl)
  | stepExpr =>
    obtain ⟨ts, _, rfl, he, rfl⟩ := h
    cases hv
    rw [List.append_nil]
    exact ForStep.expr he
  | stepExprClosed =>
    obtain ⟨ts, _, rfl, he, semi, _, rfl, hsemi, rfl⟩ := h
    cases hv
    exact ForStep.exprClosed he (hsemi.kind_eq rfl)
  | functionNone =>
    obtain ⟨word, _, rfl, hword, name, _, rfl, hname, lp, _, rfl, hlp, rp, _, rfl, hrp, colon, _, rfl, hcolon, type, _,
      rfl, htype, us, _, rfl, hbody, rfl⟩ := h
    rw [List.append_nil]
    exact function_means (hword.kind_eq rfl) hname (hlp.kind_eq rfl) .none (hrp.kind_eq rfl) (hcolon.kind_eq rfl) htype
      hbody hv
  | functionOne =>
    obtain ⟨word, _, rfl, hword, name, _, rfl, hname, lp, _, rfl, hlp, ts, _, rfl, hp, rp, _, rfl, hrp, colon, _, rfl,
      hcolon, type, _, rfl, htype, us, _, rfl, hbody, rfl⟩ := h
    rw [List.append_nil]
    exact function_means (hword.kind_eq rfl) hname (hlp.kind_eq rfl) (.some (.one hp)) (hrp.kind_eq rfl)
      (hcolon.kind_eq rfl) htype hbody hv
  | functionMore =>
    obtain ⟨word, _, rfl, hword, name, _, rfl, hname, lp, _, rfl, hlp, ts, _, rfl, hp, us, _, rfl, hps, rp, _, rfl, hrp,
      colon, _, rfl, hcolon, type, _, rfl, htype, ws, _, rfl, hbody, rfl⟩ := h
    rw [List.append_nil, ← List.append_assoc]
    exact function_means (hword.kind_eq rfl) hname (hlp.kind_eq rfl) (.some (hps ts _ hp)) (hrp.kind_eq rfl)
      (hcolon.kind_eq rfl) htype hbody hv
  | paramTailOne =>
    obtain ⟨comma, _, rfl, hcomma, ts, _, rfl, hp, rfl⟩ := h
    cases hv
    intro us q hq
    rw [List.append_nil]
    exact .more hq (hcomma.kind_eq rfl) (.one hp)
  | paramTailMore =>
    obtain ⟨ts, _, rfl, hps, comma, _, rfl, hcomma, us, _, rfl, hp, rfl⟩ := h
    cases hv
    intro ws q hq
    rw [List.append_nil, ← List.append_assoc]
    exact Parameters.concat (hcomma.kind_eq rfl) hp (hps ws q hq)
  | param =>
    obtain ⟨name, _, rfl, hname, colon, _, rfl, hcolon, type, _, rfl, htype, rfl⟩ := h
    obtain ⟨ty, hty, heq⟩ := ok_of_bind hv
    cases heq
    show Parameter _ ⟨_, _⟩
    rw [hname.name.2]
    exact .mk hname.name.1 (hcolon.kind_eq rfl) (valueTypeNamed_means htype hty)
  | returnNone =>
    obtain ⟨word, _, rfl, hword, semi, _, rfl, hsemi, rfl⟩ := h
    cases hv
    exact Statement.retNone (hword.kind_eq rfl) (hsemi.kind_eq rfl)
  | returnSome =>
    obtain ⟨word, _, rfl, hword, ts, _, rfl, he, semi, _, rfl, hsemi, rfl⟩ := h
    cases hv
    exact Statement.retSome (hword.kind_eq rfl) he (hsemi.kind_eq rfl)
  | exprStatement =>
    obtain ⟨ts, _, rfl, he, semi, _, rfl, hsemi, rfl⟩ := h
    cases hv
    exact Statement.expr he (hsemi.kind_eq rfl)
  | blockNone =>
    obtain ⟨lb, _, rfl, hlb, rb, _, rfl, hrb, rfl⟩ := h
    cases hv
    exact Block.mk (hlb.kind_eq rfl) .none (hrb.kind_eq rfl)
  | blockSome =>
    obtain ⟨lb, _, rfl, hlb, ts, _, rfl, hss, rb, _, rfl, hrb, rfl⟩ := h
    cases hv
    exact Block.mk (hlb.kind_eq rfl) hss (hrb.kind_eq rfl)
  | levelOne l =>
    obtain ⟨ts, _, rfl, he, rfl⟩ := h
    cases hv
    rw [List.append_nil]
    exact Chain.operand (operand_means l he)
  | levelMore l =>
    obtain ⟨ts, _, rfl, he, us, _, rfl, hrest, rfl⟩ := h
    cases hv
    rw [List.append_nil]
    exact hrest ts _ (.operand (operand_means l he))
  | levelTailOne l =>
    obtain ⟨op, _, rfl, hop, ts, _, rfl, he, rfl⟩ := h
    cases hv
    rw [List.append_nil]
    have hnone : (Nonterminal.levelTail l).Means [] [] := by
      intro us first hfirst
      rw [List.append_nil]
      exact hfirst
    exact tail_concat hnone hop (operand_means l he)
  | levelTailMore l =>
    obtain ⟨ts, _, rfl, hrest, op, _, rfl, hop, us, _, rfl, he, rfl⟩ := h
    cases hv
    rw [List.append_nil]
    exact tail_concat hrest hop (operand_means l he)
  | signed =>
    obtain ⟨op, _, rfl, hop, ts, _, rfl, he, rfl⟩ := h
    cases hv
    show Signed _ (.unary _ _)
    rw [hop.text_eq (by decide) (by decide), List.append_nil]
    exact .sign (sign_means hop) he
  | int =>
    obtain ⟨t, _, rfl, ht, rfl⟩ := h
    exact int_means ht hv
  | float =>
    obtain ⟨t, _, rfl, ht, rfl⟩ := h
    exact float_means ht hv
  | bool =>
    obtain ⟨t, _, rfl, ht, rfl⟩ := h
    cases hv
    show Primary _ (.literal (.bool _))
    rw [ht.text_eq (by decide) (by decide)]
    exact .boolean (ht.kind_eq rfl)
  | char =>
    obtain ⟨t, _, rfl, ht, rfl⟩ := h
    cases hv
    show Primary _ (.literal (.char _))
    rw [char_text ht]
    exact .char (ht.kind_eq rfl)
  | string =>
    obtain ⟨t, _, rfl, ht, rfl⟩ := h
    cases hv
    show Primary _ (.literal (.string _))
    rw [string_text ht]
    exact .string (ht.kind_eq rfl)
  | callNone =>
    obtain ⟨name, _, rfl, hname, lp, _, rfl, hlp, rp, _, rfl, hrp, rfl⟩ := h
    cases hv
    exact call_means hname (hlp.kind_eq rfl) .none (hrp.kind_eq rfl)
  | callOne =>
    obtain ⟨name, _, rfl, hname, lp, _, rfl, hlp, ts, _, rfl, he, rp, _, rfl, hrp, rfl⟩ := h
    cases hv
    have harguments := Arguments.some he .none
    rw [List.append_nil] at harguments
    exact call_means hname (hlp.kind_eq rfl) harguments (hrp.kind_eq rfl)
  | callMore =>
    obtain ⟨name, _, rfl, hname, lp, _, rfl, hlp, ts, _, rfl, he, us, _, rfl, hes, rp, _, rfl, hrp, rfl⟩ := h
    cases hv
    rw [← List.append_assoc]
    exact call_means hname (hlp.kind_eq rfl) (.some he hes) (hrp.kind_eq rfl)
  | argumentTailOne =>
    obtain ⟨comma, _, rfl, hcomma, ts, _, rfl, he, rfl⟩ := h
    cases hv
    exact MoreArguments.some (hcomma.kind_eq rfl) he .none
  | argumentTailMore =>
    obtain ⟨ts, _, rfl, hes, comma, _, rfl, hcomma, us, _, rfl, he, rfl⟩ := h
    cases hv
    rw [List.append_nil]
    exact MoreArguments.concat (hcomma.kind_eq rfl) he hes
  | identifier =>
    obtain ⟨name, _, rfl, hname, rfl⟩ := h
    cases hv
    show Primary _ (.var _)
    rw [hname.name.2]
    exact .var hname.name.1
  | parens =>
    obtain ⟨lp, _, rfl, hlp, ts, _, rfl, he, rp, _, rfl, hrp, rfl⟩ := h
    cases hv
    exact Primary.parens (hlp.kind_eq rfl) he (hrp.kind_eq rfl)

/-! ### Trees -/

theorem forall₂_append_left {α β : Type} {R : α → β → Prop} {as bs : List α} {ts : List β}
    (h : List.Forall₂ R (as ++ bs) ts) :
    ∃ us vs, ts = us ++ vs ∧ List.Forall₂ R as us ∧ List.Forall₂ R bs vs := by
  induction as generalizing ts with
  | nil => exact ⟨[], ts, rfl, .nil, h⟩
  | cons a as ih =>
    obtain ⟨t, ts, ha, hts, rfl⟩ := List.forall₂_cons_left_iff.mp h
    obtain ⟨us, vs, rfl, hus, hvs⟩ := ih hts
    exact ⟨t :: us, vs, rfl, .cons ha hus, hvs⟩

mutual
/-- The tokens that the leaves of a tree write, write the tree's value. -/
theorem Tree.means {n : Nonterminal} {v : n.Value} {ts : List Token} :
    (tree : Tree (.nonterminal n)) → tree.value = .ok v → List.Forall₂ Lexeme.Writes tree.yield ts → n.Means v ts
  | .node r children, hv, hts => by
    obtain ⟨vs, hvs, hbuild⟩ := ok_of_bind hv
    exact build_means r hbuild (children.means hvs hts)

theorem Forest.means {ss : List Symbol} {vs : Values ss} {ts : List Token} :
    (trees : Forest ss) → trees.values = .ok vs → List.Forall₂ Lexeme.Writes trees.yield ts → Values.Means ss vs ts
  | .nil, _, hts => List.forall₂_nil_left_iff.mp hts
  | .cons (.leaf l) trees, hv, hts => by
    obtain ⟨_, hl, hv⟩ := ok_of_bind hv
    cases hl
    obtain ⟨vs, hvs, heq⟩ := ok_of_bind hv
    cases heq
    obtain ⟨token, us, hl, hus, rfl⟩ := List.forall₂_cons_left_iff.mp hts
    exact ⟨token, us, rfl, ⟨rfl, hl⟩, trees.means hvs hus⟩
  | .cons (.node r children) trees, hv, hts => by
    obtain ⟨v, htree, hv⟩ := ok_of_bind hv
    obtain ⟨ws, hws, hbuild⟩ := ok_of_bind htree
    obtain ⟨vs, hvs, heq⟩ := ok_of_bind hv
    cases heq
    obtain ⟨us, us', rfl, hus, hus'⟩ := forall₂_append_left hts
    exact ⟨us, us', rfl, build_means r hbuild (children.means hws hus), trees.means hvs hus'⟩
end

end Grammar
end TypedImp

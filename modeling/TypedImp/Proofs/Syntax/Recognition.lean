import TypedImp.Proofs.Syntax.Completeness

/-! Statements and programs are read exactly where they are derived. Which statement is read is decided by
    its first token, and for an identifier by the second one, and every rule of the grammar begins with
    tokens that lead the reader to it. -/

namespace TypedImp
namespace Syntax
open Grammar (Level)
open TypedImp.Parser

variable {s : Source}

/-! ### Types and parameters -/

theorem typeName_complete {read : String → Option Ty} {t : Token} {ty : Ty} {us : List Token}
    (hk : t.kind = .ident) (hr : read t.text = some ty) : Parses s (typeName read) (t :: us) ty us := by
  refine (Parses.expectKind hk).bind ?_
  simp only [hr]
  exact .pure

theorem valueType_complete {t : Token} {ty : Ty} {us : List Token} (h : NamesValue t ty) :
    Parses s valueType (t :: us) ty us :=
  typeName_complete h.1.1 (Ty.ofValueName?_eq_some.mpr ⟨h.1.2, h.2⟩)

theorem resultType_complete {t : Token} {ty : Ty} {us : List Token} (h : Names t ty) :
    Parses s resultType (t :: us) ty us :=
  typeName_complete h.1 (Ty.ofName?_eq_some.mpr h.2)

theorem parametersUpTo_complete {ts : List Token} {ps : List Param} (h : Parameters ts ps) {rp : Token}
    {vs : List Token} (hrp : rp.kind = .rparen) :
    ∀ m, ts.length < m → Parses s (parametersUpTo m) (ts ++ rp :: vs) ps (rp :: vs) := by
  induction h with
  | one h =>
    obtain ⟨hname, hcolon, htype⟩ := h
    intro m hm
    obtain ⟨m, rfl⟩ : ∃ k, m = k + 1 := ⟨m - 1, by omega⟩
    simp only [List.cons_append, List.nil_append]
    refine (Parses.expectKind hname).bind (.skip hcolon ((valueType_complete htype).bind (Parses.nextIs ?_)))
    rw [s.next_cons, if_neg (by simp [hrp])]
    exact .pure
  | more h hcomma _ ih =>
    obtain ⟨hname, hcolon, htype⟩ := h
    intro m hm
    obtain ⟨m, rfl⟩ : ∃ k, m = k + 1 := ⟨m - 1, by omega⟩
    simp only [List.length_append, List.length_cons, List.length_nil] at hm
    simp only [List.cons_append, List.nil_append]
    refine (Parses.expectKind hname).bind (.skip hcolon ((valueType_complete htype).bind (Parses.nextIs ?_)))
    rw [s.next_cons, if_pos hcomma]
    exact .skip hcomma (ih m (by omega)).map

theorem parameters_complete {ts vs : List Token} {rp : Token} {ps : List Param} (h : Parameters ts ps)
    (hrp : rp.kind = .rparen) : Parses s parameters (ts ++ rp :: vs) ps (rp :: vs) :=
  Parses.stepBound fun hlen => by
    rw [List.length_append] at hlen
    exact parametersUpTo_complete h hrp _ (by omega)

/-! ### The tokens of a text -/

/-- Tokens as a parser may be given them: the end of input stands at the end and nowhere else, none is
    invalid, and the texts fit the kinds. -/
structure Proper (ts : List Token) : Prop where
  closed : ∃ body last, ts = body ++ [last] ∧ last.kind = .eof ∧ ∀ t ∈ body, t.kind ≠ .eof
  valid : ∀ t ∈ ts, t.kind ≠ .invalid
  fits : ∀ t ∈ ts, t.Fits

theorem Proper.source {ts : List Token} (h : Proper ts) : ∃ s : Source, s.tokens = ts ∧ ∀ t ∈ s.body, t.Fits := by
  obtain ⟨⟨body, last, rfl, hlast, hbody⟩, valid, fits⟩ := h
  exact ⟨⟨body, last, hlast, fun t ht => ⟨hbody t ht, valid t (by simp [ht])⟩⟩, rfl,
    fun t ht => fits t (by simp [ht])⟩

theorem Proper.kind_of_singleton {t : Token} (h : Proper [t]) : t.kind = .eof := by
  obtain ⟨⟨body, last, heq, hlast, -⟩, -, -⟩ := h
  cases body with
  | nil => rwa [(List.cons.inj heq).1]
  | cons u body => simp at heq

theorem Proper.tail {t : Token} {ts : List Token} (h : Proper (t :: ts)) (hts : ts ≠ []) :
    t.kind.isFinal = false ∧ Proper ts := by
  obtain ⟨⟨body, last, heq, hlast, hbody⟩, valid, fits⟩ := h
  obtain ⟨ht, valid⟩ := List.forall_mem_cons.mp valid
  cases body with
  | nil => exact absurd (List.cons.inj heq).2 hts
  | cons u body =>
    obtain ⟨rfl, rfl⟩ := List.cons.inj heq
    obtain ⟨hu, hbody⟩ := List.forall_mem_cons.mp hbody
    have hfinal : t.kind.isFinal = false := by simp [Token.Kind.isFinal, hu, ht]
    exact ⟨hfinal, ⟨body, last, rfl, hlast, hbody⟩, valid, (List.forall_mem_cons.mp fits).2⟩

/-! ### Statements without a body -/

section Simple
variable (fits : ∀ t ∈ s.body, t.Fits)
include fits

theorem varDecl_complete {ts vs : List Token} {st : Stmt} (h : VarDecl ts st) : Parses s varDecl (ts ++ vs) st vs := by
  cases h with
  | plain hword hname hcolon htype hsemi =>
    simp only [List.cons_append, List.nil_append]
    refine .skip hword ((Parses.expectKind hname).bind (.skip hcolon ((valueType_complete htype).bind ?_)))
    refine Parses.nextIs ?_
    rw [s.next_cons, if_neg (by simp [hsemi])]
    exact Parses.pure.bind (.skip hsemi .pure)
  | init hword hname hcolon htype heq he hsemi =>
    simp only [List.cons_append, List.nil_append, List.append_assoc]
    refine .skip hword ((Parses.expectKind hname).bind (.skip hcolon ((valueType_complete htype).bind ?_)))
    refine Parses.nextIs ?_
    rw [s.next_cons, if_pos heq]
    refine .skip heq ((expression_closed fits he (.inr (.inr hsemi))).bind ?_)
    exact Parses.pure.bind (.skip hsemi .pure)

/-- An assignment with its semicolon is read whether or not the semicolon is required. -/
theorem assignment_closed {required : Bool} {ts vs : List Token} {semi : Token} {st : Stmt} (h : Assign ts st)
    (hsemi : semi.kind = .semicolon) : Parses s (assignment required) (ts ++ semi :: vs) st vs := by
  obtain ⟨hname, heq, he⟩ := h
  refine (Parses.expectKind hname).bind (.skip heq ((expression_closed fits he (.inr (.inr hsemi))).bind ?_))
  cases required with
  | true => exact .skip hsemi .pure
  | false =>
    exact .skipIf_present hsemi .pure

/-- Without a semicolon an assignment ends at the parenthesis of the loop's header. -/
theorem assignment_open {ts vs : List Token} {rp : Token} {st : Stmt} (h : Assign ts st)
    (hrp : rp.kind = .rparen) : Parses s (assignment false) (ts ++ rp :: vs) st (rp :: vs) := by
  obtain ⟨hname, heq, he⟩ := h
  refine (Parses.expectKind hname).bind (.skip heq ((expression_closed fits he (.inl hrp)).bind ?_))
  exact .skipIf_absent (by simp [hrp]) .pure

theorem condition_complete {k : Token.Kind} (hk : k ≠ .eof) {ts vs : List Token} {e : Expr}
    (h : Condition k ts e) : Parses s (condition k) (ts ++ vs) e vs := by
  obtain ⟨hword, hlp, he, hrp⟩ := h
  simp only [List.cons_append, List.nil_append, List.append_assoc]
  refine Parses.skip hword (.skip hlp ?_) hk
  exact (expression_closed fits he (.inl hrp)).bind (.skip hrp .pure)

theorem printStatement_complete {ts vs : List Token} {semi : Token} {e : Expr} (h : Condition .printWord ts e)
    (hsemi : semi.kind = .semicolon) : Parses s printStatement (ts ++ semi :: vs) (.print e) vs := by
  obtain ⟨hword, hlp, he, hrp⟩ := h
  simp only [List.cons_append, List.nil_append, List.append_assoc]
  refine .skip hword (.skip hlp ?_)
  exact (expression_closed fits he (.inl hrp)).bind (.skip hrp (.skip hsemi .pure))

omit fits in
theorem inputStatement_complete {word lp name rp semi : Token} {vs : List Token} (hword : word.kind = .inputWord)
    (hlp : lp.kind = .lparen) (hname : name.kind = .ident) (hrp : rp.kind = .rparen)
    (hsemi : semi.kind = .semicolon) :
    Parses s inputStatement (word :: lp :: name :: rp :: semi :: vs) (.input name.text) vs :=
  .skip hword (.skip hlp ((Parses.expectKind hname).bind (.skip hrp (.skip hsemi .pure))))

omit fits in
theorem returnStatement_none {word semi : Token} {vs : List Token} (hword : word.kind = .returnWord)
    (hsemi : semi.kind = .semicolon) : Parses s returnStatement (word :: semi :: vs) (.ret none) vs := by
  refine .skip hword (Parses.nextIs ?_)
  rw [s.next_cons, if_pos hsemi]
  exact .skip hsemi .pure

theorem returnStatement_some {word semi : Token} {ts vs : List Token} {e : Expr} (hword : word.kind = .returnWord)
    (he : Expression ts e) (hsemi : semi.kind = .semicolon) :
    Parses s returnStatement (word :: (ts ++ semi :: vs)) (.ret (some e)) vs := by
  refine .skip hword (Parses.nextIs ?_)
  obtain ⟨t, us, rfl, ht⟩ := he.begins
  have hstart : t.kind ≠ .semicolon := by
    intro hk
    rw [hk] at ht
    exact absurd ht (by decide)
  rw [List.cons_append, s.next_cons, if_neg hstart, ← List.cons_append]
  exact (expression_closed fits he (.inr (.inr hsemi))).bind (.skip hsemi .pure)

theorem expressionStatement_complete {ts vs : List Token} {semi : Token} {e : Expr} (he : Expression ts e)
    (hsemi : semi.kind = .semicolon) : Parses s expressionStatement (ts ++ semi :: vs) (.expr e) vs :=
  (expression_closed fits he (.inr (.inr hsemi))).bind (.skip hsemi .pure)

/-! ### Headers of loops -/

omit fits in
/-- Behind the first token of an expression stands no assignment sign. -/
theorem not_assignment {ts vs : List Token} {t : Token} {e : Expr} (he : Expression ts e)
    (ht : t.kind ≠ .assign) :
    ¬((s.next (ts ++ t :: vs)).kind = .ident ∧ (s.next (ts ++ t :: vs).tail).kind = .assign) := by
  rintro ⟨-, h⟩
  obtain ⟨a, us, rfl, -⟩ := he.begins
  cases us with
  | nil => exact ht h
  | cons b us => exact he.ne_assign b (by simp) h

omit fits in
theorem Assign.begins {ts : List Token} {st : Stmt} (h : Assign ts st) (vs : List Token) :
    (s.next (ts ++ vs)).kind = .ident ∧ (s.next (ts ++ vs).tail).kind = .assign := by
  obtain ⟨hname, heq, -⟩ := h
  exact ⟨hname, heq⟩

theorem forInitializer_complete {ts vs : List Token} {st : Stmt} (h : ForInit ts st) :
    Parses s forInitializer (ts ++ vs) st vs := by
  refine Parses.nextIs ?_
  cases h with
  | decl h =>
    have hword : (s.next (ts ++ vs)).kind = .varWord := by
      cases h with
      | plain hword => exact hword
      | init hword => exact hword
    rw [if_pos hword]
    exact varDecl_complete fits h
  | @assign ts semi _ h hsemi =>
    rw [List.append_assoc, List.singleton_append]
    have hbegins := h.begins (s := s) (semi :: vs)
    rw [if_neg (by simp [hbegins.1])]
    refine Parses.nextIsAssignment ?_
    rw [if_pos hbegins]
    exact assignment_closed fits h hsemi

theorem forStep_complete {ts vs : List Token} {rp : Token} {st : Stmt} (h : ForStep ts st)
    (hrp : rp.kind = .rparen) : Parses s forStep (ts ++ rp :: vs) st (rp :: vs) := by
  refine Parses.nextIsAssignment ?_
  cases h with
  | assign h =>
    rw [if_pos (h.begins _)]
    exact assignment_open fits h hrp
  | assignClosed h hsemi =>
    rw [List.append_assoc, List.singleton_append, if_pos (h.begins _)]
    exact assignment_closed fits h hsemi
  | expr h =>
    rw [if_neg (not_assignment h (by simp [hrp]))]
    exact (expression_closed fits h (.inl hrp)).bind (.skipIf_absent (by simp [hrp]) .pure)
  | exprClosed h hsemi =>
    rw [List.append_assoc, List.singleton_append, if_neg (not_assignment h (by simp [hsemi]))]
    exact (expression_closed fits h (.inr (.inr hsemi))).bind (.skipIf_present hsemi .pure)

/-! ### Statements with a body -/

/-- What must not follow a statement. -/
structure NoElse (s : Source) (us : List Token) : Prop where
  kind : (s.next us).kind ≠ .elseWord

section Body
variable {body : Parser (List Stmt)} {n : Nat} (hb : Complete s body Block (fun _ => True) n)
include hb

theorem ifThen_complete {ts us vs : List Token} {cond : Expr} {yes : List Stmt} (hcond : Condition .ifWord ts cond)
    (hyes : Block us yes) (hn : us.length ≤ n) (hvs : NoElse s vs) :
    Parses s (ifStatement body) (ts ++ (us ++ vs)) (.ifThen cond yes) vs := by
  refine (condition_complete fits (by decide) hcond).bind ((hb hyes hn trivial).bind (Parses.nextIs ?_))
  rw [if_neg hvs.kind]
  exact .pure

theorem ifElse_complete {ts us vs ws : List Token} {word : Token} {cond : Expr} {yes no : List Stmt}
    (hcond : Condition .ifWord ts cond) (hyes : Block us yes) (hword : word.kind = .elseWord) (hno : Block vs no)
    (hn : us.length ≤ n) (hn' : vs.length ≤ n) :
    Parses s (ifStatement body) (ts ++ (us ++ word :: (vs ++ ws))) (.ifElse cond yes no) ws := by
  refine (condition_complete fits (by decide) hcond).bind ((hb hyes hn trivial).bind (Parses.nextIs ?_))
  rw [s.next_cons, if_pos hword]
  exact .skip hword (hb hno hn' trivial).map

theorem whileStatement_complete {ts us vs : List Token} {cond : Expr} {stmts : List Stmt}
    (hcond : Condition .whileWord ts cond) (hbody : Block us stmts) (hn : us.length ≤ n) :
    Parses s (whileStatement body) (ts ++ (us ++ vs)) (.whileLoop cond stmts) vs :=
  (condition_complete fits (by decide) hcond).bind (hb hbody hn trivial).map

theorem forStatement_complete {word lp semi rp : Token} {ts us vs ws xs : List Token} {init step : Stmt}
    {cond : Expr} {stmts : List Stmt} (hword : word.kind = .forWord) (hlp : lp.kind = .lparen)
    (hinit : ForInit ts init) (hcond : Expression us cond) (hsemi : semi.kind = .semicolon)
    (hstep : ForStep vs step) (hrp : rp.kind = .rparen) (hbody : Block ws stmts) (hn : ws.length ≤ n) :
    Parses s (forStatement body) (word :: lp :: (ts ++ (us ++ semi :: (vs ++ rp :: (ws ++ xs)))))
      (.forLoop init cond step stmts) xs := by
  refine .skip hword (.skip hlp ((forInitializer_complete fits hinit).bind ?_))
  refine (expression_closed fits hcond (.inr (.inr hsemi))).bind (.skip hsemi ?_)
  exact (forStep_complete fits hstep hrp).bind (.skip hrp (hb hbody hn trivial).map)

omit fits in
theorem functionDeclaration_complete {word name lp rp colon type : Token} {ts us vs : List Token}
    {params : List Param} {result : Ty} {stmts : List Stmt} (hword : word.kind = .funcWord)
    (hname : name.kind = .ident) (hlp : lp.kind = .lparen) (hparams : ParameterList ts params)
    (hrp : rp.kind = .rparen) (hcolon : colon.kind = .colon) (htype : Names type result) (hbody : Block us stmts)
    (hn : us.length ≤ n) :
    Parses s (functionDeclaration body) (word :: name :: lp :: (ts ++ rp :: colon :: type :: (us ++ vs)))
      (.function name.text params result stmts) vs := by
  have rest : Parses s (do
      discard (expectKind .rparen)
      discard (expectKind .colon)
      let result ← resultType
      let stmts ← body
      recordFunction name.text params.length
      return .function name.text params result stmts : Parser Stmt)
      (rp :: colon :: type :: (us ++ vs)) (.function name.text params result stmts) vs := by
    refine .skip hrp (.skip hcolon ((resultType_complete htype).bind ((hb hbody hn trivial).bind ?_)))
    exact Parses.bind (fun c hc => ⟨_, rfl, hc⟩) .pure
  refine .skip hword ((Parses.expectKind hname).bind (.skip hlp (Parses.nextIs ?_)))
  cases hparams with
  | none =>
    rw [List.nil_append, s.next_cons, if_pos hrp]
    exact Parses.pure.bind rest
  | some hparams =>
    have hstart : (s.next (ts ++ rp :: colon :: type :: (us ++ vs))).kind ≠ .rparen := by
      cases hparams with
      | one h =>
        obtain ⟨hk, -, -⟩ := h
        simp [hk]
      | more h =>
        obtain ⟨hk, -, -⟩ := h
        simp [hk]
    rw [if_neg hstart]
    exact (parameters_complete hparams hrp).bind rest

end Body

/-! ### Blocks and programs -/

/-- What a statement begins with ends no block and belongs to no statement before it. -/
structure Leads (t : Token) : Prop where
  inside : t.kind ≠ .rbrace
  before : t.kind ≠ .eof
  fresh : t.kind ≠ .elseWord

omit fits in
theorem leads_of_kind {t : Token} {k : Token.Kind} (ht : t.kind = k) (hk : k ∉ [Token.Kind.rbrace, .eof, .elseWord]) :
    Leads t := by
  subst ht
  simp only [List.mem_cons, List.not_mem_nil, or_false, not_or] at hk
  exact ⟨hk.1, hk.2.1, hk.2.2⟩

omit fits in
theorem Statement.begins {ts : List Token} {st : Stmt} (h : Statement ts st) : ∃ t us, ts = t :: us ∧ Leads t := by
  cases h with
  | varDecl h =>
    cases h with
    | plain hword => exact ⟨_, _, rfl, leads_of_kind hword (by decide)⟩
    | init hword => exact ⟨_, _, rfl, leads_of_kind hword (by decide)⟩
  | assign h =>
    obtain ⟨hname, -, -⟩ := h
    exact ⟨_, _, rfl, leads_of_kind hname (by decide)⟩
  | print h =>
    obtain ⟨hword, -, -, -⟩ := h
    exact ⟨_, _, rfl, leads_of_kind hword (by decide)⟩
  | input hword => exact ⟨_, _, rfl, leads_of_kind hword (by decide)⟩
  | ifThen h =>
    obtain ⟨hword, -, -, -⟩ := h
    exact ⟨_, _, rfl, leads_of_kind hword (by decide)⟩
  | ifElse h =>
    obtain ⟨hword, -, -, -⟩ := h
    exact ⟨_, _, rfl, leads_of_kind hword (by decide)⟩
  | whileLoop h =>
    obtain ⟨hword, -, -, -⟩ := h
    exact ⟨_, _, rfl, leads_of_kind hword (by decide)⟩
  | forLoop hword => exact ⟨_, _, rfl, leads_of_kind hword (by decide)⟩
  | function hword => exact ⟨_, _, rfl, leads_of_kind hword (by decide)⟩
  | retNone hword => exact ⟨_, _, rfl, leads_of_kind hword (by decide)⟩
  | retSome hword => exact ⟨_, _, rfl, leads_of_kind hword (by decide)⟩
  | expr h =>
    obtain ⟨t, us, rfl, ht⟩ := h.begins
    have hstart : ∀ k ∈ startKinds, k ∉ [Token.Kind.rbrace, .eof, .elseWord] := by decide
    exact ⟨t, _, rfl, leads_of_kind rfl (hstart t.kind ht)⟩

omit fits in
theorem Statements.noElse {ts vs : List Token} {ss : List Stmt} (h : Statements ts ss) (hvs : NoElse s vs) :
    NoElse s (ts ++ vs) := by
  cases h with
  | none => exact hvs
  | some h _ =>
    obtain ⟨t, us, rfl, ht⟩ := h.begins
    exact ⟨ht.fresh⟩

omit fits in
theorem blockRest_complete {statement : Parser Stmt} {n : Nat}
    (hs : Complete s statement Statement (NoElse s) n) {ss : List Stmt} {ts : List Token} {m : Nat} {rb : Token}
    {vs : List Token} (h : Statements ts ss) (hn : ts.length ≤ n) (hm : ts.length < m) (hrb : rb.kind = .rbrace) :
    Parses s (blockRest statement m) (ts ++ rb :: vs) ss (rb :: vs) := by
  induction ss generalizing ts m with
  | nil =>
    cases h
    obtain ⟨m, rfl⟩ := Nat.exists_eq_add_one_of_ne_zero (Nat.ne_of_gt hm)
    refine Parses.nextIs ?_
    rw [List.nil_append, s.next_cons, if_pos hrb]
    exact .pure
  | cons st ss ih =>
    obtain ⟨m, rfl⟩ := Nat.exists_eq_add_one_of_ne_zero (Nat.ne_of_gt (Nat.zero_lt_of_lt hm))
    cases h with
    | @some ts us _ _ h h' =>
      have hstop : NoElse s (us ++ rb :: vs) := h'.noElse ⟨by simp [hrb]⟩
      obtain ⟨t, us', rfl, ht⟩ := h.begins
      simp only [List.length_append, List.length_cons] at hn hm
      rw [List.append_assoc]
      refine Parses.nextIs ?_
      rw [List.cons_append, s.next_cons, if_neg ht.inside]
      refine Parses.nextIs ?_
      rw [s.next_cons, if_neg ht.before, ← List.cons_append]
      have hlen : (t :: us').length ≤ n := by
        simp only [List.length_cons]
        omega
      exact (hs h hlen hstop).bind (ih h' (by omega) (by omega)).map

omit fits in
theorem blockOf_complete {statement : Parser Stmt} {n : Nat}
    (hs : Complete s statement Statement (NoElse s) n) :
    Complete s (blockOf statement) Block (fun _ => True) (n + 1) := by
  rintro _ ss vs ⟨hlb, hss, hrb⟩ hn -
  simp only [List.length_cons, List.length_append, List.length_nil] at hn
  simp only [List.cons_append, List.nil_append, List.append_assoc]
  refine .skip hlb (Parses.stepBound fun hlen => ?_)
  simp only [List.length_append, List.length_cons] at hlen
  exact (blockRest_complete hs hss (by omega) (by omega) hrb).bind (.skip hrb .pure)

omit fits in
/-- A condition begins with its keyword. -/
theorem Condition.begins {k : Token.Kind} {ts : List Token} {e : Expr} (h : Condition k ts e) (vs : List Token) :
    (s.next (ts ++ vs)).kind = k := by
  obtain ⟨hword, -, -, -⟩ := h
  exact hword

omit fits in
theorem VarDecl.begins {ts : List Token} {st : Stmt} (h : VarDecl ts st) (vs : List Token) :
    (s.next (ts ++ vs)).kind = .varWord := by
  cases h with
  | plain hword => exact hword
  | init hword => exact hword

/-- A statement that begins like an expression. -/
theorem statementUpTo_expr {depth : Nat} {ts vs : List Token} {semi : Token} {e : Expr} (he : Expression ts e)
    (hsemi : semi.kind = .semicolon) :
    Parses s (statementUpTo (depth + 1)) (ts ++ semi :: vs) (.expr e) vs := by
  have rest : Parses s (nextIsAssignment >>= fun b => if b = true then assignment true else expressionStatement)
      (ts ++ semi :: vs) (.expr e) vs := by
    refine Parses.nextIsAssignment ?_
    rw [if_neg (not_assignment he (by simp [hsemi]))]
    exact expressionStatement_complete fits he hsemi
  obtain ⟨t, us, rfl, ht⟩ := he.begins
  refine Parses.peek ?_
  rw [List.cons_append, s.next_cons]
  simp only [startKinds, List.mem_cons, List.not_mem_nil, or_false] at ht
  rcases ht with ht | ht | ht | ht | ht | ht | ht | ht | ht <;> simp only [ht] <;> exact rest

theorem statementUpTo_complete (n : Nat) :
    ∀ depth, n < depth → Complete s (statementUpTo depth) Statement (NoElse s) n := by
  induction n with
  | zero =>
    intro depth _ ts st vs h hn _
    obtain ⟨t, us, rfl, -⟩ := h.begins
    cases hn
  | succ n ih =>
    intro depth hdepth ts st vs h hn hvs
    obtain ⟨depth, rfl⟩ : ∃ d, depth = d + 1 := ⟨depth - 1, by omega⟩
    have hb := blockOf_complete (ih depth (by omega))
    cases h with
    | varDecl h =>
      refine Parses.peek ?_
      simp only [h.begins vs]
      exact varDecl_complete fits h
    | @assign ts semi _ h hsemi =>
      have hbegins := h.begins (s := s) (semi :: vs)
      rw [List.append_assoc, List.singleton_append]
      refine Parses.peek ?_
      simp only [hbegins.1]
      refine Parses.nextIsAssignment ?_
      rw [if_pos hbegins]
      exact assignment_closed fits h hsemi
    | print h hsemi =>
      rw [List.append_assoc, List.singleton_append]
      refine Parses.peek ?_
      simp only [h.begins]
      exact printStatement_complete fits h hsemi
    | input hword hlp hname hrp hsemi =>
      refine Parses.peek ?_
      rw [List.cons_append, s.next_cons]
      simp only [hword]
      exact inputStatement_complete hword hlp hname hrp hsemi
    | ifThen hcond hyes =>
      rw [List.length_append] at hn
      rw [List.append_assoc]
      refine Parses.peek ?_
      simp only [hcond.begins]
      exact ifThen_complete fits hb hcond hyes (by omega) hvs
    | ifElse hcond hyes hword hno =>
      simp only [List.length_append, List.length_cons] at hn
      simp only [List.append_assoc, List.cons_append]
      refine Parses.peek ?_
      simp only [hcond.begins]
      exact ifElse_complete fits hb hcond hyes hword hno (by omega) (by omega)
    | whileLoop hcond hbody =>
      rw [List.length_append] at hn
      rw [List.append_assoc]
      refine Parses.peek ?_
      simp only [hcond.begins]
      exact whileStatement_complete fits hb hcond hbody (by omega)
    | forLoop hword hlp hinit hcond hsemi hstep hrp hbody =>
      simp only [List.length_append, List.length_cons] at hn
      simp only [List.append_assoc, List.cons_append]
      refine Parses.peek ?_
      rw [s.next_cons]
      simp only [hword]
      exact forStatement_complete fits hb hword hlp hinit hcond hsemi hstep hrp hbody (by omega)
    | function hword hname hlp hparams hrp hcolon htype hbody =>
      simp only [List.length_append, List.length_cons] at hn
      simp only [List.append_assoc, List.cons_append]
      refine Parses.peek ?_
      rw [s.next_cons]
      simp only [hword]
      exact functionDeclaration_complete hb hword hname hlp hparams hrp hcolon htype hbody (by omega)
    | retNone hword hsemi =>
      refine Parses.peek ?_
      rw [List.cons_append, s.next_cons]
      simp only [hword]
      exact returnStatement_none hword hsemi
    | retSome hword he hsemi =>
      simp only [List.append_assoc, List.cons_append, List.nil_append]
      refine Parses.peek ?_
      rw [s.next_cons]
      simp only [hword]
      exact returnStatement_some fits hword he hsemi
    | expr he hsemi =>
      rw [List.append_assoc, List.singleton_append]
      exact statementUpTo_expr fits he hsemi

theorem statements_complete {ts : List Token} {ss : List Stmt} :
    Statements ts ss → (∀ t ∈ ts, t ∈ s.body) → ∀ m, ts.length < m → Parses s (statements m) ts ss []
  | .none, _, m + 1, _ => by
    refine Parses.nextIs ?_
    rw [s.next_nil, if_pos s.last_eof]
    exact .pure
  | @Statements.some ts us _ _ h h', hts, m + 1, hm => by
    have hlength := h.begins
    obtain ⟨t, us', rfl, ht⟩ := hlength
    simp only [List.length_append, List.length_cons] at hm
    have hstop : NoElse s us := by
      have hclosed : NoElse s (us ++ []) := h'.noElse ⟨by simp [s.last_eof]⟩
      rwa [List.append_nil] at hclosed
    refine Parses.nextIs ?_
    rw [List.cons_append, s.next_cons, if_neg (s.body_plain t (hts t (by simp))).1, ← List.cons_append]
    have hstatement : Parses s statement (t :: us' ++ us) _ us :=
      Parses.stepBound fun hlen => by
        rw [List.length_append] at hlen
        exact statementUpTo_complete fits (t :: us').length _ (by omega) h (Nat.le_refl _) hstop
    exact hstatement.bind (statements_complete h' (fun t ht => hts t (by simp [ht])) m (by omega)).map

/-- A program that the tokens of a source derive is read. -/
theorem program_complete {p : Program} (h : Statements s.body p.body) :
    ∃ c', Parser.program s.stream Parser.start = .ok p c' := by
  have hread : Parses s Parser.program s.body p [] :=
    Parses.stepBound fun _ => (statements_complete fits h (fun _ ht => ht) _ (by omega)).map
  obtain ⟨c', hc', -⟩ := hread Parser.start s.ahead_start
  exact ⟨c', hc'⟩

end Simple

/-! ### The language of the parser -/

theorem answer_eq_ok {α : Type} {p : Parser α} {ts : TokenStream} {c : Cursor} {a : α} :
    (p.run ts c).answer = .ok a ↔ ∃ c', p ts c = .ok a c' := by
  cases h : p ts c with
  | ok b d => simp [Parser.run, ReaderT.run, h]
  | error e d => simp [Parser.run, ReaderT.run, h]

theorem answer_eq_error {α : Type} {p : Parser α} {ts : TokenStream} {c : Cursor} {e : ParseError} :
    (p.run ts c).answer = .error e ↔ ∃ d, p ts c = .error e d := by
  cases h : p ts c with
  | ok a d => simp [Parser.run, ReaderT.run, h]
  | error e' d => simp [Parser.run, ReaderT.run, h]

/-- The parser answers a program exactly where its tokens derive it, and nothing in every other case. -/
theorem parseTokens_eq_ok_iff {ts : List Token} (h : Proper ts) (p : Program) :
    (Program.parseTokens ts).answer = .ok p ↔ Derives ts p := by
  obtain ⟨s, rfl, fits⟩ := h.source
  show (Parser.program.run s.stream Parser.start).answer = .ok p ↔ _
  rw [answer_eq_ok]
  constructor
  · rintro ⟨c', h⟩
    exact program_sound fits h
  · intro h
    generalize hts : s.tokens = ts at h
    obtain ⟨hss, -⟩ := h
    obtain ⟨rfl, -⟩ := List.append_inj' hts rfl
    exact program_complete fits hss

/-- The tokens of a text that subtracts two times. -/
def subtractions : List Token :=
  [⟨.ident, "x", ⟨1, 1⟩⟩, ⟨.assign, "=", ⟨1, 3⟩⟩, ⟨.integer, "7", ⟨1, 5⟩⟩, ⟨.minus, "-", ⟨1, 7⟩⟩,
    ⟨.integer, "2", ⟨1, 9⟩⟩, ⟨.minus, "-", ⟨1, 11⟩⟩, ⟨.integer, "1", ⟨1, 13⟩⟩, ⟨.semicolon, ";", ⟨1, 14⟩⟩,
    ⟨.eof, "", ⟨1, 15⟩⟩]

theorem proper_subtractions : Proper subtractions where
  closed := ⟨subtractions.dropLast, ⟨.eof, "", ⟨1, 15⟩⟩, rfl, rfl, by decide⟩
  valid := by decide
  fits := by
    have digit (c : Char) (h : Text.isAsciiDigit c = true) : Token.AreDigits [c] := List.forall_mem_singleton.mpr h
    simp only [subtractions, List.forall_mem_cons, Token.Fits, Token.IsName]
    exact ⟨⟨'x', [], by decide, by decide, by simp, by decide⟩, by decide, ⟨by decide, digit '7' (by decide)⟩,
      by decide, ⟨by decide, digit '2' (by decide)⟩, by decide, ⟨by decide, digit '1' (by decide)⟩, by decide,
      by decide, by simp⟩

/-- Subtractions without parentheses derive the tree that subtracts from the left, and not the other one. -/
theorem derives_subtractions :
    Proper subtractions ∧
    Derives subtractions ⟨[.assign "x" (.binary (.binary (.literal (.int 7)) .sub (.literal (.int 2))) .sub
      (.literal (.int 1)))]⟩ ∧
    ¬ Derives subtractions ⟨[.assign "x" (.binary (.literal (.int 7)) .sub (.binary (.literal (.int 2)) .sub
      (.literal (.int 1))))]⟩ := by
  have hread : (Program.parseTokens subtractions).answer =
      .ok ⟨[.assign "x" (.binary (.binary (.literal (.int 7)) .sub (.literal (.int 2))) .sub
        (.literal (.int 1)))]⟩ := by rfl
  refine ⟨proper_subtractions, (parseTokens_eq_ok_iff proper_subtractions _).mp hread, fun h => ?_⟩
  have hother := (parseTokens_eq_ok_iff proper_subtractions _).mpr h
  rw [hread] at hother
  simp at hother

end Syntax
end TypedImp

import TypedImp.Proofs.FrontEnd
import TypedImp.Proofs.Syntax.WellFormed
import TypedImp.Proofs.Token.Respelling

/-! Well-formed programs as texts. Every operand is written in parentheses, so that no operator is bound by another
    one, and every token has a blank behind it, so that no two of them grow together. The text that is written this
    way is parsed to the program. -/

namespace TypedImp
open Token (Word placed source past spelled_symbol spelled_word)

/-! ### Words of programs -/

/-- A token that has only one text. -/
def Token.Kind.word (k : Token.Kind) : Word := (k, k.text)

/-- The sign of an operator; one that the language does not have has none. -/
def BinaryOp.kind : BinaryOp → Token.Kind
  | add => .plus
  | sub => .minus
  | mul => .star
  | div => .slash
  | mod => .percent
  | lt => .lt
  | le => .le
  | gt => .gt
  | ge => .ge
  | eq => .eq
  | ne => .ne
  | and => .and
  | or => .or
  | other _ => .invalid

def UnaryOp.kind : UnaryOp → Token.Kind
  | plus => .plus
  | minus => .minus
  | other _ => .invalid

section
variable (point : Float → String)

/-- A literal, in which a number with a point is written as `point` says. -/
def Value.word : Value → Word
  | int n => (.integer, n.toNat.repr)
  | float x => (.float, point x)
  | bool b => (.boolean, if b then "true" else "false")
  | char s => (.char, s)
  | string s => (.string, s)
  | loose .. => (.invalid, "")

namespace Expr

mutual
def words : Expr → List Word
  | literal v => [v.word point]
  | var x => [(.ident, x)]
  | unary op e => op.kind.word :: Token.Kind.lparen.word :: (words e ++ [Token.Kind.rparen.word])
  | binary l op r =>
    Token.Kind.lparen.word :: (words l ++ [Token.Kind.rparen.word]) ++
      op.kind.word :: (Token.Kind.lparen.word :: (words r ++ [Token.Kind.rparen.word]))
  | call x args => (.ident, x) :: Token.Kind.lparen.word :: (argumentWords args ++ [Token.Kind.rparen.word])
  | stray _ | misnamed _ _ => []

def argumentWords : List Expr → List Word
  | [] => []
  | e :: es => words e ++ moreWords es

def moreWords : List Expr → List Word
  | [] => []
  | e :: es => Token.Kind.comma.word :: (words e ++ moreWords es)
end

end Expr

def Param.words (p : Param) : List Word := [(.ident, p.name), Token.Kind.colon.word, (.ident, p.ty.name)]

def Param.wordsAll : List Param → List Word
  | [] => []
  | [p] => p.words
  | p :: q :: ps => p.words ++ Token.Kind.comma.word :: wordsAll (q :: ps)

namespace Stmt

/-- A keyword and an expression in parentheses. -/
def conditionWords (k : Token.Kind) (e : Expr) : List Word :=
  k.word :: Token.Kind.lparen.word :: (e.words point ++ [Token.Kind.rparen.word])

def braced (body : List Word) : List Word := Token.Kind.lbrace.word :: (body ++ [Token.Kind.rbrace.word])

def semicolon : List Word := [Token.Kind.semicolon.word]

mutual
def words : Stmt → List Word
  | varDecl x t none => [Token.Kind.varWord.word, (.ident, x), Token.Kind.colon.word, (.ident, t.name)] ++ semicolon
  | varDecl x t (some e) =>
    [Token.Kind.varWord.word, (.ident, x), Token.Kind.colon.word, (.ident, t.name), Token.Kind.assign.word] ++
      (e.words point ++ semicolon)
  | assign x e => (.ident, x) :: Token.Kind.assign.word :: e.words point ++ semicolon
  | print e => conditionWords point .printWord e ++ semicolon
  | input x => [Token.Kind.inputWord.word, Token.Kind.lparen.word, (.ident, x), Token.Kind.rparen.word] ++ semicolon
  | ifThen cond body => conditionWords point .ifWord cond ++ braced (wordsAll body)
  | ifElse cond yes no =>
    conditionWords point .ifWord cond ++ (braced (wordsAll yes) ++ Token.Kind.elseWord.word :: braced (wordsAll no))
  | whileLoop cond body => conditionWords point .whileWord cond ++ braced (wordsAll body)
  | forLoop init cond step body =>
    Token.Kind.forWord.word :: Token.Kind.lparen.word :: (words init ++ (cond.words point ++ Token.Kind.semicolon.word ::
      (words step ++ Token.Kind.rparen.word :: braced (wordsAll body))))
  | function x params result body =>
    Token.Kind.funcWord.word :: (.ident, x) :: Token.Kind.lparen.word :: (Param.wordsAll params ++
      Token.Kind.rparen.word :: Token.Kind.colon.word :: (.ident, result.name) :: braced (wordsAll body))
  | ret none => Token.Kind.returnWord.word :: semicolon
  | ret (some e) => Token.Kind.returnWord.word :: (e.words point ++ semicolon)
  | expr e => e.words point ++ semicolon
  | block _ | stray _ | misnamed _ _ _ | notBlock _ => []

def wordsAll : List Stmt → List Word
  | [] => []
  | s :: ss => words s ++ wordsAll ss
end

end Stmt
end

/-! ### Words are spelled -/

theorem exists_letters {word : String} (hstart : word.toList.head?.any Scanner.isIdentStart = true)
    (hchars : word.toList.all Scanner.isIdentChar = true) :
    ∃ c cs, word.toList = c :: cs ∧ Scanner.isIdentStart c = true ∧ ∀ d ∈ cs, Scanner.isIdentChar d = true := by
  cases hword : word.toList with
  | nil =>
    rw [hword] at hstart
    cases hstart
  | cons c cs =>
    rw [hword] at hstart hchars
    exact ⟨c, cs, rfl, hstart, fun d hd => List.all_eq_true.mp hchars d (List.mem_cons_of_mem c hd)⟩

theorem spelled_letters {word : String} (hstart : word.toList.head?.any Scanner.isIdentStart = true)
    (hchars : word.toList.all Scanner.isIdentChar = true) {k : Token.Kind} (hk : Scanner.wordKind word = k) :
    Word.Spelled (k, word) := by
  obtain ⟨c, cs, hword, hc, hcs⟩ := exists_letters hstart hchars
  exact spelled_word hword hc hcs hk

theorem spelled_kind {k : Token.Kind} (h : k ∈ Token.Kind.keywords ++ Token.Kind.pairs ++ Token.Kind.singles) :
    k.word.Spelled := by
  rw [List.append_assoc] at h
  rcases List.mem_append.mp h with hword | hsymbol
  · have key : ∀ k ∈ Token.Kind.keywords, Scanner.wordKind k.text = k ∧
        k.text.toList.head?.any Scanner.isIdentStart = true ∧ k.text.toList.all Scanner.isIdentChar = true := by decide
    obtain ⟨hkind, hstart, hchars⟩ := key k hword
    exact spelled_letters hstart hchars hkind
  · exact spelled_symbol hsymbol

theorem IsIdentifier.spelled {x : String} (h : IsIdentifier x) : Word.Spelled (.ident, x) := by
  obtain ⟨⟨c, cs, hx, hstart, hchars⟩, hreserved⟩ := h
  exact spelled_word hx hstart hchars (Scanner.wordKind_eq_ident hreserved)

theorem Ty.isIdentifier_name (t : Ty) : IsIdentifier t.name := by
  have key : t.name.toList.head?.any Scanner.isIdentStart = true ∧ t.name.toList.all Scanner.isIdentChar = true := by
    cases t <;> decide
  obtain ⟨c, cs, hcs, hc, hchars⟩ := exists_letters key.1 key.2
  exact ⟨⟨c, cs, hcs, hc, hchars⟩, t.name_not_reserved⟩

theorem spelled_truth (b : Bool) : Word.Spelled (.boolean, if b then "true" else "false") := by
  cases b with
  | true => exact spelled_letters (by decide) (by decide) (by decide)
  | false => exact spelled_letters (by decide) (by decide) (by decide)

section
variable {point : Float → String}

/-- The texts that `point` chooses are read as the numbers, as far as there are such texts. -/
def Writes (point : Float → String) : Prop :=
  ∀ x, (Value.float x).IsLiteral → Decimal.IsPointText (point x) x

theorem exists_writes : ∃ point, Writes point := by
  classical
  refine ⟨fun x => if h : ∃ text, Decimal.IsPointText text x then h.choose else "", fun x hx => ?_⟩
  cases hx with
  | float htext =>
    have h : ∃ text, Decimal.IsPointText text x := ⟨_, htext⟩
    simp only [dif_pos h]
    exact h.choose_spec

theorem Value.IsLiteral.spelled (hpoint : Writes point) {v : Value} (h : v.IsLiteral) : (v.word point).Spelled := by
  cases h with
  | int => exact Token.spelled_integer _
  | @float _ x htext =>
    obtain ⟨⟨whole, fraction, htext', hne, hwhole, hfraction⟩, -⟩ := hpoint x (.float htext)
    exact Token.spelled_float htext' hne hwhole hfraction
  | bool => exact spelled_truth _
  | char hnewline hquote => exact Token.spelled_char hnewline hquote
  | string h => exact Token.spelled_string h

/-- The words are spelled one by one. -/
def Spelled (ws : List Word) : Prop := ∀ w ∈ ws, w.Spelled

@[simp] theorem spelled_nil : Spelled [] := List.forall_mem_nil _

@[simp] theorem spelled_cons {w : Word} {ws : List Word} : Spelled (w :: ws) ↔ w.Spelled ∧ Spelled ws :=
  List.forall_mem_cons

@[simp] theorem spelled_append {ws vs : List Word} : Spelled (ws ++ vs) ↔ Spelled ws ∧ Spelled vs :=
  List.forall_mem_append

theorem spelled_unary {op : UnaryOp} (h : op = .plus ∨ op = .minus) : op.kind.word.Spelled := by
  rcases h with rfl | rfl
  · exact spelled_kind (by decide)
  · exact spelled_kind (by decide)

theorem spelled_binary {op : BinaryOp} (h : op.family ≠ .unknown) : op.kind.word.Spelled := by
  refine spelled_kind ?_
  cases op with
  | other => exact absurd rfl h
  | _ => decide

mutual
theorem Expr.WellFormed.spelled (hpoint : Writes point) : {e : Expr} → e.WellFormed → Spelled (e.words point)
  | .literal _, .literal hv => by simpa [Expr.words] using hv.spelled hpoint
  | .var _, .var hx => by simpa [Expr.words] using hx.spelled
  | .unary _ _, .unary hop he => by
    simp (disch := decide) [Expr.words, spelled_unary hop, he.spelled hpoint, spelled_kind]
  | .binary _ _ _, .binary hop hl hr => by
    simp (disch := decide) [Expr.words, spelled_binary hop, hl.spelled hpoint, hr.spelled hpoint, spelled_kind]
  | .call _ _, .call hx hargs => by
    simp (disch := decide) [Expr.words, hx.spelled, spelled_arguments hpoint hargs, spelled_kind]

theorem spelled_arguments (hpoint : Writes point) : {es : List Expr} → (∀ e ∈ es, e.WellFormed) →
    Spelled (Expr.argumentWords point es)
  | [], _ => by simp (disch := decide) [Expr.argumentWords]
  | e :: es, h => by
    rw [List.forall_mem_cons] at h
    simp (disch := decide) [Expr.argumentWords, h.1.spelled hpoint, spelled_more hpoint h.2]

theorem spelled_more (hpoint : Writes point) : {es : List Expr} → (∀ e ∈ es, e.WellFormed) →
    Spelled (Expr.moreWords point es)
  | [], _ => by simp (disch := decide) [Expr.moreWords]
  | e :: es, h => by
    rw [List.forall_mem_cons] at h
    simp (disch := decide) [Expr.moreWords, h.1.spelled hpoint, spelled_more hpoint h.2, spelled_kind]
end

theorem spelled_parameters {ps : List Param} (h : ∀ p ∈ ps, p.WellFormed) : Spelled (Param.wordsAll ps) := by
  fun_induction Param.wordsAll ps with
  | case1 => simp
  | case2 p =>
    have hp := (h p List.mem_cons_self).name.spelled
    simp (disch := decide) [Param.words, hp, p.ty.isIdentifier_name.spelled, spelled_kind]
  | case3 p q ps ih =>
    rw [List.forall_mem_cons] at h
    simp (disch := decide) [Param.words, h.1.name.spelled, p.ty.isIdentifier_name.spelled, spelled_kind, ih h.2]

theorem spelled_condition (hpoint : Writes point) {k : Token.Kind} (hk : k ∈ Token.Kind.keywords) {e : Expr}
    (he : e.WellFormed) : Spelled (Stmt.conditionWords point k e) := by
  have hword := spelled_kind (List.mem_append_left _ (List.mem_append_left _ hk))
  simp (disch := decide) [Stmt.conditionWords, hword, he.spelled hpoint, spelled_kind]

mutual
theorem Stmt.WellFormed.spelled (hpoint : Writes point) : {s : Stmt} → s.WellFormed → Spelled (s.words point)
  | .varDecl _ t none, .varDecl hx _ _ => by
    simp (disch := decide) [Stmt.words, Stmt.semicolon, hx.spelled, t.isIdentifier_name.spelled, spelled_kind]
  | .varDecl _ t (some e), .varDecl hx _ he => by
    have he : e.WellFormed := he e rfl
    simp (disch := decide) [Stmt.words, Stmt.semicolon, hx.spelled, t.isIdentifier_name.spelled, he.spelled hpoint,
      spelled_kind]
  | .assign _ _, .assign hx he => by
    simp (disch := decide) [Stmt.words, Stmt.semicolon, hx.spelled, he.spelled hpoint, spelled_kind]
  | .print _, .print he => by
    simp (disch := decide) [Stmt.words, Stmt.semicolon, spelled_condition hpoint _ he, spelled_kind]
  | .input _, .input hx => by simp (disch := decide) [Stmt.words, Stmt.semicolon, hx.spelled, spelled_kind]
  | .ifThen _ _, .ifThen hcond hbody => by
    simp (disch := decide) [Stmt.words, Stmt.braced, spelled_condition hpoint _ hcond, spelled_body hpoint hbody,
      spelled_kind]
  | .ifElse _ _ _, .ifElse hcond hyes hno => by
    simp (disch := decide) [Stmt.words, Stmt.braced, spelled_condition hpoint _ hcond, spelled_body hpoint hyes,
      spelled_body hpoint hno, spelled_kind]
  | .whileLoop _ _, .whileLoop hcond hbody => by
    simp (disch := decide) [Stmt.words, Stmt.braced, spelled_condition hpoint _ hcond, spelled_body hpoint hbody,
      spelled_kind]
  | .forLoop _ _ _ _, .forLoop _ hinit hcond _ hstep hbody => by
    simp (disch := decide) [Stmt.words, Stmt.braced, hinit.spelled hpoint, hcond.spelled hpoint, hstep.spelled hpoint,
      spelled_body hpoint hbody, spelled_kind]
  | .function _ _ result _, .function hx hparams hbody => by
    simp (disch := decide) [Stmt.words, Stmt.braced, hx.spelled, spelled_parameters hparams, result.isIdentifier_name.spelled,
      spelled_body hpoint hbody, spelled_kind]
  | .ret none, .ret _ => by simp (disch := decide) [Stmt.words, Stmt.semicolon, spelled_kind]
  | .ret (some e), .ret he => by
    have he : e.WellFormed := he e rfl
    simp (disch := decide) [Stmt.words, Stmt.semicolon, he.spelled hpoint, spelled_kind]
  | .expr _, .expr he => by simp (disch := decide) [Stmt.words, Stmt.semicolon, he.spelled hpoint, spelled_kind]

theorem spelled_body (hpoint : Writes point) : {ss : List Stmt} → (∀ s ∈ ss, s.WellFormed) →
    Spelled (Stmt.wordsAll point ss)
  | [], _ => by simp (disch := decide) [Stmt.wordsAll]
  | s :: ss, h => by
    rw [List.forall_mem_cons] at h
    simp (disch := decide) [Stmt.wordsAll, h.1.spelled hpoint, spelled_body hpoint h.2]
end

end

/-! ### Words derive what they write -/

namespace Syntax
open Grammar (Level)

theorem chain_of_signed {ts : List Token} {e : Expr} (h : Signed ts e) (ls : List Level) : Chain ls ts e := by
  induction ls with
  | nil => exact .signed h
  | cons l ls ih => exact .operand ih

theorem expression_of_primary {ts : List Token} {e : Expr} (h : Primary ts e) : Expression ts e :=
  chain_of_signed (.primary h) Level.all

/-- Between operands in parentheses an operator of any level may stand. -/
theorem chain_of_operands {l : Level} {ls : List Level} (hl : l ∈ ls) {ts us : List Token} {op : Token}
    {left right : Expr} {o : BinaryOp} (hleft : Primary ts left) (hop : op.kind ∈ l.kinds)
    (ho : BinaryOp.ofText op.text = o) (hright : Primary us right) : Chain ls (ts ++ op :: us) (.binary left o right) := by
  subst ho
  induction ls with
  | nil => cases hl
  | cons m ls ih =>
    by_cases hlm : l = m
    · subst hlm
      exact .operator (chain_of_signed (.primary hleft) _) hop (chain_of_signed (.primary hright) _)
    · exact .operand (ih ((List.mem_cons.mp hl).resolve_left hlm))

theorem binary_kind {op : BinaryOp} (h : op.family ≠ .unknown) :
    (∃ l ∈ Level.all, op.kind ∈ l.kinds) ∧ BinaryOp.ofText op.kind.text = op := by
  cases op with
  | other => exact absurd rfl h
  | _ => exact ⟨by decide, rfl⟩

section
variable {point : Float → String}

theorem literal_words (hpoint : Writes point) {v : Value} (h : v.IsLiteral) (p : Position) :
    Primary [⟨(v.word point).1, (v.word point).2, p⟩] (.literal v) := by
  cases h with
  | @int n hmin hmax =>
    obtain ⟨m, rfl⟩ := Int.eq_ofNat_of_zero_le hmin
    have hlength : m.repr.length ≤ Decimal.maxIntegerDigits := by
      rw [← String.length_toList, Nat.toList_repr, Nat.length_toDigits_le_iff (by decide) (by decide)]
      have hsmall : m < 10 ^ 19 := by
        have hmax : (m : Int) ≤ 9223372036854775807 := hmax
        omega
      exact Nat.lt_of_lt_of_le hsmall (Nat.pow_le_pow_right (by decide) (by decide))
    have hvalue : Token.decimalValue m.repr.toList = m := by
      rw [Nat.toList_repr, Token.decimalValue_toDigits]
    have hderives := Primary.integer (t := ⟨.integer, m.repr, p⟩) rfl hlength (by rwa [hvalue])
    rwa [hvalue] at hderives
  | @float _ x htext =>
    obtain ⟨⟨whole, fraction, htext', hne, hwhole, hfraction⟩, hreads⟩ := hpoint x (.float htext)
    have hvalue := Token.number?_point htext' hne hwhole hfraction
    rw [hreads, Option.some_inj] at hvalue
    have hderives := Primary.float (t := ⟨.float, point x, p⟩) rfl htext' hwhole hfraction
    rwa [← hvalue] at hderives
  | @bool b =>
    have hderives := Primary.boolean (t := ⟨.boolean, if b then "true" else "false", p⟩) rfl
    cases b with
    | true => exact hderives
    | false => exact hderives
  | char => exact .char rfl
  | string => exact .string rfl

theorem parens_words {ws : List Word} {e : Expr} (h : ∀ p, Expression (placed p ws) e) (p : Position) :
    Primary (placed p (Token.Kind.lparen.word :: (ws ++ [Token.Kind.rparen.word]))) e := by
  rw [placed, Token.placed_append]
  exact .parens rfl (h _) rfl

mutual
theorem expression_words (hpoint : Writes point) : {e : Expr} → e.WellFormed → ∀ p, Expression (placed p (e.words point)) e
  | .literal v, .literal hv, p => expression_of_primary (literal_words hpoint hv p)
  | .var x, .var _, p => expression_of_primary (.var rfl)
  | .unary op e, .unary hop he, p => by
    have hoperand := fun q => Signed.primary (parens_words (expression_words hpoint he) q)
    rw [Expr.words, placed]
    rcases hop with rfl | rfl
    · exact chain_of_signed (.sign (.inl rfl) (hoperand _)) Level.all
    · exact chain_of_signed (.sign (.inr rfl) (hoperand _)) Level.all
  | .binary l op r, .binary hop hl hr, p => by
    obtain ⟨⟨level, hlevel, hkind⟩, htext⟩ := binary_kind hop
    have hleft := parens_words (expression_words hpoint hl)
    have hright := parens_words (expression_words hpoint hr)
    rw [Expr.words, Token.placed_append]
    exact chain_of_operands hlevel (hleft p) hkind htext (hright _)
  | .call x args, .call _ hargs, p => by
    rw [Expr.words, placed, placed, Token.placed_append]
    exact expression_of_primary (.call rfl rfl (arguments_words hpoint hargs _) rfl)

theorem arguments_words (hpoint : Writes point) : {es : List Expr} → (∀ e ∈ es, e.WellFormed) →
    ∀ p, Arguments (placed p (Expr.argumentWords point es)) es
  | [], _, p => .none
  | e :: es, h, p => by
    rw [Expr.argumentWords, Token.placed_append]
    exact .some (expression_words hpoint (h e List.mem_cons_self) p)
      (more_words hpoint (fun e he => h e (List.mem_cons_of_mem _ he)) _)

theorem more_words (hpoint : Writes point) : {es : List Expr} → (∀ e ∈ es, e.WellFormed) →
    ∀ p, MoreArguments (placed p (Expr.moreWords point es)) es
  | [], _, p => .none
  | e :: es, h, p => by
    rw [Expr.moreWords, placed, Token.placed_append]
    exact .some rfl (expression_words hpoint (h e List.mem_cons_self) _)
      (more_words hpoint (fun e he => h e (List.mem_cons_of_mem _ he)) _)
end

theorem condition_words (hpoint : Writes point) {k : Token.Kind} {e : Expr} (h : e.WellFormed) (p : Position) :
    Condition k (placed p (Stmt.conditionWords point k e)) e := by
  rw [Stmt.conditionWords, placed, placed, Token.placed_append]
  exact .mk rfl rfl (expression_words hpoint h _) rfl

theorem block_words {ws : List Word} {body : List Stmt} (h : ∀ p, Statements (placed p ws) body) (p : Position) :
    Block (placed p (Stmt.braced ws)) body := by
  rw [Stmt.braced, placed, Token.placed_append]
  exact .mk rfl (h _) rfl

theorem parameters_words {ps : List Param} (h : ∀ p ∈ ps, p.WellFormed) (hne : ps ≠ []) (p : Position) :
    Parameters (placed p (Param.wordsAll ps)) ps := by
  fun_induction Param.wordsAll ps generalizing p with
  | case1 => exact absurd rfl hne
  | case2 q => exact .one (.mk rfl rfl ⟨⟨rfl, rfl⟩, (h q List.mem_cons_self).ty⟩)
  | case3 q r ps ih =>
    rw [List.forall_mem_cons] at h
    rw [Token.placed_append]
    exact .more (.mk rfl rfl ⟨⟨rfl, rfl⟩, h.1.ty⟩) rfl (ih h.2 (List.cons_ne_nil _ _) _)

theorem parameterList_words {ps : List Param} (h : ∀ p ∈ ps, p.WellFormed) (p : Position) :
    ParameterList (placed p (Param.wordsAll ps)) ps := by
  by_cases hne : ps = []
  · subst hne
    exact .none
  · exact .some (parameters_words h hne p)

theorem varDecl_words (hpoint : Writes point) {x : String} {t : Ty} {init : Option Expr}
    (h : (Stmt.varDecl x t init).WellFormed) (p : Position) :
    VarDecl (placed p ((Stmt.varDecl x t init).words point)) (.varDecl x t init) := by
  cases h with
  | varDecl _ ht hinit =>
    cases init with
    | none => exact .plain rfl rfl rfl ⟨⟨rfl, rfl⟩, ht⟩ rfl
    | some e =>
      rw [Stmt.words, Token.placed_append, Token.placed_append]
      exact .init rfl rfl rfl ⟨⟨rfl, rfl⟩, ht⟩ rfl (expression_words hpoint (hinit e rfl) _) rfl

/-- An assignment without its semicolon. -/
theorem assign_words (hpoint : Writes point) {x : String} {e : Expr} (h : e.WellFormed) (p : Position) :
    Assign (placed p ((.ident, x) :: Token.Kind.assign.word :: e.words point)) (.assign x e) :=
  .mk rfl rfl (expression_words hpoint h _)

theorem forInit_words (hpoint : Writes point) {s : Stmt} (hinit : s.isInit = true) (h : s.WellFormed) (p : Position) :
    ForInit (placed p (s.words point)) s := by
  cases h with
  | varDecl hx ht he => exact .decl (varDecl_words hpoint (.varDecl hx ht he) p)
  | assign _ he =>
    rw [Stmt.words, Token.placed_append]
    exact .assign (assign_words hpoint he p) rfl
  | _ => cases hinit

theorem forStep_words (hpoint : Writes point) {s : Stmt} (hstep : s.isStep = true) (h : s.WellFormed) (p : Position) :
    ForStep (placed p (s.words point)) s := by
  cases h with
  | assign _ he =>
    rw [Stmt.words, Token.placed_append]
    exact .assignClosed (assign_words hpoint he p) rfl
  | expr he =>
    rw [Stmt.words, Token.placed_append]
    exact .exprClosed (expression_words hpoint he p) rfl
  | _ => cases hstep

mutual
theorem statement_words (hpoint : Writes point) : {s : Stmt} → s.WellFormed → ∀ p, Statement (placed p (s.words point)) s
  | .varDecl _ _ _, h, p => .varDecl (varDecl_words hpoint h p)
  | .assign _ _, .assign _ he, p => by
    rw [Stmt.words, Token.placed_append]
    exact .assign (assign_words hpoint he p) rfl
  | .print _, .print he, p => by
    rw [Stmt.words, Token.placed_append]
    exact .print (condition_words hpoint he p) rfl
  | .input _, .input _, p => .input rfl rfl rfl rfl rfl
  | .ifThen _ _, .ifThen hcond hbody, p => by
    rw [Stmt.words, Token.placed_append]
    exact .ifThen (condition_words hpoint hcond p) (block_words (statements_words hpoint hbody) _)
  | .ifElse _ _ _, .ifElse hcond hyes hno, p => by
    rw [Stmt.words, Token.placed_append, Token.placed_append, placed]
    exact .ifElse (condition_words hpoint hcond p) (block_words (statements_words hpoint hyes) _) rfl
      (block_words (statements_words hpoint hno) _)
  | .whileLoop _ _, .whileLoop hcond hbody, p => by
    rw [Stmt.words, Token.placed_append]
    exact .whileLoop (condition_words hpoint hcond p) (block_words (statements_words hpoint hbody) _)
  | .forLoop init cond step body, .forLoop hisInit hinit hcond hisStep hstep hbody, p => by
    rw [Stmt.words, placed, placed, Token.placed_append, Token.placed_append, placed, Token.placed_append, placed]
    exact .forLoop rfl rfl (forInit_words hpoint hisInit hinit _) (expression_words hpoint hcond _) rfl
      (forStep_words hpoint hisStep hstep _) rfl (block_words (statements_words hpoint hbody) _)
  | .function _ _ _ _, .function _ hparams hbody, p => by
    rw [Stmt.words, placed, placed, placed, Token.placed_append, placed, placed, placed]
    exact .function rfl rfl rfl (parameterList_words hparams _) rfl rfl ⟨rfl, rfl⟩
      (block_words (statements_words hpoint hbody) _)
  | .ret none, .ret _, p => .retNone rfl rfl
  | .ret (some e), .ret he, p => by
    rw [Stmt.words, placed, Token.placed_append]
    exact .retSome rfl (expression_words hpoint (he e rfl) _) rfl
  | .expr _, .expr he, p => by
    rw [Stmt.words, Token.placed_append]
    exact .expr (expression_words hpoint he p) rfl

theorem statements_words (hpoint : Writes point) : {ss : List Stmt} → (∀ s ∈ ss, s.WellFormed) →
    ∀ p, Statements (placed p (Stmt.wordsAll point ss)) ss
  | [], _, p => .none
  | s :: ss, h, p => by
    rw [Stmt.wordsAll, Token.placed_append]
    exact .some (statement_words hpoint (h s List.mem_cons_self) p)
      (statements_words hpoint (fun s hs => h s (List.mem_cons_of_mem _ hs)) _)
end

end
end Syntax

/-! ### Texts of programs -/

/-- The text of a program, in which a number with a point is written as `point` says. -/
def Program.text (point : Float → String) (p : Program) : String := String.ofList (source (Stmt.wordsAll point p.body))

/-- A well-formed program is what its text is parsed to. -/
theorem Program.WellFormed.parse_text {point : Float → String} (hpoint : Writes point) {p : Program} (h : p.WellFormed) :
    Program.parse (p.text point) = .ok p := by
  obtain ⟨place, hplace⟩ := tokenize_source (spelled_body hpoint h)
  exact FrontEnd.parse_of_statements hplace rfl (Syntax.statements_words hpoint h _)

/-- The programs that texts are parsed to are the well-formed ones. -/
theorem Program.exists_parse_iff_wellFormed (p : Program) : (∃ text, Program.parse text = .ok p) ↔ p.WellFormed := by
  constructor
  · rintro ⟨text, h⟩
    exact Syntax.wellFormed_of_parse h
  · intro h
    obtain ⟨point, hpoint⟩ := exists_writes
    exact ⟨p.text point, h.parse_text hpoint⟩

end TypedImp

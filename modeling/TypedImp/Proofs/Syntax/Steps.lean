import TypedImp.Proofs.Syntax.Sight

/-! The bound on the steps of a parser. Every parser of a construct consumes a token before it goes into another
    construct of its kind, and none consumes the last token, which is final; so a bound that is as large as the number
    of tokens ahead is never used up. -/

namespace TypedImp

/-- The last token is final. -/
def TokenStream.Closed (ts : TokenStream) : Prop := ∀ i, ts.tokens.size ≤ i + 1 → (ts.get i).kind.isFinal = true

theorem TokenStream.closed_of_tokens {ts : TokenStream} {body : List Token} {last : Token}
    (hts : ts.tokens = (body ++ [last]).toArray) (hlast : last.kind.isFinal = true) : ts.Closed := by
  obtain ⟨tokens, size_pos⟩ := ts
  subst hts
  intro i hi
  have hmin : min i ((body ++ [last]).toArray.size - 1) = body.length := by
    simp only [List.size_toArray, List.length_append, List.length_singleton] at hi ⊢
    omega
  simpa only [TokenStream.get, hmin, List.getElem_toArray, List.getElem_concat_length] using hlast

/-- The end of input is added to a list that does not end in a final token. -/
theorem TokenStream.closed_ofList (ts : List Token) : (ofList ts).Closed := by
  unfold ofList
  split
  · next t h =>
    refine @closed_of_tokens _ ts t rfl ?_
    unfold closing at h
    split at h
    · cases h
      rfl
    · split at h
      · cases h
      · cases h
        rfl
  · next h =>
    unfold closing at h
    split at h
    · cases h
    · next t hlast =>
      split at h
      · next hfinal =>
        obtain ⟨body, rfl⟩ := List.getLast?_eq_some_iff.mp hlast
        exact @closed_of_tokens _ body t rfl hfinal
      · cases h

namespace Syntax
open TypedImp.Parser

section Results
variable {α β : Type}

/-- From token `i` on, a run has consumed `k` tokens or more when it succeeds; when it fails it has not gone back nor
    used up its steps. It stands at one of the tokens. -/
def Advanced (ts : TokenStream) (i k : Nat) : EStateM.Result ParseError Cursor α → Prop
  | .ok _ c => i + k ≤ c.consumed ∧ c.consumed < ts.tokens.size
  | .error e c => i ≤ c.consumed ∧ c.consumed < ts.tokens.size ∧ e ≠ .outOfSteps

theorem Advanced.ends {ts : TokenStream} {i k : Nat} {r : EStateM.Result ParseError Cursor α} (h : Advanced ts i k r) :
    Ends r := by
  rintro c rfl
  exact h.2.2 rfl

theorem Advanced.of_le {ts : TokenStream} {i j k l : Nat} {r : EStateM.Result ParseError Cursor α}
    (h : Advanced ts i k r) (hij : j ≤ i) (hl : j + l ≤ i + k) : Advanced ts j l r := by
  cases r with
  | ok a c => exact ⟨Nat.le_trans hl h.1, h.2⟩
  | error e c => exact ⟨Nat.le_trans hij h.1, h.2⟩

/-- Where at most `room` tokens are ahead, a run of the parser consumes `k` tokens or more. -/
def Advances (ts : TokenStream) (room k : Nat) (p : Parser α) : Prop :=
  ∀ c, c.consumed < ts.tokens.size → ts.tokens.size ≤ c.consumed + room → Advanced ts c.consumed k (p ts c)

/-- It does so where token `t` is ahead. -/
def AdvancesAt (ts : TokenStream) (t : Token) (room k : Nat) (p : Parser α) : Prop :=
  ∀ c, ts.get c.consumed = t → c.consumed < ts.tokens.size → ts.tokens.size ≤ c.consumed + room →
    Advanced ts c.consumed k (p ts c)

/-- No token that ends the text is expected. -/
def Passes (e : Expected) : Prop := e.has .eof = false ∧ e.has .invalid = false

instance (e : Expected) : Decidable (Passes e) := inferInstanceAs (Decidable (_ ∧ _))

end Results

variable {ts : TokenStream} {room k : Nat} {α β : Type}

/-! ### Combinations of parsers -/

namespace Advances

/-- Somewhere a token is ahead. -/
theorem zero (p : Parser α) : Advances ts 0 k p := fun _ hc hroom => absurd hroom (Nat.not_le.mpr hc)

theorem restrict {p : Parser α} {room' : Nat} (h : Advances ts room k p) (hroom : room' ≤ room) :
    Advances ts room' k p := fun c hc hahead => h c hc (by omega)

theorem relax {p : Parser α} (h : Advances ts room k p) {l : Nat} (hl : l ≤ k) : Advances ts room l p :=
  fun c hc hahead => (h c hc hahead).of_le (Nat.le_refl _) (Nat.add_le_add_left hl _)

/-- Behind the tokens that the first parser consumes fewer are ahead. -/
theorem graded {p : Parser α} {f : α → Parser β} {l : Nat} (hp : Advances ts room k p)
    (hf : ∀ a, Advances ts (room - k) l (f a)) : Advances ts room (k + l) (p >>= f) := by
  intro c hc hahead
  have hadvanced := hp c hc hahead
  cases hr : p ts c with
  | ok a d =>
    rw [hr] at hadvanced
    obtain ⟨hle, hd⟩ := hadvanced
    rw [bind_of_ok hr]
    exact (hf a d hd (by omega)).of_le (by omega) (by omega)
  | error e d =>
    rw [hr] at hadvanced
    rw [bind_of_error hr]
    exact hadvanced

theorem bind {p : Parser α} {f : α → Parser β} {l : Nat} (hp : Advances ts room k p)
    (hf : ∀ a, Advances ts room l (f a)) : Advances ts room k (p >>= f) :=
  (hp.graded fun a => (hf a).restrict (Nat.sub_le _ _)).relax (Nat.le_add_right _ _)

/-- The first parser may only look at tokens. -/
theorem andThen {p : Parser α} {f : α → Parser β} (hp : Advances ts room 0 p) (hf : ∀ a, Advances ts room k (f a)) :
    Advances ts room k (p >>= f) :=
  (hp.graded hf).relax (Nat.le_add_left _ _)

/-- Behind a token that is consumed there is room for a construct of the same kind. -/
theorem into {p : Parser α} {f : α → Parser β} {l : Nat} (hp : Advances ts (room + 1) 1 p)
    (hf : ∀ a, Advances ts room l (f a)) : Advances ts (room + 1) 1 (p >>= f) :=
  (hp.graded hf).relax (Nat.le_add_right _ _)

theorem pure (a : α) : Advances ts room 0 (pure a) := fun _ hc _ => ⟨Nat.le_refl _, hc⟩

theorem throw {e : ParseError} (he : e ≠ .outOfSteps) : Advances ts room k (throw e : Parser α) :=
  fun _ hc _ => ⟨Nat.le_refl _, hc, he⟩

theorem ite {p q : Parser α} (hp : Advances ts room k p) (hq : Advances ts room k q) (b : Bool) :
    Advances ts room k (if b = true then p else q) := by
  cases b with
  | true => exact hp
  | false => exact hq

theorem discard {p : Parser α} (hp : Advances ts room k p) : Advances ts room k (discard p) :=
  hp.bind fun _ => .pure _

/-- A bound on the steps that is as large as the number of tokens ahead is large enough if every round consumes one. -/
theorem loopOver {ι : Type} {p : Nat → ι → Parser α} {bound : Nat}
    (round : ∀ n r, r < bound → (∀ i, Advances ts r k (p n i)) → ∀ i, Advances ts (r + 1) k (p (n + 1) i)) (n : Nat) :
    ∀ r, r ≤ n → r ≤ bound → ∀ i, Advances ts r k (p n i) := by
  induction n with
  | zero =>
    intro r hn _ i
    rw [Nat.le_zero.mp hn]
    exact .zero _
  | succ n ih =>
    intro r hn hbound i
    cases r with
    | zero => exact .zero _
    | succ r => exact round n r hbound (ih r (Nat.le_of_succ_le_succ hn) (Nat.le_of_succ_le hbound)) i

theorem loop {p : Nat → Parser α} {bound : Nat}
    (round : ∀ n r, r < bound → Advances ts r k (p n) → Advances ts (r + 1) k (p (n + 1))) {n r : Nat} (hn : r ≤ n)
    (hbound : r ≤ bound) : Advances ts r k (p n) :=
  loopOver (p := fun n (_ : Unit) => p n) (fun n r hr ih _ => round n r hr (ih ())) n r hn hbound ()

theorem stepBound {f : Nat → Parser α} (hf : ∀ n r, r ≤ n → r ≤ room → Advances ts r k (f n)) :
    Advances ts room k (stepBound >>= f) := by
  intro c hc hahead
  refine hf ts.steps (min room ts.tokens.size) ?_ (Nat.min_le_left _ _) c hc (by omega)
  exact Nat.le_trans (Nat.min_le_right _ _) (Nat.le_succ _)

end Advances

/-! ### Looking at tokens -/

theorem peek_advances (n : Nat) : Advances ts room 0 (peek n) := by
  intro c hc _
  unfold peek
  dsimp only
  split
  · exact ⟨Nat.le_refl _, hc, nofun⟩
  · exact ⟨Nat.le_refl _, hc⟩

theorem isNext_advances (e : Expected) : Advances ts room 0 (isNext e) := (peek_advances 0).bind fun _ => .pure _

theorem Advances.isNext {e : Expected} {p q : Parser α} (hp : Advances ts room k p) (hq : Advances ts room k q) :
    Advances ts room k (isNext e >>= fun b => if b = true then p else q) :=
  (isNext_advances e).andThen fun b => hp.ite hq b

theorem Advances.nextIs {l : Token.Kind} {p q : Parser α} (hp : Advances ts room k p) (hq : Advances ts room k q) :
    Advances ts room k (nextIs l >>= fun b => if b = true then p else q) :=
  hp.isNext hq

theorem nextIsAssignment_advances : Advances ts room 0 nextIsAssignment :=
  .nextIs ((peek_advances 1).bind fun _ => .pure _) (.pure _)

theorem Advances.nextIsAssignment {p q : Parser α} (hp : Advances ts room k p) (hq : Advances ts room k q) :
    Advances ts room k (nextIsAssignment >>= fun b => if b = true then p else q) :=
  nextIsAssignment_advances.andThen fun b => hp.ite hq b

theorem AdvancesAt.of_advances {p : Parser α} (h : Advances ts room k p) {t : Token} : AdvancesAt ts t room k p :=
  fun c _ => h c

theorem AdvancesAt.throw {e : ParseError} (he : e ≠ .outOfSteps) {t : Token} :
    AdvancesAt ts t room k (throw e : Parser α) := .of_advances (.throw he)

/-- Behind a look at the token ahead only this token can be ahead. -/
theorem Advances.peek {f : Token → Parser α} (hf : ∀ t, AdvancesAt ts t room k (f t)) :
    Advances ts room k (peek 0 >>= f) := by
  intro c hc hahead
  by_cases hvalid : (ts.get c.consumed).kind = .invalid
  · have hpeek : Parser.peek 0 ts c = .error (.invalidToken (ts.get c.consumed).text (ts.get c.consumed).position) c :=
      if_pos hvalid
    rw [bind_of_error hpeek]
    exact ⟨Nat.le_refl _, hc, nofun⟩
  · rw [bind_of_ok (peek_of_valid (k := 0) hvalid)]
    exact hf _ c rfl hc hahead

/-- A literal at fault says so itself. -/
theorem literal?_error {t : Token} {e : ParseError} (h : literal? t = some (.error e)) : e ≠ .outOfSteps := by
  rcases error_of_literal? h with rfl | ⟨digits, rfl⟩ | rfl | rfl <;> simp

section Tokens
variable (closed : ts.Closed)
include closed

/-- A token that is not final is consumed. -/
theorem AdvancesAt.step {t : Token} {g : Unit → Parser α} (ht : t.kind.isFinal = false)
    (hg : Advances ts room 0 (g ())) : AdvancesAt ts t (room + 1) 1 (step >>= g) := by
  rintro c rfl hc hahead
  have hlt : c.consumed + 1 < ts.tokens.size :=
    Nat.lt_of_not_le fun hle => nomatch ht.symm.trans (closed c.consumed hle)
  exact (hg (forward c) hlt (by show _ ≤ c.consumed + 1 + room; omega)).of_le (Nat.le_succ _) (Nat.le_refl _)

theorem expect_advances {e : Expected} (he : Passes e) : Advances ts room 1 (expect e) := by
  cases room with
  | zero => exact .zero _
  | succ room =>
    refine .peek fun t => ?_
    split
    · next ht =>
      refine .step closed ?_ (.pure t)
      cases hfinal : t.kind.isFinal with
      | false => rfl
      | true =>
        simp only [Token.Kind.isFinal, Bool.or_eq_true, decide_eq_true_eq] at hfinal
        rcases hfinal with hkind | hkind
        · rw [hkind, he.1] at ht
          cases ht
        · rw [hkind, he.2] at ht
          cases ht
    · exact .throw (by simp)

theorem skip_advances {l : Token.Kind} (hl : Passes (.one l)) : Advances ts room 1 (discard (expectKind l)) :=
  (expect_advances closed hl).discard

theorem skipIf_advances {l : Token.Kind} (hl : Passes (.one l)) : Advances ts room 0 (skipIf l) :=
  .nextIs ((skip_advances closed hl).relax (Nat.zero_le 1)) (.pure ())

/-! ### Expressions -/

theorem chain_advances {operand : Parser Expr} {ops : List Token.Kind} (hops : Passes (.oneOf ops))
    (ho : Advances ts room 1 operand) {n : Nat} (hn : room ≤ n) (e : Expr) :
    Advances ts room 0 (chain ops operand n e) := by
  refine .loopOver (fun n r hr ih e => .isNext (.relax ?_ (Nat.zero_le 1)) (.pure e)) n room hn (Nat.le_refl _) e
  exact .into (expect_advances closed hops) fun op => (ho.restrict (Nat.le_of_lt hr)).bind fun right => ih _

theorem binary_advances {operand : Parser Expr} (ho : Advances ts room 1 operand) :
    ∀ levels : List (List Token.Kind), (∀ ops ∈ levels, Passes (.oneOf ops)) →
      Advances ts room 1 (binary operand levels)
  | [], _ => ho
  | ops :: tighter, h => by
    obtain ⟨hops, htighter⟩ := List.forall_mem_cons.mp h
    have ih := binary_advances ho tighter htighter
    exact ih.bind fun left => .stepBound fun n r hn hr => chain_advances closed hops (ih.restrict hr) hn left

theorem signed_advances {primary : Parser Expr} (hp : Advances ts room 1 primary) {n : Nat} (hn : room ≤ n) :
    Advances ts room 1 (signed primary n) :=
  .loop (fun n r hr ih =>
    .isNext (.into (expect_advances closed (by decide)) fun op => ih.bind fun e => .pure _) (hp.restrict hr)) hn
    (Nat.le_refl _)

theorem moreArguments_advances {argument : Parser Expr} (ha : Advances ts room 1 argument) {n : Nat} (hn : room ≤ n) :
    Advances ts room 0 (moreArguments argument n) := by
  refine .loop (fun n r hr ih => .nextIs (.relax ?_ (Nat.zero_le 1)) (.pure [])) hn (Nat.le_refl _)
  exact .into (skip_advances closed (by decide)) fun _ => (ha.restrict (Nat.le_of_lt hr)).bind fun e =>
    ih.bind fun es => .pure _

theorem arguments_advances {argument : Parser Expr} (ha : Advances ts room 1 argument) :
    Advances ts room 1 (arguments argument) := by
  have close {r : Nat} (args : List Expr) : Advances ts r 1 (do discard (expectKind .rparen); return args) :=
    (skip_advances closed (by decide)).bind fun _ => .pure args
  refine (skip_advances closed (by decide)).bind fun _ => .nextIs ((Advances.pure _).andThen close) ?_
  exact ha.bind fun e => .stepBound fun n r hn hr =>
    (moreArguments_advances closed (ha.restrict hr) hn).bind fun es => (Advances.pure _).andThen close

theorem primary_advances {inner : Parser Expr} (hi : Advances ts room 1 inner) :
    Advances ts (room + 1) 1 (primary inner) := by
  refine .peek fun t => ?_
  cases hliteral : literal? t with
  | some r =>
    have hfinal : t.kind.isFinal = false :=
      Bool.eq_false_iff.mpr fun hfinal => nomatch (literal?_of_final hfinal).symm.trans hliteral
    cases r with
    | ok v => exact .step closed hfinal (.pure _)
    | error e => exact .step closed hfinal (.throw (literal?_error hliteral))
  | none =>
    cases hkind : t.kind with
    | ident =>
      refine .step closed (by rw [hkind]; rfl) (.nextIs ?_ (.pure _))
      exact ((arguments_advances closed hi).bind fun args => .pure _).relax (Nat.zero_le 1)
    | lparen =>
      refine .step closed (by rw [hkind]; rfl) ?_
      exact (hi.bind fun e => (skip_advances closed (by decide)).bind fun _ => .pure e).relax (Nat.zero_le 1)
    | _ => exact .throw (by simp)

theorem nested_advances : ∀ depth, Advances ts depth 1 (nested depth)
  | 0 => .zero _
  | depth + 1 => .stepBound fun n r hn hr =>
    have primary := (primary_advances closed (nested_advances depth)).restrict hr
    binary_advances closed (signed_advances closed primary hn) levels (by decide)

theorem expression_advances : Advances ts room 1 expression :=
  .stepBound fun n _ hn _ => (nested_advances closed n).restrict hn

/-! ### Types and parameters -/

theorem typeName_advances (read : String → Option Ty) : Advances ts room 1 (typeName read) := by
  refine (expect_advances closed (by decide)).bind fun t => (?_ : Advances ts room 0 _)
  cases read t.text with
  | some ty => exact .pure ty
  | none => exact .throw (by simp)

theorem parametersUpTo_advances {n : Nat} (hn : room ≤ n) : Advances ts room 1 (parametersUpTo n) := by
  refine .loop (fun n r hr ih => ?_) hn (Nat.le_refl _)
  refine .into (expect_advances closed (by decide)) fun name => (skip_advances closed (by decide)).bind fun _ =>
    (typeName_advances closed _).bind fun ty => (.nextIs ?_ (.pure _) : Advances ts r 0 _)
  exact ((skip_advances closed (by decide)).bind fun _ => ih.bind fun ps => .pure _).relax (Nat.zero_le 1)

theorem parameters_advances : Advances ts room 1 parameters :=
  .stepBound fun _ _ hn _ => parametersUpTo_advances closed hn

/-! ### Statements without a body -/

theorem varDecl_advances : Advances ts room 1 varDecl := by
  have close (name : Token) (ty : Ty) (init : Option Expr) : Advances ts room 1
      (do discard (expectKind .semicolon); return .varDecl name.text ty init : Parser Stmt) :=
    (skip_advances closed (by decide)).bind fun _ => .pure _
  exact (skip_advances closed (by decide)).bind fun _ => (expect_advances closed (by decide)).bind fun name =>
    (skip_advances closed (by decide)).bind fun _ => (typeName_advances closed _).bind fun ty => .nextIs
      ((skip_advances closed (by decide)).bind fun _ => (expression_advances closed).bind fun e =>
        (Advances.pure _).andThen (close name ty))
      ((Advances.pure _).andThen (close name ty))

theorem assignment_advances (required : Bool) : Advances ts room 1 (assignment required) := by
  refine (expect_advances closed (by decide)).bind fun name => (skip_advances closed (by decide)).bind fun _ =>
    (expression_advances closed).bind fun value => (?_ : Advances ts room 0 _)
  cases required with
  | true => exact ((skip_advances closed (by decide)).bind fun _ => .pure _).relax (Nat.zero_le 1)
  | false => exact (skipIf_advances closed (by decide)).bind fun _ => .pure _

theorem printStatement_advances : Advances ts room 1 printStatement :=
  (skip_advances closed (by decide)).bind fun _ => (skip_advances closed (by decide)).bind fun _ =>
    (expression_advances closed).bind fun _ => (skip_advances closed (by decide)).bind fun _ =>
      (skip_advances closed (by decide)).bind fun _ => .pure _

theorem inputStatement_advances : Advances ts room 1 inputStatement :=
  (skip_advances closed (by decide)).bind fun _ => (skip_advances closed (by decide)).bind fun _ =>
    (expect_advances closed (by decide)).bind fun _ => (skip_advances closed (by decide)).bind fun _ =>
      (skip_advances closed (by decide)).bind fun _ => .pure _

theorem returnStatement_advances : Advances ts room 1 returnStatement :=
  (skip_advances closed (by decide)).bind fun _ => .nextIs ((skip_advances closed (by decide)).bind fun _ => .pure _)
    ((expression_advances closed).bind fun _ => (skip_advances closed (by decide)).bind fun _ => .pure _)

theorem expressionStatement_advances : Advances ts room 1 expressionStatement :=
  (expression_advances closed).bind fun _ => (skip_advances closed (by decide)).bind fun _ => .pure _

/-! ### Statements with a body -/

theorem condition_advances {word : Token.Kind} (hword : Passes (.one word)) : Advances ts room 1 (condition word) :=
  (skip_advances closed hword).bind fun _ => (skip_advances closed (by decide)).bind fun _ =>
    (expression_advances closed).bind fun _ => (skip_advances closed (by decide)).bind fun _ => .pure _

theorem forInitializer_advances : Advances ts room 1 forInitializer :=
  .nextIs (varDecl_advances closed) (.nextIsAssignment (assignment_advances closed true)
    ((peek_advances 0).andThen fun _ => .throw (by simp)))

theorem forStep_advances : Advances ts room 1 forStep :=
  .nextIsAssignment (assignment_advances closed false)
    ((expression_advances closed).bind fun _ => (skipIf_advances closed (by decide)).bind fun _ => .pure _)

section Body
variable {body : Parser (List Stmt)} (hb : Advances ts room 1 body)
include hb

theorem ifStatement_advances : Advances ts room 1 (ifStatement body) :=
  (condition_advances closed (by decide)).bind fun _ => hb.bind fun _ =>
    (.nextIs (((skip_advances closed (by decide)).bind fun _ => hb.bind fun _ => .pure _).relax (Nat.zero_le 1))
      (.pure _) : Advances ts room 0 _)

theorem whileStatement_advances : Advances ts room 1 (whileStatement body) :=
  (condition_advances closed (by decide)).bind fun _ => hb.bind fun _ => .pure _

theorem forStatement_advances : Advances ts room 1 (forStatement body) :=
  (skip_advances closed (by decide)).bind fun _ => (skip_advances closed (by decide)).bind fun _ =>
    (forInitializer_advances closed).bind fun _ => (expression_advances closed).bind fun _ =>
      (skip_advances closed (by decide)).bind fun _ => (forStep_advances closed).bind fun _ =>
        (skip_advances closed (by decide)).bind fun _ => hb.bind fun _ => .pure _

omit closed hb in
theorem recordFunction_advances (name : String) (arity : Nat) : Advances ts room 0 (recordFunction name arity) :=
  fun _ hc _ => ⟨Nat.le_refl _, hc⟩

theorem functionDeclaration_advances : Advances ts room 1 (functionDeclaration body) := by
  have rest (name : Token) (params : List Param) : Advances ts room 1
      (do
        discard (expectKind .rparen)
        discard (expectKind .colon)
        let result ← resultType
        let stmts ← body
        recordFunction name.text params.length
        return .function name.text params result stmts : Parser Stmt) :=
    (skip_advances closed (by decide)).bind fun _ => (skip_advances closed (by decide)).bind fun _ =>
      (typeName_advances closed _).bind fun _ => hb.bind fun _ => (recordFunction_advances _ _).bind fun _ => .pure _
  exact (skip_advances closed (by decide)).bind fun _ => (expect_advances closed (by decide)).bind fun name =>
    (skip_advances closed (by decide)).bind fun _ =>
      .nextIs ((Advances.pure _).andThen (rest name)) ((parameters_advances closed).bind (rest name))

end Body

/-! ### Blocks and programs -/

omit closed in
theorem blockRest_advances {statement : Parser Stmt} (hs : Advances ts room 1 statement) {n : Nat} (hn : room ≤ n) :
    Advances ts room 0 (blockRest statement n) := by
  refine .loop (fun n r hr ih => ?_) hn (Nat.le_refl _)
  refine .nextIs (.pure []) (.nextIs ((peek_advances 0).andThen fun _ => .throw (by simp)) ?_)
  exact ((hs.restrict hr).into fun _ => ih.bind fun _ => .pure _).relax (Nat.zero_le 1)

theorem blockOf_advances {statement : Parser Stmt} (hs : Advances ts room 1 statement) :
    Advances ts (room + 1) 1 (blockOf statement) :=
  .into (skip_advances closed (by decide)) fun _ => .stepBound fun n r hn hr =>
    (blockRest_advances (hs.restrict hr) hn).bind fun _ => (skip_advances closed (by decide)).bind fun _ => .pure _

theorem statementUpTo_advances : ∀ depth, Advances ts depth 1 (statementUpTo depth)
  | 0 => .zero _
  | depth + 1 => by
    have hb := blockOf_advances closed (statementUpTo_advances depth)
    refine .peek fun t => .of_advances ?_
    cases t.kind with
    | varWord => exact varDecl_advances closed
    | printWord => exact printStatement_advances closed
    | inputWord => exact inputStatement_advances closed
    | ifWord => exact ifStatement_advances closed hb
    | whileWord => exact whileStatement_advances closed hb
    | forWord => exact forStatement_advances closed hb
    | funcWord => exact functionDeclaration_advances closed hb
    | returnWord => exact returnStatement_advances closed
    | _ => exact .nextIsAssignment (assignment_advances closed true) (expressionStatement_advances closed)

theorem statement_advances : Advances ts room 1 statement :=
  .stepBound fun n _ hn _ => (statementUpTo_advances closed n).restrict hn

theorem statements_advances {n : Nat} (hn : room ≤ n) : Advances ts room 0 (statements n) := by
  refine .loop (fun n r hr ih => .nextIs (.pure []) (.relax ?_ (Nat.zero_le 1))) hn (Nat.le_refl room)
  exact .into (statement_advances closed) fun _ => ih.bind fun _ => .pure _

theorem program_advances : Advances ts room 0 program :=
  .stepBound fun _ _ hn _ => (statements_advances closed hn).bind fun _ => .pure _

/-- No program uses up the steps of the parser. -/
theorem program_ends (c : Cursor) (hc : c.consumed < ts.tokens.size) : Ends (program ts c) :=
  (program_advances closed c hc (Nat.le_add_left _ _)).ends

end Tokens

end Syntax
end TypedImp

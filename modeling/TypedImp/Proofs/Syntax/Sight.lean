import TypedImp.Proofs.Syntax.Reading

/-! How far parsers look. A parser that stops at a token has looked at no token behind it, but for the first part of a
    loop's header, which two tokens tell from other statements. So where two texts have the same tokens that far, the
    parser stops at the same token in both, whatever the places of the tokens are. The bound on the steps depends on the
    length of the text; a run that uses up its steps says nothing about the other one. -/

namespace TypedImp

/-! ### Places -/

/-- The token at another place. -/
def Token.moved (t : Token) (place : Position) : Token := { t with position := place }

@[simp] theorem Token.kind_moved (t : Token) (place : Position) : (t.moved place).kind = t.kind := rfl

@[simp] theorem Token.text_moved (t : Token) (place : Position) : (t.moved place).text = t.text := rfl

/-- The error at another place, if it has one. -/
def ParseError.moved (e : ParseError) (place : Position) : ParseError :=
  match e with
  | invalidToken diagnosis _ => .invalidToken diagnosis place
  | unexpectedCharacter c _ => .unexpectedCharacter c place
  | unexpected found _ => .unexpected found place
  | expected what found _ => .expected what found place
  | expectedExpression found _ => .expectedExpression found place
  | unterminatedBlock _ => .unterminatedBlock place
  | forInitializer _ => .forInitializer place
  | unknownType name _ => .unknownType name place
  | integerOutOfRange text _ => .integerOutOfRange text place
  | e => e

/-- The value of a literal does not depend on its place. -/
theorem literal?_moved (t : Token) (place : Position) :
    Parser.literal? (t.moved place) = (Parser.literal? t).map (Except.mapError (ParseError.moved · place)) := by
  have hinteger : Parser.integerLiteral (t.moved place) =
      (Parser.integerLiteral t).mapError (ParseError.moved · place) := by
    simp only [Parser.integerLiteral, Token.text_moved]
    split
    · rfl
    · rfl
    · split <;> rfl
  have hfloat : Parser.floatLiteral (t.moved place) = (Parser.floatLiteral t).mapError (ParseError.moved · place) := by
    simp only [Parser.floatLiteral, Token.text_moved]
    split <;> rfl
  simp only [Parser.literal?, Token.kind_moved, Token.text_moved, hinteger, hfloat]
  split <;> rfl

namespace Syntax
open TypedImp.Parser

/-- The token at which an error stands: the one ahead, or the one just consumed if its text is at fault. -/
def errorAt (e : ParseError) (c : Cursor) : Nat :=
  match e with
  | .unknownType .. | .integerOutOfRange .. => c.consumed - 1
  | _ => c.consumed

/-- The last token at which a run that stops with an error has looked. Only the first part of a loop's header looks at
    two tokens before it gives up. -/
def errorSight (ts : TokenStream) (e : ParseError) (c : Cursor) : Nat :=
  match e with
  | .forInitializer _ => if (ts.get c.consumed).kind = .ident then c.consumed + 1 else c.consumed
  | _ => errorAt e c

section Results
variable {α β : Type}

/-- The last token at which a run with this result can have looked. -/
def sight (ts : TokenStream) : EStateM.Result ParseError Cursor α → Nat
  | .ok _ c => c.consumed
  | .error e c => errorSight ts e c

/-- The second result is the first one; an error may stand at another place. -/
def SameResult : EStateM.Result ParseError Cursor α → EStateM.Result ParseError Cursor α → Prop
  | .ok a c, r => r = .ok a c
  | .error e c, r => ∃ place, r = .error (e.moved place) c

/-- The run has not used up its steps. -/
def Ends (r : EStateM.Result ParseError Cursor α) : Prop := ∀ c, r ≠ .error .outOfSteps c

theorem ends_ok {a : α} {c : Cursor} : Ends (.ok a c) := nofun

theorem ends_error {e : ParseError} {c : Cursor} (h : e ≠ .outOfSteps) :
    Ends (.error e c : EStateM.Result ParseError Cursor α) := by
  rintro _ ⟨⟩
  exact h rfl

theorem errorAt_le_errorSight (ts : TokenStream) (e : ParseError) (c : Cursor) : errorAt e c ≤ errorSight ts e c := by
  unfold errorSight
  split
  · split
    · exact Nat.le_succ _
    · exact Nat.le_refl _
  · exact Nat.le_refl _

theorem bind_of_error {p : Parser α} {f : α → Parser β} {ts : TokenStream} {c d : Cursor} {e : ParseError}
    (h : p ts c = .error e d) : (p >>= f) ts c = .error e d := by
  show EStateM.bind (p ts) (fun a => f a ts) c = .error e d
  simp only [EStateM.bind, h]

theorem ends_of_bind {p : Parser α} {f : α → Parser β} {ts : TokenStream} {c : Cursor} (h : Ends ((p >>= f) ts c)) :
    Ends (p ts c) := by
  intro d hd
  exact h d (bind_of_error hd)

theorem expect_bind (e : Expected) (f : Token → Parser β) :
    (expect e >>= f) = (do
      let t ← peek 0
      if e.has t.kind = true then step >>= fun _ => f t else throw (.expected e t.found t.position)) := by
  rw [expect, bind_assoc]
  congr
  funext t
  split
  · rw [bind_assoc]
    simp only [pure_bind]
  · rfl

end Results

/-- Below `n` the tokens of both texts are the same but for their places, and the first text has no invalid token. -/
structure Shared (ts ts' : TokenStream) (n : Nat) : Prop where
  valid : ∀ i, (ts.get i).kind ≠ .invalid
  same : ∀ i < n, ∃ place, ts'.get i = (ts.get i).moved place

theorem Shared.kind {ts ts' : TokenStream} {n i : Nat} (h : Shared ts ts' n) (hi : i < n) :
    (ts'.get i).kind = (ts.get i).kind := by
  obtain ⟨place, hsame⟩ := h.same i hi
  rw [hsame, Token.kind_moved]

/-- A run of `p` on `ts` looks at the token ahead or further, and if it does not look at token `n` then the run of
    `p'` on `ts'` has the same result. -/
def Alike {α : Type} (ts ts' : TokenStream) (n : Nat) (p p' : Parser α) : Prop :=
  ∀ c, Ends (p ts c) → c.consumed ≤ sight ts (p ts c) ∧
    (sight ts (p ts c) < n → Ends (p' ts' c) → SameResult (p ts c) (p' ts' c))

/-- In front of an identifier a run of `p` looks at the token behind it. -/
def PassesName {α : Type} (ts : TokenStream) (p : Parser α) : Prop :=
  ∀ c, (ts.get c.consumed).kind = .ident → Ends (p ts c) → c.consumed + 1 ≤ sight ts (p ts c)

variable {ts ts' : TokenStream} {n : Nat} {α β : Type}

/-! ### Combinations of parsers -/

namespace Alike

theorem bind {p p' : Parser α} {f f' : α → Parser β} (hp : Alike ts ts' n p p')
    (hf : ∀ a, Alike ts ts' n (f a) (f' a)) : Alike ts ts' n (p >>= f) (p' >>= f') := by
  intro c hends
  obtain ⟨hle, hsame⟩ := hp c (ends_of_bind hends)
  cases hr : p ts c with
  | ok a d =>
    rw [hr] at hle hsame
    rw [bind_of_ok hr] at hends ⊢
    obtain ⟨hle', hsame'⟩ := hf a d hends
    refine ⟨Nat.le_trans hle hle', fun hn hends' => ?_⟩
    have hr' : p' ts' c = .ok a d := hsame (Nat.lt_of_le_of_lt hle' hn) (ends_of_bind hends')
    rw [bind_of_ok hr'] at hends' ⊢
    exact hsame' hn hends'
  | error e d =>
    rw [hr] at hle hsame
    rw [bind_of_error hr]
    refine ⟨hle, fun hn hends' => ?_⟩
    obtain ⟨place, hr'⟩ := hsame hn (ends_of_bind hends')
    exact ⟨place, bind_of_error hr'⟩

theorem pure (a : α) : Alike ts ts' n (pure a) (pure a) := fun _ _ => ⟨Nat.le_refl _, fun _ _ => rfl⟩

theorem ite {p p' q q' : Parser α} (hp : Alike ts ts' n p p') (hq : Alike ts ts' n q q') (b : Bool) :
    Alike ts ts' n (if b = true then p else q) (if b = true then p' else q') := by
  cases b with
  | true => exact hp
  | false => exact hq

theorem throw {e : ParseError} (place : Position) (h : ∀ c, errorAt e c = c.consumed) :
    Alike ts ts' n (throw e : Parser α) (throw (e.moved place)) :=
  fun c _ => ⟨h c ▸ errorAt_le_errorSight ts e c, fun _ _ => ⟨place, rfl⟩⟩

/-- Errors that stand at the token just consumed look no further than that token. -/
theorem step_throw (e : ParseError) (place : Position) :
    Alike ts ts' n (step >>= fun _ => MonadExcept.throw e : Parser α)
      (step >>= fun _ => MonadExcept.throw (e.moved place)) :=
  fun c _ => by
    refine ⟨?_, fun _ _ => ⟨place, rfl⟩⟩
    have hat : c.consumed ≤ errorAt e (forward c) := by
      unfold errorAt forward
      split <;> simp
    exact Nat.le_trans hat (errorAt_le_errorSight ts e (forward c))

theorem step : Alike ts ts' n step step := fun _ _ => ⟨Nat.le_succ _, fun _ _ => rfl⟩

theorem outOfSteps (p' : Parser α) : Alike ts ts' n (MonadExcept.throw .outOfSteps) p' :=
  fun c hends => absurd rfl (hends c)

/-- How far the first run looks does not depend on the second one. -/
theorem outOfSteps_right {p p' : Parser α} (h : Alike ts ts' n p p') :
    Alike ts ts' n p (MonadExcept.throw .outOfSteps) :=
  fun c hends => ⟨(h c hends).1, fun _ hends' => absurd rfl (hends' c)⟩

/-- Loops go alike if one more round does, whatever bounds are left in both. -/
theorem loopOver {ι : Type} (p p' : Nat → ι → Parser α) (hp : ∀ i, p 0 i = MonadExcept.throw .outOfSteps)
    (hp' : ∀ i, p' 0 i = MonadExcept.throw .outOfSteps)
    (round : ∀ m, (∀ k i, Alike ts ts' n (p m i) (p' k i)) → ∀ k i, Alike ts ts' n (p (m + 1) i) (p' (k + 1) i))
    (m : Nat) : ∀ k i, Alike ts ts' n (p m i) (p' k i) := by
  induction m with
  | zero =>
    intro k i
    rw [hp]
    exact .outOfSteps _
  | succ m ih =>
    intro k i
    cases k with
    | zero =>
      rw [hp']
      exact (round m ih 0 i).outOfSteps_right
    | succ k => exact round m ih k i

theorem loop {p p' : Nat → Parser α} (hp : p 0 = MonadExcept.throw .outOfSteps)
    (hp' : p' 0 = MonadExcept.throw .outOfSteps)
    (round : ∀ m, (∀ k, Alike ts ts' n (p m) (p' k)) → ∀ k, Alike ts ts' n (p (m + 1)) (p' (k + 1))) (m k : Nat) :
    Alike ts ts' n (p m) (p' k) :=
  loopOver (fun m (_ : Unit) => p m) (fun k _ => p' k) (fun _ => hp) (fun _ => hp')
    (fun m ih k _ => round m (fun k => ih k ()) k) m k ()

theorem stepBound {f f' : Nat → Parser β} (hf : ∀ m k, Alike ts ts' n (f m) (f' k)) :
    Alike ts ts' n (stepBound >>= f) (stepBound >>= f') := fun c => hf ts.steps ts'.steps c

end Alike

namespace PassesName

theorem bind {p : Parser α} {f : α → Parser β} (hp : PassesName ts p) (hf : ∀ a, Alike ts ts' n (f a) (f a)) :
    PassesName ts (p >>= f) := by
  intro c hc hends
  have hle := hp c hc (ends_of_bind hends)
  cases hr : p ts c with
  | ok a d =>
    rw [hr] at hle
    rw [bind_of_ok hr] at hends ⊢
    exact Nat.le_trans hle (hf a d hends).1
  | error e d =>
    rw [hr] at hle
    rw [bind_of_error hr]
    exact hle

theorem outOfSteps : PassesName ts (throw .outOfSteps : Parser α) := fun c _ hends => absurd rfl (hends c)

theorem stepBound {f : Nat → Parser β} (hf : ∀ m, PassesName ts (f m)) : PassesName ts (Parser.stepBound >>= f) :=
  fun c => hf ts.steps c

end PassesName

/-! ### Looking at tokens -/

section Tokens
variable (h : Shared ts ts' n)
include h

/-- What is read behind a look at the token ahead may depend on all of the token but its place. -/
theorem Alike.peek {f f' : Token → Parser β} (hf : ∀ t place, Alike ts ts' n (f t) (f' (t.moved place))) :
    Alike ts ts' n (peek 0 >>= f) (peek 0 >>= f') := by
  intro c hends
  have hpeek : Parser.peek 0 ts c = .ok (ts.get c.consumed) c := peek_of_valid (h.valid _)
  rw [bind_of_ok hpeek] at hends ⊢
  have hle := (hf (ts.get c.consumed) ⟨1, 1⟩ c hends).1
  refine ⟨hle, fun hn hends' => ?_⟩
  obtain ⟨place, hsame⟩ := h.same c.consumed (Nat.lt_of_le_of_lt hle hn)
  have hpeek' : Parser.peek 0 ts' c = .ok ((ts.get c.consumed).moved place) c := by
    rw [← hsame]
    refine peek_of_valid ?_
    rw [Nat.add_zero, hsame]
    exact h.valid _
  rw [bind_of_ok hpeek'] at hends' ⊢
  exact (hf _ place c hends).2 hn hends'

theorem isNext_alike (e : Expected) : Alike ts ts' n (isNext e) (isNext e) :=
  .peek h fun t _ => .pure (e.has t.kind)

theorem Alike.isNext {e : Expected} {p p' q q' : Parser α} (hp : Alike ts ts' n p p') (hq : Alike ts ts' n q q') :
    Alike ts ts' n (isNext e >>= fun b => if b = true then p else q)
      (isNext e >>= fun b => if b = true then p' else q') :=
  (isNext_alike h e).bind fun b => hp.ite hq b

theorem Alike.nextIs {k : Token.Kind} {p p' q q' : Parser α} (hp : Alike ts ts' n p p') (hq : Alike ts ts' n q q') :
    Alike ts ts' n (nextIs k >>= fun b => if b = true then p else q)
      (nextIs k >>= fun b => if b = true then p' else q') :=
  hp.isNext h hq

theorem Alike.expect {f f' : Token → Parser β} (e : Expected)
    (hf : ∀ t place, Alike ts ts' n (f t) (f' (t.moved place))) :
    Alike ts ts' n (expect e >>= f) (expect e >>= f') := by
  rw [expect_bind, expect_bind]
  exact .peek h fun t place => .ite (Alike.step.bind fun _ => hf t place) (.throw place fun _ => rfl) (e.has t.kind)

theorem skip_alike (k : Token.Kind) : Alike ts ts' n (discard (expectKind k)) (discard (expectKind k)) :=
  .expect h _ fun _ _ => .pure ()

theorem skipIf_alike (k : Token.Kind) : Alike ts ts' n (skipIf k) (skipIf k) :=
  (skip_alike h k).nextIs h (.pure ())

theorem expectKind_passes : PassesName ts (expectKind .ident) := by
  intro c hc _
  have hpeek := peek_of_valid (k := 0) (h.valid (c.consumed + 0))
  have hread : expectKind .ident ts c = .ok (ts.get c.consumed) (forward c) := by
    rw [expectKind, expect, bind_of_ok hpeek, if_pos (by simp [Expected.has, hc])]
    rfl
  rw [hread]
  exact Nat.le_refl _

theorem nextIsAssignment_same {c : Cursor} (hfirst : c.consumed < n)
    (hsecond : (ts.get c.consumed).kind = .ident → c.consumed + 1 < n) :
    nextIsAssignment ts' c = nextIsAssignment ts c := by
  have hsame := h.kind hfirst
  rw [nextIsAssignment_of_valid (h.valid _) fun _ => h.valid _]
  by_cases hident : (ts.get c.consumed).kind = .ident
  · have hsame' := h.kind (hsecond hident)
    rw [nextIsAssignment_of_valid (hsame ▸ h.valid _) fun _ => hsame' ▸ h.valid _, hsame, hsame']
  · rw [nextIsAssignment_of_valid (hsame ▸ h.valid _) fun hident' => absurd (hsame ▸ hident') hident, hsame]
    simp only [hident, false_and]

/-- The second token is looked at behind an identifier, and there both parsers look at it. -/
theorem Alike.nextIsAssignment {p p' q q' : Parser α} (hp : Alike ts ts' n p p') (hq : Alike ts ts' n q q')
    (passes : PassesName ts p) (passes' : PassesName ts q) :
    Alike ts ts' n (nextIsAssignment >>= fun b => if b = true then p else q)
      (nextIsAssignment >>= fun b => if b = true then p' else q') := by
  intro c hends
  have hread := nextIsAssignment_of_valid (h.valid c.consumed) fun _ => h.valid _
  generalize decide ((ts.get c.consumed).kind = .ident ∧ (ts.get (c.consumed + 1)).kind = .assign) = b at hread
  rw [bind_of_ok hread] at hends ⊢
  obtain ⟨hle, hsame⟩ := hp.ite hq b c hends
  have hpasses : (ts.get c.consumed).kind = .ident → c.consumed + 1 ≤ sight ts ((if b = true then p else q) ts c) := by
    intro hident
    cases b with
    | true => exact passes c hident hends
    | false => exact passes' c hident hends
  refine ⟨hle, fun hn hends' => ?_⟩
  have hread' := nextIsAssignment_same h (Nat.lt_of_le_of_lt hle hn) fun hident =>
    Nat.lt_of_le_of_lt (hpasses hident) hn
  rw [bind_of_ok (hread'.trans hread)] at hends' ⊢
  exact hsame hn hends'

/-! ### Expressions -/

theorem chain_alike {operand operand' : Parser Expr} (ho : Alike ts ts' n operand operand') (ops : List Token.Kind) :
    ∀ m k e, Alike ts ts' n (chain ops operand m e) (chain ops operand' k e) :=
  Alike.loopOver _ _ (fun _ => rfl) (fun _ => rfl) fun _ ih k e =>
    .isNext h (.expect h _ fun _ _ => ho.bind fun _ => ih k _) (.pure e)

theorem binary_alike {operand operand' : Parser Expr} (ho : Alike ts ts' n operand operand') :
    ∀ levels, Alike ts ts' n (binary operand levels) (binary operand' levels)
  | [] => ho
  | ops :: tighter =>
    have ih := binary_alike ho tighter
    ih.bind fun left => .stepBound fun m k => chain_alike h ih ops m k left

theorem signed_alike {primary primary' : Parser Expr} (hp : Alike ts ts' n primary primary') (m k : Nat) :
    Alike ts ts' n (signed primary m) (signed primary' k) :=
  Alike.loop rfl rfl
    (fun _ ih k => .isNext h (.expect h _ fun _ _ => (ih k).bind fun _ => .pure _) hp) m k

theorem moreArguments_alike {argument argument' : Parser Expr} (ha : Alike ts ts' n argument argument') (m k : Nat) :
    Alike ts ts' n (moreArguments argument m) (moreArguments argument' k) :=
  Alike.loop rfl rfl
    (fun _ ih k =>
      .nextIs h ((skip_alike h _).bind fun _ => ha.bind fun _ => (ih k).bind fun _ => .pure _) (.pure [])) m k

theorem arguments_alike {argument argument' : Parser Expr} (ha : Alike ts ts' n argument argument') :
    Alike ts ts' n (arguments argument) (arguments argument') := by
  refine (skip_alike h _).bind fun _ => .nextIs h ?_ ?_
  · exact (Alike.pure _).bind fun args => (skip_alike h _).bind fun _ => .pure args
  · refine ha.bind fun e => .stepBound fun m k => (moreArguments_alike h ha m k).bind fun es => ?_
    exact (Alike.pure _).bind fun args => (skip_alike h _).bind fun _ => .pure args

theorem primary_alike {inner inner' : Parser Expr} (hi : Alike ts ts' n inner inner') :
    Alike ts ts' n (primary inner) (primary inner') := by
  refine .peek h fun t place => ?_
  rw [literal?_moved]
  cases literal? t with
  | some r =>
    cases r with
    | ok v => exact Alike.step.bind fun _ => .pure _
    | error e => exact .step_throw e place
  | none =>
    rw [Token.kind_moved]
    cases t.kind with
    | ident =>
      exact Alike.step.bind fun _ => .nextIs h ((arguments_alike h hi).bind fun _ => .pure _) (.pure _)
    | lparen => exact Alike.step.bind fun _ => hi.bind fun _ => (skip_alike h _).bind fun _ => .pure _
    | _ => exact .throw place fun _ => rfl

theorem nested_alike (m k : Nat) : Alike ts ts' n (nested m) (nested k) :=
  Alike.loop rfl rfl
    (fun _ ih k =>
      .stepBound fun m' k' => binary_alike h (signed_alike h (primary_alike h (ih k)) m' k') levels) m k

theorem expression_alike : Alike ts ts' n expression expression := .stepBound (nested_alike h)

/-- Behind a name at the beginning of an expression a parenthesis is looked for. -/
theorem primary_passes {inner : Parser Expr} (hi : Alike ts ts' n inner inner) : PassesName ts (primary inner) := by
  intro c hc hends
  have hpeek := peek_of_valid (k := 0) (h.valid (c.consumed + 0))
  have hnone : literal? (ts.get c.consumed) = none := by simp [literal?, hc]
  unfold primary at hends ⊢
  rw [bind_of_ok hpeek] at hends ⊢
  simp only [Nat.add_zero, hnone, hc] at hends ⊢
  -- What follows the name is read behind it.
  have hrest : Alike ts ts' n
      (do if ← nextIs .lparen then return .call (ts.get c.consumed).text (← arguments inner)
          else return .var (ts.get c.consumed).text : Parser Expr) _ :=
    .nextIs h ((arguments_alike h hi).bind fun _ => .pure _) (.pure _)
  exact (hrest (forward c) hends).1

theorem signed_passes {primary : Parser Expr} (hp : PassesName ts primary) : ∀ m, PassesName ts (signed primary m)
  | 0 => .outOfSteps
  | m + 1 => by
    intro c hc hends
    have hsign : Parser.isNext signs ts c = .ok false c := by
      rw [isNext_of_valid _ (h.valid _), hc]
      rfl
    rw [signed, bind_of_ok hsign] at hends ⊢
    exact hp c hc hends

theorem binary_passes {operand : Parser Expr} (ho : Alike ts ts' n operand operand) (hp : PassesName ts operand) :
    ∀ levels, PassesName ts (binary operand levels)
  | [] => hp
  | ops :: tighter =>
    (binary_passes ho hp tighter).bind fun left =>
      .stepBound fun m k => chain_alike h (binary_alike h ho tighter) ops m k left

theorem nested_passes : ∀ depth, PassesName ts (nested depth)
  | 0 => .outOfSteps
  | depth + 1 =>
    have hp := primary_alike h (nested_alike h depth depth)
    .stepBound fun m =>
      binary_passes h (signed_alike h hp m m) (signed_passes h (primary_passes h (nested_alike h depth depth)) m) levels

theorem expression_passes : PassesName ts expression := .stepBound (nested_passes h)

/-! ### Types and parameters -/

theorem typeName_alike (read : String → Option Ty) : Alike ts ts' n (typeName read) (typeName read) := by
  -- The error is thrown behind the token at fault, so the token is looked at and consumed here.
  rw [typeName, expectKind, expect_bind]
  refine .peek h fun t place => .ite ?_ ?_ _
  · rw [Token.text_moved]
    cases read t.text with
    | some ty => exact Alike.step.bind fun _ => .pure ty
    | none => exact .step_throw _ place
  · exact .throw place fun _ => rfl

theorem parametersUpTo_alike (m k : Nat) : Alike ts ts' n (parametersUpTo m) (parametersUpTo k) :=
  Alike.loop rfl rfl
    (fun _ ih k =>
      .expect h _ fun _ _ => (skip_alike h _).bind fun _ => (typeName_alike h _).bind fun _ =>
        .nextIs h ((skip_alike h _).bind fun _ => (ih k).bind fun _ => .pure _) (.pure _)) m k

theorem parameters_alike : Alike ts ts' n parameters parameters := .stepBound (parametersUpTo_alike h)

/-! ### Statements without a body -/

theorem varDecl_alike : Alike ts ts' n varDecl varDecl := by
  refine (skip_alike h _).bind fun _ => .expect h _ fun name _ => (skip_alike h _).bind fun _ =>
    (typeName_alike h _).bind fun ty => .nextIs h ?_ ?_
  · refine (skip_alike h _).bind fun _ => (expression_alike h).bind fun e => ?_
    exact (Alike.pure _).bind fun init => (skip_alike h _).bind fun _ => .pure _
  · exact (Alike.pure _).bind fun init => (skip_alike h _).bind fun _ => .pure _

theorem assignment_alike (required : Bool) : Alike ts ts' n (assignment required) (assignment required) := by
  refine .expect h _ fun name _ => (skip_alike h _).bind fun _ => (expression_alike h).bind fun value => ?_
  cases required with
  | true => exact (skip_alike h _).bind fun _ => .pure _
  | false => exact (skipIf_alike h _).bind fun _ => .pure _

theorem assignment_passes (required : Bool) : PassesName ts (assignment required) := by
  refine (expectKind_passes h).bind fun name => (skip_alike h _).bind fun _ => (expression_alike h).bind fun value => ?_
  cases required with
  | true => exact (skip_alike h _).bind fun _ => .pure _
  | false => exact (skipIf_alike h _).bind fun _ => .pure _

theorem printStatement_alike : Alike ts ts' n printStatement printStatement :=
  (skip_alike h _).bind fun _ => (skip_alike h _).bind fun _ => (expression_alike h).bind fun _ =>
    (skip_alike h _).bind fun _ => (skip_alike h _).bind fun _ => .pure _

theorem inputStatement_alike : Alike ts ts' n inputStatement inputStatement :=
  (skip_alike h _).bind fun _ => (skip_alike h _).bind fun _ => .expect h _ fun _ _ =>
    (skip_alike h _).bind fun _ => (skip_alike h _).bind fun _ => .pure _

theorem returnStatement_alike : Alike ts ts' n returnStatement returnStatement :=
  (skip_alike h _).bind fun _ => .nextIs h ((skip_alike h _).bind fun _ => .pure _)
    ((expression_alike h).bind fun _ => (skip_alike h _).bind fun _ => .pure _)

theorem expressionStatement_alike : Alike ts ts' n expressionStatement expressionStatement :=
  (expression_alike h).bind fun _ => (skip_alike h _).bind fun _ => .pure _

theorem expressionStatement_passes : PassesName ts expressionStatement :=
  (expression_passes h).bind fun _ => (skip_alike h _).bind fun _ => .pure _

/-! ### Statements with a body -/

theorem condition_alike (word : Token.Kind) : Alike ts ts' n (condition word) (condition word) :=
  (skip_alike h _).bind fun _ => (skip_alike h _).bind fun _ => (expression_alike h).bind fun _ =>
    (skip_alike h _).bind fun _ => .pure _

/-- A header that begins with an identifier and is no assignment is refused for the token behind it. -/
theorem forInitializer_alike : Alike ts ts' n forInitializer forInitializer := by
  have refuse : Alike ts ts' n (do throw (.forInitializer (← peek 0).position) : Parser Stmt)
      (do throw (.forInitializer (← peek 0).position)) :=
    .peek h fun _ place => .throw place fun _ => rfl
  refine .nextIs h (varDecl_alike h) (.nextIsAssignment h (assignment_alike h true) refuse (assignment_passes h true) ?_)
  intro c hc _
  rw [bind_of_ok (peek_of_valid (k := 0) (h.valid _))]
  have hsight : errorSight ts (.forInitializer (ts.get c.consumed).position) c = c.consumed + 1 := if_pos hc
  exact Nat.le_of_eq hsight.symm

theorem forStep_alike : Alike ts ts' n forStep forStep := by
  have step : Alike ts ts' n (do let e ← expression; skipIf .semicolon; return .expr e : Parser Stmt) _ :=
    (expression_alike h).bind fun _ => (skipIf_alike h _).bind fun _ => .pure _
  refine .nextIsAssignment h (assignment_alike h false) step (assignment_passes h false) ?_
  exact (expression_passes h).bind fun _ => (skipIf_alike h _).bind fun _ => .pure _

section Body
variable {body body' : Parser (List Stmt)} (hb : Alike ts ts' n body body')
include hb

theorem ifStatement_alike : Alike ts ts' n (ifStatement body) (ifStatement body') :=
  (condition_alike h _).bind fun _ => hb.bind fun _ =>
    .nextIs h ((skip_alike h _).bind fun _ => hb.bind fun _ => .pure _) (.pure _)

theorem whileStatement_alike : Alike ts ts' n (whileStatement body) (whileStatement body') :=
  (condition_alike h _).bind fun _ => hb.bind fun _ => .pure _

theorem forStatement_alike : Alike ts ts' n (forStatement body) (forStatement body') :=
  (skip_alike h _).bind fun _ => (skip_alike h _).bind fun _ => (forInitializer_alike h).bind fun _ =>
    (expression_alike h).bind fun _ => (skip_alike h _).bind fun _ => (forStep_alike h).bind fun _ =>
      (skip_alike h _).bind fun _ => hb.bind fun _ => .pure _

omit h hb in
theorem recordFunction_alike (name : String) (arity : Nat) :
    Alike ts ts' n (recordFunction name arity) (recordFunction name arity) :=
  fun _ _ => ⟨Nat.le_refl _, fun _ _ => rfl⟩

theorem functionDeclaration_alike : Alike ts ts' n (functionDeclaration body) (functionDeclaration body') := by
  refine (skip_alike h _).bind fun _ => .expect h _ fun name _ => (skip_alike h _).bind fun _ => ?_
  have rest (params : List Param) : Alike ts ts' n
      (do
        discard (expectKind .rparen)
        discard (expectKind .colon)
        let result ← resultType
        let stmts ← body
        recordFunction name.text params.length
        return .function name.text params result stmts : Parser Stmt)
      (do
        discard (expectKind .rparen)
        discard (expectKind .colon)
        let result ← resultType
        let stmts ← body'
        recordFunction name.text params.length
        return .function name.text params result stmts) :=
    (skip_alike h _).bind fun _ => (skip_alike h _).bind fun _ => (typeName_alike h _).bind fun _ => hb.bind fun _ =>
      (recordFunction_alike _ _).bind fun _ => .pure _
  exact .nextIs h ((Alike.pure _).bind rest) ((parameters_alike h).bind rest)

end Body

/-! ### Blocks and programs -/

theorem blockRest_alike {statement statement' : Parser Stmt} (hs : Alike ts ts' n statement statement') (m k : Nat) :
    Alike ts ts' n (blockRest statement m) (blockRest statement' k) :=
  Alike.loop rfl rfl
    (fun _ ih k =>
      .nextIs h (.pure []) (.nextIs h (.peek h fun _ place => .throw place fun _ => rfl)
        (hs.bind fun _ => (ih k).bind fun _ => .pure _))) m k

theorem blockOf_alike {statement statement' : Parser Stmt} (hs : Alike ts ts' n statement statement') :
    Alike ts ts' n (blockOf statement) (blockOf statement') :=
  (skip_alike h _).bind fun _ => .stepBound fun m k => (blockRest_alike h hs m k).bind fun _ =>
    (skip_alike h _).bind fun _ => .pure _

theorem statementUpTo_alike (m k : Nat) : Alike ts ts' n (statementUpTo m) (statementUpTo k) := by
  refine Alike.loop rfl rfl (fun m ih k => ?_) m k
  have hb := blockOf_alike h (ih k)
  refine .peek h fun t _ => ?_
  rw [Token.kind_moved]
  cases t.kind with
  | varWord => exact varDecl_alike h
  | printWord => exact printStatement_alike h
  | inputWord => exact inputStatement_alike h
  | ifWord => exact ifStatement_alike h hb
  | whileWord => exact whileStatement_alike h hb
  | forWord => exact forStatement_alike h hb
  | funcWord => exact functionDeclaration_alike h hb
  | returnWord => exact returnStatement_alike h
  | _ =>
    exact .nextIsAssignment h (assignment_alike h true) (expressionStatement_alike h) (assignment_passes h true)
      (expressionStatement_passes h)

theorem statement_alike : Alike ts ts' n statement statement := .stepBound (statementUpTo_alike h)

theorem statements_alike (m k : Nat) : Alike ts ts' n (statements m) (statements k) :=
  Alike.loop rfl rfl
    (fun _ ih k => .nextIs h (.pure []) ((statement_alike h).bind fun _ => (ih k).bind fun _ => .pure _)) m k

theorem program_alike : Alike ts ts' n program program :=
  .stepBound fun m k => (statements_alike h m k).bind fun _ => .pure _

/-- Where a program stops, it stops in every text with the same tokens up to the last one that was looked at. -/
theorem program_ne_ok {c d : Cursor} {e : ParseError} (he : e ≠ .outOfSteps) (hstop : program ts c = .error e d)
    (hn : errorSight ts e d < n) (p : Program) (d' : Cursor) : program ts' c ≠ .ok p d' := by
  intro hok
  have hends : Ends (program ts c) := hstop ▸ ends_error he
  have hsame := (program_alike h c hends).2 (by rw [hstop]; exact hn) (hok ▸ ends_ok)
  rw [hok, hstop] at hsame
  obtain ⟨place, hsame⟩ := hsame
  exact nomatch hsame

end Tokens

/-! ### Texts with a common beginning -/

theorem get_ofList {ts : List Token} {i : Nat} (hi : i < ts.length) : (TokenStream.ofList ts).get i = ts[i] := by
  unfold TokenStream.ofList
  split
  · have hmin : min i ts.length = i := by omega
    simp [TokenStream.get, hmin, List.getElem_append_left hi]
  · have hmin : min i (ts.length - 1) = i := by omega
    simp [TokenStream.get, hmin]

/-- Whatever follows the first `n` tokens of a source, they are the same. -/
theorem Source.shared_take (s : Source) {n : Nat} (hn : n ≤ s.tokens.length) (us : List Token) :
    Shared s.stream (TokenStream.ofList (s.tokens.take n ++ us)) n where
  valid := s.get_valid
  same i hi := by
    have htake : i < (s.tokens.take n).length := by
      rw [List.length_take]
      omega
    refine ⟨(s.stream.get i).position, ?_⟩
    rw [Source.stream, get_ofList (by rw [List.length_append]; omega), get_ofList (by omega),
      List.getElem_append_left htake, List.getElem_take]
    rfl

end Syntax
end TypedImp

import TypedImp.Proofs.Syntax.Literal
import TypedImp.Proofs.Syntax.Reading

/-! What the parsers answer is derived by the tokens that they have consumed. Loops and nesting are bounded
    by steps; soundness holds for every bound, so that each loop is one induction on its steps. -/

namespace TypedImp
namespace Syntax
open Grammar (Level)
open TypedImp.Parser

variable {s : Source} {α β : Type}

/-- What `p` consumes stands in the relation `D` to its answer. -/
def Sound (s : Source) (p : Parser α) (D : List Token → α → Prop) : Prop :=
  ∀ ⦃c : Cursor⦄ ⦃a : α⦄ ⦃c' : Cursor⦄, p s.stream c = .ok a c' → ∃ ts, s.ahead c = ts ++ s.ahead c' ∧ D ts a

theorem Sound.mono {p : Parser α} {D E : List Token → α → Prop} (h : Sound s p D) (hDE : ∀ ts a, D ts a → E ts a) :
    Sound s p E := fun _ _ _ hp => by
  obtain ⟨ts, ht, hd⟩ := h hp
  exact ⟨ts, ht, hDE _ _ hd⟩

theorem Sound.outOfSteps {D : List Token → α → Prop} : Sound s (throw .outOfSteps) D :=
  fun _ _ _ h => absurd h throw_ne_ok

/-! ### Operators -/

theorem oneOf_kinds (l : Level) : (Expected.oneOf l.kinds).has .eof = false := by
  cases l <;> rfl

theorem mem_of_has {l : Level} {k : Token.Kind} (h : (Expected.oneOf l.kinds).has k = true) : k ∈ l.kinds :=
  List.mem_of_elem_eq_true h

theorem chain_sound {l : Level} {ls : List Level} {operand : Parser Expr} (ho : Sound s operand (Chain ls)) (n : Nat) :
    ∀ {left : Expr} {us : List Token}, Chain (l :: ls) us left →
      Sound s (chain l.kinds operand n left) fun ts e => Chain (l :: ls) (us ++ ts) e := by
  induction n with
  | zero => exact fun _ => Sound.outOfSteps
  | succ n ih =>
    intro left us hl c e c' h
    rw [chain, isNext_bind_ite] at h
    split at h
    · obtain ⟨op, d, hop, h⟩ := bind_eq_ok.mp h
      obtain ⟨right, d', hr, h⟩ := bind_eq_ok.mp h
      obtain ⟨hc, hk⟩ := expect_ok (oneOf_kinds l) hop
      obtain ⟨ts, hd, hts⟩ := ho hr
      obtain ⟨ts', hd', he⟩ := ih (hl.operator (mem_of_has hk) hts) h
      refine ⟨op :: (ts ++ ts'), ?_, by simpa using he⟩
      rw [hc, hd, hd']
      simp
    · obtain ⟨rfl, rfl⟩ := pure_eq_ok.mp h
      exact ⟨[], rfl, by simpa using hl⟩

theorem binary_sound {operand : Parser Expr} (ho : Sound s operand Signed) :
    ∀ ls : List Level, Sound s (binary operand (ls.map Level.kinds)) (Chain ls)
  | [] => ho.mono fun _ _ h => .signed h
  | l :: ls => by
    intro c e c' h
    rw [List.map_cons, binary] at h
    obtain ⟨left, d, hleft, h⟩ := bind_eq_ok.mp h
    rw [stepBound_bind] at h
    obtain ⟨us, hc, hus⟩ := binary_sound ho ls hleft
    obtain ⟨ts, hd, he⟩ := chain_sound (binary_sound ho ls) _ (.operand hus) h
    exact ⟨us ++ ts, by rw [hc, hd, List.append_assoc], he⟩

theorem signed_sound {primary : Parser Expr} (hp : Sound s primary Primary) (n : Nat) :
    Sound s (signed primary n) Signed := by
  induction n with
  | zero => exact Sound.outOfSteps
  | succ n ih =>
    intro c e c' h
    rw [signed, isNext_bind_ite] at h
    split at h
    · obtain ⟨op, d, hop, h⟩ := bind_eq_ok.mp h
      obtain ⟨operand, d', he, h⟩ := bind_eq_ok.mp h
      obtain ⟨rfl, rfl⟩ := pure_eq_ok.mp h
      obtain ⟨hc, hk⟩ := expect_ok rfl hop
      obtain ⟨ts, hd, hts⟩ := ih he
      have hsign : op.kind = .plus ∨ op.kind = .minus := by
        simpa [signs, Expected.has, or_comm] using hk
      exact ⟨op :: ts, by rw [hc, hd]; rfl, hts.sign hsign⟩
    · obtain ⟨ts, hc, hts⟩ := hp h
      exact ⟨ts, hc, .primary hts⟩

/-! ### Arguments -/

theorem moreArguments_sound {argument : Parser Expr} (ha : Sound s argument Expression) (n : Nat) :
    Sound s (moreArguments argument n) MoreArguments := by
  induction n with
  | zero => exact Sound.outOfSteps
  | succ n ih =>
    intro c es c' h
    rw [moreArguments, nextIs_bind_ite] at h
    split at h
    · obtain ⟨comma, d, hc, hcomma, h⟩ := discard_bind_ok h
      obtain ⟨e, d', he, h⟩ := bind_eq_ok.mp h
      obtain ⟨es', d'', hes, h⟩ := bind_eq_ok.mp h
      obtain ⟨rfl, rfl⟩ := pure_eq_ok.mp h
      obtain ⟨ts, hd, hts⟩ := ha he
      obtain ⟨us, hd', hus⟩ := ih hes
      exact ⟨comma :: (ts ++ us), by simp [hc, hd, hd'], .some hcomma hts hus⟩
    · obtain ⟨rfl, rfl⟩ := pure_eq_ok.mp h
      exact ⟨[], rfl, .none⟩

/-- The arguments of a call together with their parentheses. -/
theorem arguments_sound {argument : Parser Expr} (ha : Sound s argument Expression) :
    Sound s (arguments argument) fun ts es =>
      ∃ lp us rp, ts = lp :: (us ++ [rp]) ∧ lp.kind = .lparen ∧ Arguments us es ∧ rp.kind = .rparen := by
  intro c es c' h
  rw [arguments] at h
  obtain ⟨lp, d, hc, hlp, h⟩ := discard_bind_ok h
  rw [nextIs_bind_ite] at h
  split at h
  · rw [pure_bind_stream] at h
    obtain ⟨rp, d', hd, hrp, h⟩ := discard_bind_ok h
    obtain ⟨rfl, rfl⟩ := pure_eq_ok.mp h
    exact ⟨[lp, rp], by simp [hc, hd], lp, [], rp, rfl, hlp, .none, hrp⟩
  · obtain ⟨e, d₁, he, h⟩ := bind_eq_ok.mp h
    rw [stepBound_bind] at h
    obtain ⟨rest, d₂, hrest, h⟩ := bind_eq_ok.mp h
    rw [pure_bind_stream] at h
    obtain ⟨rp, d₃, hd₂, hrp, h⟩ := discard_bind_ok h
    obtain ⟨rfl, rfl⟩ := pure_eq_ok.mp h
    obtain ⟨ts, hd, hts⟩ := ha he
    obtain ⟨us, hd₁, hus⟩ := moreArguments_sound ha _ hrest
    exact ⟨lp :: ((ts ++ us) ++ [rp]), by simp [hc, hd, hd₁, hd₂], lp, ts ++ us, rp, rfl, hlp, .some hts hus, hrp⟩

/-! ### Primary expressions -/

theorem literal_sound {t : Token} (ht : t.Fits) {v : Value} (h : literal? t = some (.ok v)) :
    Primary [t] (.literal v) := by
  unfold literal? at h
  split at h
  · next hk =>
    simp only [Token.Fits, hk] at ht
    simp only [integerLiteral, Token.integer_digits ht.1 ht.2, Option.some.injEq] at h
    split at h
    · next heq => split at heq <;> cases heq
    · next heq => split at heq <;> cases heq; cases h
    · next n heq =>
      split at heq
      · cases heq
      · next hlen =>
        cases heq
        split at h
        · cases h
        · next hmax =>
          cases h
          exact .integer hk (by omega) (by omega)
  · next hk =>
    simp only [Token.Fits, hk] at ht
    obtain ⟨whole, fraction, htext, hne, hw, hf⟩ := ht
    simp only [floatLiteral, Token.number?_point htext hne hw hf, Option.some.injEq, Except.ok.injEq] at h
    subst h
    exact .float hk htext hw hf
  · next hk =>
    cases h
    exact .boolean hk
  · next hk =>
    cases h
    exact .char hk
  · next hk =>
    cases h
    exact .string hk
  · cases h

/-- A token that is looked at and is not the end of input is the first one ahead. -/
theorem ahead_of_next {c : Cursor} (h : (s.next (s.ahead c)).kind ≠ .eof) :
    s.ahead c = s.next (s.ahead c) :: s.ahead (forward c) := by
  cases hc : s.ahead c with
  | nil =>
    rw [hc] at h
    exact absurd s.last_eof h
  | cons t us => rw [ahead_forward hc, s.next_cons]

theorem step_bind (s : Source) (c : Cursor) (f : Unit → Parser β) :
    (step >>= f) s.stream c = f () s.stream (forward c) :=
  bind_of_ok rfl

theorem primary_sound (fits : ∀ t ∈ s.body, t.Fits) {inner : Parser Expr} (hi : Sound s inner Expression) :
    Sound s (primary inner) Primary := by
  intro c e c' h
  rw [primary, peek_bind] at h
  have hnext := ahead_of_next (s := s) (c := c)
  have hmem : (s.next (s.ahead c)).kind ≠ .eof → s.next (s.ahead c) ∈ s.body := fun hk =>
    List.mem_of_mem_drop (i := c.consumed) (by rw [← Source.ahead, hnext hk]; simp)
  generalize s.next (s.ahead c) = t at h hnext hmem
  cases hv : literal? t with
  | some r =>
    have hk : t.kind ≠ .eof := fun hk => by rw [literal?_of_final (by rw [hk]; rfl)] at hv; cases hv
    cases r with
    | ok v =>
      simp only [hv, step_bind] at h
      obtain ⟨rfl, rfl⟩ := pure_eq_ok.mp h
      exact ⟨[t], hnext hk, literal_sound (fits _ (hmem hk)) hv⟩
    | error e' =>
      simp only [hv, step_bind] at h
      exact absurd h throw_ne_ok
  | none =>
    simp only [hv] at h
    cases hk : t.kind with
    | ident =>
      have hc := hnext (by simp [hk])
      simp only [hk, step_bind, nextIs_bind_ite] at h
      split at h
      · obtain ⟨args, d, hargs, h⟩ := bind_eq_ok.mp h
        obtain ⟨rfl, rfl⟩ := pure_eq_ok.mp h
        obtain ⟨us, hd, lp, ts, rp, rfl, hlp, hts, hrp⟩ := arguments_sound hi hargs
        exact ⟨t :: lp :: (ts ++ [rp]), by rw [hc, hd]; rfl, .call hk hlp hts hrp⟩
      · obtain ⟨rfl, rfl⟩ := pure_eq_ok.mp h
        exact ⟨[t], hc, .var hk⟩
    | lparen =>
      have hc := hnext (by simp [hk])
      simp only [hk, step_bind] at h
      obtain ⟨e, d, he, h⟩ := bind_eq_ok.mp h
      obtain ⟨rp, d', hd', hrp, h⟩ := discard_bind_ok h
      obtain ⟨rfl, rfl⟩ := pure_eq_ok.mp h
      obtain ⟨ts, hd, hts⟩ := hi he
      exact ⟨t :: (ts ++ [rp]), by rw [hc, hd, hd']; simp, .parens hk hts hrp⟩
    | _ =>
      simp only [hk] at h
      exact absurd h throw_ne_ok

theorem nested_sound (fits : ∀ t ∈ s.body, t.Fits) (depth : Nat) : Sound s (nested depth) Expression := by
  induction depth with
  | zero => exact Sound.outOfSteps
  | succ depth ih =>
    intro c e c' h
    rw [nested, stepBound_bind] at h
    exact binary_sound (signed_sound (primary_sound fits ih) _) Level.all h

theorem expression_sound (fits : ∀ t ∈ s.body, t.Fits) : Sound s expression Expression := by
  intro c e c' h
  rw [expression, stepBound_bind] at h
  exact nested_sound fits _ h

/-! ### Types and parameters -/

theorem typeName_sound {read : String → Option Ty} :
    Sound s (typeName read) fun ts ty => ∃ t, ts = [t] ∧ t.kind = .ident ∧ read t.text = some ty := by
  intro c ty c' h
  rw [typeName] at h
  obtain ⟨t, d, hc, hk, h⟩ := expectKind_bind_ok h
  cases hr : read t.text with
  | some ty' =>
    simp only [hr] at h
    obtain ⟨rfl, rfl⟩ := pure_eq_ok.mp h
    exact ⟨[t], hc, t, rfl, hk, hr⟩
  | none =>
    simp only [hr] at h
    exact absurd h throw_ne_ok

theorem valueType_sound : Sound s valueType fun ts ty => ∃ t, ts = [t] ∧ NamesValue t ty :=
  typeName_sound.mono fun _ _ ⟨t, ht, hk, hr⟩ =>
    ⟨t, ht, ⟨hk, (Ty.ofValueName?_eq_some.mp hr).1⟩, (Ty.ofValueName?_eq_some.mp hr).2⟩

theorem resultType_sound : Sound s resultType fun ts ty => ∃ t, ts = [t] ∧ Names t ty :=
  typeName_sound.mono fun _ _ ⟨t, ht, hk, hr⟩ => ⟨t, ht, hk, Ty.ofName?_eq_some.mp hr⟩

theorem parametersUpTo_sound (n : Nat) : Sound s (parametersUpTo n) Parameters := by
  induction n with
  | zero => exact Sound.outOfSteps
  | succ n ih =>
    intro c ps c' h
    rw [parametersUpTo] at h
    obtain ⟨name, d, hc, hname, h⟩ := expectKind_bind_ok h
    obtain ⟨colon, d₁, hd, hcolon, h⟩ := discard_bind_ok h
    obtain ⟨ty, d₂, hty, h⟩ := bind_eq_ok.mp h
    obtain ⟨_, hd₁, type, rfl, htype⟩ := valueType_sound hty
    have hp : Parameter [name, colon, type] ⟨name.text, ty⟩ := .mk hname hcolon htype
    rw [nextIs_bind_ite] at h
    split at h
    · obtain ⟨comma, d₃, hd₂, hcomma, h⟩ := discard_bind_ok h
      obtain ⟨ps', d₄, hps, h⟩ := bind_eq_ok.mp h
      obtain ⟨rfl, rfl⟩ := pure_eq_ok.mp h
      obtain ⟨us, hd₃, hus⟩ := ih hps
      exact ⟨[name, colon, type] ++ comma :: us, by simp [hc, hd, hd₁, hd₂, hd₃], .more hp hcomma hus⟩
    · obtain ⟨rfl, rfl⟩ := pure_eq_ok.mp h
      exact ⟨[name, colon, type], by simp [hc, hd, hd₁], .one hp⟩

theorem parameters_sound : Sound s parameters Parameters := by
  intro c ps c' h
  rw [parameters, stepBound_bind] at h
  exact parametersUpTo_sound _ h

/-! ### Statements without a body -/

section Simple
variable (fits : ∀ t ∈ s.body, t.Fits)
include fits

theorem varDecl_sound : Sound s varDecl VarDecl := by
  intro c st c' h
  rw [varDecl] at h
  obtain ⟨word, d, hc, hword, h⟩ := discard_bind_ok h
  obtain ⟨name, d₁, hd, hname, h⟩ := expectKind_bind_ok h
  obtain ⟨colon, d₂, hd₁, hcolon, h⟩ := discard_bind_ok h
  obtain ⟨ty, d₃, hty, h⟩ := bind_eq_ok.mp h
  obtain ⟨_, hd₂, type, rfl, htype⟩ := valueType_sound hty
  rw [nextIs_bind_ite] at h
  split at h
  · obtain ⟨eq, d₄, hd₃, heq, h⟩ := discard_bind_ok h
    obtain ⟨e, d₅, he, h⟩ := bind_eq_ok.mp h
    rw [pure_bind_stream] at h
    obtain ⟨semi, d₆, hd₅, hsemi, h⟩ := discard_bind_ok h
    obtain ⟨rfl, rfl⟩ := pure_eq_ok.mp h
    obtain ⟨ts, hd₄, hts⟩ := expression_sound fits he
    exact ⟨_, by simp [hc, hd, hd₁, hd₂, hd₃, hd₄, hd₅], .init hword hname hcolon htype heq hts hsemi⟩
  · rw [pure_bind_stream] at h
    obtain ⟨semi, d₄, hd₃, hsemi, h⟩ := discard_bind_ok h
    obtain ⟨rfl, rfl⟩ := pure_eq_ok.mp h
    exact ⟨_, by simp [hc, hd, hd₁, hd₂, hd₃], .plain hword hname hcolon htype hsemi⟩

/-- An assignment with its semicolon, or without one where it is optional. -/
theorem assignment_sound (required : Bool) :
    Sound s (assignment required) fun ts st =>
      (required = false ∧ Assign ts st) ∨ ∃ us semi, ts = us ++ [semi] ∧ Assign us st ∧ semi.kind = .semicolon := by
  intro c st c' h
  rw [assignment] at h
  obtain ⟨name, d, hc, hname, h⟩ := expectKind_bind_ok h
  obtain ⟨eq, d₁, hd, heq, h⟩ := discard_bind_ok h
  obtain ⟨value, d₂, hv, h⟩ := bind_eq_ok.mp h
  obtain ⟨ts, hd₁, hts⟩ := expression_sound fits hv
  have ha : Assign (name :: eq :: ts) (.assign name.text value) := .mk hname heq hts
  cases required with
  | true =>
    simp only [if_true] at h
    obtain ⟨semi, d₃, hd₂, hsemi, h⟩ := discard_bind_ok h
    obtain ⟨rfl, rfl⟩ := pure_eq_ok.mp h
    exact ⟨_, by simp [hc, hd, hd₁, hd₂], .inr ⟨_, semi, rfl, ha, hsemi⟩⟩
  | false =>
    simp only [Bool.false_eq_true, if_false] at h
    obtain ⟨_, d₃, hskip, h⟩ := bind_eq_ok.mp h
    obtain ⟨rfl, rfl⟩ := pure_eq_ok.mp h
    rw [skipIf, nextIs_bind_ite] at hskip
    split at hskip
    · obtain ⟨semi, hsemi⟩ := discard_eq_ok.mp hskip
      obtain ⟨hd₂, hsemi⟩ := expectKind_ok (by decide) hsemi
      exact ⟨_, by simp [hc, hd, hd₁, hd₂], .inr ⟨_, semi, rfl, ha, hsemi⟩⟩
    · obtain ⟨-, rfl⟩ := pure_eq_ok.mp hskip
      exact ⟨_, by simp [hc, hd, hd₁], .inl ⟨rfl, ha⟩⟩

theorem condition_sound {k : Token.Kind} (hk : k ≠ .eof) : Sound s (condition k) (Condition k) := by
  intro c e c' h
  rw [condition] at h
  obtain ⟨word, d, hc, hword, h⟩ := discard_bind_ok h hk
  obtain ⟨lp, d₁, hd, hlp, h⟩ := discard_bind_ok h
  obtain ⟨e', d₂, he, h⟩ := bind_eq_ok.mp h
  obtain ⟨rp, d₃, hd₂, hrp, h⟩ := discard_bind_ok h
  obtain ⟨rfl, rfl⟩ := pure_eq_ok.mp h
  obtain ⟨ts, hd₁, hts⟩ := expression_sound fits he
  exact ⟨_, by simp [hc, hd, hd₁, hd₂], .mk hword hlp hts hrp⟩

theorem printStatement_sound : Sound s printStatement Statement := by
  intro c st c' h
  rw [printStatement] at h
  obtain ⟨word, d, hc, hword, h⟩ := discard_bind_ok h
  obtain ⟨lp, d₁, hd, hlp, h⟩ := discard_bind_ok h
  obtain ⟨e, d₂, he, h⟩ := bind_eq_ok.mp h
  obtain ⟨rp, d₃, hd₂, hrp, h⟩ := discard_bind_ok h
  obtain ⟨semi, d₄, hd₃, hsemi, h⟩ := discard_bind_ok h
  obtain ⟨rfl, rfl⟩ := pure_eq_ok.mp h
  obtain ⟨ts, hd₁, hts⟩ := expression_sound fits he
  exact ⟨_, by simp [hc, hd, hd₁, hd₂, hd₃], .print (.mk hword hlp hts hrp) hsemi⟩

omit fits in
theorem inputStatement_sound : Sound s inputStatement Statement := by
  intro c st c' h
  rw [inputStatement] at h
  obtain ⟨word, d, hc, hword, h⟩ := discard_bind_ok h
  obtain ⟨lp, d₁, hd, hlp, h⟩ := discard_bind_ok h
  obtain ⟨name, d₂, hd₁, hname, h⟩ := expectKind_bind_ok h
  obtain ⟨rp, d₃, hd₂, hrp, h⟩ := discard_bind_ok h
  obtain ⟨semi, d₄, hd₃, hsemi, h⟩ := discard_bind_ok h
  obtain ⟨rfl, rfl⟩ := pure_eq_ok.mp h
  exact ⟨_, by simp [hc, hd, hd₁, hd₂, hd₃], .input hword hlp hname hrp hsemi⟩

theorem returnStatement_sound : Sound s returnStatement Statement := by
  intro c st c' h
  rw [returnStatement] at h
  obtain ⟨word, d, hc, hword, h⟩ := discard_bind_ok h
  rw [nextIs_bind_ite] at h
  split at h
  · obtain ⟨semi, d₁, hd, hsemi, h⟩ := discard_bind_ok h
    obtain ⟨rfl, rfl⟩ := pure_eq_ok.mp h
    exact ⟨_, by simp [hc, hd], .retNone hword hsemi⟩
  · obtain ⟨e, d₁, he, h⟩ := bind_eq_ok.mp h
    obtain ⟨semi, d₂, hd₁, hsemi, h⟩ := discard_bind_ok h
    obtain ⟨rfl, rfl⟩ := pure_eq_ok.mp h
    obtain ⟨ts, hd, hts⟩ := expression_sound fits he
    exact ⟨_, by simp [hc, hd, hd₁], .retSome hword hts hsemi⟩

theorem expressionStatement_sound : Sound s expressionStatement Statement := by
  intro c st c' h
  rw [expressionStatement] at h
  obtain ⟨e, d, he, h⟩ := bind_eq_ok.mp h
  obtain ⟨semi, d₁, hd, hsemi, h⟩ := discard_bind_ok h
  obtain ⟨rfl, rfl⟩ := pure_eq_ok.mp h
  obtain ⟨ts, hc, hts⟩ := expression_sound fits he
  exact ⟨_, by simp [hc, hd], .expr hts hsemi⟩

/-- An assignment that must have its semicolon. -/
theorem assignmentStatement_sound :
    Sound s (assignment true) fun ts st => ∃ us semi, ts = us ++ [semi] ∧ Assign us st ∧ semi.kind = .semicolon :=
  (assignment_sound fits true).mono fun _ _ h => h.resolve_left fun h' => nomatch h'.1

/-! ### Headers of loops -/

theorem forInitializer_sound : Sound s forInitializer ForInit := by
  intro c st c' h
  rw [forInitializer, nextIs_bind_ite] at h
  split at h
  · obtain ⟨ts, hc, hts⟩ := varDecl_sound fits h
    exact ⟨ts, hc, .decl hts⟩
  · rw [nextIsAssignment_bind_ite] at h
    split at h
    · obtain ⟨_, hc, us, semi, rfl, ha, hsemi⟩ := assignmentStatement_sound fits h
      exact ⟨_, hc, .assign ha hsemi⟩
    · rw [peek_bind] at h
      exact absurd h throw_ne_ok

theorem forStep_sound : Sound s forStep ForStep := by
  intro c st c' h
  rw [forStep, nextIsAssignment_bind_ite] at h
  split at h
  · obtain ⟨_, hc, ⟨-, ha⟩ | ⟨us, semi, rfl, ha, hsemi⟩⟩ := assignment_sound fits false h
    · exact ⟨_, hc, .assign ha⟩
    · exact ⟨_, hc, .assignClosed ha hsemi⟩
  · obtain ⟨e, d, he, h⟩ := bind_eq_ok.mp h
    obtain ⟨_, d₁, hskip, h⟩ := bind_eq_ok.mp h
    obtain ⟨rfl, rfl⟩ := pure_eq_ok.mp h
    obtain ⟨ts, hc, hts⟩ := expression_sound fits he
    rw [skipIf, nextIs_bind_ite] at hskip
    split at hskip
    · obtain ⟨semi, hsemi⟩ := discard_eq_ok.mp hskip
      obtain ⟨hd, hsemi⟩ := expectKind_ok (by decide) hsemi
      exact ⟨_, by simp [hc, hd], .exprClosed hts hsemi⟩
    · obtain ⟨-, rfl⟩ := pure_eq_ok.mp hskip
      exact ⟨ts, hc, .expr hts⟩

/-! ### Statements with a body -/

section Body
variable {body : Parser (List Stmt)} (hb : Sound s body Block)
include hb

theorem ifStatement_sound : Sound s (ifStatement body) Statement := by
  intro c st c' h
  rw [ifStatement] at h
  obtain ⟨cond, d, hcond, h⟩ := bind_eq_ok.mp h
  obtain ⟨yes, d₁, hyes, h⟩ := bind_eq_ok.mp h
  obtain ⟨ts, hc, hts⟩ := condition_sound fits (by decide) hcond
  obtain ⟨us, hd, hus⟩ := hb hyes
  rw [nextIs_bind_ite] at h
  split at h
  · obtain ⟨word, d₂, hd₁, hword, h⟩ := discard_bind_ok h
    obtain ⟨no, d₃, hno, h⟩ := bind_eq_ok.mp h
    obtain ⟨rfl, rfl⟩ := pure_eq_ok.mp h
    obtain ⟨vs, hd₂, hvs⟩ := hb hno
    exact ⟨_, by simp [hc, hd, hd₁, hd₂], .ifElse hts hus hword hvs⟩
  · obtain ⟨rfl, rfl⟩ := pure_eq_ok.mp h
    exact ⟨_, by simp [hc, hd], .ifThen hts hus⟩

theorem whileStatement_sound : Sound s (whileStatement body) Statement := by
  intro c st c' h
  rw [whileStatement] at h
  obtain ⟨cond, d, hcond, h⟩ := bind_eq_ok.mp h
  obtain ⟨stmts, d₁, hstmts, h⟩ := bind_eq_ok.mp h
  obtain ⟨rfl, rfl⟩ := pure_eq_ok.mp h
  obtain ⟨ts, hc, hts⟩ := condition_sound fits (by decide) hcond
  obtain ⟨us, hd, hus⟩ := hb hstmts
  exact ⟨_, by simp [hc, hd], .whileLoop hts hus⟩

theorem forStatement_sound : Sound s (forStatement body) Statement := by
  intro c st c' h
  rw [forStatement] at h
  obtain ⟨word, d, hc, hword, h⟩ := discard_bind_ok h
  obtain ⟨lp, d₁, hd, hlp, h⟩ := discard_bind_ok h
  obtain ⟨init, d₂, hinit, h⟩ := bind_eq_ok.mp h
  obtain ⟨cond, d₃, hcond, h⟩ := bind_eq_ok.mp h
  obtain ⟨semi, d₄, hd₃, hsemi, h⟩ := discard_bind_ok h
  obtain ⟨step, d₅, hstep, h⟩ := bind_eq_ok.mp h
  obtain ⟨rp, d₆, hd₅, hrp, h⟩ := discard_bind_ok h
  obtain ⟨stmts, d₇, hstmts, h⟩ := bind_eq_ok.mp h
  obtain ⟨rfl, rfl⟩ := pure_eq_ok.mp h
  obtain ⟨ts, hd₁, hts⟩ := forInitializer_sound fits hinit
  obtain ⟨us, hd₂, hus⟩ := expression_sound fits hcond
  obtain ⟨vs, hd₄, hvs⟩ := forStep_sound fits hstep
  obtain ⟨ws, hd₆, hws⟩ := hb hstmts
  exact ⟨_, by simp [hc, hd, hd₁, hd₂, hd₃, hd₄, hd₅, hd₆], .forLoop hword hlp hts hus hsemi hvs hrp hws⟩

omit fits in
theorem functionDeclaration_sound : Sound s (functionDeclaration body) Statement := by
  intro c st c' h
  rw [functionDeclaration] at h
  obtain ⟨word, d, hc, hword, h⟩ := discard_bind_ok h
  obtain ⟨name, d₁, hd, hname, h⟩ := expectKind_bind_ok h
  obtain ⟨lp, d₂, hd₁, hlp, h⟩ := discard_bind_ok h
  rw [nextIs_bind_ite] at h
  have params : ∃ (params : List Param) (d₃ : Cursor) (ts : List Token),
      s.ahead d₂ = ts ++ s.ahead d₃ ∧ ParameterList ts params ∧
      (do
        discard (expectKind .rparen)
        discard (expectKind .colon)
        let result ← resultType
        let stmts ← body
        recordFunction name.text params.length
        return .function name.text params result stmts : Parser Stmt) s.stream d₃ = .ok st c' := by
    split at h
    · rw [pure_bind_stream] at h
      exact ⟨[], d₂, [], rfl, .none, h⟩
    · obtain ⟨params, d₃, hparams, h⟩ := bind_eq_ok.mp h
      obtain ⟨ts, hd₂, hts⟩ := parameters_sound hparams
      exact ⟨params, d₃, ts, hd₂, .some hts, h⟩
  obtain ⟨params, d₃, ts, hd₂, hts, h⟩ := params
  obtain ⟨rp, d₄, hd₃, hrp, h⟩ := discard_bind_ok h
  obtain ⟨colon, d₅, hd₄, hcolon, h⟩ := discard_bind_ok h
  obtain ⟨result, d₆, hresult, h⟩ := bind_eq_ok.mp h
  obtain ⟨stmts, d₇, hstmts, h⟩ := bind_eq_ok.mp h
  obtain ⟨_, d₈, hrecord, h⟩ := bind_eq_ok.mp h
  obtain ⟨rfl, rfl⟩ := pure_eq_ok.mp h
  cases hrecord
  obtain ⟨_, hd₅, type, rfl, htype⟩ := resultType_sound hresult
  obtain ⟨us, hd₆, hus⟩ := hb hstmts
  refine ⟨_, ?_, .function hword hname hlp hts hrp hcolon htype hus⟩
  have hahead : s.ahead { d₇ with functions := (name.text, params.length) :: d₇.functions } = s.ahead d₇ := rfl
  simp [hc, hd, hd₁, hd₂, hd₃, hd₄, hd₅, hd₆, hahead]

end Body

/-! ### Blocks and programs -/

omit fits in
theorem blockRest_sound {statement : Parser Stmt} (hs : Sound s statement Statement) (n : Nat) :
    Sound s (blockRest statement n) Statements := by
  induction n with
  | zero => exact Sound.outOfSteps
  | succ n ih =>
    intro c ss c' h
    rw [blockRest, nextIs_bind_ite] at h
    split at h
    · obtain ⟨rfl, rfl⟩ := pure_eq_ok.mp h
      exact ⟨[], rfl, .none⟩
    · rw [nextIs_bind_ite] at h
      split at h
      · rw [peek_bind] at h
        exact absurd h throw_ne_ok
      · obtain ⟨st, d, hst, h⟩ := bind_eq_ok.mp h
        obtain ⟨ss', d₁, hss, h⟩ := bind_eq_ok.mp h
        obtain ⟨rfl, rfl⟩ := pure_eq_ok.mp h
        obtain ⟨ts, hc, hts⟩ := hs hst
        obtain ⟨us, hd, hus⟩ := ih hss
        exact ⟨_, by simp [hc, hd], .some hts hus⟩

omit fits in
theorem blockOf_sound {statement : Parser Stmt} (hs : Sound s statement Statement) :
    Sound s (blockOf statement) Block := by
  intro c ss c' h
  rw [blockOf] at h
  obtain ⟨lb, d, hc, hlb, h⟩ := discard_bind_ok h
  rw [stepBound_bind] at h
  obtain ⟨body, d₁, hbody, h⟩ := bind_eq_ok.mp h
  obtain ⟨rb, d₂, hd₁, hrb, h⟩ := discard_bind_ok h
  obtain ⟨rfl, rfl⟩ := pure_eq_ok.mp h
  obtain ⟨ts, hd, hts⟩ := blockRest_sound hs _ hbody
  exact ⟨_, by simp [hc, hd, hd₁], .mk hlb hts hrb⟩

theorem statementUpTo_sound (depth : Nat) : Sound s (statementUpTo depth) Statement := by
  induction depth with
  | zero => exact Sound.outOfSteps
  | succ depth ih =>
    intro c st c' h
    have hb := blockOf_sound ih
    rw [statementUpTo, peek_bind] at h
    generalize s.next (s.ahead c) = t at h
    cases hk : t.kind with
    | varWord =>
      simp only [hk] at h
      obtain ⟨ts, hc, hts⟩ := varDecl_sound fits h
      exact ⟨ts, hc, .varDecl hts⟩
    | printWord =>
      simp only [hk] at h
      exact printStatement_sound fits h
    | inputWord =>
      simp only [hk] at h
      exact inputStatement_sound h
    | ifWord =>
      simp only [hk] at h
      exact ifStatement_sound fits hb h
    | whileWord =>
      simp only [hk] at h
      exact whileStatement_sound fits hb h
    | forWord =>
      simp only [hk] at h
      exact forStatement_sound fits hb h
    | funcWord =>
      simp only [hk] at h
      exact functionDeclaration_sound hb h
    | returnWord =>
      simp only [hk] at h
      exact returnStatement_sound fits h
    | _ =>
      simp only [hk, nextIsAssignment_bind_ite] at h
      split at h
      · obtain ⟨_, hc, us, semi, rfl, ha, hsemi⟩ := assignmentStatement_sound fits h
        exact ⟨_, hc, .assign ha hsemi⟩
      · exact expressionStatement_sound fits h

theorem statement_sound : Sound s statement Statement := by
  intro c st c' h
  rw [statement, stepBound_bind] at h
  exact statementUpTo_sound fits _ h

theorem statements_sound (n : Nat) :
    ∀ {c c' : Cursor} {ss : List Stmt}, statements n s.stream c = .ok ss c' → Statements (s.ahead c) ss := by
  induction n with
  | zero => exact fun h => absurd h throw_ne_ok
  | succ n ih =>
    intro c c' ss h
    rw [statements, nextIs_bind_ite] at h
    split at h
    · next hk =>
      obtain ⟨rfl, rfl⟩ := pure_eq_ok.mp h
      -- Only behind all of its tokens is a source at the end of input.
      cases hc : s.ahead c with
      | nil => exact .none
      | cons t us =>
        rw [hc] at hk
        have ht : t ∈ s.body := List.mem_of_mem_drop (i := c.consumed) (by rw [← Source.ahead, hc]; simp)
        exact absurd hk (s.body_plain t ht).1
    · obtain ⟨st, d, hst, h⟩ := bind_eq_ok.mp h
      obtain ⟨ss', d₁, hss, h⟩ := bind_eq_ok.mp h
      obtain ⟨rfl, rfl⟩ := pure_eq_ok.mp h
      obtain ⟨ts, hc, hts⟩ := statement_sound fits hst
      rw [hc]
      exact .some hts (ih hss)

/-- A program that is read is derived by the tokens of its source. -/
theorem program_sound {c' : Cursor} {p : Program} (h : Parser.program s.stream Parser.start = .ok p c') :
    Derives s.tokens p := by
  rw [Parser.program, stepBound_bind] at h
  obtain ⟨body, d, hbody, h⟩ := bind_eq_ok.mp h
  obtain ⟨rfl, rfl⟩ := pure_eq_ok.mp h
  have hss := statements_sound fits _ hbody
  rw [s.ahead_start] at hss
  exact .mk hss s.last_eof

end Simple

end Syntax
end TypedImp

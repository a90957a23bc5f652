import TypedImp.Proofs.Syntax.Sight
import TypedImp.Proofs.Syntax.Soundness

/-! What was read in front of an error is right so far. A parser that stops has read the beginning of something that
    the grammar derives: some tokens complete it. Completions are put together like the parsers: what is missing of the
    part that stopped, and then the least that each part behind it can be. -/

namespace TypedImp

/-! ### The least parts -/

namespace Token

/-- The text of some token of a kind. -/
def Kind.sample : Kind → String
  | .integer => "0"
  | .float => "0."
  | .char => "a"
  | .boolean => "true"
  | .ident => "x"
  | .string | .eof | .invalid => ""
  | k => k.text

/-- Some token of a kind. -/
def sample (k : Kind) : Token := ⟨k, k.sample, ⟨1, 1⟩⟩

theorem sample_fits (k : Kind) : (sample k).Fits := by
  have digit : AreDigits ['0'] := List.forall_mem_singleton.mpr rfl
  cases k with
  | integer => exact ⟨by decide, digit⟩
  | float => exact ⟨['0'], [], rfl, by decide, digit, nofun⟩
  | char => exact ⟨'a', rfl, by decide, by decide⟩
  | boolean => exact .inl rfl
  | ident => exact ⟨'x', [], rfl, rfl, nofun, by decide⟩
  | string => trivial
  | invalid => trivial
  | _ => rfl

end Token

namespace Syntax
open Grammar (Level)
open TypedImp.Parser

/-- Tokens that can stand in a source in front of its end. -/
def Plain (ts : List Token) : Prop := ∀ t ∈ ts, t.Fits ∧ t.kind ≠ .eof ∧ t.kind ≠ .invalid

/-- Some tokens complete `ts` to one of `L`. -/
def Completable (L : List Token → Prop) (ts : List Token) : Prop := ∃ us, Plain us ∧ L (ts ++ us)

theorem Plain.append {ts us : List Token} (hts : Plain ts) (hus : Plain us) : Plain (ts ++ us) := fun t ht =>
  (List.mem_append.mp ht).elim (hts t) (hus t)

theorem plain_sample {k : Token.Kind} (he : k ≠ .eof) (hi : k ≠ .invalid) : Plain [Token.sample k] :=
  List.forall_mem_singleton.mpr ⟨Token.sample_fits k, he, hi⟩

namespace Completable
variable {L M : List Token → Prop} {ts us : List Token}

theorem done (h : L ts) : Completable L ts := ⟨[], nofun, by rwa [List.append_nil]⟩

theorem cut (h : Completable L (ts ++ us)) (hus : Plain us) : Completable L ts := by
  obtain ⟨vs, hvs, h⟩ := h
  exact ⟨us ++ vs, hus.append hvs, by rwa [← List.append_assoc]⟩

theorem imp (h : Completable L ts) (hLM : ∀ vs, L (ts ++ vs) → M (us ++ vs)) : Completable M us := by
  obtain ⟨vs, hvs, h⟩ := h
  exact ⟨vs, hvs, hLM vs h⟩

end Completable

/-! ### Runs whose errors leave something to complete -/

section Runs
variable {s : Source} {L M : List Token → Prop} {pre : List Token} {c d : Cursor} {α β : Type}

/-- The error is told at the token at which it stands. -/
def IsPlaced (s : Source) (e : ParseError) (d : Cursor) : Prop :=
  ∀ dg, e.diagnostic? = some dg → dg.stage = .parsing ∧ dg.place = some (s.stream.get (errorAt e d)).position

/-- A run from `c` on, behind the tokens `pre`, ends within the source, or an error is told at its token and all that
    stands in front of the last token that was looked at can be completed to one of `L`. -/
def Mended (s : Source) (L : List Token → Prop) (pre : List Token) (c : Cursor) :
    EStateM.Result ParseError Cursor α → Prop
  | .ok _ d => d.consumed ≤ s.body.length
  | .error e d => e.diagnostic? ≠ none → IsPlaced s e d ∧
      ∃ us vs, s.ahead c = us ++ vs ∧ errorSight s.stream e d = c.consumed + us.length ∧ Completable L (pre ++ us)

/-- The tokens `pre` can be completed to one of `L`, and wherever `p` stops behind them, so can they together with what
    it has read. -/
structure Mends (s : Source) (p : Parser α) (L : List Token → Prop) (pre : List Token) : Prop where
  start : Completable L pre
  run : ∀ c, c.consumed ≤ s.body.length → Mended s L pre c (p s.stream c)

/-- What `p` reads before it stops can be completed to something that `D` derives. -/
abbrev Mendable (s : Source) (p : Parser α) (D : List Token → α → Prop) : Prop := Mends s p (fun ts => ∃ a, D ts a) []

theorem consumed_of_ahead {ts : List Token} (hc : c.consumed ≤ s.body.length) (hd : d.consumed ≤ s.body.length)
    (h : s.ahead c = ts ++ s.ahead d) : d.consumed = c.consumed + ts.length := by
  have hlen := congrArg List.length h
  simp only [Source.ahead, List.length_append, List.length_drop] at hlen
  omega

/-- A token that is looked at and is not the end of input can be consumed. -/
theorem forward_le (h : (s.next (s.ahead c)).kind ≠ .eof) : (forward c).consumed ≤ s.body.length := by
  have hlen := congrArg List.length (ahead_of_next h)
  simp only [Source.ahead, forward, List.length_drop, List.length_cons] at hlen ⊢
  omega

theorem Mended.back {r : EStateM.Result ParseError Cursor α} {ts : List Token} (hahead : s.ahead c = ts ++ s.ahead d)
    (hcount : d.consumed = c.consumed + ts.length) (h : Mended s L (pre ++ ts) d r) : Mended s L pre c r := by
  cases r with
  | ok a d' => exact h
  | error e d' =>
    intro hd
    obtain ⟨hplaced, us, vs, hus, hsight, hL⟩ := h hd
    refine ⟨hplaced, ts ++ us, vs, ?_, ?_, ?_⟩
    · rw [hahead, hus, List.append_assoc]
    · rw [hsight, hcount, List.length_append, Nat.add_assoc]
    · rwa [← List.append_assoc]

theorem isPlaced_next {t : Token} {e : ParseError} {message : String} (ht : s.next (s.ahead c) = t)
    (hdg : e.diagnostic? = some ⟨.parsing, message, some t.position⟩) (hat : errorAt e d = c.consumed) :
    IsPlaced s e d := by
  intro dg hd
  rw [hdg] at hd
  cases hd
  rw [hat, s.get_stream, ← ht]
  exact ⟨rfl, rfl⟩

/-- An error that stands at the token ahead, behind which nothing was looked at. -/
theorem Mended.stop {t : Token} {e : ParseError} {message : String} (ht : s.next (s.ahead c) = t)
    (hdg : e.diagnostic? = some ⟨.parsing, message, some t.position⟩)
    (hat : errorAt e d = c.consumed) (hsight : errorSight s.stream e d = c.consumed) (h : Completable L pre) :
    Mended s L pre c (.error e d : EStateM.Result ParseError Cursor α) :=
  fun _ => ⟨isPlaced_next ht hdg hat, [], s.ahead c, rfl, hsight, by rwa [List.append_nil]⟩

namespace Mends

theorem pure {a : α} (h : L pre) : Mends s (pure a) L pre := ⟨.done h, fun _ hc => hc⟩

theorem outOfSteps (h : Completable L pre) : Mends s (throw .outOfSteps : Parser α) L pre :=
  ⟨h, fun _ _ hd => absurd rfl hd⟩

theorem bind {p : Parser α} {f : α → Parser β} {D : List Token → α → Prop} (hp : Mendable s p D) (sound : Sound s p D)
    (hf : ∀ ts a, D ts a → Mends s (f a) L (pre ++ ts)) : Mends s (p >>= f) L pre where
  start := by
    obtain ⟨us, hus, a, ha⟩ := hp.start
    exact (hf us a ha).start.cut hus
  run c hc := by
    have hrun := hp.run c hc
    cases hr : p s.stream c with
    | ok a d =>
      rw [hr] at hrun
      rw [bind_of_ok hr]
      obtain ⟨ts, hts, ha⟩ := sound hr
      exact ((hf ts a ha).run d hrun).back hts (consumed_of_ahead hc hrun hts)
    | error e d =>
      rw [hr] at hrun
      rw [bind_of_error hr]
      intro hd
      obtain ⟨hplaced, us, vs, hus, hsight, ws, hws, a, ha⟩ := hrun hd
      have hcomplete := (hf (us ++ ws) a ha).start
      rw [← List.append_assoc] at hcomplete
      exact ⟨hplaced, us, vs, hus, hsight, hcomplete.cut hws⟩

/-- The last part of a parser. -/
theorem tail {p : Parser α} {ts : List Token} (hp : Mends s p M ts) (hML : ∀ us, M (ts ++ us) → L (pre ++ us)) :
    Mends s p L pre where
  start := hp.start.imp hML
  run c hc := by
    have hrun := hp.run c hc
    cases hr : p s.stream c with
    | ok a d =>
      rw [hr] at hrun
      exact hrun
    | error e d =>
      rw [hr] at hrun
      intro hd
      obtain ⟨hplaced, us, vs, hus, hsight, hM⟩ := hrun hd
      exact ⟨hplaced, us, vs, hus, hsight, hM.imp fun ws h => by
        rw [List.append_assoc] at h ⊢
        exact hML _ h⟩

/-- The answer of a parser makes no difference to what it reads. -/
theorem map {p : Parser α} {f : α → β} (hp : Mends s p L pre) : Mends s (p >>= fun a => Pure.pure (f a)) L pre where
  start := hp.start
  run c hc := by
    have hrun := hp.run c hc
    cases hr : p s.stream c with
    | ok a d =>
      rw [hr] at hrun
      rw [bind_of_ok hr]
      exact hrun
    | error e d =>
      rw [hr] at hrun
      rw [bind_of_error hr]
      exact hrun

theorem stepBound {f : Nat → Parser β} (hf : ∀ m, Mends s (f m) L pre) : Mends s (stepBound >>= f) L pre where
  start := (hf 0).start
  run c hc := by
    rw [stepBound_bind]
    exact (hf _).run c hc

theorem peek {f : Token → Parser β} (hf : ∀ t, Mends s (f t) L pre) : Mends s (peek 0 >>= f) L pre where
  start := (hf default).start
  run c hc := by
    rw [peek_bind]
    exact (hf _).run c hc

section Branches
variable {p q : Parser β} (hp : Mends s p L pre) (hq : Mends s q L pre)
include hp hq

theorem isNext {e : Expected} : Mends s (isNext e >>= fun b => if b = true then p else q) L pre where
  start := hp.start
  run c hc := by
    rw [isNext_bind_ite]
    split
    · exact hp.run c hc
    · exact hq.run c hc

theorem nextIs {k : Token.Kind} : Mends s (nextIs k >>= fun b => if b = true then p else q) L pre := hp.isNext hq

theorem nextIsAssignment : Mends s (nextIsAssignment >>= fun b => if b = true then p else q) L pre where
  start := hp.start
  run c hc := by
    rw [nextIsAssignment_bind_ite]
    split
    · exact hp.run c hc
    · exact hq.run c hc

end Branches

/-- A token that is consumed, when some token is as expected. -/
theorem expect {e : Expected} {k : Token.Kind} {f : Token → Parser β} (he : e.has .eof = false) (hk : e.has k = true)
    (hi : k ≠ .invalid) (hf : ∀ t, e.has t.kind = true → Mends s (f t) L (pre ++ [t])) :
    Mends s (expect e >>= f) L pre := by
  have hstart : Completable (fun ts => ∃ t, ts = [t] ∧ e.has t.kind = true) [] := by
    refine ⟨[Token.sample k], plain_sample ?_ hi, _, rfl, hk⟩
    rintro rfl
    rw [he] at hk
    cases hk
  have hexpect : Mendable s (Parser.expect e) fun ts t => ts = [t] ∧ e.has t.kind = true := by
    refine ⟨hstart, fun c hc => ?_⟩
    rw [Parser.expect, peek_bind]
    split
    · next ht => exact forward_le (by rintro heof; rw [heof, he] at ht; cases ht)
    · exact Mended.stop rfl rfl rfl rfl hstart
  refine hexpect.bind (fun c t c' h => ?_) ?_
  · obtain ⟨hc, ht⟩ := expect_ok he h
    exact ⟨[t], hc, rfl, ht⟩
  · rintro _ t ⟨rfl, ht⟩
    exact hf t ht

theorem expectKind {k : Token.Kind} {f : Token → Parser β} (hf : ∀ t, t.kind = k → Mends s (f t) L (pre ++ [t]))
    (he : k ≠ .eof := by decide) (hi : k ≠ .invalid := by decide) : Mends s (expectKind k >>= f) L pre :=
  expect (by simpa [Expected.has] using he) (k := k) (by simp [Expected.has]) hi fun t ht =>
    hf t (by simpa [Expected.has, eq_comm] using ht)

/-- A token of which only the kind counts. -/
theorem skip {k : Token.Kind} {f : Unit → Parser β} (hf : ∀ t, t.kind = k → Mends s (f ()) L (pre ++ [t]))
    (he : k ≠ .eof := by decide) (hi : k ≠ .invalid := by decide) :
    Mends s (Functor.discard (Parser.expectKind k) >>= f) L pre := by
  rw [Functor.discard, map_const, Function.comp_apply, bind_map_left]
  exact expectKind hf he hi

/-- A token of a kind, if one is there. -/
theorem skipIf {k : Token.Kind} {f : Unit → Parser β} (hf : ∀ t, t.kind = k → Mends s (f ()) L (pre ++ [t]))
    (hf' : Mends s (f ()) L pre) (he : k ≠ .eof := by decide) (hi : k ≠ .invalid := by decide) :
    Mends s (skipIf k >>= f) L pre := by
  have hbind : (Parser.skipIf k >>= f) =
      Parser.nextIs k >>= fun b => if b = true then Functor.discard (Parser.expectKind k) >>= f else f () := by
    rw [Parser.skipIf, bind_assoc]
    congr
    funext b
    cases b with
    | true => rfl
    | false => exact pure_bind () f
  rw [hbind]
  exact (skip hf he hi).nextIs hf'

end Mends

end Runs

variable {s : Source}

/-! ### Operators -/

theorem Level.exists_kind (l : Level) : ∃ k ∈ l.kinds, k ≠ .invalid := by
  cases l <;> exact ⟨_, List.mem_cons_self, by decide⟩

theorem chain_mends {l : Level} {ls : List Level} {operand : Parser Expr} (ho : Mendable s operand (Chain ls))
    (sound : Sound s operand (Chain ls)) (n : Nat) {left : Expr} {us : List Token} (hl : Chain (l :: ls) us left) :
    Mends s (chain l.kinds operand n left) (fun ts => ∃ e, Chain (l :: ls) ts e) us := by
  induction n generalizing left us with
  | zero => exact .outOfSteps (.done ⟨left, hl⟩)
  | succ n ih =>
    obtain ⟨k, hk, hi⟩ := Level.exists_kind l
    refine .isNext (.expect (oneOf_kinds l) (List.elem_eq_true_of_mem hk) hi fun op hop => ?_) (.pure ⟨left, hl⟩)
    refine .bind ho sound fun ts right hts => ?_
    have := ih (hl.operator (mem_of_has hop) hts)
    simpa using this

theorem binary_mends {operand : Parser Expr} (ho : Mendable s operand Signed) (sound : Sound s operand Signed) :
    ∀ ls : List Level, Mendable s (binary operand (ls.map Level.kinds)) (Chain ls)
  | [] => ho.tail fun _ ⟨e, he⟩ => ⟨e, .signed he⟩
  | _ :: ls =>
    .bind (binary_mends ho sound ls) (binary_sound sound ls) fun _ _ hus => .stepBound fun m =>
      chain_mends (binary_mends ho sound ls) (binary_sound sound ls) m (.operand hus)

theorem signed_mends {primary : Parser Expr} (hp : Mendable s primary Primary) (n : Nat) :
    Mendable s (signed primary n) Signed := by
  have hprimary : Mendable s primary Signed := hp.tail fun _ h => h.imp fun _ => .primary
  induction n with
  | zero => exact .outOfSteps hprimary.start
  | succ n ih =>
    refine .isNext (.expect (k := .plus) rfl rfl (by decide) fun op hop => ?_) hprimary
    have hsign : op.kind = .plus ∨ op.kind = .minus := by
      simpa [signs, Expected.has, or_comm] using hop
    exact (ih.tail fun _ h => h.elim fun _ he => ⟨_, .sign hsign he⟩).map

/-! ### Arguments -/

theorem moreArguments_mends {argument : Parser Expr} (ha : Mendable s argument Expression)
    (sound : Sound s argument Expression) (n : Nat) : Mendable s (moreArguments argument n) MoreArguments := by
  induction n with
  | zero => exact .outOfSteps (.done ⟨[], .none⟩)
  | succ n ih =>
    refine .nextIs (.skip fun comma hcomma => .bind ha sound fun ts e hts => ?_) (.pure ⟨[], .none⟩)
    exact (ih.tail fun us ⟨es, hus⟩ => ⟨e :: es, by simpa using .some hcomma hts hus⟩).map

theorem arguments_mends {argument : Parser Expr} (ha : Mendable s argument Expression)
    (sound : Sound s argument Expression) :
    Mendable s (arguments argument) fun ts es =>
      ∃ lp us rp, ts = lp :: (us ++ [rp]) ∧ lp.kind = .lparen ∧ Arguments us es ∧ rp.kind = .rparen := by
  refine .skip fun lp hlp => .nextIs ?_ ?_
  · exact .skip fun rp hrp => .pure ⟨_, lp, [], rp, rfl, hlp, .none, hrp⟩
  · refine .bind ha sound fun ts e hts => .stepBound fun m =>
      .bind (moreArguments_mends ha sound m) (moreArguments_sound sound m) fun us es hus => ?_
    exact .skip fun rp hrp => .pure ⟨_, lp, ts ++ us, rp, by simp, hlp, .some hts hus, hrp⟩

/-! ### Primary expressions -/

/-- The least expression is a name. -/
theorem completable_primary : Completable (fun ts => ∃ e, Primary ts e) [] :=
  ⟨_, plain_sample (k := .ident) (by decide) (by decide), _, .var rfl⟩

/-- The only error of the program text in a literal stands at the literal. -/
theorem literal_error {t : Token} {e : ParseError} (h : literal? t = some (.error e)) (hd : e.diagnostic? ≠ none) :
    e = .integerOutOfRange t.text t.position := by
  rcases error_of_literal? h with rfl | ⟨digits, rfl⟩ | rfl | rfl
  · exact absurd rfl hd
  · exact absurd rfl hd
  · rfl
  · exact absurd rfl hd

theorem primary_mends {inner : Parser Expr} (hi : Mendable s inner Expression) (sound : Sound s inner Expression) :
    Mendable s (primary inner) Primary := by
  refine ⟨completable_primary, fun c hc => ?_⟩
  rw [primary, peek_bind]
  have hnext := ahead_of_next (s := s) (c := c)
  have hforward := forward_le (s := s) (c := c)
  generalize ht : s.next (s.ahead c) = t at hnext hforward ⊢
  cases hv : literal? t with
  | some r =>
    have hk : t.kind ≠ .eof := fun hk => by rw [literal?_of_final (by rw [hk]; rfl)] at hv; cases hv
    cases r with
    | ok v => exact hforward hk
    | error e =>
      intro hd
      obtain rfl := literal_error hv hd
      exact Mended.stop (α := Expr) ht rfl rfl rfl completable_primary hd
  | none =>
    cases hk : t.kind with
    | ident =>
      have hrest : Mends s
          (do if ← nextIs .lparen then return .call t.text (← arguments inner) else return .var t.text : Parser Expr)
          (fun ts => ∃ e, Primary ts e) [t] := by
        refine .nextIs (.bind (arguments_mends hi sound) (arguments_sound sound) ?_) (.pure ⟨_, .var hk⟩)
        rintro _ es ⟨lp, us, rp, rfl, hlp, hus, hrp⟩
        exact .pure ⟨_, .call hk hlp hus hrp⟩
      exact (hrest.run _ (hforward (by simp [hk]))).back (hnext (by simp [hk])) rfl
    | lparen =>
      have hrest : Mends s (do let e ← inner; discard (expectKind .rparen); return e)
          (fun ts => ∃ e, Primary ts e) [t] :=
        .bind hi sound fun us e hus => .skip fun rp hrp => .pure ⟨e, by simpa using .parens hk hus hrp⟩
      exact (hrest.run _ (hforward (by simp [hk]))).back (hnext (by simp [hk])) rfl
    | _ => exact Mended.stop ht rfl rfl rfl completable_primary

theorem least_expression (ls : List Level) :
    Chain ls [Token.sample .ident] (.var (Token.sample .ident).text) := Primary.chain (.var rfl) ls

theorem completable_expression {ls : List Level} : Completable (fun ts => ∃ e, Chain ls ts e) [] :=
  ⟨_, plain_sample (by decide) (by decide), _, least_expression ls⟩

section Simple
variable (fits : ∀ t ∈ s.body, t.Fits)
include fits

theorem nested_mends (depth : Nat) : Mendable s (nested depth) Expression := by
  induction depth with
  | zero => exact .outOfSteps completable_expression
  | succ depth ih =>
    have hp := primary_mends ih (nested_sound fits depth)
    have sound := primary_sound fits (nested_sound fits depth)
    exact .stepBound fun m => binary_mends (signed_mends hp m) (signed_sound sound m) Level.all

theorem expression_mends : Mendable s expression Expression := .stepBound (nested_mends fits)

end Simple

/-! ### Types and parameters -/

/-- The text of an unknown type is at fault, the token itself is not. -/
theorem typeName_mends {read : String → Option Ty} (ty : Ty) (hty : read ty.name = some ty)
    (hname : Token.IsName ty.name) :
    Mendable s (typeName read) fun ts ty => ∃ t, ts = [t] ∧ t.kind = .ident ∧ read t.text = some ty := by
  have hstart : Completable (fun ts => ∃ ty t, ts = [t] ∧ t.kind = .ident ∧ read t.text = some ty) [] :=
    ⟨[⟨.ident, ty.name, ⟨1, 1⟩⟩], List.forall_mem_singleton.mpr ⟨hname, nofun, nofun⟩, ty, _, rfl, rfl, hty⟩
  refine ⟨hstart, fun c hc => ?_⟩
  rw [typeName, expectKind, expect_bind, peek_bind]
  split
  · next hk =>
    rw [step_bind]
    cases read (s.next (s.ahead c)).text with
    | some ty => exact forward_le (by rintro heof; rw [heof] at hk; cases hk)
    | none => exact Mended.stop rfl rfl rfl rfl hstart
  · exact Mended.stop rfl rfl rfl rfl hstart

theorem isName_int : Token.IsName Ty.int.name :=
  ⟨'i', ['n', 't'], rfl, rfl, List.forall_mem_cons.mpr ⟨rfl, List.forall_mem_singleton.mpr rfl⟩, by decide⟩

theorem valueType_mends : Mendable s valueType fun ts ty => ∃ t, ts = [t] ∧ NamesValue t ty :=
  (typeName_mends .int rfl isName_int).tail fun _ ⟨ty, t, ht, hk, hr⟩ =>
    ⟨ty, t, ht, ⟨hk, (Ty.ofValueName?_eq_some.mp hr).1⟩, (Ty.ofValueName?_eq_some.mp hr).2⟩

theorem resultType_mends : Mendable s resultType fun ts ty => ∃ t, ts = [t] ∧ Names t ty :=
  (typeName_mends .int rfl isName_int).tail fun _ ⟨ty, t, ht, hk, hr⟩ =>
    ⟨ty, t, ht, hk, Ty.ofName?_eq_some.mp hr⟩

theorem parametersUpTo_mends (n : Nat) : Mendable s (parametersUpTo n) Parameters := by
  -- One parameter, and then what may follow it.
  have one {L : List Token → Prop} {f : Token → Ty → Parser (List Param)}
      (hf : ∀ name ty ts, Parameter ts ⟨name.text, ty⟩ → Mends s (f name ty) L ts) :
      Mends s (do
        let name ← expectKind .ident
        discard (expectKind .colon)
        let ty ← valueType
        f name ty) L [] := by
    refine .expectKind fun name hname => .skip fun colon hcolon => .bind valueType_mends valueType_sound ?_
    rintro _ ty ⟨type, rfl, htype⟩
    exact hf name ty _ (.mk hname hcolon htype)
  induction n with
  | zero =>
    have hone := one (L := fun ts => ∃ ps, Parameters ts ps) (f := fun name ty => pure [⟨name.text, ty⟩])
      fun _ _ _ h => .pure ⟨_, .one h⟩
    exact .outOfSteps hone.start
  | succ n ih =>
    refine one fun name ty ts h => .nextIs (.skip fun comma hcomma => ?_) (.pure ⟨_, .one h⟩)
    exact (ih.tail fun us ⟨ps, hus⟩ => ⟨_ :: ps, by simpa using .more h hcomma hus⟩).map

theorem parameters_mends : Mendable s parameters Parameters := .stepBound parametersUpTo_mends

/-! ### Statements without a body -/

section Statements
variable (fits : ∀ t ∈ s.body, t.Fits)
include fits

theorem varDecl_mends : Mendable s varDecl VarDecl := by
  refine .skip fun word hword => .expectKind fun name hname => .skip fun colon hcolon =>
    .bind valueType_mends valueType_sound ?_
  rintro _ ty ⟨type, rfl, htype⟩
  refine .nextIs (.skip fun eq heq => ?_) ?_
  · refine .bind (expression_mends fits) (expression_sound fits) fun ts e he => .skip fun semi hsemi => ?_
    exact .pure ⟨_, by simpa using .init hword hname hcolon htype heq he hsemi⟩
  · exact .skip fun semi hsemi => .pure ⟨_, .plain hword hname hcolon htype hsemi⟩

theorem assignment_mends (required : Bool) :
    Mendable s (assignment required) fun ts st =>
      (required = false ∧ Assign ts st) ∨ ∃ us semi, ts = us ++ [semi] ∧ Assign us st ∧ semi.kind = .semicolon := by
  refine .expectKind fun name hname => .skip fun eq heq =>
    .bind (expression_mends fits) (expression_sound fits) fun ts e he => ?_
  have ha : Assign (name :: eq :: ts) (.assign name.text e) := .mk hname heq he
  have closed (semi : Token) (hsemi : semi.kind = .semicolon) :
      Mends s (pure (.assign name.text e) : Parser Stmt) (fun ts => ∃ st, (required = false ∧ Assign ts st) ∨
        ∃ us semi, ts = us ++ [semi] ∧ Assign us st ∧ semi.kind = .semicolon) (name :: eq :: ts ++ [semi]) :=
    .pure ⟨_, .inr ⟨_, semi, rfl, ha, hsemi⟩⟩
  cases required with
  | true => exact .skip closed
  | false => exact .skipIf closed (.pure ⟨_, .inl ⟨rfl, ha⟩⟩)

theorem condition_mends {k : Token.Kind} (he : k ≠ .eof) (hi : k ≠ .invalid) :
    Mendable s (condition k) (Condition k) := by
  refine .skip (fun word hword => .skip fun lp hlp =>
    .bind (expression_mends fits) (expression_sound fits) fun ts e he => .skip fun rp hrp => ?_) he hi
  exact .pure ⟨e, by simpa using .mk hword hlp he hrp⟩

theorem printStatement_mends : Mendable s printStatement Statement := by
  refine .skip fun word hword => .skip fun lp hlp =>
    .bind (expression_mends fits) (expression_sound fits) fun ts e he => .skip fun rp hrp => .skip fun semi hsemi => ?_
  exact .pure ⟨_, by simpa using Statement.print (.mk hword hlp he hrp) hsemi⟩

omit fits in
theorem inputStatement_mends : Mendable s inputStatement Statement :=
  .skip fun _ hword => .skip fun _ hlp => .expectKind fun _ hname => .skip fun _ hrp => .skip fun _ hsemi =>
    .pure ⟨_, .input hword hlp hname hrp hsemi⟩

theorem returnStatement_mends : Mendable s returnStatement Statement := by
  refine .skip fun word hword => .nextIs ?_ ?_
  · exact .skip fun semi hsemi => .pure ⟨_, .retNone hword hsemi⟩
  · refine .bind (expression_mends fits) (expression_sound fits) fun ts e he => .skip fun semi hsemi => ?_
    exact .pure ⟨_, by simpa using .retSome hword he hsemi⟩

theorem expressionStatement_mends : Mendable s expressionStatement Statement := by
  refine .bind (expression_mends fits) (expression_sound fits) fun ts e he => ?_
  exact .skip fun semi hsemi => .pure ⟨_, .expr he hsemi⟩

/-- An assignment that must have its semicolon. -/
theorem assignmentStatement_mends :
    Mendable s (assignment true) fun ts st => ∃ us semi, ts = us ++ [semi] ∧ Assign us st ∧ semi.kind = .semicolon :=
  (assignment_mends fits true).tail fun _ ⟨st, h⟩ => ⟨st, h.resolve_left fun h' => nomatch h'.1⟩

/-! ### Headers of loops -/

/-- An identifier at which no header can go on was right in itself: an assignment begins with it. -/
theorem forInitializer_mends : Mendable s forInitializer ForInit := by
  have hdecl : Mendable s varDecl ForInit := (varDecl_mends fits).tail fun _ ⟨st, h⟩ => ⟨st, .decl h⟩
  have hassign : Mendable s (assignment true) ForInit := (assignmentStatement_mends fits).tail fun _ ⟨st, h⟩ => by
    obtain ⟨us, semi, hts, ha, hsemi⟩ := h
    exact ⟨st, hts ▸ .assign ha hsemi⟩
  -- An identifier is completed by an assignment sign, a name and a semicolon.
  have hbegun {name : Token} (hname : name.kind = .ident) : Completable (fun ts => ∃ st, ForInit ts st) [name] := by
    refine ⟨[Token.sample .assign] ++ [Token.sample .ident] ++ [Token.sample .semicolon], ?_, _,
      .assign (.mk hname rfl (least_expression _)) rfl⟩
    exact ((plain_sample (by decide) (by decide)).append (plain_sample (by decide) (by decide))).append
      (plain_sample (by decide) (by decide))
  refine ⟨hdecl.start, fun c hc => ?_⟩
  rw [forInitializer, nextIs_bind_ite]
  split
  · exact hdecl.run c hc
  rw [nextIsAssignment_bind_ite]
  split
  · exact hassign.run c hc
  rw [peek_bind]
  have hget : s.stream.get c.consumed = s.next (s.ahead c) := s.get_stream _
  by_cases hname : (s.next (s.ahead c)).kind = .ident
  · have hnext : s.ahead c = [s.next (s.ahead c)] ++ s.ahead (forward c) := ahead_of_next (by simp [hname])
    have hsight : errorSight s.stream (.forInitializer (s.next (s.ahead c)).position) c = c.consumed + 1 :=
      if_pos (hget ▸ hname)
    exact fun _ => ⟨isPlaced_next rfl rfl rfl, _, _, hnext, hsight, hbegun hname⟩
  · exact Mended.stop rfl rfl rfl (if_neg (hget ▸ hname)) hdecl.start

theorem forStep_mends : Mendable s forStep ForStep := by
  refine .nextIsAssignment ((assignment_mends fits false).tail ?_) ?_
  · rintro _ ⟨st, ⟨-, ha⟩ | ⟨us, semi, rfl, ha, hsemi⟩⟩
    · exact ⟨st, .assign ha⟩
    · exact ⟨st, .assignClosed ha hsemi⟩
  · refine .bind (expression_mends fits) (expression_sound fits) fun ts e he => ?_
    exact .skipIf (fun semi hsemi => .pure ⟨_, .exprClosed he hsemi⟩) (.pure ⟨_, .expr he⟩)

/-! ### Statements with a body -/

section Body
variable {body : Parser (List Stmt)} (hb : Mendable s body Block) (sound : Sound s body Block)
include hb sound

theorem ifStatement_mends : Mendable s (ifStatement body) Statement := by
  refine .bind (condition_mends fits (by decide) (by decide)) (condition_sound fits (by decide)) fun ts cond hts =>
    .bind hb sound fun us yes hus => .nextIs ?_ ?_
  · refine .skip fun word hword => .bind hb sound fun vs no hvs => ?_
    exact .pure ⟨_, by simpa using Statement.ifElse hts hus hword hvs⟩
  · exact .pure ⟨_, .ifThen hts hus⟩

theorem whileStatement_mends : Mendable s (whileStatement body) Statement :=
  .bind (condition_mends fits (by decide) (by decide)) (condition_sound fits (by decide)) fun _ _ hts =>
    .bind hb sound fun _ _ hus => .pure ⟨_, .whileLoop hts hus⟩

theorem forStatement_mends : Mendable s (forStatement body) Statement := by
  refine .skip fun word hword => .skip fun lp hlp =>
    .bind (forInitializer_mends fits) (forInitializer_sound fits) fun ts init hts =>
      .bind (expression_mends fits) (expression_sound fits) fun us cond hus => .skip fun semi hsemi =>
        .bind (forStep_mends fits) (forStep_sound fits) fun vs step hvs => .skip fun rp hrp =>
          .bind hb sound fun ws stmts hws => ?_
  exact .pure ⟨_, by simpa using Statement.forLoop hword hlp hts hus hsemi hvs hrp hws⟩

omit fits in
theorem functionDeclaration_mends : Mendable s (functionDeclaration body) Statement := by
  refine .skip fun word hword => .expectKind fun name hname => .skip fun lp hlp => ?_
  -- What follows the parameters.
  have rest (params : List Param) (ts : List Token) (hts : ParameterList ts params) :
      Mends s (do
        discard (expectKind .rparen)
        discard (expectKind .colon)
        let result ← resultType
        let stmts ← body
        recordFunction name.text params.length
        return .function name.text params result stmts : Parser Stmt)
        (fun ts => ∃ st, Statement ts st) ([] ++ [word] ++ [name] ++ [lp] ++ ts) := by
    refine .skip fun rp hrp => .skip fun colon hcolon => .bind resultType_mends resultType_sound ?_
    rintro _ result ⟨type, rfl, htype⟩
    refine .bind hb sound fun us stmts hus => ?_
    have hfunction := Statement.function hword hname hlp hts hrp hcolon htype hus
    exact ⟨.done ⟨_, by simpa using hfunction⟩, fun c hc => hc⟩
  refine .nextIs ?_ (.bind parameters_mends parameters_sound fun ts params hts => rest params ts (.some hts))
  simpa using rest [] [] .none

end Body

/-! ### Blocks and programs -/

omit fits in
theorem blockRest_mends {statement : Parser Stmt} (hs : Mendable s statement Statement)
    (sound : Sound s statement Statement) (n : Nat) : Mendable s (blockRest statement n) Statements := by
  have hstart : Completable (fun ts => ∃ ss, Statements ts ss) [] := .done ⟨[], .none⟩
  induction n with
  | zero => exact .outOfSteps hstart
  | succ n ih =>
    have hunterminated : Mends s (do throw (.unterminatedBlock (← peek 0).position) : Parser (List Stmt))
        (fun ts => ∃ ss, Statements ts ss) [] :=
      ⟨hstart, fun c _ => by
        rw [peek_bind]
        exact Mended.stop rfl rfl rfl rfl hstart⟩
    refine .nextIs (.pure ⟨[], .none⟩) (.nextIs hunterminated (.bind hs sound fun ts st hts => ?_))
    exact (ih.tail fun us ⟨ss, hus⟩ => ⟨_ :: ss, .some hts hus⟩).map

omit fits in
theorem blockOf_mends {statement : Parser Stmt} (hs : Mendable s statement Statement)
    (sound : Sound s statement Statement) : Mendable s (blockOf statement) Block := by
  refine .skip fun lb hlb => .stepBound fun m =>
    .bind (blockRest_mends hs sound m) (blockRest_sound sound m) fun ts body hts => .skip fun rb hrb => ?_
  exact .pure ⟨_, by simpa using Block.mk hlb hts hrb⟩

theorem statementUpTo_mends (depth : Nat) : Mendable s (statementUpTo depth) Statement := by
  induction depth with
  | zero => exact .outOfSteps (inputStatement_mends (s := s)).start
  | succ depth ih =>
    have hb := blockOf_mends ih (statementUpTo_sound fits depth)
    have sound := blockOf_sound (statementUpTo_sound fits depth)
    refine .peek fun t => ?_
    cases t.kind with
    | varWord => exact (varDecl_mends fits).tail fun _ ⟨st, h⟩ => ⟨st, .varDecl h⟩
    | printWord => exact printStatement_mends fits
    | inputWord => exact inputStatement_mends
    | ifWord => exact ifStatement_mends fits hb sound
    | whileWord => exact whileStatement_mends fits hb sound
    | forWord => exact forStatement_mends fits hb sound
    | funcWord => exact functionDeclaration_mends hb sound
    | returnWord => exact returnStatement_mends fits
    | _ =>
      refine .nextIsAssignment ((assignmentStatement_mends fits).tail ?_) (expressionStatement_mends fits)
      rintro _ ⟨st, us, semi, rfl, ha, hsemi⟩
      exact ⟨st, .assign ha hsemi⟩

theorem statement_mends : Mendable s statement Statement := .stepBound (statementUpTo_mends fits)

theorem statements_mends (n : Nat) : Mendable s (statements n) Statements := by
  induction n with
  | zero => exact .outOfSteps (.done ⟨[], .none⟩)
  | succ n ih =>
    refine .nextIs (.pure ⟨[], .none⟩) (.bind (statement_mends fits) (statement_sound fits) fun ts st hts => ?_)
    exact (ih.tail fun us ⟨ss, hus⟩ => ⟨_ :: ss, .some hts hus⟩).map

theorem program_mends : Mendable s program fun ts p => Statements ts p.body :=
  .stepBound fun m => ((statements_mends fits m).tail fun _ ⟨ss, h⟩ => ⟨⟨ss⟩, h⟩).map

end Statements

end Syntax
end TypedImp

import TypedImp.Proofs.Syntax.Soundness

/-! Whatever the tokens ahead derive is read, when what follows cannot continue it. The steps that bound
    loops and nesting are never used up: each of them consumes a token. -/

namespace TypedImp
namespace Syntax
open Grammar (Level)
open TypedImp.Parser

variable {s : Source} {α β : Type}

/-! ### Parsers that succeed -/

/-- Where `us` is ahead, `p` answers `a` and leaves `vs` ahead. -/
def Parses (s : Source) (p : Parser α) (us : List Token) (a : α) (vs : List Token) : Prop :=
  ∀ c : Cursor, s.ahead c = us → ∃ c', p s.stream c = .ok a c' ∧ s.ahead c' = vs

namespace Parses

theorem pure {a : α} {us : List Token} : Parses s (pure a) us a us := fun c hc => ⟨c, rfl, hc⟩

theorem bind {p : Parser α} {f : α → Parser β} {a : α} {b : β} {us vs ws : List Token}
    (hp : Parses s p us a vs) (hf : Parses s (f a) vs b ws) : Parses s (p >>= f) us b ws := fun c hc => by
  obtain ⟨d, hd, hvs⟩ := hp c hc
  obtain ⟨e, he, hws⟩ := hf d hvs
  exact ⟨e, by rw [bind_of_ok hd, he], hws⟩

theorem map {p : Parser α} {f : α → β} {a : α} {us vs : List Token} (hp : Parses s p us a vs) :
    Parses s (p >>= fun a => Pure.pure (f a)) us (f a) vs := hp.bind .pure

theorem discard {p : Parser α} {a : α} {us vs : List Token} (hp : Parses s p us a vs) :
    Parses s (discard p) us () vs := fun c hc => by
  obtain ⟨d, hd, hvs⟩ := hp c hc
  exact ⟨d, discard_eq_ok.mpr ⟨a, hd⟩, hvs⟩

theorem expect {e : Expected} {t : Token} {us : List Token} (ht : e.has t.kind = true)
    (he : e.has .eof = false := by rfl) : Parses s (expect e) (t :: us) t us := fun c hc =>
  ⟨forward c, (expect_eq_ok he).mpr ⟨us, hc, ht, rfl⟩, ahead_forward hc⟩

theorem expectKind {k : Token.Kind} {t : Token} {us : List Token} (ht : t.kind = k)
    (hk : k ≠ .eof := by decide) : Parses s (expectKind k) (t :: us) t us := fun c hc =>
  ⟨forward c, (expectKind_eq_ok hk).mpr ⟨us, hc, ht, rfl⟩, ahead_forward hc⟩

/-- A token of which only the kind counts. -/
theorem skip {k : Token.Kind} {t : Token} {us vs : List Token} {f : Unit → Parser β} {b : β} (ht : t.kind = k)
    (hf : Parses s (f ()) us b vs) (hk : k ≠ .eof := by decide) :
    Parses s (Functor.discard (Parser.expectKind k) >>= f) (t :: us) b vs :=
  (Parses.expectKind ht hk).discard.bind hf

theorem step {t : Token} {us vs : List Token} {f : Unit → Parser β} {b : β} (hf : Parses s (f ()) us b vs) :
    Parses s (step >>= f) (t :: us) b vs := fun c hc => by
  rw [step_bind]
  exact hf _ (ahead_forward hc)

theorem peek {us vs : List Token} {f : Token → Parser β} {b : β} (hf : Parses s (f (s.next us)) us b vs) :
    Parses s (peek 0 >>= f) us b vs := fun c hc => by
  rw [peek_bind, hc]
  exact hf c hc

/-- There are always more steps than tokens ahead. -/
theorem stepBound {us vs : List Token} {f : Nat → Parser β} {b : β}
    (hf : us.length ≤ s.body.length → Parses s (f (s.body.length + 2)) us b vs) :
    Parses s (stepBound >>= f) us b vs := fun c hc => by
  rw [stepBound_bind]
  exact hf (hc ▸ s.length_ahead_le c) c hc

theorem isNext {e : Expected} {p q : Parser β} {us vs : List Token} {b : β}
    (h : Parses s (if e.has (s.next us).kind = true then p else q) us b vs) :
    Parses s (isNext e >>= fun b => if b = true then p else q) us b vs := fun c hc => by
  rw [isNext_bind_ite, hc]
  obtain ⟨c', h', hvs⟩ := h c hc
  refine ⟨c', ?_, hvs⟩
  rw [← h']
  split <;> rfl

theorem nextIs {k : Token.Kind} {p q : Parser β} {us vs : List Token} {b : β}
    (h : Parses s (if (s.next us).kind = k then p else q) us b vs) :
    Parses s (nextIs k >>= fun b => if b = true then p else q) us b vs := fun c hc => by
  rw [nextIs_bind_ite, hc]
  obtain ⟨c', h', hvs⟩ := h c hc
  refine ⟨c', ?_, hvs⟩
  rw [← h']
  split <;> rfl

theorem nextIsAssignment {p q : Parser β} {us vs : List Token} {b : β}
    (h : Parses s (if (s.next us).kind = .ident ∧ (s.next us.tail).kind = .assign then p else q) us b vs) :
    Parses s (nextIsAssignment >>= fun b => if b = true then p else q) us b vs := fun c hc => by
  rw [nextIsAssignment_bind_ite, hc]
  obtain ⟨c', h', hvs⟩ := h c hc
  refine ⟨c', ?_, hvs⟩
  rw [← h']
  split <;> rfl

theorem skipIf_present {k : Token.Kind} {t : Token} {us vs : List Token} {f : Unit → Parser β} {b : β}
    (ht : t.kind = k) (hf : Parses s (f ()) us b vs) (hk : k ≠ .eof := by decide) :
    Parses s (skipIf k >>= f) (t :: us) b vs := by
  refine Parses.bind (Parses.nextIs ?_) hf
  rw [s.next_cons, if_pos ht]
  exact (Parses.expectKind ht hk).discard

theorem skipIf_absent {k : Token.Kind} {us vs : List Token} {f : Unit → Parser β} {b : β}
    (hk : (s.next us).kind ≠ k) (hf : Parses s (f ()) us b vs) : Parses s (skipIf k >>= f) us b vs := by
  refine Parses.bind (Parses.nextIs ?_) hf
  rw [if_neg hk]
  exact .pure

end Parses

/-! ### First tokens -/

/-- The tokens with which an expression can begin. -/
def startKinds : List Token.Kind :=
  [.plus, .minus, .integer, .float, .boolean, .char, .string, .ident, .lparen]

/-- The tokens with which an expression behind its signs can begin. -/
def primaryKinds : List Token.Kind := [.integer, .float, .boolean, .char, .string, .ident, .lparen]

theorem Primary.begins {ts : List Token} {e : Expr} (h : Primary ts e) :
    ∃ t us, ts = t :: us ∧ t.kind ∈ primaryKinds := by
  cases h with
  | integer hk => exact ⟨_, _, rfl, by simp [hk, primaryKinds]⟩
  | float hk => exact ⟨_, _, rfl, by simp [hk, primaryKinds]⟩
  | boolean hk => exact ⟨_, _, rfl, by simp [hk, primaryKinds]⟩
  | char hk => exact ⟨_, _, rfl, by simp [hk, primaryKinds]⟩
  | string hk => exact ⟨_, _, rfl, by simp [hk, primaryKinds]⟩
  | var hk => exact ⟨_, _, rfl, by simp [hk, primaryKinds]⟩
  | call hk => exact ⟨_, _, rfl, by simp [hk, primaryKinds]⟩
  | parens hk => exact ⟨_, _, rfl, by simp [hk, primaryKinds]⟩

theorem Signed.begins {ts : List Token} {e : Expr} (h : Signed ts e) : ∃ t us, ts = t :: us ∧ t.kind ∈ startKinds := by
  cases h with
  | primary hp =>
    obtain ⟨t, us, rfl, ht⟩ := hp.begins
    exact ⟨t, us, rfl, List.mem_cons_of_mem _ (List.mem_cons_of_mem _ ht)⟩
  | sign hop _ =>
    refine ⟨_, _, rfl, ?_⟩
    rcases hop with hop | hop <;> simp [hop, startKinds]

theorem Chain.begins {ls : List Level} {ts : List Token} {e : Expr} (h : Chain ls ts e) :
    ∃ t us, ts = t :: us ∧ t.kind ∈ startKinds := by
  cases h with
  | signed hs => exact hs.begins
  | operand h => exact h.begins
  | operator h _ _ =>
    obtain ⟨t, us, rfl, ht⟩ := h.begins
    exact ⟨t, _, rfl, ht⟩

mutual
/-- No assignment sign stands in an expression. -/
theorem Chain.ne_assign {ls : List Level} {ts : List Token} {e : Expr} :
    Chain ls ts e → ∀ t ∈ ts, t.kind ≠ .assign
  | .signed h => h.ne_assign
  | .operand h => h.ne_assign
  | .operator (l := l) h hop h' => by
    simp only [List.mem_append, List.mem_cons]
    rintro t (ht | rfl | ht)
    · exact h.ne_assign t ht
    · cases l <;> simp only [Level.kinds, List.mem_cons, List.not_mem_nil, or_false] at hop <;> grind
    · exact h'.ne_assign t ht

theorem Signed.ne_assign {ts : List Token} {e : Expr} : Signed ts e → ∀ t ∈ ts, t.kind ≠ .assign
  | .primary h => h.ne_assign
  | .sign hop h => by
    simp only [List.mem_cons]
    rintro t (rfl | ht)
    · rcases hop with hop | hop <;> simp [hop]
    · exact h.ne_assign t ht

theorem Primary.ne_assign {ts : List Token} {e : Expr} : Primary ts e → ∀ t ∈ ts, t.kind ≠ .assign
  | .integer hk .. | .float hk .. | .boolean hk | .char hk | .string hk | .var hk => by simp [hk]
  | .call hn hl h hr => by
    simp only [List.mem_append, List.mem_cons, List.not_mem_nil, or_false]
    rintro t (rfl | rfl | ht | rfl)
    · simp [hn]
    · simp [hl]
    · exact h.ne_assign t ht
    · simp [hr]
  | .parens hl h hr => by
    simp only [List.mem_append, List.mem_cons, List.not_mem_nil, or_false]
    rintro t (rfl | ht | rfl)
    · simp [hl]
    · exact h.ne_assign t ht
    · simp [hr]

theorem Arguments.ne_assign {ts : List Token} {es : List Expr} : Arguments ts es → ∀ t ∈ ts, t.kind ≠ .assign
  | .none => by simp
  | .some h h' => by
    simp only [List.mem_append]
    rintro t (ht | ht)
    · exact h.ne_assign t ht
    · exact h'.ne_assign t ht

theorem MoreArguments.ne_assign {ts : List Token} {es : List Expr} :
    MoreArguments ts es → ∀ t ∈ ts, t.kind ≠ .assign
  | .none => by simp
  | .some hc h h' => by
    simp only [List.mem_append, List.mem_cons]
    rintro t (rfl | ht | ht)
    · simp [hc]
    · exact h.ne_assign t ht
    · exact h'.ne_assign t ht
end

/-! ### What ends an expression -/

/-- What is ahead cannot continue an expression of the given levels. -/
structure Stops (s : Source) (ls : List Level) (us : List Token) : Prop where
  call : (s.next us).kind ≠ .lparen
  operator : ∀ l ∈ ls, (s.next us).kind ∉ l.kinds

/-- Parentheses, commas and semicolons end every expression. -/
theorem stops_closer {ls : List Level} {t : Token} {us : List Token}
    (ht : t.kind = .rparen ∨ t.kind = .comma ∨ t.kind = .semicolon) : Stops s ls (t :: us) := by
  constructor <;> rw [s.next_cons] <;> rcases ht with ht | ht | ht <;> rw [ht]
  any_goals decide
  all_goals
    intro l _
    cases l <;> decide

theorem kinds_disjoint {l l' : Level} {k : Token.Kind} (h : k ∈ l.kinds) (h' : k ∈ l'.kinds) : l = l' := by
  have disjoint : ∀ k ∈ l.kinds, k ∈ l'.kinds → l = l' := by
    cases l <;> cases l' <;> decide
  exact disjoint k h h'

theorem kinds_ne_lparen {l : Level} {k : Token.Kind} (h : k ∈ l.kinds) : k ≠ .lparen := by
  rintro rfl
  revert h
  cases l <;> decide

/-- An operator of a looser level ends an expression. -/
theorem stops_operator {l : Level} {ls : List Level} (hl : l ∉ ls) {op : Token} {us : List Token}
    (hop : op.kind ∈ l.kinds) : Stops s ls (op :: us) :=
  ⟨kinds_ne_lparen hop, fun _ hl' hop' => hl (kinds_disjoint hop hop' ▸ hl')⟩

theorem Stops.tail {l : Level} {ls : List Level} {us : List Token} (h : Stops s (l :: ls) us) : Stops s ls us :=
  ⟨h.1, fun l' hl' => h.2 l' (List.mem_cons_of_mem _ hl')⟩

/-- In front of everything that `stop` accepts, `p` reads every part of at most `n` tokens. -/
def Complete (s : Source) (p : Parser α) (D : List Token → α → Prop) (stop : List Token → Prop) (n : Nat) : Prop :=
  ∀ ⦃ts : List Token⦄ ⦃a : α⦄ ⦃vs : List Token⦄, D ts a → ts.length ≤ n → stop vs → Parses s p (ts ++ vs) a vs

/-! ### Operators -/

/-- One round of the loop over the operators of a level. -/
theorem chain_round {l : Level} {operand : Parser Expr} {m : Nat} {op : Token} {left right e : Expr}
    {us vs ws : List Token} (hop : op.kind ∈ l.kinds) (ho : Parses s operand us right vs)
    (h : Parses s (chain l.kinds operand m (.binary left (BinaryOp.ofText op.text) right)) vs e ws) :
    Parses s (chain l.kinds operand (m + 1) left) (op :: us) e ws := by
  have hhas : (Expected.oneOf l.kinds).has op.kind = true := List.elem_eq_true_of_mem hop
  refine Parses.isNext ?_
  rw [s.next_cons, if_pos hhas]
  exact (Parses.expect hhas (oneOf_kinds l)).bind (ho.bind h)

theorem chain_end {l : Level} {operand : Parser Expr} {m : Nat} {e : Expr} {us : List Token}
    (h : (s.next us).kind ∉ l.kinds) : Parses s (chain l.kinds operand (m + 1) e) us e us := by
  refine Parses.isNext ?_
  rw [if_neg fun hhas => h (mem_of_has hhas)]
  exact .pure

/-- An expression is read as its first operand and then some rounds of the loop. -/
theorem chain_complete {l : Level} {ls : List Level} (hl : l ∉ ls) {operand : Parser Expr} {n : Nat}
    (ho : Complete s operand (Chain ls) (Stops s ls) n) {ts : List Token} {e : Expr} :
    Chain (l :: ls) ts e → ts.length ≤ n → ∀ vs, Stops s ls vs →
      ∃ first us k, Parses s operand (ts ++ vs) first us ∧ k + vs.length ≤ us.length ∧
        ∀ m b ws, Parses s (chain l.kinds operand m e) vs b ws →
          Parses s (chain l.kinds operand (m + k) first) us b ws
  | .operand h, hn, vs, hvs => ⟨e, vs, 0, ho h hn hvs, by omega, fun _ _ _ hm => hm⟩
  | @Chain.operator _ _ ts₁ us₁ op _ _ h hop h', hn, vs, hvs => by
    simp only [List.length_append, List.length_cons] at hn
    obtain ⟨first, us, k, hfirst, hk, hloop⟩ :=
      chain_complete hl ho h (by omega) (op :: (us₁ ++ vs)) (stops_operator hl hop)
    simp only [List.length_append, List.length_cons] at hk
    refine ⟨first, us, k + 1, by simpa using hfirst, by omega, fun m b ws hm => ?_⟩
    have hround := chain_round hop (ho h' (by omega) hvs) hm
    have := hloop (m + 1) b ws hround
    rwa [Nat.add_right_comm] at this

theorem binary_complete {operand : Parser Expr} {n : Nat} (ho : Complete s operand Signed (Stops s []) n) :
    ∀ ls : List Level, ls.Nodup →
      Complete s (binary operand (ls.map Level.kinds)) (Chain ls) (Stops s ls) n
  | [], _ => fun _ _ _ h hn hvs => by
    cases h with
    | signed h => exact ho h hn hvs
  | l :: ls, hnd => fun ts e vs h hn hvs => by
    obtain ⟨hl, hnd⟩ := List.nodup_cons.mp hnd
    obtain ⟨first, us, k, hfirst, hk, hloop⟩ :=
      chain_complete hl (binary_complete ho ls hnd) h hn vs hvs.tail
    refine hfirst.bind (Parses.stepBound fun hus => ?_)
    have hsteps : s.body.length + 2 = s.body.length + 1 - k + 1 + k := by omega
    rw [hsteps]
    exact hloop _ e vs (chain_end (hvs.2 l (by simp)))

theorem signed_complete {primary : Parser Expr} {n : Nat}
    (hp : Complete s primary Primary (Stops s []) n) {ts : List Token} {e : Expr} :
    Signed ts e → ts.length ≤ n → ∀ m vs, ts.length < m → Stops s [] vs →
      Parses s (signed primary m) (ts ++ vs) e vs
  | .primary h, hn, m + 1, vs, _, hvs => by
    obtain ⟨t, us, rfl, ht⟩ := h.begins
    refine Parses.isNext ?_
    have hhas : ¬signs.has t.kind = true := by
      revert ht
      cases t.kind <;> decide
    rw [List.cons_append, s.next_cons, if_neg hhas]
    exact hp h hn hvs
  | @Signed.sign op _ _ hop h, hn, m + 1, vs, hm, hvs => by
    simp only [List.length_cons] at hn hm
    have hhas : signs.has op.kind = true := by
      rcases hop with hop | hop <;> rw [hop] <;> rfl
    refine Parses.isNext ?_
    rw [List.cons_append, s.next_cons, if_pos hhas]
    exact (Parses.expect hhas).bind (signed_complete hp h (by omega) m vs (by omega) hvs).map

/-! ### Arguments -/

theorem moreArguments_complete {argument : Parser Expr} {n : Nat}
    (ha : Complete s argument Expression (Stops s Level.all) n) {es : List Expr} {ts : List Token} {m : Nat}
    {rp : Token} {vs : List Token} (h : MoreArguments ts es) (hn : ts.length ≤ n) (hm : ts.length < m)
    (hrp : rp.kind = .rparen) : Parses s (moreArguments argument m) (ts ++ rp :: vs) es (rp :: vs) := by
  induction es generalizing ts m with
  | nil =>
    cases h
    obtain ⟨m, rfl⟩ := Nat.exists_eq_add_one_of_ne_zero (Nat.ne_of_gt hm)
    refine Parses.nextIs ?_
    rw [List.nil_append, s.next_cons, if_neg (by simp [hrp])]
    exact .pure
  | cons e es ih =>
    obtain ⟨m, rfl⟩ := Nat.exists_eq_add_one_of_ne_zero (Nat.ne_of_gt (Nat.zero_lt_of_lt hm))
    cases h with
    | @some comma ts us _ _ hc h h' =>
      simp only [List.length_cons, List.length_append] at hn hm
      refine Parses.nextIs ?_
      rw [List.cons_append, s.next_cons, if_pos hc, List.append_assoc]
      have hstop : Stops s Level.all (us ++ rp :: vs) := by
        cases h' with
        | none => exact stops_closer (.inl hrp)
        | some hc' => exact stops_closer (.inr (.inl hc'))
      exact .skip hc ((ha h (by omega) hstop).bind (ih h' (by omega) (by omega)).map)

theorem arguments_complete {argument : Parser Expr} {n : Nat}
    (ha : Complete s argument Expression (Stops s Level.all) n) {ts : List Token} {es : List Expr}
    {lp rp : Token} {vs : List Token} (hlp : lp.kind = .lparen) (h : Arguments ts es) (hrp : rp.kind = .rparen)
    (hn : ts.length ≤ n) : Parses s (arguments argument) (lp :: (ts ++ rp :: vs)) es vs := by
  refine .skip hlp (Parses.nextIs ?_)
  cases h with
  | none =>
    rw [List.nil_append, s.next_cons, if_pos hrp]
    exact Parses.pure.bind (.skip hrp .pure)
  | @some ts us e es h h' =>
    simp only [List.length_append] at hn
    obtain ⟨t, us', rfl, ht⟩ := h.begins
    have hstart : t.kind ≠ .rparen := by
      intro hk
      rw [hk] at ht
      exact absurd ht (by decide)
    rw [List.append_assoc, List.cons_append, s.next_cons, if_neg hstart, ← List.cons_append]
    have hstop : Stops s Level.all (us ++ rp :: vs) := by
      cases h' with
      | none => exact stops_closer (.inl hrp)
      | some hc' => exact stops_closer (.inr (.inl hc'))
    refine (ha h (by omega) hstop).bind (Parses.stepBound fun hlen => ?_)
    simp only [List.length_append, List.length_cons] at hlen
    exact (moreArguments_complete ha h' (by omega) (by omega) hrp).bind
      (Parses.pure.bind (.skip hrp .pure))

/-! ### Primary expressions -/

theorem integer_complete {t : Token} (ht : t.Fits) (hk : t.kind = .integer)
    (hlen : t.text.length ≤ Decimal.maxIntegerDigits)
    (hmax : (Token.decimalValue t.text.toList : Int) ≤ Word.maximum) :
    literal? t = some (.ok (.int (Token.decimalValue t.text.toList))) := by
  simp only [Token.Fits, hk] at ht
  simp only [literal?, hk, integerLiteral, Token.integer_digits ht.1 ht.2]
  rw [if_neg (by omega)]
  simp only [if_neg (Int.not_lt.mpr hmax)]

theorem float_complete {t : Token} (ht : t.Fits) (hk : t.kind = .float) {whole fraction : List Char}
    (htext : t.text.toList = whole ++ '.' :: fraction) (hw : Token.AreDigits whole)
    (hf : Token.AreDigits fraction) :
    literal? t = some (.ok (.float (Token.pointValue whole fraction))) := by
  simp only [Token.Fits, hk] at ht
  obtain ⟨whole', fraction', htext', hne, hw', hf'⟩ := ht
  have htake : ∀ ds fs : List Char, Token.AreDigits ds → (ds ++ '.' :: fs).takeWhile Text.isAsciiDigit = ds := by
    intro ds fs hds
    rw [List.takeWhile_append_of_pos hds, List.takeWhile_cons_of_neg (by decide), List.append_nil]
  have hsame : whole' = whole := by
    rw [← htake whole' fraction' hw', ← htext', htext, htake whole fraction hw]
  subst hsame
  simp only [literal?, hk, floatLiteral, Token.number?_point htext hne hw hf]

theorem literal_complete {inner : Parser Expr} {t : Token} {v : Value} (h : literal? t = some (.ok v))
    {vs : List Token} : Parses s (primary inner) (t :: vs) (.literal v) vs := by
  refine Parses.peek ?_
  rw [s.next_cons]
  simp only [h]
  exact .step .pure

theorem primary_complete (fits : ∀ t ∈ s.body, t.Fits) {inner : Parser Expr} {n : Nat}
    (hi : Complete s inner Expression (Stops s Level.all) n) :
    Complete s (primary inner) Primary (Stops s []) (n + 1) := by
  intro ts e vs h hn hvs c hc
  have hfits : ∀ t ∈ ts, t.Fits := fun t ht =>
    fits t (List.mem_of_mem_drop (i := c.consumed) (by rw [← Source.ahead, hc]; exact List.mem_append_left _ ht))
  revert c
  show Parses s (primary inner) (ts ++ vs) e vs
  cases h with
  | integer hk hlen hmax => exact literal_complete (integer_complete (hfits _ (by simp)) hk hlen hmax)
  | float hk htext hw hf => exact literal_complete (float_complete (hfits _ (by simp)) hk htext hw hf)
  | boolean hk => exact literal_complete (by simp [literal?, hk])
  | char hk => exact literal_complete (by simp [literal?, hk])
  | string hk => exact literal_complete (by simp [literal?, hk])
  | var hk =>
    refine Parses.peek ?_
    rw [List.singleton_append, s.next_cons]
    simp only [literal?, hk]
    refine .step (Parses.nextIs ?_)
    rw [if_neg hvs.1]
    exact .pure
  | call hname hlp h hrp =>
    simp only [List.length_cons, List.length_append, List.length_nil] at hn
    refine Parses.peek ?_
    rw [List.cons_append, s.next_cons]
    simp only [literal?, hname]
    refine .step (Parses.nextIs ?_)
    rw [List.cons_append, s.next_cons, if_pos hlp, List.append_assoc]
    exact (arguments_complete hi hlp h hrp (by omega)).map
  | parens hlp h hrp =>
    simp only [List.length_cons, List.length_append, List.length_nil] at hn
    refine Parses.peek ?_
    rw [List.cons_append, s.next_cons, List.append_assoc]
    simp only [literal?, hlp]
    exact .step ((hi h (by omega) (stops_closer (.inl hrp))).bind (.skip hrp .pure))

section Expressions
variable (fits : ∀ t ∈ s.body, t.Fits)
include fits

/-- Nesting deeper than the number of tokens is never needed. -/
theorem nested_complete (n : Nat) :
    ∀ depth, n < depth → Complete s (nested depth) Expression (Stops s Level.all) n := by
  induction n with
  | zero =>
    intro depth _ ts e vs h hn _
    obtain ⟨t, us, rfl, -⟩ := h.begins
    cases hn
  | succ n ih =>
    intro depth hdepth ts e vs h hn hvs
    obtain ⟨depth, rfl⟩ : ∃ d, depth = d + 1 := ⟨depth - 1, by omega⟩
    refine Parses.stepBound fun hlen => ?_
    rw [List.length_append] at hlen
    have hp := primary_complete fits (ih depth (by omega))
    have hs : Complete s (signed (primary (nested depth)) (s.body.length + 2)) Signed (Stops s []) ts.length :=
      fun us e' vs' h' hn' hvs' => signed_complete hp h' (by omega) _ vs' (by omega) hvs'
    exact binary_complete hs Level.all (by decide) h (Nat.le_refl _) hvs

theorem expression_complete {ts vs : List Token} {e : Expr} (h : Expression ts e) (hvs : Stops s Level.all vs) :
    Parses s expression (ts ++ vs) e vs :=
  Parses.stepBound fun hlen => by
    rw [List.length_append] at hlen
    exact nested_complete fits ts.length _ (by omega) h (Nat.le_refl _) hvs

/-- An expression in front of a parenthesis, a comma or a semicolon. -/
theorem expression_closed {ts vs : List Token} {t : Token} {e : Expr} (h : Expression ts e)
    (ht : t.kind = .rparen ∨ t.kind = .comma ∨ t.kind = .semicolon) :
    Parses s expression (ts ++ t :: vs) e (t :: vs) :=
  expression_complete fits h (stops_closer ht)

end Expressions

end Syntax
end TypedImp

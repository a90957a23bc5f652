import TypedImp.Parser.Statement
import TypedImp.Proofs.Syntax.Derivation

/-! How parsers read. A source is a list of tokens that ends in the end of input, which stands nowhere
    else, and holds no invalid token. What is ahead of a cursor is the list of tokens that are not consumed
    yet, without the end of input; every parser is described by what is ahead before and after it. -/

namespace TypedImp

/-- A list that ends in a final token is taken as it is. -/
theorem TokenStream.tokens_ofList {body : List Token} {last : Token} (h : last.kind.isFinal = true) :
    (ofList (body ++ [last])).tokens = (body ++ [last]).toArray := by
  have hclosing : closing (body ++ [last]) = none := by simp [closing, h]
  unfold ofList
  split
  · next t ht =>
    rw [hclosing] at ht
    cases ht
  · rfl

theorem TokenStream.get_mem (ts : TokenStream) (i : Nat) : ts.get i ∈ ts.tokens :=
  Array.getElem_mem _

namespace Syntax

/-- Tokens that end in the end of input, which stands nowhere else, and none of which is invalid. -/
structure Source where
  body : List Token
  last : Token
  last_eof : last.kind = .eof
  body_plain : ∀ t ∈ body, t.kind ≠ .eof ∧ t.kind ≠ .invalid

namespace Source
variable (s : Source)

def tokens : List Token := s.body ++ [s.last]

def stream : TokenStream := TokenStream.ofList s.tokens

/-- The tokens that are not consumed yet, without the end of input. -/
def ahead (c : Cursor) : List Token := s.body.drop c.consumed

/-- The first of the tokens `us`, or the end of input behind them. -/
def next (us : List Token) : Token := us.headD s.last

@[simp] theorem next_cons (t : Token) (us : List Token) : s.next (t :: us) = t := rfl

@[simp] theorem next_nil : s.next [] = s.last := rfl

theorem stream_tokens : s.stream.tokens = s.tokens.toArray :=
  TokenStream.tokens_ofList (by simp [Token.Kind.isFinal, s.last_eof])

theorem steps_stream : s.stream.steps = s.body.length + 2 := by
  simp [TokenStream.steps, stream_tokens, tokens]

theorem get_stream (i : Nat) : s.stream.get i = s.next (s.body.drop i) := by
  simp only [TokenStream.get, stream_tokens, tokens, List.getElem_toArray, next]
  rw [List.headD_eq_head?_getD, List.head?_drop]
  rcases Nat.lt_or_ge i s.body.length with h | h
  · have hm : min i ((s.body ++ [s.last]).toArray.size - 1) = i := by simp; omega
    simp only [hm, List.getElem_append_left h, List.getElem?_eq_getElem h, Option.getD_some]
  · have hm : min i ((s.body ++ [s.last]).toArray.size - 1) = s.body.length := by simp; omega
    simp only [hm, List.getElem_concat_length, List.getElem?_eq_none h, Option.getD_none]

theorem next_mem {us : List Token} (h : ∀ t ∈ us, t ∈ s.body) : (s.next us).kind ≠ .invalid := by
  cases us with
  | nil => simp [s.last_eof]
  | cons t us => exact (s.body_plain t (h t (by simp))).2

theorem length_ahead_le (c : Cursor) : (s.ahead c).length ≤ s.body.length := by
  simp [ahead]

theorem ahead_start : s.ahead Parser.start = s.body := by
  simp [ahead, Parser.start]

end Source

/-! ### Steps of a cursor -/

/-- The cursor behind one more token. -/
def forward (c : Cursor) : Cursor := { c with consumed := c.consumed + 1 }

theorem ahead_forward {s : Source} {c : Cursor} {t : Token} {us : List Token} (h : s.ahead c = t :: us) :
    s.ahead (forward c) = us := by
  have : s.ahead (forward c) = (s.ahead c).drop 1 := by simp [Source.ahead, forward]
  rw [this, h]
  rfl

section Answers
variable {s : Source} {c c' : Cursor} {α β : Type}

/-! ### Answers of the elementary parsers -/

theorem bind_eq_ok {p : Parser α} {f : α → Parser β} {ts : TokenStream} {b : β} :
    (p >>= f) ts c = .ok b c' ↔ ∃ a d, p ts c = .ok a d ∧ f a ts d = .ok b c' := by
  show EStateM.bind (p ts) (fun a => f a ts) c = .ok b c' ↔ _
  unfold EStateM.bind
  split
  · next a d h =>
    rw [h]
    constructor
    · exact fun hb => ⟨a, d, rfl, hb⟩
    · rintro ⟨_, _, hp, hb⟩
      cases hp
      exact hb
  · next e d h =>
    rw [h]
    constructor
    · exact fun hb => nomatch hb
    · rintro ⟨_, _, hp, -⟩
      cases hp

theorem bind_of_ok {p : Parser α} {f : α → Parser β} {ts : TokenStream} {a : α} (h : p ts c = .ok a c') :
    (p >>= f) ts c = f a ts c' := by
  show EStateM.bind (p ts) (fun a => f a ts) c = f a ts c'
  simp only [EStateM.bind, h]

theorem pure_eq_ok {ts : TokenStream} {a b : α} : (pure a : Parser α) ts c = .ok b c' ↔ a = b ∧ c = c' := by
  show EStateM.Result.ok a c = .ok b c' ↔ _
  simp

theorem pure_bind_stream {ts : TokenStream} {a : α} {f : α → Parser β} :
    ((pure a : Parser α) >>= f) ts c = f a ts c := rfl

theorem throw_ne_ok {ts : TokenStream} {e : ParseError} {a : α} : (throw e : Parser α) ts c ≠ .ok a c' := by
  show EStateM.Result.error e c ≠ .ok a c'
  simp

theorem peek_of_valid {ts : TokenStream} {k : Nat} (h : (ts.get (c.consumed + k)).kind ≠ .invalid) :
    Parser.peek k ts c = .ok (ts.get (c.consumed + k)) c := by
  simp only [Parser.peek, if_neg h]

theorem isNext_of_valid {ts : TokenStream} (e : Expected) (h : (ts.get c.consumed).kind ≠ .invalid) :
    Parser.isNext e ts c = .ok (e.has (ts.get c.consumed).kind) c := by
  rw [Parser.isNext, bind_of_ok (peek_of_valid (k := 0) h)]
  rfl

/-- Behind an identifier an assignment sign is looked for, and nowhere else. -/
theorem nextIsAssignment_of_valid {ts : TokenStream} (hfirst : (ts.get c.consumed).kind ≠ .invalid)
    (hsecond : (ts.get c.consumed).kind = .ident → (ts.get (c.consumed + 1)).kind ≠ .invalid) :
    Parser.nextIsAssignment ts c =
      .ok (decide ((ts.get c.consumed).kind = .ident ∧ (ts.get (c.consumed + 1)).kind = .assign)) c := by
  rw [Parser.nextIsAssignment, Parser.nextIs, bind_of_ok (isNext_of_valid _ hfirst)]
  by_cases hident : (ts.get c.consumed).kind = .ident
  · rw [if_pos (by simp [Expected.has, hident]), bind_of_ok (peek_of_valid (hsecond hident))]
    simp only [hident, true_and]
    rfl
  · rw [if_neg (by simp [Expected.has, Ne.symm hident])]
    simp only [hident, false_and, decide_false]
    rfl

theorem Source.get_valid (s : Source) (i : Nat) : (s.stream.get i).kind ≠ .invalid := by
  rw [s.get_stream]
  exact s.next_mem fun _ ht => List.mem_of_mem_drop ht

theorem peek_stream (s : Source) (c : Cursor) (k : Nat) :
    Parser.peek k s.stream c = .ok (s.next (s.body.drop (c.consumed + k))) c := by
  rw [peek_of_valid (s.get_valid _), s.get_stream]

theorem peek_zero (s : Source) (c : Cursor) : Parser.peek 0 s.stream c = .ok (s.next (s.ahead c)) c :=
  peek_stream s c 0

theorem isNext_stream (s : Source) (c : Cursor) (e : Expected) :
    Parser.isNext e s.stream c = .ok (e.has (s.next (s.ahead c)).kind) c := by
  rw [isNext_of_valid e (s.get_valid _), s.get_stream, Source.ahead]

theorem nextIs_stream (s : Source) (c : Cursor) (k : Token.Kind) :
    Parser.nextIs k s.stream c = .ok (decide (k = (s.next (s.ahead c)).kind)) c :=
  isNext_stream s c (.one k)

theorem stepBound_stream (s : Source) (c : Cursor) :
    Parser.stepBound s.stream c = .ok (s.body.length + 2) c := by
  simp only [Parser.stepBound, s.steps_stream]

theorem expect_eq_ok {e : Expected} (he : e.has .eof = false) {t : Token} :
    Parser.expect e s.stream c = .ok t c' ↔
      ∃ us, s.ahead c = t :: us ∧ e.has t.kind = true ∧ c' = forward c := by
  simp only [Parser.expect, bind_of_ok (peek_zero s c)]
  cases h : s.ahead c with
  | nil => simp [s.last_eof, he, throw_ne_ok]
  | cons u us =>
    by_cases hu : e.has u.kind = true
    · rw [Source.next_cons, if_pos hu, bind_eq_ok]
      constructor
      · rintro ⟨_, d, hd, hp⟩
        obtain ⟨rfl, rfl⟩ := pure_eq_ok.mp hp
        cases hd
        exact ⟨us, rfl, hu, rfl⟩
      · rintro ⟨vs, hvs, -, rfl⟩
        cases hvs
        exact ⟨(), forward c, rfl, rfl⟩
    · rw [Source.next_cons, if_neg hu]
      constructor
      · intro h'
        exact absurd h' throw_ne_ok
      · rintro ⟨vs, hvs, ht, -⟩
        cases hvs
        exact absurd ht hu

theorem expectKind_eq_ok {k : Token.Kind} (hk : k ≠ .eof) {t : Token} :
    Parser.expectKind k s.stream c = .ok t c' ↔ ∃ us, s.ahead c = t :: us ∧ t.kind = k ∧ c' = forward c := by
  have he : (Expected.one k).has .eof = false := by simpa [Expected.has] using hk
  simp only [Parser.expectKind, expect_eq_ok he, Expected.has, decide_eq_true_eq, eq_comm (a := k)]

theorem expect_ok {e : Expected} (he : e.has .eof = false) {t : Token}
    (h : Parser.expect e s.stream c = .ok t c') : s.ahead c = t :: s.ahead c' ∧ e.has t.kind = true := by
  obtain ⟨us, hus, ht, rfl⟩ := (expect_eq_ok he).mp h
  rw [ahead_forward hus]
  exact ⟨hus, ht⟩

theorem expectKind_ok {k : Token.Kind} (hk : k ≠ .eof) {t : Token}
    (h : Parser.expectKind k s.stream c = .ok t c') : s.ahead c = t :: s.ahead c' ∧ t.kind = k := by
  obtain ⟨us, hus, ht, rfl⟩ := (expectKind_eq_ok hk).mp h
  rw [ahead_forward hus]
  exact ⟨hus, ht⟩

theorem discard_eq_ok {p : Parser α} {ts : TokenStream} {u : Unit} :
    discard p ts c = .ok u c' ↔ ∃ a, p ts c = .ok a c' := by
  show EStateM.map (fun _ => ()) (p ts) c = .ok u c' ↔ _
  unfold EStateM.map
  split
  · next a d h =>
    rw [h]
    constructor
    · intro h'
      cases h'
      exact ⟨a, rfl⟩
    · rintro ⟨_, h'⟩
      cases h'
      rfl
  · next e d h =>
    rw [h]
    constructor
    · exact fun h' => nomatch h'
    · rintro ⟨_, h'⟩
      cases h'

/-- A parser that begins by consuming a token of a kind. -/
theorem expectKind_bind_ok {k : Token.Kind} {f : Token → Parser β} {b : β}
    (h : (Parser.expectKind k >>= f) s.stream c = .ok b c')
    (hk : k ≠ .eof := by decide) :
    ∃ t d, s.ahead c = t :: s.ahead d ∧ t.kind = k ∧ f t s.stream d = .ok b c' := by
  obtain ⟨t, d, ht, h⟩ := bind_eq_ok.mp h
  obtain ⟨hc, ht⟩ := expectKind_ok hk ht
  exact ⟨t, d, hc, ht, h⟩

/-- A parser that begins by consuming a token of a kind of which nothing else counts. -/
theorem discard_bind_ok {k : Token.Kind} {f : Unit → Parser β} {b : β}
    (h : (discard (Parser.expectKind k) >>= f) s.stream c = .ok b c')
    (hk : k ≠ .eof := by decide) :
    ∃ t d, s.ahead c = t :: s.ahead d ∧ t.kind = k ∧ f () s.stream d = .ok b c' := by
  obtain ⟨_, d, ht, h⟩ := bind_eq_ok.mp h
  obtain ⟨t, ht⟩ := discard_eq_ok.mp ht
  obtain ⟨hc, ht⟩ := expectKind_ok hk ht
  exact ⟨t, d, hc, ht, h⟩

/-! ### Answers that only look ahead -/

theorem peek_bind (s : Source) (c : Cursor) (f : Token → Parser β) :
    (Parser.peek 0 >>= f) s.stream c = f (s.next (s.ahead c)) s.stream c :=
  bind_of_ok (peek_zero s c)

theorem stepBound_bind (s : Source) (c : Cursor) (f : Nat → Parser β) :
    (Parser.stepBound >>= f) s.stream c = f (s.body.length + 2) s.stream c :=
  bind_of_ok (stepBound_stream s c)

theorem isNext_bind_ite (s : Source) (c : Cursor) (e : Expected) (p q : Parser β) :
    (Parser.isNext e >>= fun b => if b = true then p else q) s.stream c =
      if e.has (s.next (s.ahead c)).kind = true then p s.stream c else q s.stream c := by
  rw [bind_of_ok (isNext_stream s c e)]
  split <;> rfl

theorem nextIs_bind_ite (s : Source) (c : Cursor) (k : Token.Kind) (p q : Parser β) :
    (Parser.nextIs k >>= fun b => if b = true then p else q) s.stream c =
      if (s.next (s.ahead c)).kind = k then p s.stream c else q s.stream c := by
  simp only [bind_of_ok (nextIs_stream s c k), decide_eq_true_eq, eq_comm (a := k)]
  split <;> rfl

theorem nextIsAssignment_stream (s : Source) (c : Cursor) :
    Parser.nextIsAssignment s.stream c =
      .ok (decide ((s.next (s.ahead c)).kind = .ident ∧ (s.next (s.ahead c).tail).kind = .assign)) c := by
  have htail : s.body.drop (c.consumed + 1) = (s.ahead c).tail := by simp [Source.ahead]
  rw [nextIsAssignment_of_valid (s.get_valid _) fun _ => s.get_valid _, s.get_stream, s.get_stream, htail, Source.ahead]

theorem nextIsAssignment_bind_ite (s : Source) (c : Cursor) (p q : Parser β) :
    (Parser.nextIsAssignment >>= fun b => if b = true then p else q) s.stream c =
      if (s.next (s.ahead c)).kind = .ident ∧ (s.next (s.ahead c).tail).kind = .assign then p s.stream c
      else q s.stream c := by
  simp only [bind_of_ok (nextIsAssignment_stream s c), decide_eq_true_eq]
  split <;> rfl

end Answers

/-! ### Literals -/

theorem literal?_of_final {t : Token} (h : t.kind.isFinal = true) : Parser.literal? t = none := by
  simp only [Token.Kind.isFinal, Bool.or_eq_true, decide_eq_true_eq] at h
  rcases h with h | h <;> simp [Parser.literal?, h]

/-- What can be wrong with a literal. -/
theorem error_of_literal? {t : Token} {e : ParseError} (h : Parser.literal? t = some (.error e)) :
    e = .malformedInteger t.text ∨ (∃ digits, e = .integerTooLong digits) ∨
      e = .integerOutOfRange t.text t.position ∨ e = .malformedNumber t.text := by
  unfold Parser.literal? at h
  split at h
  · simp only [Parser.integerLiteral, Option.some.injEq] at h
    split at h
    · cases h
      exact .inl rfl
    · cases h
      exact .inr (.inl ⟨_, rfl⟩)
    · split at h
      · cases h
        exact .inr (.inr (.inl rfl))
      · cases h
  · simp only [Parser.floatLiteral, Option.some.injEq] at h
    split at h
    · cases h
      exact .inr (.inr (.inr rfl))
    · cases h
  all_goals cases h

end Syntax
end TypedImp

import TypedImp.Proofs.Syntax.Literal
import TypedImp.Proofs.Token.Progress

/-! Well-formed programs: those that hold nothing that the language has no text for. Their names are identifiers
    and no reserved words, their literals can be spelled, their blocks stand only where a body may stand, and the
    header of a loop holds statements of its two kinds. Every program that tokens derive is well formed. -/

namespace TypedImp
open Token (AreDigits reservedWords)

/-! ### Names and literals -/

/-- An ASCII identifier that is neither a keyword nor a truth value. -/
def IsIdentifier (x : String) : Prop :=
  (∃ c cs, x.toList = c :: cs ∧ Scanner.isIdentStart c = true ∧ ∀ d ∈ cs, Scanner.isIdentChar d = true) ∧
    x ∉ reservedWords

/-- The text is digits around a point, and it is read as the number. -/
structure Decimal.IsPointText (text : String) (x : Float) : Prop where
  shape : ∃ whole fraction, text.toList = whole ++ '.' :: fraction ∧ whole ≠ [] ∧ AreDigits whole ∧ AreDigits fraction
  reads : Decimal.number? text = some x

/-- A value that a literal can have. -/
inductive Value.IsLiteral : Value → Prop
  | int {n : Int} : 0 ≤ n → n ≤ Word.maximum → IsLiteral (.int n)
  | float {text : String} {x : Float} : Decimal.IsPointText text x → IsLiteral (.float x)
  | bool {b : Bool} : IsLiteral (.bool b)
  | char {c : Char} : c ≠ '\n' → c ≠ '\x27' → IsLiteral (.char (String.singleton c))
  | string {s : String} : s.toList.getLast? ≠ some '\\' → IsLiteral (.string s)

/-! ### Programs -/

inductive Expr.WellFormed : Expr → Prop
  | literal {v : Value} : v.IsLiteral → WellFormed (.literal v)
  | var {x : String} : IsIdentifier x → WellFormed (.var x)
  | unary {op : UnaryOp} {e : Expr} : op = .plus ∨ op = .minus → WellFormed e → WellFormed (.unary op e)
  | binary {l r : Expr} {op : BinaryOp} :
      op.family ≠ .unknown → WellFormed l → WellFormed r → WellFormed (.binary l op r)
  | call {x : String} {args : List Expr} :
      IsIdentifier x → (∀ e ∈ args, WellFormed e) → WellFormed (.call x args)

structure Param.WellFormed (p : Param) : Prop where
  name : IsIdentifier p.name
  ty : p.ty ≠ .void

namespace Stmt

/-- May the statement come first in the header of a loop? -/
def isInit : Stmt → Bool
  | varDecl .. | assign .. => true
  | _ => false

/-- May the statement come last in the header of a loop? -/
def isStep : Stmt → Bool
  | assign .. | expr .. => true
  | _ => false

inductive WellFormed : Stmt → Prop
  | varDecl {x : String} {t : Ty} {init : Option Expr} :
      IsIdentifier x → t ≠ .void → (∀ e ∈ init, e.WellFormed) → WellFormed (.varDecl x t init)
  | assign {x : String} {e : Expr} : IsIdentifier x → e.WellFormed → WellFormed (.assign x e)
  | print {e : Expr} : e.WellFormed → WellFormed (.print e)
  | input {x : String} : IsIdentifier x → WellFormed (.input x)
  | ifThen {cond : Expr} {body : List Stmt} :
      cond.WellFormed → (∀ s ∈ body, WellFormed s) → WellFormed (.ifThen cond body)
  | ifElse {cond : Expr} {yes no : List Stmt} :
      cond.WellFormed → (∀ s ∈ yes, WellFormed s) → (∀ s ∈ no, WellFormed s) → WellFormed (.ifElse cond yes no)
  | whileLoop {cond : Expr} {body : List Stmt} :
      cond.WellFormed → (∀ s ∈ body, WellFormed s) → WellFormed (.whileLoop cond body)
  | forLoop {init step : Stmt} {cond : Expr} {body : List Stmt} :
      init.isInit = true → WellFormed init → cond.WellFormed → step.isStep = true → WellFormed step →
      (∀ s ∈ body, WellFormed s) → WellFormed (.forLoop init cond step body)
  | function {x : String} {params : List Param} {result : Ty} {body : List Stmt} :
      IsIdentifier x → (∀ p ∈ params, p.WellFormed) → (∀ s ∈ body, WellFormed s) →
      WellFormed (.function x params result body)
  | ret {value : Option Expr} : (∀ e ∈ value, e.WellFormed) → WellFormed (.ret value)
  | expr {e : Expr} : e.WellFormed → WellFormed (.expr e)

end Stmt

def Program.WellFormed (p : Program) : Prop := ∀ s ∈ p.body, s.WellFormed

/-! ### Tokens of a text -/

/-- The scanner reads no reserved word as a name. -/
theorem Token.IsName.isIdentifier {x : String} (h : Token.IsName x) : IsIdentifier x := by
  obtain ⟨c, cs, hx, hstart, hchars, hkind⟩ := h
  refine ⟨⟨c, cs, hx, hstart, hchars⟩, fun hreserved => ?_⟩
  have key : ∀ word ∈ reservedWords, Scanner.wordKind word ≠ .ident := by decide
  exact key x hreserved hkind

namespace Scanner

/-- A string without content begins with its closing quote. -/
theorem stringContent_empty {cs : List Char} {n : Nat} (h : stringContent cs = some ([], n)) :
    ∃ ds, cs = '\x22' :: ds := by
  rw [stringContent.eq_def] at h
  split at h
  · cases h
  · next c cs =>
    split at h
    · next hc => exact ⟨cs, by rw [hc]⟩
    · split at h
      · split at h
        all_goals simp at h
      · simp at h

theorem getLast?_cons_ne {c d : Char} {cs : List Char} (hc : c ≠ d) (h : cs.getLast? ≠ some d) :
    (c :: cs).getLast? ≠ some d := by
  cases cs with
  | nil => simpa using hc
  | cons e cs => rwa [List.getLast?_cons_cons]

/-- The content of a string does not end in a backslash, which would have kept the closing quote from closing. -/
theorem getLast?_stringContent {cs content : List Char} {n : Nat} (h : stringContent cs = some (content, n)) :
    content.getLast? ≠ some '\\' := by
  fun_induction stringContent cs generalizing content n with
  | case1 => cases h
  | case2 cs =>
    cases h
    simp
  | case3 hc cs ih =>
    obtain ⟨⟨content', n'⟩, h', heq⟩ := Option.map_eq_some_iff.mp h
    cases heq
    exact getLast?_cons_ne (by decide) (ih h')
  | case4 cs hescape hc ih =>
    obtain ⟨⟨content', n'⟩, h', heq⟩ := Option.map_eq_some_iff.mp h
    cases heq
    have hlast := ih h'
    cases content' with
    | nil =>
      obtain ⟨ds, rfl⟩ := stringContent_empty h'
      exact (hescape ds rfl).elim
    | cons c content' => rwa [List.getLast?_cons_cons]
  | case5 c cs hc hb ih =>
    obtain ⟨⟨content', n'⟩, h', heq⟩ := Option.map_eq_some_iff.mp h
    cases heq
    exact getLast?_cons_ne hb (ih h')

theorem next_content (s : Scanner) (h : s.next.1.kind = .string) : s.next.1.text.toList.getLast? ≠ some '\\' := by
  have hfinds := next_finds s
  generalize s.next = r at h hfinds
  cases hfinds with
  | eof | fault => cases h
  | token rest hrest hspells =>
    change _ = Token.Kind.string at h
    subst h
    generalize hk : Token.Kind.string = k at hspells
    cases hspells with
    | string hcontent =>
      rw [String.toList_ofList]
      exact getLast?_stringContent hcontent
    | word =>
      exfalso
      rcases wordKind_cases (String.ofList _) with ⟨h, -⟩ | ⟨h, -⟩ | h
      · exact nomatch hk.trans h
      · rw [← hk] at h
        exact absurd h (by decide)
      · exact nomatch hk.trans h
    | pair hmem | single hmem =>
      subst hk
      exact absurd hmem (by decide)
    | _ => cases hk

theorem tokens_content (s : Scanner) : ∀ t ∈ s.tokens, t.kind = .string → t.text.toList.getLast? ≠ some '\\' := by
  rw [tokens_eq]
  split
  · simpa using next_content s
  · next hfinal =>
    have := length_rest_next (Bool.eq_false_iff.mpr hfinal)
    exact List.forall_mem_cons.mpr ⟨next_content s, tokens_content s.next.2⟩
termination_by s.rest.length

end Scanner

/-- What holds of every token of a text. -/
structure Token.Cut (t : Token) : Prop where
  fits : t.Fits
  string : t.kind = .string → t.text.toList.getLast? ≠ some '\\'

theorem cut_tokenize (text : String) : ∀ t ∈ tokenize text, t.Cut := fun t ht =>
  ⟨Scanner.tokens_fit _ t ht, Scanner.tokens_content _ t ht⟩

/-- A kind that has only one text has no other. -/
theorem Token.Fits.text_eq {t : Token} (h : t.Fits) (hkind : t.kind ∈ Kind.keywords ++ Kind.pairs ++ Kind.singles) :
    t.text = t.kind.text := by
  obtain ⟨k, text, p⟩ := t
  change k ∈ _ at hkind
  cases k with
  | integer | float | char | boolean | string | ident | eof | invalid => exact absurd hkind (by decide)
  | _ => exact h

namespace Token.Cut
variable {t : Token}

theorem isIdentifier (h : t.Cut) (hkind : t.kind = .ident) : IsIdentifier t.text := by
  have hfits := h.fits
  unfold Fits at hfits
  rw [hkind] at hfits
  exact IsName.isIdentifier hfits

theorem float (h : t.Cut) (hkind : t.kind = .float) {whole fraction : List Char}
    (ht : t.text.toList = whole ++ '.' :: fraction) (hwhole : AreDigits whole) (hfraction : AreDigits fraction) :
    Value.IsLiteral (.float (pointValue whole fraction)) := by
  have hfits := h.fits
  unfold Fits at hfits
  rw [hkind] at hfits
  obtain ⟨digits, rest, ht', hdigits, hare, -⟩ := hfits
  have hne : whole ≠ [] := by
    obtain ⟨c, cs, rfl⟩ := List.exists_cons_of_ne_nil hdigits
    rintro rfl
    rw [ht', List.nil_append, List.cons_append] at ht
    have hc := hare c List.mem_cons_self
    rw [(List.cons.inj ht).1] at hc
    exact absurd hc (by decide)
  exact .float ⟨⟨whole, fraction, ht, hne, hwhole, hfraction⟩, number?_point ht hne hwhole hfraction⟩

theorem char (h : t.Cut) (hkind : t.kind = .char) : Value.IsLiteral (.char t.text) := by
  have hfits := h.fits
  unfold Fits at hfits
  rw [hkind] at hfits
  obtain ⟨c, hc, hnewline, hquote⟩ := hfits
  rw [hc]
  exact .char hnewline hquote

theorem binaryOp (h : t.Cut) {l : Grammar.Level} (hl : t.kind ∈ l.kinds) :
    (BinaryOp.ofText t.text).family ≠ .unknown := by
  have key : ∀ k ∈ l.kinds, k ∈ Kind.keywords ++ Kind.pairs ++ Kind.singles ∧
      (BinaryOp.ofText k.text).family ≠ .unknown := by
    cases l <;> decide
  obtain ⟨hmem, hfamily⟩ := key _ hl
  rwa [h.fits.text_eq hmem]

end Token.Cut

namespace Syntax
open Grammar (Level)

/-! ### Expressions -/

theorem unaryOp_of_fits {op : Token} (hop : op.kind = .plus ∨ op.kind = .minus) (hfits : op.Fits) :
    UnaryOp.ofText op.text = .plus ∨ UnaryOp.ofText op.text = .minus := by
  unfold Token.Fits at hfits
  rcases hop with hop | hop
  · rw [hop] at hfits
    rw [show op.text = "+" from hfits]
    exact .inl rfl
  · rw [hop] at hfits
    rw [show op.text = "-" from hfits]
    exact .inr rfl

mutual
theorem Chain.wellFormed {ls : List Level} {ts : List Token} {e : Expr} :
    Chain ls ts e → (∀ t ∈ ts, t.Cut) → e.WellFormed
  | .signed h, hts => h.wellFormed hts
  | .operand h, hts => h.wellFormed hts
  | .operator hl hop hr, hts =>
    .binary ((hts _ (by simp)).binaryOp hop) (hl.wellFormed fun t ht => hts t (by simp [ht]))
      (hr.wellFormed fun t ht => hts t (by simp [ht]))

theorem Signed.wellFormed {ts : List Token} {e : Expr} : Signed ts e → (∀ t ∈ ts, t.Cut) → e.WellFormed
  | .primary h, hts => h.wellFormed hts
  | .sign hop h, hts =>
    .unary (unaryOp_of_fits hop (hts _ (by simp)).fits) (h.wellFormed fun t ht => hts t (by simp [ht]))

theorem Primary.wellFormed {ts : List Token} {e : Expr} : Primary ts e → (∀ t ∈ ts, t.Cut) → e.WellFormed
  | .integer _ _ hmax, _ => .literal (.int (Int.natCast_nonneg _) hmax)
  | .float hkind htext hwhole hfraction, hts => .literal ((hts _ (by simp)).float hkind htext hwhole hfraction)
  | .boolean _, _ => .literal .bool
  | .char hkind, hts => .literal ((hts _ (by simp)).char hkind)
  | .string hkind, hts => .literal (.string ((hts _ (by simp)).string hkind))
  | .var hkind, hts => .var ((hts _ (by simp)).isIdentifier hkind)
  | .call hkind _ h _, hts =>
    .call ((hts _ (by simp)).isIdentifier hkind) (h.wellFormed fun t ht => hts t (by simp [ht]))
  | .parens _ h _, hts => h.wellFormed fun t ht => hts t (by simp [ht])

theorem Arguments.wellFormed {ts : List Token} {es : List Expr} :
    Arguments ts es → (∀ t ∈ ts, t.Cut) → ∀ e ∈ es, e.WellFormed
  | .none, _ => by simp
  | .some h h', hts =>
    List.forall_mem_cons.mpr
      ⟨h.wellFormed fun t ht => hts t (by simp [ht]), h'.wellFormed fun t ht => hts t (by simp [ht])⟩

theorem MoreArguments.wellFormed {ts : List Token} {es : List Expr} :
    MoreArguments ts es → (∀ t ∈ ts, t.Cut) → ∀ e ∈ es, e.WellFormed
  | .none, _ => by simp
  | .some _ h h', hts =>
    List.forall_mem_cons.mpr
      ⟨h.wellFormed fun t ht => hts t (by simp [ht]), h'.wellFormed fun t ht => hts t (by simp [ht])⟩
end

/-! ### Statements -/

section
variable {ts : List Token} {s : Stmt}

theorem VarDecl.wellFormed (h : VarDecl ts s) (hts : ∀ t ∈ ts, t.Cut) : s.WellFormed := by
  cases h with
  | plain _ hname _ htype _ => exact .varDecl ((hts _ (by simp)).isIdentifier hname) htype.2 (by simp)
  | init _ hname _ htype _ he _ =>
    refine .varDecl ((hts _ (by simp)).isIdentifier hname) htype.2 ?_
    simpa using he.wellFormed fun t ht => hts t (by simp [ht])

theorem Assign.wellFormed (h : Assign ts s) (hts : ∀ t ∈ ts, t.Cut) : s.WellFormed := by
  cases h with
  | mk hname _ he =>
    exact .assign ((hts _ (by simp)).isIdentifier hname) (he.wellFormed fun t ht => hts t (by simp [ht]))

theorem Assign.isInit_isStep (h : Assign ts s) : s.isInit = true ∧ s.isStep = true := by
  cases h
  exact ⟨rfl, rfl⟩

theorem ForInit.wellFormed (h : ForInit ts s) (hts : ∀ t ∈ ts, t.Cut) : s.isInit = true ∧ s.WellFormed := by
  cases h with
  | decl h =>
    refine ⟨?_, h.wellFormed hts⟩
    cases h <;> rfl
  | assign h _ => exact ⟨h.isInit_isStep.1, h.wellFormed fun t ht => hts t (by simp [ht])⟩

theorem ForStep.wellFormed (h : ForStep ts s) (hts : ∀ t ∈ ts, t.Cut) : s.isStep = true ∧ s.WellFormed := by
  cases h with
  | assign h => exact ⟨h.isInit_isStep.2, h.wellFormed hts⟩
  | assignClosed h _ => exact ⟨h.isInit_isStep.2, h.wellFormed fun t ht => hts t (by simp [ht])⟩
  | expr h => exact ⟨rfl, .expr (h.wellFormed hts)⟩
  | exprClosed h _ => exact ⟨rfl, .expr (h.wellFormed fun t ht => hts t (by simp [ht]))⟩

theorem Condition.wellFormed {k : Token.Kind} {e : Expr} (h : Condition k ts e) (hts : ∀ t ∈ ts, t.Cut) :
    e.WellFormed := by
  cases h with
  | mk _ _ he _ => exact he.wellFormed fun t ht => hts t (by simp [ht])

theorem Parameter.wellFormed {p : Param} (h : Parameter ts p) (hts : ∀ t ∈ ts, t.Cut) : p.WellFormed := by
  cases h with
  | mk hname _ htype => exact ⟨(hts _ (by simp)).isIdentifier hname, htype.2⟩

theorem Parameters.wellFormed {ps : List Param} (h : Parameters ts ps) (hts : ∀ t ∈ ts, t.Cut) :
    ∀ p ∈ ps, p.WellFormed := by
  induction h with
  | one h => exact List.forall_mem_singleton.mpr (h.wellFormed hts)
  | more h _ _ ih =>
    exact List.forall_mem_cons.mpr
      ⟨h.wellFormed fun t ht => hts t (by simp [ht]), ih fun t ht => hts t (by simp [ht])⟩

theorem ParameterList.wellFormed {ps : List Param} (h : ParameterList ts ps) (hts : ∀ t ∈ ts, t.Cut) :
    ∀ p ∈ ps, p.WellFormed := by
  cases h with
  | none => simp
  | some h => exact h.wellFormed hts

end

mutual
theorem Statement.wellFormed {ts : List Token} {s : Stmt} : Statement ts s → (∀ t ∈ ts, t.Cut) → s.WellFormed
  | .varDecl h, hts => h.wellFormed hts
  | .assign h _, hts => h.wellFormed fun t ht => hts t (by simp [ht])
  | .print h _, hts => .print (h.wellFormed fun t ht => hts t (by simp [ht]))
  | .input _ _ hname _ _, hts => .input ((hts _ (by simp)).isIdentifier hname)
  | .ifThen h hbody, hts =>
    .ifThen (h.wellFormed fun t ht => hts t (by simp [ht])) (hbody.wellFormed fun t ht => hts t (by simp [ht]))
  | .ifElse h hyes _ hno, hts =>
    .ifElse (h.wellFormed fun t ht => hts t (by simp [ht])) (hyes.wellFormed fun t ht => hts t (by simp [ht]))
      (hno.wellFormed fun t ht => hts t (by simp [ht]))
  | .whileLoop h hbody, hts =>
    .whileLoop (h.wellFormed fun t ht => hts t (by simp [ht])) (hbody.wellFormed fun t ht => hts t (by simp [ht]))
  | .forLoop _ _ hinit hcond _ hstep _ hbody, hts =>
    have ⟨hisInit, hinit⟩ := hinit.wellFormed fun t ht => hts t (by simp [ht])
    have ⟨hisStep, hstep⟩ := hstep.wellFormed fun t ht => hts t (by simp [ht])
    .forLoop hisInit hinit (hcond.wellFormed fun t ht => hts t (by simp [ht])) hisStep hstep
      (hbody.wellFormed fun t ht => hts t (by simp [ht]))
  | .function _ hname _ hparams _ _ _ hbody, hts =>
    .function ((hts _ (by simp)).isIdentifier hname) (hparams.wellFormed fun t ht => hts t (by simp [ht]))
      (hbody.wellFormed fun t ht => hts t (by simp [ht]))
  | .retNone _ _, _ => .ret (by simp)
  | .retSome _ h _, hts => .ret (by simpa using h.wellFormed fun t ht => hts t (by simp [ht]))
  | .expr h _, hts => .expr (h.wellFormed fun t ht => hts t (by simp [ht]))

theorem Block.wellFormed {ts : List Token} {ss : List Stmt} :
    Block ts ss → (∀ t ∈ ts, t.Cut) → ∀ s ∈ ss, s.WellFormed
  | .mk _ h _, hts => h.wellFormed fun t ht => hts t (by simp [ht])

theorem Statements.wellFormed {ts : List Token} {ss : List Stmt} :
    Statements ts ss → (∀ t ∈ ts, t.Cut) → ∀ s ∈ ss, s.WellFormed
  | .none, _ => by simp
  | .some h h', hts =>
    List.forall_mem_cons.mpr
      ⟨h.wellFormed fun t ht => hts t (by simp [ht]), h'.wellFormed fun t ht => hts t (by simp [ht])⟩
end

theorem Derives.wellFormed {ts : List Token} {p : Program} (h : Derives ts p) (hts : ∀ t ∈ ts, t.Cut) :
    p.WellFormed := by
  obtain ⟨hstatements, -⟩ := h
  exact hstatements.wellFormed fun t ht => hts t (by simp [ht])

/-- A text that is a program is a well-formed one. -/
theorem wellFormed_of_parse {text : String} {p : Program} (h : Program.parse text = .ok p) : p.WellFormed :=
  (derives_of_parse h).wellFormed (cut_tokenize text)

end Syntax
end TypedImp

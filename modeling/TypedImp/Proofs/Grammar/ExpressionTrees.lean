import TypedImp.Proofs.Grammar.Meaning

/-! Trees for expressions. An expression that tokens derive has a tree of that value, whichever lexemes write the tokens.
    Where the two grammars build a list from different ends, the list so far is carried along. -/

namespace TypedImp
namespace Grammar
open Syntax

/-! ### Trees with given lexemes and values -/

/-- The lexemes are those of a derivation from the nonterminal with this value. -/
def Nonterminal.Parses (n : Nonterminal) (v : n.Value) (ls : List Lexeme) : Prop :=
  ∃ tree : Tree (.nonterminal n), tree.yield = ls ∧ tree.value = .ok v

/-- The lexemes are those of derivations from the symbols with these values. -/
def ParsesAll (ss : List Symbol) (vs : Values ss) (ls : List Lexeme) : Prop :=
  ∃ trees : Forest ss, trees.yield = ls ∧ trees.values = .ok vs

section
variable {ss : List Symbol} {vs : Values ss} {ls us : List Lexeme}

theorem ParsesAll.nil : ParsesAll [] () [] := ⟨.nil, rfl, rfl⟩

theorem ParsesAll.leaf {t : Terminal} {l : Lexeme} (hl : l.terminal = t) (h : ParsesAll ss vs ls) :
    ParsesAll (.terminal t :: ss) (l, vs) (l :: ls) := by
  subst hl
  obtain ⟨trees, rfl, hvs⟩ := h
  refine ⟨.cons (.leaf l) trees, rfl, ?_⟩
  rw [Forest.values, hvs]
  rfl

theorem ParsesAll.tree {n : Nonterminal} {v : n.Value} (hn : n.Parses v us) (h : ParsesAll ss vs ls) :
    ParsesAll (.nonterminal n :: ss) (v, vs) (us ++ ls) := by
  obtain ⟨tree, rfl, hv⟩ := hn
  obtain ⟨trees, rfl, hvs⟩ := h
  refine ⟨.cons tree trees, rfl, ?_⟩
  rw [Forest.values, hvs, hv]
  rfl

theorem ParsesAll.last {n : Nonterminal} {v : n.Value} (hn : n.Parses v us) :
    ParsesAll [.nonterminal n] (v, ()) us := by
  have h := ParsesAll.tree hn .nil
  rwa [List.append_nil] at h

theorem Parses.node (r : Rule) {vs : Values r.rhs} {v : r.lhs.Value} (h : ParsesAll r.rhs vs ls) (hv : r.build vs = .ok v) :
    r.lhs.Parses v ls := by
  obtain ⟨trees, rfl, hvs⟩ := h
  refine ⟨.node r trees, rfl, ?_⟩
  rw [Tree.value, hvs]
  exact hv

end

/-- An empty list from no lexemes, or a list that `P` holds of. -/
def OrNone {α : Type} (P : List α → List Lexeme → Prop) (as : List α) (ls : List Lexeme) : Prop :=
  as = [] ∧ ls = [] ∨ P as ls

/-! ### Lexemes of given tokens -/

theorem forall₂_append_right_iff {α β : Type} {R : α → β → Prop} {as : List α} {us vs : List β} :
    List.Forall₂ R as (us ++ vs) ↔ ∃ bs cs, List.Forall₂ R bs us ∧ List.Forall₂ R cs vs ∧ as = bs ++ cs := by
  constructor
  · intro h
    exact ⟨_, _, List.forall₂_take_append _ _ _ h, List.forall₂_drop_append _ _ _ h, (List.take_append_drop ..).symm⟩
  · rintro ⟨bs, cs, hbs, hcs, rfl⟩
    exact List.rel_append hbs hcs

section
variable {l : Lexeme} {t : Token} {k : Token.Kind}

theorem Lexeme.Writes.leaf (h : l.Writes t) (hk : t.kind = k) : Leaf k.terminal l t :=
  ⟨h.terminal.trans (congrArg Token.Kind.terminal hk), h⟩

end

/-! ### Expressions -/

/-- An operand of the level. -/
def Level.Operand (l : Level) (e : Expr) (ls : List Lexeme) : Prop :=
  ∃ v : l.operand.Value, l.operandValue v = e ∧ l.operand.Parses v ls

/-- A first operand of the level, and further ones each behind an operator. -/
def Level.Chained (l : Level) (e : Expr) (ls : List Lexeme) : Prop :=
  ∃ first rest us ws, l.Operand first us ∧ OrNone (Nonterminal.levelTail l).Parses rest ws ∧
    e = chained first rest ∧ ls = us ++ ws

section
variable {l : Level} {e : Expr} {ls us : List Lexeme}

theorem Level.Chained.parses (h : l.Chained e ls) : (Nonterminal.level l).Parses e ls := by
  obtain ⟨_, rest, us, ws, ⟨v, rfl, hv⟩, hrest, rfl, rfl⟩ := h
  rcases hrest with ⟨rfl, rfl⟩ | hrest
  · rw [List.append_nil]
    exact Parses.node (.levelOne l) (.last hv) rfl
  · exact Parses.node (.levelMore l) (.tree hv (.last hrest)) rfl

theorem Level.Chained.operand (h : l.Operand e ls) : l.Chained e ls :=
  ⟨e, [], ls, [], h, .inl ⟨rfl, rfl⟩, rfl, (List.append_nil ls).symm⟩

theorem terminal_of_level {k : Token.Kind} (h : k ∈ l.kinds) : k.terminal = l.operator := by
  have key : ∀ l ∈ Level.all, ∀ k ∈ l.kinds, k.terminal = l.operator := by decide
  exact key l (by cases l <;> decide) k h

theorem Level.Chained.operator {left : Expr} {o : Lexeme} {op : Token} (h : l.Chained left ls) (ho : o.Writes op)
    (hop : op.kind ∈ l.kinds) (he : l.Operand e us) :
    l.Chained (.binary left (BinaryOp.ofText op.text) e) (ls ++ o :: us) := by
  obtain ⟨first, rest, fs, ws, hfirst, hrest, rfl, rfl⟩ := h
  obtain ⟨v, rfl, hv⟩ := he
  have hleaf : Leaf l.operator o op := ⟨ho.terminal.trans (terminal_of_level hop), ho⟩
  refine ⟨first, rest ++ [(o.binaryOp, l.operandValue v)], fs, ws ++ o :: us, hfirst, .inr ?_, ?_, List.append_assoc ..⟩
  · rcases hrest with ⟨rfl, rfl⟩ | hrest
    · exact Parses.node (.levelTailOne l) (.leaf hleaf.1 (.last hv)) rfl
    · exact Parses.node (.levelTailMore l) (.tree hrest (.leaf hleaf.1 (.last hv))) rfl
  · rw [chained_append, (operator_means hleaf).2]

end

/-- A chain of operands of the levels behind a level is an operand of it. -/
theorem operand_of_tighter (l : Level) {e : Expr} {ls : List Lexeme}
    (hunary : l.tighter = [] → Nonterminal.unary.Parses e ls)
    (hlevel : ∀ l' : Level, l.tighter = l' :: l'.tighter → l'.Chained e ls) : l.Operand e ls := by
  cases l with
  | or => exact ⟨e, rfl, (hlevel .and rfl).parses⟩
  | and => exact ⟨e, rfl, (hlevel .equality rfl).parses⟩
  | equality => exact ⟨e, rfl, (hlevel .relational rfl).parses⟩
  | relational => exact ⟨e, rfl, (hlevel .additive rfl).parses⟩
  | additive => exact ⟨e, rfl, (hlevel .multiplicative rfl).parses⟩
  | multiplicative => exact ⟨e, rfl, hunary rfl⟩

theorem int_parses {l : Lexeme} {t : Token} (hl : l.Writes t) (hkind : t.kind = .integer)
    (hlength : t.text.length ≤ Decimal.maxIntegerDigits)
    (hrange : (Token.decimalValue t.text.toList : Int) ≤ Word.maximum) :
    intLiteral l = .ok (.literal (.int (Token.decimalValue t.text.toList))) := by
  have hleaf := hl.leaf hkind
  have hfits := hl.fits (by rw [hkind]; decide)
  unfold Token.Fits at hfits
  rw [hkind] at hfits
  unfold intLiteral
  rw [hleaf.text_eq (by decide) (by decide), Token.integer_digits hfits.1 hfits.2, if_neg (Nat.not_lt.mpr hlength)]
  dsimp only
  rw [if_neg (Int.not_lt.mpr hrange)]

theorem float_parses {l : Lexeme} {t : Token} {whole fraction : List Char} (hl : l.Writes t) (hkind : t.kind = .float)
    (htext : t.text.toList = whole ++ '.' :: fraction) (hwhole : Token.AreDigits whole)
    (hfraction : Token.AreDigits fraction) :
    floatLiteral l = .ok (.literal (.float (Token.pointValue whole fraction))) := by
  have hleaf := hl.leaf hkind
  have hne : whole ≠ [] := by
    have hfits := hl.fits (by rw [hkind]; decide)
    unfold Token.Fits at hfits
    rw [hkind] at hfits
    obtain ⟨digits, _, htext', hdigits, hare, -⟩ := hfits
    obtain ⟨c, cs, rfl⟩ := List.exists_cons_of_ne_nil hdigits
    rintro rfl
    rw [htext', List.nil_append, List.cons_append] at htext
    have hc := hare c (List.mem_cons_self ..)
    rw [(List.cons.inj htext).1] at hc
    exact absurd hc (by decide)
  unfold floatLiteral
  rw [hleaf.text_eq (by decide) (by decide), Token.number?_point htext hne hwhole hfraction]

theorem expr_parses {e : Expr} {ls : List Lexeme} (h : Level.or.Chained e ls) : Nonterminal.expr.Parses e ls :=
  Parses.node .expr (.last h.parses) rfl

theorem argumentTail_concat {es : List Expr} {e : Expr} {ls us : List Lexeme} {comma : Lexeme}
    (h : OrNone Nonterminal.argumentTail.Parses es ls) (hcomma : comma.terminal = .comma)
    (he : Nonterminal.expr.Parses e us) : Nonterminal.argumentTail.Parses (es ++ [e]) (ls ++ comma :: us) := by
  rcases h with ⟨rfl, rfl⟩ | h
  · exact Parses.node .argumentTailOne (.leaf hcomma (.last he)) rfl
  · exact Parses.node .argumentTailMore (.tree h (.leaf hcomma (.last he))) rfl

theorem forall₂_singleton {l' : List Lexeme} {t : Token} (h : List.Forall₂ Lexeme.Writes l' [t]) :
    ∃ l : Lexeme, l' = [l] ∧ l.Writes t := by
  obtain ⟨l, _, hl, hnil, rfl⟩ := List.forall₂_cons_right_iff.mp h
  exact ⟨l, by rw [List.forall₂_nil_right_iff.mp hnil], hl⟩

mutual
/-- A chain is an operand where no level is left, and a chain of its loosest level otherwise. -/
theorem Chain.parses {lv : List Level} {ts : List Token} {e : Expr} : Chain lv ts e →
    ∀ ls, List.Forall₂ Lexeme.Writes ls ts →
      (lv = [] → Nonterminal.unary.Parses e ls) ∧ ∀ l : Level, lv = l :: l.tighter → l.Chained e ls
  | .signed h, ls, hls => ⟨fun _ => Signed.parses h ls hls, nofun⟩
  | .operand h, ls, hls => by
    have ih := Chain.parses h ls hls
    refine ⟨nofun, fun l hl => ?_⟩
    obtain ⟨rfl, rfl⟩ := List.cons.inj hl
    exact .operand (operand_of_tighter _ ih.1 ih.2)
  | .operator hleft hop hright, ls, hls => by
    have ihleft := Chain.parses hleft
    have ihright := Chain.parses hright
    refine ⟨nofun, fun l hl => ?_⟩
    obtain ⟨rfl, rfl⟩ := List.cons.inj hl
    obtain ⟨us, _, hus, hrest, rfl⟩ := forall₂_append_right_iff.mp hls
    obtain ⟨o, ws, ho, hws, rfl⟩ := List.forall₂_cons_right_iff.mp hrest
    obtain ⟨hunary, hlevel⟩ := ihright ws hws
    exact .operator ((ihleft us hus).2 _ rfl) ho hop (operand_of_tighter _ hunary hlevel)

theorem Signed.parses {ts : List Token} {e : Expr} : Signed ts e →
    ∀ ls, List.Forall₂ Lexeme.Writes ls ts → Nonterminal.unary.Parses e ls
  | .primary h, ls, hls => Parses.node .unsigned (.last (Primary.parses h ls hls)) rfl
  | @Signed.sign op ts e hop h, ls, hls => by
    have ih := Signed.parses h
    obtain ⟨o, us, ho, hus, rfl⟩ := List.forall₂_cons_right_iff.mp hls
    have hleaf : Leaf .additive o op := by
      rcases hop with hop | hop
      · exact ho.leaf hop
      · exact ho.leaf hop
    rw [← hleaf.text_eq (by decide) (by decide)]
    exact Parses.node .signed (.leaf hleaf.1 (.last (ih us hus))) rfl

theorem Primary.parses {ts : List Token} {e : Expr} : Primary ts e →
    ∀ ls, List.Forall₂ Lexeme.Writes ls ts → Nonterminal.primary.Parses e ls
  | .integer hkind hlength hrange, ls, hls => by
    obtain ⟨l, rfl, hl⟩ := forall₂_singleton hls
    exact Parses.node .int (.leaf (hl.leaf hkind).1 .nil) (int_parses hl hkind hlength hrange)
  | .float hkind htext hwhole hfraction, ls, hls => by
    obtain ⟨l, rfl, hl⟩ := forall₂_singleton hls
    exact Parses.node .float (.leaf (hl.leaf hkind).1 .nil) (float_parses hl hkind htext hwhole hfraction)
  | .boolean hkind, ls, hls => by
    obtain ⟨l, rfl, hl⟩ := forall₂_singleton hls
    rw [← (hl.leaf hkind).text_eq (by decide) (by decide)]
    exact Parses.node .bool (.leaf (hl.leaf hkind).1 .nil) rfl
  | .char hkind, ls, hls => by
    obtain ⟨l, rfl, hl⟩ := forall₂_singleton hls
    rw [← char_text (hl.leaf hkind)]
    exact Parses.node .char (.leaf (hl.leaf hkind).1 .nil) rfl
  | .string hkind, ls, hls => by
    obtain ⟨l, rfl, hl⟩ := forall₂_singleton hls
    rw [← string_text (hl.leaf hkind)]
    exact Parses.node .string (.leaf (hl.leaf hkind).1 .nil) rfl
  | .var hkind, ls, hls => by
    obtain ⟨l, rfl, hl⟩ := forall₂_singleton hls
    rw [← (hl.leaf hkind).name.2]
    exact Parses.node .identifier (.leaf (hl.leaf hkind).1 .nil) rfl
  | .call hname hlp hargs hrp, ls, hls => by
    have ih := Arguments.parses hargs
    obtain ⟨name, _, wname, h₁, rfl⟩ := List.forall₂_cons_right_iff.mp hls
    obtain ⟨lp, _, wlp, h₂, rfl⟩ := List.forall₂_cons_right_iff.mp h₁
    obtain ⟨us, _, hus, h₃, rfl⟩ := forall₂_append_right_iff.mp h₂
    obtain ⟨rp, rfl, wrp⟩ := forall₂_singleton h₃
    rw [← (wname.leaf hname).name.2]
    have hname := (wname.leaf hname).1
    have hlp := (wlp.leaf hlp).1
    have hrp := (wrp.leaf hrp).1
    rcases ih us hus with ⟨rfl, rfl⟩ | ⟨e, es, vs, ws, rfl, rfl, he, ⟨rfl, rfl⟩ | hes⟩
    · exact Parses.node .callNone (.leaf hname (.leaf hlp (.leaf hrp .nil))) rfl
    · rw [List.append_nil]
      exact Parses.node .callOne (.leaf hname (.leaf hlp (.tree he (.leaf hrp .nil)))) rfl
    · rw [List.append_assoc]
      exact Parses.node .callMore (.leaf hname (.leaf hlp (.tree he (.tree hes (.leaf hrp .nil))))) rfl
  | .parens hlp he hrp, ls, hls => by
    have ih := Chain.parses he
    obtain ⟨lp, _, wlp, h₁, rfl⟩ := List.forall₂_cons_right_iff.mp hls
    obtain ⟨us, _, hus, h₂, rfl⟩ := forall₂_append_right_iff.mp h₁
    obtain ⟨rp, rfl, wrp⟩ := forall₂_singleton h₂
    have hexpr := expr_parses ((ih us hus).2 .or rfl)
    exact Parses.node .parens (.leaf (wlp.leaf hlp).1 (.tree hexpr (.leaf (wrp.leaf hrp).1 .nil))) rfl

/-- Arguments are none, or a first one and a tail. -/
theorem Arguments.parses {ts : List Token} {args : List Expr} : Arguments ts args →
    ∀ ls, List.Forall₂ Lexeme.Writes ls ts → args = [] ∧ ls = [] ∨
      ∃ e es us ws, args = e :: es ∧ ls = us ++ ws ∧ Nonterminal.expr.Parses e us ∧
        OrNone Nonterminal.argumentTail.Parses es ws
  | .none, ls, hls => .inl ⟨rfl, List.forall₂_nil_right_iff.mp hls⟩
  | .some he hes, ls, hls => by
    have ihe := Chain.parses he
    have ihes := MoreArguments.parses hes
    obtain ⟨us, ws, hus, hws, rfl⟩ := forall₂_append_right_iff.mp hls
    have hexpr := expr_parses ((ihe us hus).2 .or rfl)
    exact .inr ⟨_, _, us, ws, rfl, rfl, hexpr, ihes ws hws (.inl ⟨rfl, rfl⟩)⟩

/-- Further arguments make the tail longer. -/
theorem MoreArguments.parses {ts : List Token} {es : List Expr} : MoreArguments ts es →
    ∀ ls, List.Forall₂ Lexeme.Writes ls ts → ∀ {before : List Expr} {us : List Lexeme},
      OrNone Nonterminal.argumentTail.Parses before us →
        OrNone Nonterminal.argumentTail.Parses (before ++ es) (us ++ ls)
  | .none, ls, hls, before, us, h => by
    rw [List.forall₂_nil_right_iff.mp hls, List.append_nil, List.append_nil]
    exact h
  | .some hcomma he hes, ls, hls, before, us, h => by
    have ihe := Chain.parses he
    have ihes := MoreArguments.parses hes
    obtain ⟨comma, _, wcomma, hrest, rfl⟩ := List.forall₂_cons_right_iff.mp hls
    obtain ⟨vs, ws, hvs, hws, rfl⟩ := forall₂_append_right_iff.mp hrest
    have hexpr := expr_parses ((ihe vs hvs).2 .or rfl)
    have hbefore := argumentTail_concat h (wcomma.leaf hcomma).1 hexpr
    simpa using ihes ws hws (.inr hbefore)
end

end Grammar
end TypedImp

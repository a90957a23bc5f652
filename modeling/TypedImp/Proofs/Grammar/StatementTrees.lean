import TypedImp.Proofs.Grammar.ExpressionTrees

/-! Trees for statements and programs that tokens derive, whichever lexemes write the tokens. -/

namespace TypedImp
namespace Grammar
open Syntax

variable {ts : List Token} {ls us : List Lexeme}

theorem Expression.parses {e : Expr} (h : Expression ts e) (hls : List.Forall₂ Lexeme.Writes ls ts) :
    Nonterminal.expr.Parses e ls :=
  expr_parses ((Chain.parses h ls hls).2 .or rfl)

/-! ### Types -/

theorem bind_of_ok {ε α β : Type} {x : Except ε α} {f : α → Except ε β} {a : α} {b : Except ε β} (hx : x = .ok a)
    (hf : f a = b) : (x >>= f) = b := by
  rw [hx]
  exact hf

theorem typeNamed_of_names {l : Lexeme} {t : Token} {ty : Ty} (hl : l.Writes t) (h : Names t ty) :
    l.terminal = .name ∧ typeNamed Ty.ofName? l = .ok ty := by
  obtain ⟨hname, htext⟩ := (hl.leaf h.1).name
  refine ⟨(hl.leaf h.1).1, ?_⟩
  rw [typeNamed, htext, Ty.ofName?_eq_some.mpr h.2]

theorem typeNamed_of_namesValue {l : Lexeme} {t : Token} {ty : Ty} (hl : l.Writes t) (h : NamesValue t ty) :
    l.terminal = .name ∧ typeNamed Ty.ofValueName? l = .ok ty := by
  obtain ⟨hname, htext⟩ := (hl.leaf h.1.1).name
  refine ⟨(hl.leaf h.1.1).1, ?_⟩
  rw [typeNamed, htext, Ty.ofValueName?_eq_some.mpr ⟨h.1.2, h.2⟩]

/-! ### Parts of statements -/

theorem VarDecl.parses {s : Stmt} (h : VarDecl ts s) (hls : List.Forall₂ Lexeme.Writes ls ts) :
    (Nonterminal.form .varDecl).Parses s ls := by
  cases h with
  | plain hword hname hcolon htype hsemi =>
    obtain _ | ⟨wword, _ | ⟨wname, _ | ⟨wcolon, _ | ⟨wtype, _ | ⟨wsemi, _ | _⟩⟩⟩⟩⟩ := hls
    obtain ⟨htype, hty⟩ := typeNamed_of_namesValue wtype htype
    rw [← (wname.leaf hname).name.2]
    refine Parses.node .varDecl (.leaf (wword.leaf hword).1 (.leaf (wname.leaf hname).1 (.leaf (wcolon.leaf hcolon).1
      (.leaf htype (.leaf (wsemi.leaf hsemi).1 .nil))))) ?_
    exact bind_of_ok hty rfl
  | init hword hname hcolon htype heq he hsemi =>
    obtain _ | ⟨wword, _ | ⟨wname, _ | ⟨wcolon, _ | ⟨wtype, _ | ⟨weq, h⟩⟩⟩⟩⟩ := hls
    obtain ⟨us, _, hus, _ | ⟨wsemi, _ | _⟩, rfl⟩ := forall₂_append_right_iff.mp h
    obtain ⟨htype, hty⟩ := typeNamed_of_namesValue wtype htype
    rw [← (wname.leaf hname).name.2]
    refine Parses.node .varDeclInit (.leaf (wword.leaf hword).1 (.leaf (wname.leaf hname).1
      (.leaf (wcolon.leaf hcolon).1 (.leaf htype (.leaf (weq.leaf heq).1 (.tree (Expression.parses he hus)
        (.leaf (wsemi.leaf hsemi).1 .nil))))))) ?_
    exact bind_of_ok hty rfl

/-- What an assignment consists of. -/
theorem Assign.parts {s : Stmt} (h : Assign ts s) (hls : List.Forall₂ Lexeme.Writes ls ts) :
    ∃ (name eq : Lexeme) (e : Expr) (us : List Lexeme), ls = name :: eq :: us ∧ name.terminal = .name ∧
      eq.terminal = .equal ∧ Nonterminal.expr.Parses e us ∧ s = .assign name.text e := by
  obtain ⟨hname, heq, he⟩ := h
  obtain _ | ⟨wname, _ | ⟨weq, hus⟩⟩ := hls
  have hleaf := wname.leaf hname
  exact ⟨_, _, _, _, rfl, hleaf.1, (weq.leaf heq).1, Expression.parses he hus, by rw [hleaf.name.2]⟩

/-- An assignment with its semicolon. -/
theorem Assign.parses {s : Stmt} {l : Lexeme} {semi : Token} (h : Assign ts s)
    (hls : List.Forall₂ Lexeme.Writes ls ts) (hl : l.Writes semi) (hsemi : semi.kind = .semicolon) :
    (Nonterminal.form .assignment).Parses s (ls ++ [l]) := by
  obtain ⟨name, eq, e, us, rfl, hname, heq, he, rfl⟩ := Assign.parts h hls
  exact Parses.node .assignment (.leaf hname (.leaf heq (.tree he (.leaf (hl.leaf hsemi).1 .nil)))) rfl

theorem ForInit.parses {s : Stmt} (h : ForInit ts s) (hls : List.Forall₂ Lexeme.Writes ls ts) :
    Nonterminal.forInit.Parses s ls := by
  cases h with
  | decl h => exact Parses.node .forInitDecl (.last (VarDecl.parses h hls)) rfl
  | assign h hsemi =>
    obtain ⟨us, _, hus, _ | ⟨wsemi, _ | _⟩, rfl⟩ := forall₂_append_right_iff.mp hls
    exact Parses.node .forInitAssign (.last (Assign.parses h hus wsemi hsemi)) rfl

theorem ForStep.parses {s : Stmt} (h : ForStep ts s) (hls : List.Forall₂ Lexeme.Writes ls ts) :
    Nonterminal.forStep.Parses s ls := by
  cases h with
  | assign h =>
    obtain ⟨name, eq, e, us, rfl, hname, heq, he, rfl⟩ := Assign.parts h hls
    exact Parses.node .stepAssign (.leaf hname (.leaf heq (.last he))) rfl
  | assignClosed h hsemi =>
    obtain ⟨us, _, hus, _ | ⟨wsemi, _ | _⟩, rfl⟩ := forall₂_append_right_iff.mp hls
    obtain ⟨name, eq, e, us, rfl, hname, heq, he, rfl⟩ := Assign.parts h hus
    exact Parses.node .stepAssignClosed (.leaf hname (.leaf heq (.tree he (.leaf (wsemi.leaf hsemi).1 .nil)))) rfl
  | expr he => exact Parses.node .stepExpr (.last (Expression.parses he hls)) rfl
  | exprClosed he hsemi =>
    obtain ⟨us, _, hus, _ | ⟨wsemi, _ | _⟩, rfl⟩ := forall₂_append_right_iff.mp hls
    exact Parses.node .stepExprClosed (.tree (Expression.parses he hus) (.leaf (wsemi.leaf hsemi).1 .nil)) rfl

theorem Parameter.parses {p : Param} (h : Parameter ts p) (hls : List.Forall₂ Lexeme.Writes ls ts) :
    Nonterminal.param.Parses p ls := by
  obtain ⟨hname, hcolon, htype⟩ := h
  obtain _ | ⟨wname, _ | ⟨wcolon, _ | ⟨wtype, _ | _⟩⟩⟩ := hls
  obtain ⟨htype, hty⟩ := typeNamed_of_namesValue wtype htype
  rw [← (wname.leaf hname).name.2]
  refine Parses.node .param (.leaf (wname.leaf hname).1 (.leaf (wcolon.leaf hcolon).1 (.leaf htype .nil))) ?_
  exact bind_of_ok hty rfl

/-- Further parameters make the tail longer. -/
theorem Parameters.tail {ps : List Param} (h : Parameters ts ps) : ∀ {before : List Param} {us ls : List Lexeme}
    {comma : Lexeme}, OrNone Nonterminal.paramTail.Parses before us → comma.terminal = .comma →
    List.Forall₂ Lexeme.Writes ls ts → Nonterminal.paramTail.Parses (before ++ ps) (us ++ comma :: ls) := by
  have hone {before : List Param} {p : Param} {us vs : List Lexeme} {comma : Lexeme}
      (hus : OrNone Nonterminal.paramTail.Parses before us) (hcomma : comma.terminal = .comma)
      (hp : Nonterminal.param.Parses p vs) : Nonterminal.paramTail.Parses (before ++ [p]) (us ++ comma :: vs) := by
    rcases hus with ⟨rfl, rfl⟩ | hus
    · exact Parses.node .paramTailOne (.leaf hcomma (.last hp)) rfl
    · exact Parses.node .paramTailMore (.tree hus (.leaf hcomma (.last hp))) rfl
  induction h with
  | one hp =>
    intro before us ls comma hus hcomma hls
    exact hone hus hcomma (Parameter.parses hp hls)
  | more hp hcomma' _ ih =>
    intro before us ls comma hus hcomma hls
    obtain ⟨vs, _, hvs, _ | ⟨wcomma, hws⟩, rfl⟩ := forall₂_append_right_iff.mp hls
    have hbefore := hone hus hcomma (Parameter.parses hp hvs)
    simpa using ih (.inr hbefore) (wcomma.leaf hcomma').1 hws

/-- Parameters are a first one and a tail. -/
theorem Parameters.parses {ps : List Param} (h : Parameters ts ps) (hls : List.Forall₂ Lexeme.Writes ls ts) :
    ∃ q qs us ws, ps = q :: qs ∧ ls = us ++ ws ∧ Nonterminal.param.Parses q us ∧
      OrNone Nonterminal.paramTail.Parses qs ws := by
  cases h with
  | one hp => exact ⟨_, [], ls, [], rfl, (List.append_nil ls).symm, Parameter.parses hp hls, .inl ⟨rfl, rfl⟩⟩
  | more hp hcomma hps =>
    obtain ⟨us, _, hus, _ | ⟨wcomma, hws⟩, rfl⟩ := forall₂_append_right_iff.mp hls
    have htail := Parameters.tail hps (.inl ⟨rfl, rfl⟩) (wcomma.leaf hcomma).1 hws
    exact ⟨_, _, us, _, rfl, rfl, Parameter.parses hp hus, .inr htail⟩

theorem Condition.parts {k : Token.Kind} {e : Expr} (h : Condition k ts e) (hls : List.Forall₂ Lexeme.Writes ls ts) :
    ∃ (word lp rp : Lexeme) (us : List Lexeme), ls = word :: lp :: (us ++ [rp]) ∧ word.terminal = k.terminal ∧
      lp.terminal = .lparen ∧ Nonterminal.expr.Parses e us ∧ rp.terminal = .rparen := by
  obtain ⟨hword, hlp, he, hrp⟩ := h
  obtain _ | ⟨wword, _ | ⟨wlp, h⟩⟩ := hls
  obtain ⟨us, _, hus, _ | ⟨wrp, _ | _⟩, rfl⟩ := forall₂_append_right_iff.mp h
  exact ⟨_, _, _, us, rfl, (wword.leaf hword).1, (wlp.leaf hlp).1, Expression.parses he hus, (wrp.leaf hrp).1⟩

/-! ### Statements -/

theorem statement_parses (f : Form) {s : Stmt} (h : (Nonterminal.form f).Parses s ls) : Nonterminal.statement.Parses s ls :=
  Parses.node (.statement f) (.last h) rfl

theorem statements_concat {ss : List Stmt} {s : Stmt} (h : OrNone Nonterminal.statements.Parses ss ls)
    (hs : Nonterminal.statement.Parses s us) : Nonterminal.statements.Parses (ss ++ [s]) (ls ++ us) := by
  rcases h with ⟨rfl, rfl⟩ | h
  · exact Parses.node .statementsOne (.last hs) rfl
  · exact Parses.node .statementsMore (.tree h (.last hs)) rfl

theorem function_parses {word name lp rp colon type : Lexeme} {ws : List Lexeme} {ps : List Param} {ty : Ty}
    {body : List Stmt} (hword : word.terminal = .funcWord) (hname : name.terminal = .name) (hlp : lp.terminal = .lparen)
    (hparams : ps = [] ∧ us = [] ∨ ∃ q qs ls ws, ps = q :: qs ∧ us = ls ++ ws ∧ Nonterminal.param.Parses q ls ∧
      OrNone Nonterminal.paramTail.Parses qs ws)
    (hrp : rp.terminal = .rparen) (hcolon : colon.terminal = .colon)
    (htype : type.terminal = .name ∧ typeNamed Ty.ofName? type = .ok ty) (hbody : Nonterminal.block.Parses body ws) :
    (Nonterminal.form .function).Parses (.function name.text ps ty body)
      (word :: name :: lp :: (us ++ rp :: colon :: type :: ws)) := by
  obtain ⟨htype, hty⟩ := htype
  rcases hparams with ⟨rfl, rfl⟩ | ⟨q, qs, ls, ws, rfl, rfl, hq, ⟨rfl, rfl⟩ | hqs⟩
  · exact Parses.node .functionNone (.leaf hword (.leaf hname (.leaf hlp (.leaf hrp (.leaf hcolon (.leaf htype
      (.last hbody))))))) (bind_of_ok hty rfl)
  · rw [List.append_nil]
    exact Parses.node .functionOne (.leaf hword (.leaf hname (.leaf hlp (.tree hq (.leaf hrp (.leaf hcolon (.leaf htype
      (.last hbody)))))))) (bind_of_ok hty rfl)
  · rw [List.append_assoc]
    exact Parses.node .functionMore (.leaf hword (.leaf hname (.leaf hlp (.tree hq (.tree hqs (.leaf hrp (.leaf hcolon
      (.leaf htype (.last hbody))))))))) (bind_of_ok hty rfl)

mutual
theorem Statement.parses {ts : List Token} {s : Stmt} : Statement ts s →
    ∀ ls, List.Forall₂ Lexeme.Writes ls ts → Nonterminal.statement.Parses s ls
  | .varDecl h, ls, hls => statement_parses .varDecl (VarDecl.parses h hls)
  | .assign h hsemi, ls, hls => by
    obtain ⟨us, _, hus, _ | ⟨wsemi, _ | _⟩, rfl⟩ := forall₂_append_right_iff.mp hls
    exact statement_parses .assignment (Assign.parses h hus wsemi hsemi)
  | .print h hsemi, ls, hls => by
    obtain ⟨us, _, hus, _ | ⟨wsemi, _ | _⟩, rfl⟩ := forall₂_append_right_iff.mp hls
    obtain ⟨word, lp, rp, vs, rfl, hword, hlp, he, hrp⟩ := Condition.parts h hus
    rw [List.cons_append, List.cons_append, List.append_assoc]
    exact statement_parses .print (Parses.node .print (.leaf hword (.leaf hlp (.tree he (.leaf hrp
      (.leaf (wsemi.leaf hsemi).1 .nil))))) rfl)
  | .input hword hlp hname hrp hsemi, ls, hls => by
    obtain _ | ⟨wword, _ | ⟨wlp, _ | ⟨wname, _ | ⟨wrp, _ | ⟨wsemi, _ | _⟩⟩⟩⟩⟩ := hls
    rw [← (wname.leaf hname).name.2]
    exact statement_parses .input (Parses.node .input (.leaf (wword.leaf hword).1 (.leaf (wlp.leaf hlp).1
      (.leaf (wname.leaf hname).1 (.leaf (wrp.leaf hrp).1 (.leaf (wsemi.leaf hsemi).1 .nil))))) rfl)
  | .ifThen h hbody, ls, hls => by
    have ih := Block.parses hbody
    obtain ⟨us, ws, hus, hws, rfl⟩ := forall₂_append_right_iff.mp hls
    obtain ⟨word, lp, rp, vs, rfl, hword, hlp, he, hrp⟩ := Condition.parts h hus
    rw [List.cons_append, List.cons_append, List.append_assoc]
    exact statement_parses .branch (Parses.node .ifThen (.leaf hword (.leaf hlp (.tree he (.leaf hrp
      (.last (ih ws hws)))))) rfl)
  | .ifElse h hyes hword' hno, ls, hls => by
    have ihyes := Block.parses hyes
    have ihno := Block.parses hno
    obtain ⟨us, _, hus, hrest, rfl⟩ := forall₂_append_right_iff.mp hls
    obtain ⟨ws, _, hws, _ | ⟨wword', hxs⟩, rfl⟩ := forall₂_append_right_iff.mp hrest
    obtain ⟨word, lp, rp, vs, rfl, hword, hlp, he, hrp⟩ := Condition.parts h hus
    have helse : _ = Terminal.elseWord := (wword'.leaf hword').1
    have hbranches := ParsesAll.tree (ihyes ws hws) (.leaf helse (.last (ihno _ hxs)))
    rw [List.cons_append, List.cons_append, List.append_assoc]
    exact statement_parses .branch (Parses.node .ifElse (.leaf hword (.leaf hlp (.tree he (.leaf hrp hbranches)))) rfl)
  | .whileLoop h hbody, ls, hls => by
    have ih := Block.parses hbody
    obtain ⟨us, ws, hus, hws, rfl⟩ := forall₂_append_right_iff.mp hls
    obtain ⟨word, lp, rp, vs, rfl, hword, hlp, he, hrp⟩ := Condition.parts h hus
    rw [List.cons_append, List.cons_append, List.append_assoc]
    exact statement_parses .whileLoop (Parses.node .whileLoop (.leaf hword (.leaf hlp (.tree he (.leaf hrp
      (.last (ih ws hws)))))) rfl)
  | .forLoop hword hlp hinit hcond hsemi hstep hrp hbody, ls, hls => by
    have ih := Block.parses hbody
    obtain ⟨word, _, wword, h₁, rfl⟩ := List.forall₂_cons_right_iff.mp hls
    obtain ⟨lp, _, wlp, h₂, rfl⟩ := List.forall₂_cons_right_iff.mp h₁
    obtain ⟨us, _, hus, h₃, rfl⟩ := forall₂_append_right_iff.mp h₂
    obtain ⟨vs, _, hvs, h₄, rfl⟩ := forall₂_append_right_iff.mp h₃
    obtain ⟨semi, _, wsemi, h₅, rfl⟩ := List.forall₂_cons_right_iff.mp h₄
    obtain ⟨ws, _, hws, h₆, rfl⟩ := forall₂_append_right_iff.mp h₅
    obtain ⟨rp, xs, wrp, hxs, rfl⟩ := List.forall₂_cons_right_iff.mp h₆
    exact statement_parses .forLoop (Parses.node .forLoop (.leaf (wword.leaf hword).1 (.leaf (wlp.leaf hlp).1
      (.tree (ForInit.parses hinit hus) (.tree (Expression.parses hcond hvs) (.leaf (wsemi.leaf hsemi).1
        (.tree (ForStep.parses hstep hws) (.leaf (wrp.leaf hrp).1 (.last (ih _ hxs))))))))) rfl)
  | .function hword hname hlp hparams hrp hcolon htype hbody, ls, hls => by
    have ih := Block.parses hbody
    obtain _ | ⟨wword, _ | ⟨wname, _ | ⟨wlp, hrest⟩⟩⟩ := hls
    obtain ⟨us, _, hus, _ | ⟨wrp, _ | ⟨wcolon, _ | ⟨wtype, hws⟩⟩⟩, rfl⟩ := forall₂_append_right_iff.mp hrest
    rw [← (wname.leaf hname).name.2]
    refine statement_parses .function (function_parses (wword.leaf hword).1 (wname.leaf hname).1 (wlp.leaf hlp).1 ?_
      (wrp.leaf hrp).1 (wcolon.leaf hcolon).1 (typeNamed_of_names wtype htype) (ih _ hws))
    cases hparams with
    | none => exact .inl ⟨rfl, List.forall₂_nil_right_iff.mp hus⟩
    | some hparams => exact .inr (Parameters.parses hparams hus)
  | .retNone hword hsemi, ls, hls => by
    obtain _ | ⟨wword, _ | ⟨wsemi, _ | _⟩⟩ := hls
    exact statement_parses .ret (Parses.node .returnNone (.leaf (wword.leaf hword).1 (.leaf (wsemi.leaf hsemi).1 .nil)) rfl)
  | .retSome hword he hsemi, ls, hls => by
    obtain _ | ⟨wword, hrest⟩ := hls
    obtain ⟨us, _, hus, _ | ⟨wsemi, _ | _⟩, rfl⟩ := forall₂_append_right_iff.mp hrest
    exact statement_parses .ret (Parses.node .returnSome (.leaf (wword.leaf hword).1 (.tree (Expression.parses he hus)
      (.leaf (wsemi.leaf hsemi).1 .nil))) rfl)
  | .expr he hsemi, ls, hls => by
    obtain ⟨us, _, hus, _ | ⟨wsemi, _ | _⟩, rfl⟩ := forall₂_append_right_iff.mp hls
    exact statement_parses .expr (Parses.node .exprStatement (.tree (Expression.parses he hus)
      (.leaf (wsemi.leaf hsemi).1 .nil)) rfl)

theorem Block.parses {ts : List Token} {ss : List Stmt} : Block ts ss →
    ∀ ls, List.Forall₂ Lexeme.Writes ls ts → Nonterminal.block.Parses ss ls
  | .mk hlb hss hrb, ls, hls => by
    have ih := Statements.parses hss
    obtain _ | ⟨wlb, hrest⟩ := hls
    obtain ⟨us, _, hus, _ | ⟨wrb, _ | _⟩, rfl⟩ := forall₂_append_right_iff.mp hrest
    rcases ih us hus (.inl ⟨rfl, rfl⟩) with ⟨hnone, rfl⟩ | hss
    · rw [List.nil_append] at hnone
      rw [hnone]
      exact Parses.node .blockNone (.leaf (wlb.leaf hlb).1 (.leaf (wrb.leaf hrb).1 .nil)) rfl
    · exact Parses.node .blockSome (.leaf (wlb.leaf hlb).1 (.tree hss (.leaf (wrb.leaf hrb).1 .nil))) rfl

/-- Further statements make the list longer. -/
theorem Statements.parses {ts : List Token} {ss : List Stmt} : Statements ts ss →
    ∀ ls, List.Forall₂ Lexeme.Writes ls ts → ∀ {before : List Stmt} {us : List Lexeme},
      OrNone Nonterminal.statements.Parses before us → OrNone Nonterminal.statements.Parses (before ++ ss) (us ++ ls)
  | .none, ls, hls, before, us, h => by
    rw [List.forall₂_nil_right_iff.mp hls, List.append_nil, List.append_nil]
    exact h
  | .some hs hss, ls, hls, before, us, h => by
    have ihs := Statement.parses hs
    have ihss := Statements.parses hss
    obtain ⟨vs, ws, hvs, hws, rfl⟩ := forall₂_append_right_iff.mp hls
    simpa using ihss ws hws (.inr (statements_concat h (ihs vs hvs)))
end

/-- Lexemes that write the tokens of a program have a tree whose value is the program. -/
theorem Derives.tree {p : Program} {last : Token} (h : Derives (ts ++ [last]) p)
    (hls : List.Forall₂ Lexeme.Writes ls ts) : Nonterminal.start.Parses p ls := by
  generalize hall : ts ++ [last] = all at h
  obtain ⟨hbody, -⟩ := h
  obtain ⟨rfl, -⟩ := List.append_inj' hall rfl
  obtain ⟨body⟩ := p
  rcases Statements.parses hbody ls hls (.inl ⟨rfl, rfl⟩) with ⟨hnone, rfl⟩ | hsome
  · obtain rfl : body = [] := hnone
    exact Parses.node .startNone .nil rfl
  · exact Parses.node .startSome (.last hsome) rfl

end Grammar
end TypedImp

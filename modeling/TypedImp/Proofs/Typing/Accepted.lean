import TypedImp.Proofs.Typing.Admitted

/-! What is well typed is accepted: every rule is one that the checker follows. -/

namespace TypedImp
namespace Typing
namespace Checker

variable {a a' : Arena} {Γ : Context} {result : Option Ty}

/-! ### Expressions -/

theorem asValue_of_ne_void {t : Ty} (ht : t ≠ .void) (a : Arena) : asValue t a = .ok t a := by
  rw [asValue, if_neg ht]
  rfl

theorem ne_void_of_accepts {s t : Ty} (h : s.accepts t = true) (hs : s ≠ .void) : t ≠ .void := by
  rintro rfl
  revert h
  cases s <;> first | decide | exact absurd rfl hs

theorem ne_void_of_isNumeric {t : Ty} (h : t.isNumeric = true) : t ≠ .void := by
  rintro rfl
  cases h

theorem binaryType_logical {op : BinaryOp} (h : op.family = .logical) : binaryType op .bool .bool = .ok .bool := by
  rw [binaryType, h]
  rfl

theorem binaryType_equality {op : BinaryOp} {s t : Ty} (h : op.family = .equality) (hst : s.accepts t = true) :
    binaryType op s t = .ok .bool := by
  rw [binaryType, h, hst]
  rfl

theorem binaryType_relational {op : BinaryOp} {s t : Ty} (h : op.family = .relational) (hs : s.isNumeric = true)
    (hst : s.accepts t = true) : binaryType op s t = .ok .bool := by
  rw [binaryType, h, hst, hs]
  rfl

theorem binaryType_arithmetic {op : BinaryOp} {s t : Ty} (h : op.family = .arithmetic)
    (hs : s.isNumeric = true ∨ op = .add ∧ s = .string) (hst : s.accepts t = true) : binaryType op s t = .ok s := by
  rw [binaryType, h, hst]
  dsimp only
  rw [if_neg (by decide), if_pos (by simpa using hs)]

theorem resolve_of_lookup (ha : a.Stands Γ result) {x : String} {symbol : Symbol} (hx : Γ.lookup? x = some symbol) :
    resolve x a = .ok symbol a := by
  rw [resolve, State.get_bind, ha.resolve?, hx]
  rfl

theorem resolveVariable_of_type (ha : a.Stands Γ result) {x : String} {t : Ty} (hx : Γ.names.type? x = some t) :
    resolveVariable x a = .ok t a := by
  rw [resolveVariable, State.bind_of_ok (resolve_of_lookup ha (Context.lookup?_of_type hx))]
  rfl

theorem binary_of_operands {l r : Expr} {op : BinaryOp} {s t u : Ty} (hl : typeOf l a = .ok s a) (hs : s ≠ .void)
    (hr : typeOf r a = .ok t a) (ht : t ≠ .void) (h : binaryType op s t = .ok u) :
    typeOf (.binary l op r) a = .ok u a := by
  rw [typeOf, State.bind_of_ok hl, State.bind_of_ok (asValue_of_ne_void hs a), State.bind_of_ok hr,
    State.bind_of_ok (asValue_of_ne_void ht a), h]
  rfl

mutual
theorem typeOf_of_hasType (ha : a.Stands Γ result) {e : Expr} {t : Ty} : HasType Γ.names e t → typeOf e a = .ok t a
  | .literal hv => by
    rw [typeOf, hv.ty_eq]
    rfl
  | .var hx _ => by
    rw [typeOf]
    exact resolveVariable_of_type ha hx
  | .unary _ he hnumeric => by
    rw [typeOf, State.bind_of_ok (typeOf_of_hasType ha he),
      State.bind_of_ok (asValue_of_ne_void (ne_void_of_isNumeric hnumeric) a), unaryType, if_pos hnumeric]
    rfl
  | .logical hop hl hr =>
    binary_of_operands (typeOf_of_hasType ha hl) (by decide) (typeOf_of_hasType ha hr) (by decide)
      (binaryType_logical hop)
  | .equality hop hl hr hs hst =>
    binary_of_operands (typeOf_of_hasType ha hl) hs (typeOf_of_hasType ha hr) (ne_void_of_accepts hst hs)
      (binaryType_equality hop hst)
  | .relational hop hl hr hs hst =>
    have hne := ne_void_of_isNumeric hs
    binary_of_operands (typeOf_of_hasType ha hl) hne (typeOf_of_hasType ha hr) (ne_void_of_accepts hst hne)
      (binaryType_relational hop hs hst)
  | .arithmetic hop hl hr hs hst =>
    have hne := ne_void_of_isNumeric hs
    binary_of_operands (typeOf_of_hasType ha hl) hne (typeOf_of_hasType ha hr) (ne_void_of_accepts hst hne)
      (binaryType_arithmetic hop (.inl hs) hst)
  | .concat hl hr =>
    binary_of_operands (typeOf_of_hasType ha hl) (by decide) (typeOf_of_hasType ha hr) (by decide)
      (binaryType_arithmetic rfl (.inr ⟨rfl, rfl⟩) rfl)
  | .call hx hargs => by
    simp only [Context.names] at hx
    split at hx
    · next hlookup =>
      cases hx
      rw [typeOf, State.bind_of_ok (resolve_of_lookup ha hlookup)]
      dsimp only
      rw [if_neg (not_not_intro hargs.length_eq)]
      exact State.bind_of_ok (checkArguments_of_fit ha hargs _ _)
    · cases hx

theorem checkArguments_of_fit (ha : a.Stands Γ result) {ps : List Param} {es : List Expr} :
    ArgumentsFit Γ.names ps es → ∀ (x : String) (index : Nat), checkArguments x index ps es a = .ok () a
  | .nil, _, _ => by
    rw [checkArguments]
    · rfl
    · intro p ps e es h
      cases h
  | .cons he hne haccepts hes, x, index => by
    rw [checkArguments, State.bind_of_ok (typeOf_of_hasType ha he), State.bind_of_ok (asValue_of_ne_void hne a), haccepts]
    exact checkArguments_of_fit ha hes x (index + 1)
end

theorem valueType_of_hasType (ha : a.Stands Γ result) {e : Expr} {t : Ty} (he : HasType Γ.names e t)
    (ht : t ≠ .void) : valueType e a = .ok t a := by
  rw [valueType, State.bind_of_ok (typeOf_of_hasType ha he)]
  exact asValue_of_ne_void ht a

theorem checkCondition_of_hasType (ha : a.Stands Γ result) (construct : Construct) {e : Expr}
    (he : HasType Γ.names e .bool) : checkCondition construct e a = .ok () a := by
  rw [checkCondition, State.bind_of_ok (valueType_of_hasType ha he (by decide))]
  rfl

theorem checkInitializer_of_fits (ha : a.Stands Γ result) (x : String) {t : Ty} {e : Expr} (he : Fits Γ.names e t) :
    checkInitializer x t e a = .ok () a := by
  obtain ⟨s, hs, hne, haccepts⟩ := he
  rw [checkInitializer, State.bind_of_ok (valueType_of_hasType ha hs hne), haccepts]
  rfl

theorem checkAssignment_of_fits (ha : a.Stands Γ result) {x : String} {t : Ty} {e : Expr}
    (hx : Γ.names.type? x = some t) (he : Fits Γ.names e t) : checkAssignment x e a = .ok () a := by
  obtain ⟨s, hs, hne, haccepts⟩ := he
  rw [checkAssignment, State.bind_of_ok (resolveVariable_of_type ha hx),
    State.bind_of_ok (valueType_of_hasType ha hs hne), haccepts]
  rfl

theorem declare_of_fresh (ha : a.Stands Γ result) {x : String} {symbol : Symbol} (hx : Γ.Fresh x) :
    declare x symbol a = .ok () (a.add x symbol) := by
  rw [declare, State.get_bind, ha.has_eq_false_iff.mpr hx]
  rfl

theorem checkVarDecl_of_fits (ha : a.Stands Γ result) {x : String} {t : Ty} {init : Option Expr}
    (hinit : ∀ e ∈ init, Fits Γ.names e t) (hx : Γ.Fresh x) :
    ∃ a', checkVarDecl x t init a = .ok () a' ∧ a'.Stands (Γ.declare x (.variable t)) result := by
  refine ⟨(a.add x (.variable t)).record (.declareVariable x t), ?_, (ha.add x _).record _⟩
  have hdeclare : (declare x (.variable t) >>= fun _ => record (.declareVariable x t)) a =
      .ok () ((a.add x (.variable t)).record (.declareVariable x t)) := State.bind_of_ok (declare_of_fresh ha hx)
  cases init with
  | none => exact hdeclare
  | some e =>
    rw [checkVarDecl]
    exact (State.bind_of_ok (checkInitializer_of_fits ha x (hinit e rfl))).trans hdeclare

theorem checkReturn_none (ha : a.Stands Γ result) (h : result = some .void) : checkReturn none a = .ok () a := by
  rw [checkReturn, State.get_bind, ha.result, h]
  rfl

theorem checkReturn_some (ha : a.Stands Γ result) {e : Expr} {t : Ty} (h : result = some t) (ht : t ≠ .void)
    (he : Fits Γ.names e t) : checkReturn (some e) a = .ok () a := by
  obtain ⟨s, hs, hne, haccepts⟩ := he
  rw [checkReturn, State.get_bind, ha.result, h]
  dsimp only
  rw [if_neg ht, State.bind_of_ok (valueType_of_hasType ha hs hne), haccepts]
  rfl

/-- The body of a block that is checked well is checked well in a scope of its own. -/
theorem inScope_of_body {body : List Stmt}
    (hbody : ∃ b, checkStatements body a.enter = .ok () b ∧ b.Stands (Γ.block.afterAll body) result) :
    ∃ a', inScope (checkStatements body) a = .ok () a' ∧ a'.Stands Γ result := by
  obtain ⟨b, hb, hstands⟩ := hbody
  exact inScope_of_ok hb hstands (Γ.within_block.afterAll body)

mutual
/-- A statement that is well typed is accepted. -/
theorem checkStatement_of_admits {s : Stmt} {a : Arena} {Γ : Context} {result : Option Ty} (ha : a.Stands Γ result)
    (hs : s.WellFormed) : Admits result Γ s → ∃ a', checkStatement s a = .ok () a' ∧ a'.Stands (Γ.after s) result
  | .varDecl hinit hx => by
    rw [checkStatement]
    exact checkVarDecl_of_fits ha hinit hx
  | .assign hx he => by
    rw [checkStatement]
    exact ⟨a, checkAssignment_of_fits ha hx he, ha⟩
  | .print he ht => by
    rw [checkStatement]
    exact ⟨a, State.discard_of_ok (valueType_of_hasType ha he ht), ha⟩
  | .input hx => by
    rw [checkStatement]
    exact ⟨a, State.discard_of_ok (resolveVariable_of_type ha hx), ha⟩
  | .ifThen hcond hbody => by
    cases hs with
    | ifThen _ hs =>
      rw [checkStatement, State.bind_of_ok (checkCondition_of_hasType ha _ hcond)]
      exact inScope_of_body (checkStatements_of_admits ha.enter hs hbody)
  | .ifElse hcond hyes hno => by
    cases hs with
    | ifElse _ hs hs' =>
      obtain ⟨a₁, hfirst, ha₁⟩ := inScope_of_body (checkStatements_of_admits ha.enter hs hyes)
      rw [checkStatement, State.bind_of_ok (checkCondition_of_hasType ha _ hcond), State.bind_of_ok hfirst]
      exact inScope_of_body (checkStatements_of_admits ha₁.enter hs' hno)
  | .whileLoop hcond hbody => by
    cases hs with
    | whileLoop _ hs =>
      rw [checkStatement, State.bind_of_ok (checkCondition_of_hasType ha _ hcond)]
      exact inScope_of_body (checkStatements_of_admits ha.enter hs hbody)
  | .forLoop hΓ' hinit hcond hstep hbody => by
    subst hΓ'
    cases hs with
    | forLoop _ hsinit _ hisStep hsstep hsbody =>
      obtain ⟨a₁, hfirst, ha₁⟩ := checkStatement_of_admits ha.enter hsinit hinit
      obtain ⟨a₂, hsecond, ha₂⟩ := checkStatement_of_admits ha₁ hsstep hstep
      rw [Context.after_step hisStep] at ha₂
      obtain ⟨a₃, hthird, ha₃⟩ := inScope_of_body (checkStatements_of_admits ha₂.enter hsbody hbody)
      rw [checkStatement]
      refine inScope_of_ok ?_ ha₃ (Γ.within_block.after _)
      rw [State.bind_of_ok hfirst, State.bind_of_ok (checkCondition_of_hasType ha₁ _ hcond), State.bind_of_ok hsecond]
      exact hthird
  | .retNone hresult => by
    rw [checkStatement]
    exact ⟨a, checkReturn_none ha hresult, ha⟩
  | .retSome hresult ht he => by
    rw [checkStatement]
    exact ⟨a, checkReturn_some ha hresult ht he, ha⟩
  | .expr he => by
    rw [checkStatement]
    exact ⟨a, State.discard_of_ok (typeOf_of_hasType ha he), ha⟩

theorem checkStatements_of_admits {ss : List Stmt} {a : Arena} {Γ : Context} {result : Option Ty}
    (ha : a.Stands Γ result) (hss : ∀ s ∈ ss, s.WellFormed) :
    AdmitsAll result Γ ss → ∃ a', checkStatements ss a = .ok () a' ∧ a'.Stands (Γ.afterAll ss) result
  | .nil => ⟨a, by rw [checkStatements]; rfl, ha⟩
  | .cons hs hrest => by
    rw [List.forall_mem_cons] at hss
    obtain ⟨a₁, hfirst, ha₁⟩ := checkStatement_of_admits ha hss.1 hs
    rw [checkStatements, State.bind_of_ok hfirst]
    exact checkStatements_of_admits ha₁ hss.2 hrest
end

theorem declareParameters_of_fresh (ha : a.Stands Γ result) (x : String) {params : List Param}
    (h : Γ.AllFresh (params.map Param.name)) : ∃ a', declareParameters x params a = .ok () a' ∧
      a'.Stands (Γ.declareAll (params.map fun p => (p.name, .variable p.ty))) result := by
  induction params generalizing a Γ with
  | nil => exact ⟨a, rfl, ha⟩
  | cons p params ih =>
    obtain ⟨hfresh, hall⟩ := Context.allFresh_cons.mp h
    obtain ⟨a', ha', hstands⟩ := ih (ha.add p.name (.variable p.ty)) hall
    refine ⟨a', ?_, hstands⟩
    rw [declareParameters, State.get_bind, ha.has_eq_false_iff.mpr hfresh, if_neg Bool.false_ne_true]
    exact (State.bind_of_ok (declare_of_fresh ha hfresh)).trans ha'

theorem requireTop_of_top (ha : a.Stands Γ none) (hΓ : Γ.inner = []) (x : String) : requireTop x a = .ok () a := by
  rw [requireTop, State.get_bind, ha.result, ha.scope, hΓ]
  rfl

/-- A function that is well typed is accepted at the top level. -/
theorem checkFunction_of_admits {f : Function} (ha : a.Stands Γ none) (hΓ : Γ.inner = [])
    (hs : (Stmt.function f.name f.params f.result f.body).WellFormed) (h : AdmitsFunction Γ f) :
    ∃ a', checkStatement (.function f.name f.params f.result f.body) a = .ok () a' ∧ a'.Stands Γ none := by
  cases hs with
  | function _ _ hbody =>
    have hfresh : Γ.block.AllFresh (f.params.map Param.name) := ⟨h.params, fun _ _ => Context.fresh_block⟩
    obtain ⟨a₁, hdeclare, ha₁⟩ := declareParameters_of_fresh ha.enter f.name hfresh
    have hbegin : ({ a₁ with result := some f.result } : Arena).Stands (Γ.body f.params) (some f.result) :=
      ⟨ha₁.scopes, ha₁.current, rfl⟩
    obtain ⟨b, hcheck, hb⟩ := checkStatements_of_admits hbegin hbody h.body
    have hresult : withResult f.result (checkStatements f.body) a₁ = .ok () { b with result := none } := by
      rw [withResult, hcheck]
    have hwithin := Γ.within_block.declareAll (f.params.map fun p => (p.name, .variable p.ty))
    rw [checkStatement, State.bind_of_ok (requireTop_of_top ha hΓ f.name)]
    refine inScope_of_ok (b := { b with result := none }) ?_ ⟨hb.scopes, hb.current, rfl⟩ (hwithin.afterAll f.body)
    rw [State.bind_of_ok hdeclare]
    exact hresult

theorem checkTop_of_admits {ss : List Stmt} (ha : a.Stands Γ none) (hΓ : Γ.inner = []) (hss : ∀ s ∈ ss, s.WellFormed)
    (h : AdmitsTop Γ ss) : ∃ a', checkStatements ss a = .ok () a' := by
  induction h generalizing a with
  | nil => exact ⟨a, by rw [checkStatements]; rfl⟩
  | @function Γ x params t body ss hf _ ih =>
    rw [List.forall_mem_cons] at hss
    obtain ⟨a₁, hfirst, ha₁⟩ := checkFunction_of_admits (f := ⟨x, params, t, body⟩) ha hΓ hss.1 hf
    obtain ⟨a₂, hrest⟩ := ih ha₁ hΓ hss.2
    exact ⟨a₂, by rw [checkStatements]; exact (State.bind_of_ok hfirst).trans hrest⟩
  | @action Γ s ss hs _ ih =>
    rw [List.forall_mem_cons] at hss
    obtain ⟨a₁, hfirst, ha₁⟩ := checkStatement_of_admits ha hss.1 hs
    obtain ⟨a₂, hrest⟩ := ih ha₁ (Context.inner_after_nil hΓ s) hss.2
    exact ⟨a₂, by rw [checkStatements]; exact (State.bind_of_ok hfirst).trans hrest⟩

theorem declareFunctions_of_fresh (ha : a.Stands Γ result) {fs : List Function}
    (h : Γ.AllFresh (fs.map Function.name)) : ∃ a', declareFunctions fs a = .ok () a' ∧
      a'.Stands (Γ.declareAll (fs.map fun f => (f.name, .function f.params f.result))) result := by
  induction fs generalizing a Γ with
  | nil => exact ⟨a, rfl, ha⟩
  | cons f fs ih =>
    obtain ⟨hfresh, hall⟩ := Context.allFresh_cons.mp h
    let e := Event.declareFunction f.name f.params f.result
    obtain ⟨a', ha', hstands⟩ := ih ((ha.add f.name (.function f.params f.result)).record e) hall
    refine ⟨a', ?_, hstands⟩
    rw [declareFunctions, State.bind_of_ok (declare_of_fresh ha hfresh)]
    exact (State.bind_of_ok rfl).trans ha'

/-- A well-formed program that is well typed is accepted. -/
theorem checkProgram_of_wellTyped {p : Program} (hp : p.WellFormed) (h : p.WellTyped) :
    ∃ a, checkProgram p Arena.start = .ok () a := by
  have hfresh : (Context.mk [] []).AllFresh (p.functions.map Function.name) := ⟨h.distinct, fun _ _ => rfl⟩
  obtain ⟨a₁, hdeclare, ha₁⟩ := declareFunctions_of_fresh stands_start hfresh
  obtain ⟨a₂, hbody⟩ := checkTop_of_admits ha₁ (Context.inner_declareAll_nil rfl _) hp h.body
  exact ⟨a₂, by rw [checkProgram, State.bind_of_ok hdeclare, hbody]⟩

end Checker
end Typing
end TypedImp

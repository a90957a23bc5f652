import Mathlib.Logic.Relation
import TypedImp.Proofs.Node.Interchange

/-! What the loader makes of any value at all. A value that it accepts becomes a tree that is found again behind what it is
    written as, however untidy the value is; so writing the tree and loading it once more changes nothing. What it does not
    accept it complains about, except at three places where it looks into a value whose kind it has not asked for: the tag
    of a literal, the number that a literal holds, and a parameter. -/

namespace TypedImp
namespace Node

/-! ### Where the trees of a value are -/

/-- The fields of an object of a type that hold a tree. -/
def treeFields : String → List String
  | "VarDecl" => ["initializer"]
  | "Assignment" | "Return" => ["value"]
  | "Print" | "ExprStmt" => ["expr"]
  | "If" => ["condition", "then_block", "else_block"]
  | "While" => ["condition", "body"]
  | "For" => ["init", "condition", "increment", "body"]
  | "FunctionDecl" => ["body"]
  | "BinaryExpr" => ["left", "right"]
  | "UnaryExpr" => ["operand"]
  | _ => []

/-- The fields that hold a list of trees. -/
def listFields : String → List String
  | "Program" | "Block" => ["statements"]
  | "Call" => ["args"]
  | _ => []

/-- An object holds a value in the place of a tree. -/
inductive Holds : Json → Json → Prop
  | field {ms : List (String × Json)} {type key : String} {v : Json} :
      typeOf ms = .string type → key ∈ treeFields type → Assoc.get? ms key = some v → Holds (.object ms) v
  | item {ms : List (String × Json)} {type key : String} {vs : List Json} {v : Json} :
      typeOf ms = .string type → key ∈ listFields type → Assoc.get? ms key = some (.array vs) → v ∈ vs →
      Holds (.object ms) v

/-- A value stands in the place of a tree in another one, however deep. -/
abbrev Reaches : Json → Json → Prop := Relation.ReflTransGen Holds

/-- The errors of the loader that are no complaints about the value: a literal's tag is looked up that nothing can be
    looked up by, a literal is asked for a number that gives none, and the fields of a parameter are asked for that has
    none. The parameters in front of it are read. -/
inductive Escapes : Json → LoadError → Prop
  | tag {ms ls : List (String × Json)} {tag : Json} :
      typeOf ms = .string "Literal" → Assoc.get? ms "value" = some (.object ls) → Assoc.get? ls "tag" = some tag →
      tag.isKey = false → Escapes (.object ms) (.json (.notAKey tag))
  | payload {ms ls : List (String × Json)} {v : Json} {e : NumberError} :
      typeOf ms = .string "Literal" → Assoc.get? ms "value" = some (.object ls) →
      Assoc.get? ls "tag" = some (.string "float") → Assoc.get? ls "value" = some v → v.toFloat = .error e →
      Escapes (.object ms) (.json (.number e))
  | param {ms : List (String × Json)} {name p : Json} {before after : List Json} :
      typeOf ms = .string "FunctionDecl" → Assoc.get? ms "name" = some name → name ≠ .null →
      Assoc.get? ms "params" = some (.array (before ++ p :: after)) → (∀ q ∈ before, ∃ r, readParam q = .ok r) →
      (∀ ps, p ≠ .object ps) → Escapes (.object ms) (.parameterNotObject p)

/-! ### Answers of the loader -/

/-- An error in a value is a complaint, or it comes from a place of a tree in it. -/
def Excused (v : Json) (e : LoadError) : Prop := e.complaint?.isSome = true ∨ ∃ w, Reaches v w ∧ Escapes w e

/-- What is read in a value is as it should be, and errors are excused. -/
def Yields {α : Type} (v : Json) (r : Except LoadError α) (good : α → Prop) : Prop :=
  match r with
  | .ok a => good a
  | .error e => Excused v e

namespace Yields
variable {α β : Type} {v : Json} {r : Except LoadError α} {good : α → Prop} {good' : β → Prop}

theorem ok {a : α} (h : good a) : Yields v (.ok a) good := h

theorem complaint {e : LoadError} (h : e.complaint?.isSome = true) : Yields v (.error e) good := .inl h

theorem bind {f : α → Except LoadError β} (hr : Yields v r good) (hf : ∀ a, good a → Yields v (f a) good') :
    Yields v (r >>= f) good' := by
  cases r with
  | ok a => exact hf a hr
  | error e => exact hr

theorem map {f : α → β} (hr : Yields v r good) (hf : ∀ a, good a → good' (f a)) : Yields v (f <$> r) good' := by
  cases r with
  | ok a => exact hf a hr
  | error e => exact hr

/-- An excuse for a part is one for the whole. -/
theorem within {w : Json} (hw : Holds v w) (hr : Yields w r good) : Yields v r good := by
  cases r with
  | ok a => exact hr
  | error e =>
    rcases hr with hcomplaint | ⟨u, hreaches, hescapes⟩
    · exact .inl hcomplaint
    · exact .inr ⟨u, .head hw hreaches, hescapes⟩

/-- The first item of a list that is refused decides. -/
theorem mapM {f : β → Except LoadError α} {bs : List β}
    (hf : ∀ before b after, bs = before ++ b :: after → (∀ c ∈ before, ∃ a, f c = .ok a) → Yields v (f b) good) :
    Yields v (bs.mapM f) (fun as => ∀ a ∈ as, good a) := by
  induction bs with
  | nil => exact ok (List.forall_mem_nil _)
  | cons b bs ih =>
    have hb := hf [] b bs rfl (List.forall_mem_nil _)
    rw [List.mapM_cons]
    cases hfb : f b with
    | error e =>
      rw [hfb] at hb
      exact hb
    | ok a =>
      rw [hfb] at hb
      have hbs : Yields v (bs.mapM f) (fun as => ∀ a ∈ as, good a) := by
        refine ih fun before c after hsplit hbefore => ?_
        refine hf (b :: before) c after (by rw [hsplit, List.cons_append]) ?_
        exact List.forall_mem_cons.mpr ⟨⟨a, hfb⟩, hbefore⟩
      exact hbs.bind fun as has => ok (List.forall_mem_cons.mpr ⟨hb, has⟩)

end Yields

/-! ### Fields -/

section
variable {v : Json} {ms : List (String × Json)} {key type : String}

theorem part?_eq_some {p : Part ms} (h : part? ms key = some p) : Assoc.get? ms key = some p.1 ∧ p.1 ≠ .null := by
  cases hget : Assoc.get? ms key with
  | none =>
    rw [part?_of_absent hget] at h
    cases h
  | some w =>
    by_cases hw : w = .null
    · subst hw
      rw [part?_of_null hget] at h
      cases h
    · rw [part?_of_get? hget hw] at h
      cases h
      exact ⟨rfl, hw⟩

theorem part_yields : Yields v (part ms key) (fun p => Assoc.get? ms key = some p.1 ∧ p.1 ≠ .null) := by
  unfold part
  split
  · exact .complaint rfl
  · next p hp => exact .ok (part?_eq_some hp)

theorem field_yields : Yields v (field ms key) (fun w => Assoc.get? ms key = some w ∧ w ≠ .null) :=
  part_yields.bind fun _ hp => .ok hp

theorem partList_yields : Yields v (partList ms key) (fun ps => Assoc.get? ms key = some (.array ps.unattach)) := by
  refine part_yields.bind fun p hp => ?_
  split
  · next items h => exact .ok (by rw [unattach_parts]; exact hp.1)
  · exact .complaint rfl

theorem readType_yields {read : String → Option Ty} {good : Ty → Prop} (hread : ∀ s t, read s = some t → good t)
    (w : Json) : Yields v (readType read w) good := by
  unfold readType
  split
  · next s =>
    cases hs : read s with
    | none => exact .complaint rfl
    | some t => exact .ok (hread s t hs)
  · exact .complaint rfl

theorem valueType_yields (w : Json) : Yields v (readType Ty.ofValueName? w) (· ≠ .void) :=
  readType_yields (fun _ _ h => (Ty.ofValueName?_eq_some.mp h).2) w

/-! ### Literals and parameters -/

theorem readLiteral_yields {w : Json} (htype : typeOf ms = .string "Literal") (hvalue : Assoc.get? ms "value" = some w) :
    Yields (.object ms) (readLiteral w) Loaded := by
  unfold readLiteral
  split
  · next ls =>
    have htag : Yields (.object ms) (readTag ls)
        (fun t? => ∀ t ∈ t?, t ≠ .void ∧ Assoc.get? ls "tag" = some (.string t.name)) := by
      unfold readTag
      split
      · exact .ok nofun
      · next s hs =>
        refine .ok fun t ht => ?_
        obtain ⟨rfl, hvoid⟩ := Ty.ofValueName?_eq_some.mp ht
        exact ⟨hvoid, hs⟩
      · next tag _ htag =>
        split
        · exact .ok nofun
        · next hkey => exact .inr ⟨_, .refl, .tag htype hvalue htag (Bool.eq_false_iff.mpr hkey)⟩
    refine htag.bind fun t? ht? => ?_
    split
    · next payload hpayload =>
      cases hfloat : payload.toFloat with
      | ok x => exact .ok (.literal nofun fun _ => ⟨x, rfl⟩)
      | error e => exact .inr ⟨_, .refl, .payload htype hvalue (ht? .float rfl).2 hpayload hfloat⟩
    · next t payload hnotFloat hpayload =>
      exact .ok (.literal (ht? t rfl).1 fun ht => absurd (by rw [ht]) hnotFloat)
    · exact .complaint rfl
  · exact .complaint rfl

theorem readParam_yields {name : Json} {before after : List Json} {p : Json} (htype : typeOf ms = .string "FunctionDecl")
    (hname : Assoc.get? ms "name" = some name ∧ name ≠ .null)
    (hparams : Assoc.get? ms "params" = some (.array (before ++ p :: after)))
    (hbefore : ∀ q ∈ before, ∃ r, readParam q = .ok r) :
    Yields (.object ms) (readParam p) (fun q => q.1 ≠ .null ∧ q.2 ≠ .void) := by
  unfold readParam
  split
  · next ps =>
    exact field_yields.bind fun x hx => field_yields.bind fun w _ => (valueType_yields w).bind fun t ht => .ok ⟨hx.2, ht⟩
  · next hobject => exact .inr ⟨_, .refl, .param htype hname.1 hname.2 hparams hbefore hobject⟩

/-! ### Trees in fields -/

/-- What a value in the place of a tree yields. -/
abbrev YieldsTree (v : Json) : Prop := Yields v (ofJson v) (fun o => ∀ n ∈ o, n.Loaded)

theorem required_yields (htype : typeOf ms = .string type) (hkey : key ∈ treeFields type)
    (ih : ∀ p : Part ms, YieldsTree p.1) :
    Yields (.object ms)
      (do
        match ← ofJson (← part ms key).1 with
        | some n => .ok n
        | none => .error (.missingField (typeOf ms) key)) Loaded := by
  refine part_yields.bind fun p hp => ?_
  refine ((ih p).within (.field htype hkey hp.1)).bind fun o ho => ?_
  cases o with
  | none => exact .complaint rfl
  | some n => exact .ok (ho n rfl)

theorem optional_yields (htype : typeOf ms = .string type) (hkey : key ∈ treeFields type)
    (ih : ∀ p : Part ms, YieldsTree p.1) :
    Yields (.object ms)
      (match part? ms key with
        | none => .ok none
        | some p => ofJson p.1) (fun o => ∀ n ∈ o, n.Loaded) := by
  split
  · exact .ok (by simp)
  · next p hp => exact (ih p).within (.field htype hkey (part?_eq_some hp).1)

theorem list_yields (htype : typeOf ms = .string type) (hkey : key ∈ listFields type)
    (ih : ∀ p : Part ms, YieldsTree p.1) :
    Yields (.object ms) (do (← partList ms key).mapM fun p => ofJson p.1) (fun os => ∀ o ∈ os, ∀ n ∈ o, n.Loaded) := by
  refine partList_yields.bind fun ps hps => Yields.mapM fun before p after hsplit _ => ?_
  refine (ih p).within (.item htype hkey hps ?_)
  rw [hsplit]
  simp

end

/-! ### The loader -/

theorem ofJson_null : ofJson .null = .ok none := by rw [ofJson]

theorem ofJson_of_not_object {v : Json} (hnull : v ≠ .null) (hobject : ∀ ms, v ≠ .object ms) :
    ofJson v = .error (.notAnObject v) := by
  rw [ofJson]
  · exact hnull
  · exact hobject

/-- What the loader reads is a tree that is found again, and what it refuses is excused. -/
theorem ofJson_yields (v : Json) : YieldsTree v := by
  cases v with
  | null =>
    rw [YieldsTree, ofJson_null]
    exact .ok (by simp)
  | bool _ | int _ | float _ | string _ | array _ =>
    rw [YieldsTree, ofJson_of_not_object (by simp) (by simp)]
    exact .complaint rfl
  | object ms =>
    have ih (p : Part ms) : YieldsTree p.1 := ofJson_yields p.1
    rw [YieldsTree, ofJson]
    refine Yields.map (?_ : Yields _ _ Loaded) fun n hn m hm => Option.some.inj hm ▸ hn
    split
    case h_1 h | h_2 h => exact (list_yields h (.head _) ih).bind fun _ hns => .ok (by constructor; exact hns)
    case h_3 h =>
      refine field_yields.bind fun x hx => field_yields.bind fun w _ => (valueType_yields w).bind fun t ht => ?_
      exact (optional_yields h (.head _) ih).bind fun _ hinit => .ok (.varDecl hx.2 ht hinit)
    case h_4 h =>
      exact field_yields.bind fun x hx => (required_yields h (.head _) ih).bind fun _ he => .ok (.assignment hx.2 he)
    case h_5 h => exact (required_yields h (.head _) ih).bind fun _ he => .ok (.print he)
    case h_6 h => exact field_yields.bind fun x hx => .ok (.input hx.2)
    case h_7 h =>
      refine (required_yields h (.head _) ih).bind fun _ hcond => ?_
      refine (required_yields h (.tail _ (.head _)) ih).bind fun _ hyes => ?_
      exact (optional_yields h (.tail _ (.tail _ (.head _))) ih).bind fun _ hno => .ok (.branch hcond hyes hno)
    case h_8 h =>
      refine (required_yields h (.head _) ih).bind fun _ hcond => ?_
      exact (required_yields h (.tail _ (.head _)) ih).bind fun _ hbody => .ok (.whileLoop hcond hbody)
    case h_9 h =>
      refine (required_yields h (.head _) ih).bind fun _ hinit => ?_
      refine (required_yields h (.tail _ (.head _)) ih).bind fun _ hcond => ?_
      refine (required_yields h (.tail _ (.tail _ (.head _))) ih).bind fun _ hstep => ?_
      refine (required_yields h (.tail _ (.tail _ (.tail _ (.head _)))) ih).bind fun _ hbody => ?_
      exact .ok (.forLoop hinit hcond hstep hbody)
    case h_10 h =>
      refine field_yields.bind fun x hx => partList_yields.bind fun ps hps => ?_
      have hparams : Yields (.object ms) (ps.mapM fun p => readParam p.1)
          (fun qs => ∀ q ∈ qs, q.1 ≠ .null ∧ q.2 ≠ .void) := by
        refine .mapM fun before p after hsplit hbefore => ?_
        rw [hsplit, List.unattach_append, List.unattach_cons] at hps
        refine readParam_yields h hx hps fun q hq => ?_
        obtain ⟨hlt, hq⟩ := List.mem_unattach.mp hq
        exact hbefore ⟨q, hlt⟩ hq
      refine hparams.bind fun params hparams => field_yields.bind fun w _ => ?_
      have hresult : Yields (.object ms) (readType Ty.ofName? w) (fun _ => True) :=
        readType_yields (fun _ _ _ => trivial) w
      refine hresult.bind fun t _ => ?_
      exact (required_yields h (.head _) ih).bind fun _ hbody => .ok (.function hx.2 hparams hbody)
    case h_11 h => exact (optional_yields h (.head _) ih).bind fun _ hvalue => .ok (.ret hvalue)
    case h_12 h => exact (required_yields h (.head _) ih).bind fun _ he => .ok (.exprStmt he)
    case h_13 h => exact field_yields.bind fun w hw => readLiteral_yields h hw.1
    case h_14 h => exact field_yields.bind fun x hx => .ok (.identifier hx.2)
    case h_15 h =>
      refine (required_yields h (.head _) ih).bind fun _ hleft => field_yields.bind fun op hop => ?_
      exact (required_yields h (.tail _ (.head _)) ih).bind fun _ hright => .ok (.binary hop.2 hleft hright)
    case h_16 h =>
      exact field_yields.bind fun op hop => (required_yields h (.head _) ih).bind fun _ he => .ok (.unary hop.2 he)
    case h_17 h =>
      exact field_yields.bind fun x hx => (list_yields h (.head _) ih).bind fun _ hargs => .ok (.call hx.2 hargs)
    case h_18 => exact .complaint rfl
termination_by sizeOf v
decreasing_by
  have := p.2
  simp
  omega

/-! ### What comes of a value -/

/-- An object is never no tree. -/
theorem some_map_ne_ok_none {ε α : Type} (r : Except ε α) : some <$> r ≠ .ok none := by
  intro h
  cases r with
  | ok a => cases h
  | error e => cases h

theorem ofJson_eq_ok_none {v : Json} : ofJson v = .ok none ↔ v = .null := by
  constructor
  · intro h
    cases v with
    | null => rfl
    | bool _ | int _ | float _ | string _ | array _ =>
      rw [ofJson_of_not_object (by simp) (by simp)] at h
      cases h
    | object ms =>
      rw [ofJson] at h
      exact absurd h (some_map_ne_ok_none _)
  · rintro rfl
    exact ofJson_null

theorem readTag_of_not_key {ls : List (String × Json)} {tag : Json} (htag : Assoc.get? ls "tag" = some tag)
    (hkey : tag.isKey = false) : readTag ls = .error (.json (.notAKey tag)) := by
  rw [readTag, htag]
  cases tag with
  | array _ | object _ => rfl
  | _ => cases hkey

theorem ofJson_literal {ms ls : List (String × Json)} (htype : typeOf ms = .string "Literal")
    (hvalue : Assoc.get? ms "value" = some (.object ls)) :
    ofJson (.object ms) = some <$> readLiteral (.object ls) := by
  rw [ofJson]
  simp only [htype, field, part, part?_of_get? hvalue (by simp), ok_bind]

theorem partList_of_get? {ms : List (String × Json)} {key : String} {vs : List Json}
    (h : Assoc.get? ms key = some (.array vs)) : ∃ ps, partList ms key = .ok ps ∧ ps.unattach = vs := by
  simp only [partList, part, part?_of_get? h (by simp), ok_bind]
  exact ⟨_, rfl, unattach_parts _⟩

/-- A list is refused for its first item that is. -/
theorem mapM_eq_error {ε α β : Type} {f : β → Except ε α} {before after : List β} {b : β} {e : ε}
    (hbefore : ∀ c ∈ before, ∃ a, f c = .ok a) (hb : f b = .error e) : (before ++ b :: after).mapM f = .error e := by
  induction before with
  | nil =>
    rw [List.nil_append, List.mapM_cons, hb]
    rfl
  | cons c before ih =>
    obtain ⟨⟨a, ha⟩, hbefore⟩ := List.forall_mem_cons.mp hbefore
    rw [List.cons_append, List.mapM_cons, ha, ok_bind, ih hbefore]
    rfl

/-- Each of the three places lets its error through. -/
theorem Escapes.ofJson_eq {v : Json} {e : LoadError} (h : Escapes v e) : ofJson v = .error e := by
  cases h with
  | tag htype hvalue htag hkey =>
    rw [ofJson_literal htype hvalue, readLiteral, readTag_of_not_key htag hkey]
    rfl
  | @payload ms ls v e htype hvalue htag hpayload hfloat =>
    have hfloatTag : readTag ls = .ok (some .float) := by
      rw [readTag, htag]
      rfl
    rw [ofJson_literal htype hvalue, readLiteral, hfloatTag, hpayload]
    simp only [ok_bind, hfloat]
    rfl
  | @param ms name p before after htype hname hnull hparams hbefore hp =>
    obtain ⟨ps, hps, hitems⟩ := partList_of_get? hparams
    have hfirst : readParam p = .error (.parameterNotObject p) := by
      cases p with
      | object ps => exact absurd rfl (hp ps)
      | _ => rfl
    have hread : ps.mapM (fun q => readParam q.1) = .error (.parameterNotObject p) := by
      rw [← mapM_eq_error hbefore hfirst, ← hitems]
      simp
    rw [ofJson]
    simp only [htype, field, part, part?_of_get? hname hnull, hps, ok_bind, hread]
    rfl

theorem Escapes.complaint?_eq_none {v : Json} {e : LoadError} (h : Escapes v e) : e.complaint? = none := by
  cases h <;> rfl

/-- A value is loaded, as no tree only if it is null, or it is complained about, or an error of one of the three places in it
    gets out. At each of the places an error does get out. -/
theorem loads_or_complains (v : Json) :
    ((∃ o, ofJson v = .ok o ∧ (o = none ↔ v = .null)) ∨ (∃ e m, ofJson v = .error e ∧ e.complaint? = some m) ∨
      ∃ e w, ofJson v = .error e ∧ Reaches v w ∧ Escapes w e) ∧
    ∀ e, Escapes v e → ofJson v = .error e ∧ e.complaint? = none := by
  refine ⟨?_, fun e he => ⟨he.ofJson_eq, he.complaint?_eq_none⟩⟩
  have h : YieldsTree v := ofJson_yields v
  cases hv : ofJson v with
  | ok o =>
    refine .inl ⟨o, rfl, ?_⟩
    rw [← ofJson_eq_ok_none, hv, Except.ok.injEq]
  | error e =>
    rw [YieldsTree, hv] at h
    rcases h with hcomplaint | ⟨w, hreaches, hescapes⟩
    · obtain ⟨m, hm⟩ := Option.isSome_iff_exists.mp hcomplaint
      exact .inr (.inl ⟨e, m, rfl, hm⟩)
    · exact .inr (.inr ⟨e, w, rfl, hreaches, hescapes⟩)

/-- A function with a number for its second parameter. -/
def strayParameter : Json :=
  .object [("type", .string "FunctionDecl"), ("name", .string "f"),
    ("params", .array [.object [("name", .string "x"), ("type_spec", .string "int")], .int 5])]

theorem strayParameter_gets_out :
    Escapes strayParameter (.parameterNotObject (.int 5)) ∧
      ofJson strayParameter = .error (.parameterNotObject (.int 5)) ∧
      (LoadError.parameterNotObject (.int 5)).complaint? = none := by
  have hfirst : readParam (.object [("name", .string "x"), ("type_spec", .string "int")]) = .ok (.string "x", .int) := rfl
  have hescapes : Escapes strayParameter (.parameterNotObject (.int 5)) :=
    @Escapes.param _ _ _ [_] [] rfl rfl nofun rfl (List.forall_mem_singleton.mpr ⟨_, hfirst⟩) nofun
  exact ⟨hescapes, (loads_or_complains strayParameter).2 _ hescapes⟩

/-- A literal with the tag of a number that holds nothing is neither loaded nor complained about. -/
theorem empty_number_neither_loads_nor_complains :
    ¬ ∀ v, (∃ o, ofJson v = .ok o) ∨ ∃ e m, ofJson v = .error e ∧ e.complaint? = some m := by
  intro h
  have hescapes : Escapes
      (.object [("type", .string "Literal"), ("value", .object [("tag", .string "float"), ("value", .null)])])
      (.json (.number (.notANumber .null))) := .payload rfl rfl rfl rfl rfl
  rcases h _ with ⟨o, ho⟩ | ⟨e, m, he, hm⟩
  · rw [hescapes.ofJson_eq] at ho
    cases ho
  · rw [hescapes.ofJson_eq] at he
    cases he
    cases hm

/-! ### Loading what was written -/

/-- What is written of a value once it has been loaded. -/
def normalize (v : Json) : Except LoadError Json := optionJson <$> ofJson v

theorem reloads {v : Json} {o : Option Node} (h : ofJson v = .ok o) : ofJson (optionJson o) = .ok o := by
  have hyields : YieldsTree v := ofJson_yields v
  rw [YieldsTree, h] at hyields
  exact ofJson_optionJson fun n hn => (hyields n hn).ofJson_toJson

/-- A tree that was loaded, from whatever value, is found again behind what it is written as, and what is written of it then
    is what was written of it before. -/
theorem load_normalizes (v : Json) :
    (∀ o, ofJson v = .ok o → ofJson (optionJson o) = .ok o) ∧ (normalize v >>= normalize) = normalize v := by
  refine ⟨fun o h => reloads h, ?_⟩
  cases h : ofJson v with
  | ok o =>
    have hwritten : normalize v = .ok (optionJson o) := by rw [normalize, h, map_ok]
    rw [hwritten, ok_bind, normalize, reloads h, map_ok]
  | error e =>
    rw [normalize, h]
    rfl

theorem ofJson_block {ms : List (String × Json)} {vs : List Json} {ns : List (Option Node)}
    (htype : typeOf ms = .string "Block") (hvalues : Assoc.get? ms "statements" = some (.array vs))
    (hread : vs.mapM ofJson = .ok ns) : ofJson (.object ms) = .ok (some (.block ns)) := by
  obtain ⟨ps, hps, rfl⟩ := partList_of_get? hvalues
  have hparts : ps.mapM (fun p => ofJson p.1) = .ok ns := by simpa using hread
  rw [ofJson]
  simp only [htype, hps, hparts, ok_bind]
  rfl

theorem ofJson_identifier {ms : List (String × Json)} {x : Json} (htype : typeOf ms = .string "Identifier")
    (hname : Assoc.get? ms "name" = some x) (hx : x ≠ .null) : ofJson (.object ms) = .ok (some (.identifier x)) := by
  rw [ofJson]
  simp only [htype, field, part, part?_of_get? hname hx, ok_bind]
  rfl

/-- A block with a field too many and its kind last, whose first statement is missing and whose second one is an expression
    with a list for its name. -/
def untidyBlock : Json :=
  .object [("name", .int 1),
    ("statements", .array [.null, .object [("name", .array [.int 2]), ("type", .string "Identifier")]]),
    ("type", .string "Block")]

theorem untidyBlock_tidied :
    ofJson untidyBlock = .ok (some (.block [none, some (.identifier (.array [.int 2]))])) ∧
      ofJson (toJson (.block [none, some (.identifier (.array [.int 2]))])) =
        .ok (some (.block [none, some (.identifier (.array [.int 2]))])) ∧
      toJson (.block [none, some (.identifier (.array [.int 2]))]) ≠ untidyBlock := by
  have hload : ofJson untidyBlock = .ok (some (.block [none, some (.identifier (.array [.int 2]))])) := by
    have hitem : ofJson (.object [("name", .array [.int 2]), ("type", .string "Identifier")]) =
        .ok (some (.identifier (.array [.int 2]))) := ofJson_identifier rfl rfl nofun
    refine ofJson_block rfl rfl ?_
    rw [List.mapM_cons, ofJson_null, List.mapM_cons, hitem]
    rfl
  exact ⟨hload, (load_normalizes untidyBlock).1 _ hload, by simp [toJson, tagged, untidyBlock]⟩

end Node
end TypedImp

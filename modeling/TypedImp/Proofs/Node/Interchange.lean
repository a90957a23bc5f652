import TypedImp.Proofs.Json.Printing
import TypedImp.Proofs.Syntax.Literal
import TypedImp.Node.Interchange

/-! Trees as interchange values and back. A tree whose names and operators are there, whose types are named where they may
    be, and whose literals with the tag of a number with a fraction hold one is found again behind the value that it is
    written as. Where names and operators are texts and all literals hold what their tags say, a file can hold the tree. -/

namespace TypedImp
namespace Node

/-! ### Trees that a file can hold -/

/-- What the literals of a type hold. -/
inductive Payload : Ty → Json → Prop
  | int {i : Int} : Json.IsShort i → Payload .int (.int i)
  | float {x : Float} : Decimal.ReadsBack x → Payload .float (.float x)
  | bool (b : Bool) : Payload .bool (.bool b)
  | char (s : String) : Payload .char (.string s)
  | string (s : String) : Payload .string (.string s)

/-- The kind of text that stands for a name or for an operator. -/
inductive IsText : Json → Prop
  | string (s : String) : IsText (.string s)

/-- A tree that a file can hold. Only the result of a function may be `void`. -/
inductive Proper : Node → Prop
  | program {ns : List (Option Node)} : (∀ o ∈ ns, ∀ n ∈ o, Proper n) → Proper (.program ns)
  | block {ns : List (Option Node)} : (∀ o ∈ ns, ∀ n ∈ o, Proper n) → Proper (.block ns)
  | varDecl (x : String) {t : Ty} {init : Option Node} :
      t ≠ .void → (∀ n ∈ init, Proper n) → Proper (.varDecl (.string x) t init)
  | assignment (x : String) {value : Node} : Proper value → Proper (.assignment (.string x) value)
  | print {e : Node} : Proper e → Proper (.print e)
  | input (x : String) : Proper (.input (.string x))
  | branch {cond yes : Node} {no : Option Node} :
      Proper cond → Proper yes → (∀ n ∈ no, Proper n) → Proper (.branch cond yes no)
  | whileLoop {cond body : Node} : Proper cond → Proper body → Proper (.whileLoop cond body)
  | forLoop {init cond step body : Node} :
      Proper init → Proper cond → Proper step → Proper body → Proper (.forLoop init cond step body)
  | function (x : String) {params : List (Json × Ty)} (result : Ty) {body : Node} :
      (∀ p ∈ params, IsText p.1 ∧ p.2 ≠ .void) → Proper body → Proper (.function (.string x) params result body)
  | ret {value : Option Node} : (∀ n ∈ value, Proper n) → Proper (.ret value)
  | exprStmt {e : Node} : Proper e → Proper (.exprStmt e)
  | literal {t : Ty} {v : Json} : Payload t v → Proper (.literal t v)
  | identifier (x : String) : Proper (.identifier (.string x))
  | binary {left right : Node} (op : String) : Proper left → Proper right → Proper (.binary left (.string op) right)
  | unary (op : String) {operand : Node} : Proper operand → Proper (.unary (.string op) operand)
  | call (x : String) {args : List (Option Node)} :
      (∀ o ∈ args, ∀ n ∈ o, Proper n) → Proper (.call (.string x) args)

/-! ### Trees that are found again -/

/-- A tree that is found again behind what it is written as. Names and operators can be anything but null, and so can
    what a literal holds; with the tag of a number with a fraction it holds one. -/
inductive Loaded : Node → Prop
  | program {ns : List (Option Node)} : (∀ o ∈ ns, ∀ n ∈ o, Loaded n) → Loaded (.program ns)
  | block {ns : List (Option Node)} : (∀ o ∈ ns, ∀ n ∈ o, Loaded n) → Loaded (.block ns)
  | varDecl {x : Json} {t : Ty} {init : Option Node} :
      x ≠ .null → t ≠ .void → (∀ n ∈ init, Loaded n) → Loaded (.varDecl x t init)
  | assignment {x : Json} {value : Node} : x ≠ .null → Loaded value → Loaded (.assignment x value)
  | print {e : Node} : Loaded e → Loaded (.print e)
  | input {x : Json} : x ≠ .null → Loaded (.input x)
  | branch {cond yes : Node} {no : Option Node} :
      Loaded cond → Loaded yes → (∀ n ∈ no, Loaded n) → Loaded (.branch cond yes no)
  | whileLoop {cond body : Node} : Loaded cond → Loaded body → Loaded (.whileLoop cond body)
  | forLoop {init cond step body : Node} :
      Loaded init → Loaded cond → Loaded step → Loaded body → Loaded (.forLoop init cond step body)
  | function {x : Json} {params : List (Json × Ty)} {result : Ty} {body : Node} :
      x ≠ .null → (∀ p ∈ params, p.1 ≠ .null ∧ p.2 ≠ .void) → Loaded body → Loaded (.function x params result body)
  | ret {value : Option Node} : (∀ n ∈ value, Loaded n) → Loaded (.ret value)
  | exprStmt {e : Node} : Loaded e → Loaded (.exprStmt e)
  | literal {t : Ty} {v : Json} : t ≠ .void → (t = .float → ∃ x, v = .float x) → Loaded (.literal t v)
  | identifier {x : Json} : x ≠ .null → Loaded (.identifier x)
  | binary {left right : Node} {op : Json} : op ≠ .null → Loaded left → Loaded right → Loaded (.binary left op right)
  | unary {op : Json} {operand : Node} : op ≠ .null → Loaded operand → Loaded (.unary op operand)
  | call {x : Json} {args : List (Option Node)} :
      x ≠ .null → (∀ o ∈ args, ∀ n ∈ o, Loaded n) → Loaded (.call x args)

theorem Payload.fits {t : Ty} {v : Json} (h : Payload t v) : t ≠ .void ∧ (t = .float → ∃ x, v = .float x) := by
  cases h with
  | float _ => exact ⟨nofun, fun _ => ⟨_, rfl⟩⟩
  | _ => exact ⟨nofun, nofun⟩

theorem IsText.ne_null {v : Json} (h : IsText v) : v ≠ .null := by
  cases h
  exact nofun

theorem Proper.loaded {n : Node} (h : n.Proper) : n.Loaded := by
  induction h with
  | program _ hns => exact .program hns
  | block _ hns => exact .block hns
  | varDecl x ht _ hinit => exact .varDecl nofun ht hinit
  | assignment x _ he => exact .assignment nofun he
  | print _ he => exact .print he
  | input x => exact .input nofun
  | branch _ _ _ hcond hyes hno => exact .branch hcond hyes hno
  | whileLoop _ _ hcond hbody => exact .whileLoop hcond hbody
  | forLoop _ _ _ _ hinit hcond hstep hbody => exact .forLoop hinit hcond hstep hbody
  | function x result hparams _ hbody =>
    exact .function nofun (fun p hp => ⟨(hparams p hp).1.ne_null, (hparams p hp).2⟩) hbody
  | ret _ hvalue => exact .ret hvalue
  | exprStmt _ he => exact .exprStmt he
  | literal hv => exact .literal hv.fits.1 hv.fits.2
  | identifier x => exact .identifier nofun
  | binary op _ _ hleft hright => exact .binary nofun hleft hright
  | unary op _ hoperand => exact .unary nofun hoperand
  | call x _ hargs => exact .call nofun hargs

/-! ### Fields -/

@[simp]
theorem ok_bind {ε α β : Type} (a : α) (f : α → Except ε β) : (Except.ok a >>= f) = f a := rfl

@[simp]
theorem map_ok {ε α β : Type} (f : α → β) (a : α) : (f <$> Except.ok a : Except ε β) = .ok (f a) := rfl

section
variable {ms : List (String × Json)} {k key : String} {v : Json}

theorem part?_of_get? (h : Assoc.get? ms key = some v) (hv : v ≠ .null) : part? ms key = some ⟨v, sizeOf_get? h⟩ := by
  unfold part?
  split
  · next h' =>
    rw [h] at h'
    cases h'
  · next h' =>
    rw [h] at h'
    exact absurd (Option.some.inj h') hv
  · next h' =>
    rw [h] at h'
    cases h'
    rfl

theorem part?_of_null (h : Assoc.get? ms key = some .null) : part? ms key = none := by
  unfold part?
  split
  · rfl
  · rfl
  · next hnull h' =>
    rw [h] at h'
    exact absurd (Option.some.inj h').symm hnull

theorem part?_of_absent (h : Assoc.get? ms key = none) : part? ms key = none := by
  unfold part?
  split
  · rfl
  · rfl
  · next h' =>
    rw [h] at h'
    cases h'

theorem get?_cons_self (key : String) (v : Json) (ms : List (String × Json)) :
    Assoc.get? ((key, v) :: ms) key = some v := by
  simp [Assoc.get?]

theorem get?_cons_of_ne (h : key ≠ k) (v : Json) (ms : List (String × Json)) :
    Assoc.get? ((k, v) :: ms) key = Assoc.get? ms key := by
  simp [Assoc.get?, List.lookup_cons, beq_false_of_ne h]

@[simp]
theorem part?_cons_self (hv : v ≠ .null) :
    part? ((key, v) :: ms) key = some ⟨v, sizeOf_get? (get?_cons_self key v ms)⟩ :=
  part?_of_get? (get?_cons_self key v ms) hv

@[simp]
theorem part?_cons_null : part? ((key, .null) :: ms) key = none := part?_of_null (get?_cons_self key .null ms)

theorem sizeOf_le_cons (m : String × Json) (ms : List (String × Json)) : sizeOf ms ≤ sizeOf (m :: ms) := by
  rw [List.cons.sizeOf_spec]
  exact Nat.le_add_left _ _

/-- A part of the other fields is one of them all. -/
@[simp]
theorem part?_cons_of_ne (h : key ≠ k) :
    part? ((k, v) :: ms) key = (part? ms key).map fun p => ⟨p.1, Nat.lt_of_lt_of_le p.2 (sizeOf_le_cons _ ms)⟩ := by
  have hget := get?_cons_of_ne h v ms
  cases hfield : Assoc.get? ms key with
  | none => rw [part?_of_absent hfield, part?_of_absent (hget.trans hfield), Option.map_none]
  | some w =>
    by_cases hw : w = .null
    · subst hw
      rw [part?_of_null hfield, part?_of_null (hget.trans hfield), Option.map_none]
    · rw [part?_of_get? hfield hw, part?_of_get? (hget.trans hfield) hw, Option.map_some]

end

@[simp]
theorem toJson_ne_null (n : Node) : n.toJson ≠ .null := by
  cases n <;> simp [toJson, tagged]

@[simp]
theorem typeName_ne_null (t : Ty) : typeName t ≠ .null := nofun

@[simp]
theorem typeOf_tagged (kind : String) (fields : List (String × Json)) :
    typeOf (("type", .string kind) :: fields) = .string kind := by
  rw [typeOf, get?_cons_self, Option.getD_some]

/-! ### Parts -/

@[simp]
theorem readType_valueName {t : Ty} (h : t ≠ .void) : readType Ty.ofValueName? (typeName t) = .ok t := by
  rw [typeName, readType, Ty.ofValueName?_eq_some.mpr ⟨rfl, h⟩]

@[simp]
theorem readType_name (t : Ty) : readType Ty.ofName? (typeName t) = .ok t := by
  rw [typeName, readType, Ty.ofName?_name]

theorem ofJson_optionJson {o : Option Node} (h : ∀ n ∈ o, ofJson n.toJson = .ok (some n)) :
    ofJson (optionJson o) = .ok o := by
  cases o with
  | none => rw [optionJson, ofJson]
  | some n => exact h n rfl

/-- A list is found again behind what its items are written as if every item is. -/
theorem mapM_map_eq_self {α β ε : Type} {write : α → β} {read : β → Except ε α} {as : List α}
    (h : ∀ a ∈ as, read (write a) = .ok a) : (as.map write).mapM read = .ok as := by
  induction as with
  | nil => rfl
  | cons a as ih =>
    rw [List.map_cons, List.mapM_cons, h a List.mem_cons_self, ih fun b hb => h b (List.mem_cons_of_mem _ hb)]
    rfl

theorem listJson_eq_map (ns : List (Option Node)) : listJson ns = ns.map optionJson := by
  induction ns with
  | nil => rfl
  | cons o ns ih => rw [listJson, List.map_cons, ih]

theorem mapM_listJson {ns : List (Option Node)} (h : ∀ o ∈ ns, ∀ n ∈ o, ofJson n.toJson = .ok (some n)) :
    (listJson ns).mapM ofJson = .ok ns := by
  rw [listJson_eq_map]
  exact mapM_map_eq_self fun o ho => ofJson_optionJson (h o ho)

/-- The parts of a list are its items. -/
@[simp]
theorem unattach_parts {ms : List (String × Json)} {items : List Json}
    (hlt : ∀ i : { x // x ∈ items }, sizeOf i.1 < sizeOf ms) :
    (items.attach.map fun i => (⟨i.1, hlt i⟩ : Part ms)).unattach = items := by
  rw [List.unattach, List.map_map]
  exact List.attach_map_subtype_val items

theorem readParam_paramJson {p : Json × Ty} (h : p.1 ≠ .null ∧ p.2 ≠ .void) : readParam (paramJson p) = .ok p := by
  obtain ⟨x, t⟩ := p
  obtain ⟨hx, ht⟩ : x ≠ .null ∧ t ≠ .void := h
  simp [paramJson, readParam, field, part, hx, ht]

theorem mapM_paramJson {params : List (Json × Ty)} (h : ∀ p ∈ params, p.1 ≠ .null ∧ p.2 ≠ .void) :
    (params.map paramJson).mapM readParam = .ok params :=
  mapM_map_eq_self fun p hp => readParam_paramJson (h p hp)

theorem readLiteral_literal {t : Ty} {v : Json} (ht : t ≠ .void) (hv : t = .float → ∃ x, v = .float x) :
    readLiteral (.object [("tag", typeName t), ("value", v)]) = .ok (.literal t v) := by
  cases t with
  | float =>
    obtain ⟨x, rfl⟩ := hv rfl
    rfl
  | void => exact absurd rfl ht
  | _ => rfl

/-! ### Trees -/

/-- The tree is found again behind the value that it is written as. -/
theorem Loaded.ofJson_toJson {n : Node} (h : n.Loaded) : ofJson n.toJson = .ok (some n) := by
  induction h with
  | program _ hns | block _ hns =>
    have hlist := mapM_listJson hns
    rw [toJson, tagged, ofJson]
    simp [part, partList, hlist]
  | @varDecl x t init hx ht _ he =>
    cases init with
    | none =>
      rw [toJson, tagged, ofJson]
      simp [part, field, hx, ht, optionJson]
    | some e =>
      have he := he e rfl
      rw [toJson, tagged, ofJson]
      simp [part, field, hx, ht, optionJson, he]
  | assignment hx _ he =>
    rw [toJson, tagged, ofJson]
    simp [part, field, hx, he]
  | print _ he | exprStmt _ he =>
    rw [toJson, tagged, ofJson]
    simp [part, he]
  | input hx =>
    rw [toJson, tagged, ofJson]
    simp [part, field, hx]
  | @branch cond yes no _ _ _ hcond hyes hno =>
    cases no with
    | none =>
      rw [toJson, tagged, ofJson]
      simp [part, hcond, hyes, optionJson]
    | some no =>
      have hno := hno no rfl
      rw [toJson, tagged, ofJson]
      simp [part, hcond, hyes, hno, optionJson]
  | whileLoop _ _ hcond hbody =>
    rw [toJson, tagged, ofJson]
    simp [part, hcond, hbody]
  | forLoop _ _ _ _ hinit hcond hstep hbody =>
    rw [toJson, tagged, ofJson]
    simp [part, hinit, hcond, hstep, hbody]
  | function hx hparams _ hbody =>
    have hparams := mapM_paramJson hparams
    rw [toJson, tagged, ofJson]
    simp [part, field, partList, hx, hparams, hbody]
  | @ret value _ he =>
    cases value with
    | none =>
      rw [toJson, tagged, ofJson]
      simp [optionJson]
    | some e =>
      have he := he e rfl
      rw [toJson, tagged, ofJson]
      simp [optionJson, he]
  | literal ht hv =>
    rw [toJson, tagged, ofJson]
    simp [part, field, readLiteral_literal ht hv]
  | identifier hx =>
    rw [toJson, tagged, ofJson]
    simp [part, field, hx]
  | binary hop _ _ hleft hright =>
    rw [toJson, tagged, ofJson]
    simp [part, field, hop, hleft, hright]
  | unary hop _ hoperand =>
    rw [toJson, tagged, ofJson]
    simp [part, field, hop, hoperand]
  | call hx _ hargs =>
    have hlist := mapM_listJson hargs
    rw [toJson, tagged, ofJson]
    simp [part, field, partList, hx, hlist]

theorem ofJson_toJson {n : Node} (h : n.Proper) : ofJson n.toJson = .ok (some n) := h.loaded.ofJson_toJson

/-! ### Values of trees -/

theorem Payload.writable {t : Ty} {v : Json} (h : Payload t v) : v.Writable := by
  cases h with
  | int h => exact .scalar (.int h)
  | float h => exact .scalar (.float h)
  | bool b => exact .scalar (.bool b)
  | char s | string s => exact .string s

theorem writable_tagged {kind : String} {fields : List (String × Json)} (hfields : ∀ m ∈ fields, m.2.Writable)
    (hnames : ("type" :: fields.map Prod.fst).Nodup) : (tagged kind fields).Writable :=
  .object (List.forall_mem_cons.mpr ⟨.string kind, hfields⟩) hnames

theorem writable_paramJson {p : Json × Ty} (h : IsText p.1 ∧ p.2 ≠ .void) : (paramJson p).Writable := by
  obtain ⟨x, t⟩ := p
  obtain ⟨⟨x⟩, -⟩ := h
  exact .object (by simp [typeName, Json.Writable.string]) (by simp)

theorem writable_optionJson {o : Option Node} (h : ∀ n ∈ o, n.toJson.Writable) : (optionJson o).Writable := by
  cases o with
  | none => exact .scalar .null
  | some n => exact h n rfl

theorem writable_listJson {ns : List (Option Node)} (h : ∀ o ∈ ns, ∀ n ∈ o, n.toJson.Writable) :
    (Json.array (listJson ns)).Writable := by
  rw [listJson_eq_map]
  exact .array (List.forall_mem_map.mpr fun o ho => writable_optionJson (h o ho))

theorem writable_toJson {n : Node} : n.Proper → n.toJson.Writable
  | .program hns => by
    have hlist := writable_listJson fun o ho n hn => writable_toJson (hns o ho n hn)
    exact writable_tagged (by simpa using hlist) (by simp)
  | .block hns => by
    have hlist := writable_listJson fun o ho n hn => writable_toJson (hns o ho n hn)
    exact writable_tagged (by simpa using hlist) (by simp)
  | .varDecl x _ hinit => by
    have hinit := writable_optionJson fun n hn => writable_toJson (hinit n hn)
    exact writable_tagged (by simp [typeName, Json.Writable.string, hinit]) (by simp)
  | .assignment x he => by
    have he := writable_toJson he
    exact writable_tagged (by simp [Json.Writable.string, he]) (by simp)
  | .print he => by
    have he := writable_toJson he
    exact writable_tagged (by simp [he]) (by simp)
  | .input x => by
    exact writable_tagged (by simp [Json.Writable.string]) (by simp)
  | .branch hcond hyes hno => by
    have hcond := writable_toJson hcond
    have hyes := writable_toJson hyes
    have hno := writable_optionJson fun n hn => writable_toJson (hno n hn)
    exact writable_tagged (by simp [hcond, hyes, hno]) (by simp)
  | .whileLoop hcond hbody => by
    have hcond := writable_toJson hcond
    have hbody := writable_toJson hbody
    exact writable_tagged (by simp [hcond, hbody]) (by simp)
  | .forLoop hinit hcond hstep hbody => by
    have hinit := writable_toJson hinit
    have hcond := writable_toJson hcond
    have hstep := writable_toJson hstep
    have hbody := writable_toJson hbody
    exact writable_tagged (by simp [hinit, hcond, hstep, hbody]) (by simp)
  | @Proper.function x params result body hparams hbody => by
    have hbody := writable_toJson hbody
    have hlist : (Json.array (params.map paramJson)).Writable :=
      .array (List.forall_mem_map.mpr fun p hp => writable_paramJson (hparams p hp))
    exact writable_tagged (by simp [typeName, Json.Writable.string, hlist, hbody]) (by simp)
  | .ret hvalue => by
    have hvalue := writable_optionJson fun n hn => writable_toJson (hvalue n hn)
    exact writable_tagged (by simp [hvalue]) (by simp)
  | .exprStmt he => by
    have he := writable_toJson he
    exact writable_tagged (by simp [he]) (by simp)
  | @Proper.literal t v hv => by
    have hobject : (Json.object [("tag", typeName t), ("value", v)]).Writable :=
      .object (by simp [typeName, Json.Writable.string, hv.writable]) (by simp)
    exact writable_tagged (by simp [hobject]) (by simp)
  | .identifier x => by
    exact writable_tagged (by simp [Json.Writable.string]) (by simp)
  | .binary op hleft hright => by
    have hleft := writable_toJson hleft
    have hright := writable_toJson hright
    exact writable_tagged (by simp [Json.Writable.string, hleft, hright]) (by simp)
  | .unary op hoperand => by
    have hoperand := writable_toJson hoperand
    exact writable_tagged (by simp [Json.Writable.string, hoperand]) (by simp)
  | .call x hargs => by
    have hlist := writable_listJson fun o ho n hn => writable_toJson (hargs o ho n hn)
    exact writable_tagged (by simp [Json.Writable.string, hlist]) (by simp)

end Node
end TypedImp

import TypedImp.Program.Tree
import TypedImp.Proofs.Node.Interchange
import TypedImp.Proofs.Program.Literals
import TypedImp.Proofs.Typing.Rules
import TypedImp.Proofs.Value.Printing

/-! Programs as trees and back. A program that holds no strays and no NaN, and whose operators are read as what they
    are written as, is found again behind its tree, and a file can hold the tree. -/

namespace TypedImp

/-! ### Regular programs -/

/-- An expression without strays, and without a number that a text cannot show. -/
inductive Expr.Regular : Expr → Prop
  | literal {v : Value} {t : Ty} : v.HasTy t → ¬v.IsNaN → Regular (.literal v)
  | var (x : String) : Regular (.var x)
  | unary {op : UnaryOp} {e : Expr} : UnaryOp.ofText op.text = op → Regular e → Regular (.unary op e)
  | binary {l r : Expr} {op : BinaryOp} :
      BinaryOp.ofText op.text = op → Regular l → Regular r → Regular (.binary l op r)
  | call (x : String) {args : List Expr} : (∀ e ∈ args, Regular e) → Regular (.call x args)

/-- A statement without strays and bare blocks. -/
inductive Stmt.Regular : Stmt → Prop
  | varDecl (x : String) {t : Ty} {init : Option Expr} :
      t ≠ .void → (∀ e ∈ init, e.Regular) → Regular (.varDecl x t init)
  | assign (x : String) {e : Expr} : e.Regular → Regular (.assign x e)
  | print {e : Expr} : e.Regular → Regular (.print e)
  | input (x : String) : Regular (.input x)
  | ifThen {cond : Expr} {body : List Stmt} : cond.Regular → (∀ s ∈ body, Regular s) → Regular (.ifThen cond body)
  | ifElse {cond : Expr} {yes no : List Stmt} :
      cond.Regular → (∀ s ∈ yes, Regular s) → (∀ s ∈ no, Regular s) → Regular (.ifElse cond yes no)
  | whileLoop {cond : Expr} {body : List Stmt} :
      cond.Regular → (∀ s ∈ body, Regular s) → Regular (.whileLoop cond body)
  | forLoop {init step : Stmt} {cond : Expr} {body : List Stmt} :
      Regular init → cond.Regular → Regular step → (∀ s ∈ body, Regular s) → Regular (.forLoop init cond step body)
  | function (x : String) {params : List Param} (result : Ty) {body : List Stmt} :
      (∀ p ∈ params, p.ty ≠ .void) → (∀ s ∈ body, Regular s) → Regular (.function x params result body)
  | ret {value : Option Expr} : (∀ e ∈ value, e.Regular) → Regular (.ret value)
  | expr {e : Expr} : e.Regular → Regular (.expr e)

def Program.Regular (p : Program) : Prop := ∀ s ∈ p.body, s.Regular

/-! ### Back from trees -/

theorem Value.HasTy.ofPayload_payload {v : Value} {t : Ty} (h : v.HasTy t) : ofPayload v.ty v.payload = v := by
  cases h <;> rfl

namespace Expr

theorem Regular.toTree_eq {e : Expr} (h : e.Regular) : e.toTree = some e.toNode := by
  cases h <;> rfl

theorem ofTrees_toTrees {es : List Expr} (h : ∀ e ∈ es, e.Regular ∧ ofNode e.toNode = e) :
    ofTrees (toTrees es) = es := by
  induction es with
  | nil => rfl
  | cons e es ih =>
    obtain ⟨hregular, he⟩ := h e List.mem_cons_self
    rw [toTrees, ofTrees, hregular.toTree_eq, ofTree, he, ih fun f hf => h f (List.mem_cons_of_mem _ hf)]

theorem ofNode_toNode {e : Expr} : e.Regular → ofNode e.toNode = e
  | .literal hv _ => by
    show literal (Value.ofPayload _ _) = _
    rw [hv.ofPayload_payload]
  | .var _ => rfl
  | .unary hop he => by
    show unary (UnaryOp.ofText _) (ofNode (toNode _)) = _
    rw [ofNode_toNode he]
    exact congrArg (unary · _) hop
  | .binary hop hl hr => by
    show binary (ofNode (toNode _)) (BinaryOp.ofText _) (ofNode (toNode _)) = _
    rw [ofNode_toNode hl, ofNode_toNode hr]
    exact congrArg (binary _ · _) hop
  | .call x hargs => by
    show call x (ofTrees (toTrees _)) = _
    rw [ofTrees_toTrees fun e he => ⟨hargs e he, ofNode_toNode (hargs e he)⟩]

theorem map_ofNode_toNode {o : Option Expr} (h : ∀ e ∈ o, e.Regular) : (o.map toNode).map ofNode = o := by
  cases o with
  | none => rfl
  | some e => exact congrArg some (ofNode_toNode (h e rfl))

end Expr

theorem Param.map_ofNode_toNode (params : List Param) : (params.map toNode).map ofNode = params := by
  rw [List.map_map]
  exact List.map_id params

namespace Stmt

/-- The tree in a place that must be filled. -/
def toNode (s : Stmt) : Node := Node.filling s.toTree

theorem Regular.toTree_eq {s : Stmt} (h : s.Regular) : s.toTree = some s.toNode := by
  cases h <;> rfl

theorem ofTrees_toTrees {ss : List Stmt} (h : ∀ s ∈ ss, s.Regular ∧ ofNode s.toNode = s) :
    ofTrees (toTrees ss) = ss := by
  induction ss with
  | nil => rfl
  | cons s ss ih =>
    obtain ⟨hregular, hs⟩ := h s List.mem_cons_self
    rw [toTrees, ofTrees, hregular.toTree_eq, ofTree, hs, ih fun t ht => h t (List.mem_cons_of_mem _ ht)]

theorem ofNode_toNode {s : Stmt} : s.Regular → ofNode s.toNode = s
  | .varDecl x _ hinit => by
    show varDecl x _ ((_ : Option Node).map Expr.ofNode) = _
    rw [Expr.map_ofNode_toNode hinit]
  | .assign x he => by
    show assign x (Expr.ofNode (Expr.toNode _)) = _
    rw [Expr.ofNode_toNode he]
  | .print he => by
    show print (Expr.ofNode (Expr.toNode _)) = _
    rw [Expr.ofNode_toNode he]
  | .input _ => rfl
  | .ifThen hcond hbody => by
    show ifThen (Expr.ofNode (Expr.toNode _)) (ofTrees (toTrees _)) = _
    rw [Expr.ofNode_toNode hcond, ofTrees_toTrees fun s hs => ⟨hbody s hs, ofNode_toNode (hbody s hs)⟩]
  | .ifElse hcond hyes hno => by
    show ifElse (Expr.ofNode (Expr.toNode _)) (ofTrees (toTrees _)) (ofTrees (toTrees _)) = _
    rw [Expr.ofNode_toNode hcond, ofTrees_toTrees fun s hs => ⟨hyes s hs, ofNode_toNode (hyes s hs)⟩,
      ofTrees_toTrees fun s hs => ⟨hno s hs, ofNode_toNode (hno s hs)⟩]
  | .whileLoop hcond hbody => by
    show whileLoop (Expr.ofNode (Expr.toNode _)) (ofTrees (toTrees _)) = _
    rw [Expr.ofNode_toNode hcond, ofTrees_toTrees fun s hs => ⟨hbody s hs, ofNode_toNode (hbody s hs)⟩]
  | .forLoop hinit hcond hstep hbody => by
    show forLoop (ofNode (toNode _)) (Expr.ofNode (Expr.toNode _)) (ofNode (toNode _)) (ofTrees (toTrees _)) = _
    rw [ofNode_toNode hinit, Expr.ofNode_toNode hcond, ofNode_toNode hstep,
      ofTrees_toTrees fun s hs => ⟨hbody s hs, ofNode_toNode (hbody s hs)⟩]
  | @Regular.function x params result body _ hbody => by
    have hkeys : (Json.string x :: (params.map Param.toNode).map Prod.fst).find? (fun n => !n.isKey) = none := by
      rw [List.find?_eq_none]
      intro v hv
      rcases List.mem_cons.mp hv with rfl | hv
      · exact Bool.false_ne_true
      · obtain ⟨_, hp, rfl⟩ := List.mem_map.mp hv
        obtain ⟨p, -, rfl⟩ := List.mem_map.mp hp
        exact Bool.false_ne_true
    show ofNode (.function (.string x) (params.map Param.toNode) result (.block (toTrees body))) = _
    rw [ofNode, hkeys]
    show function x ((params.map Param.toNode).map Param.ofNode) result (ofTrees (toTrees body)) = _
    rw [Param.map_ofNode_toNode, ofTrees_toTrees fun s hs => ⟨hbody s hs, ofNode_toNode (hbody s hs)⟩]
  | .ret hvalue => by
    show ret ((_ : Option Node).map Expr.ofNode) = _
    rw [Expr.map_ofNode_toNode hvalue]
  | .expr he => by
    show expr (Expr.ofNode (Expr.toNode _)) = _
    rw [Expr.ofNode_toNode he]

end Stmt

/-- A program is found again behind its tree. -/
theorem Program.ofTree_toNode {p : Program} (h : p.Regular) : Program.ofTree (some p.toNode) = p := by
  show Program.mk (Stmt.ofTrees (Stmt.toTrees p.body)) = p
  rw [Stmt.ofTrees_toTrees fun s hs => ⟨h s hs, Stmt.ofNode_toNode (h s hs)⟩]

/-! ### Trees that a file can hold -/

theorem Value.HasTy.payload {v : Value} {t : Ty} (h : v.HasTy t) (hnan : ¬v.IsNaN) : Node.Payload v.ty v.payload := by
  cases h with
  | int h => exact .int (Json.isShort_of_inRange h)
  | float => exact .float (Decimal.readsBack hnan)
  | bool => exact .bool _
  | char => exact .char _
  | string => exact .string _

namespace Expr

theorem proper_toTrees {es : List Expr} (h : ∀ e ∈ es, e.Regular ∧ e.toNode.Proper) :
    ∀ o ∈ toTrees es, ∀ n ∈ o, n.Proper := by
  induction es with
  | nil => exact List.forall_mem_nil _
  | cons e es ih =>
    obtain ⟨hregular, he⟩ := h e List.mem_cons_self
    refine List.forall_mem_cons.mpr ⟨?_, ih fun f hf => h f (List.mem_cons_of_mem _ hf)⟩
    rw [hregular.toTree_eq]
    rintro n ⟨⟩
    exact he

theorem proper_toNode {e : Expr} : e.Regular → e.toNode.Proper
  | .literal hv hnan => .literal (hv.payload hnan)
  | .var x => .identifier x
  | .unary _ he => .unary _ (proper_toNode he)
  | .binary _ hl hr => .binary _ (proper_toNode hl) (proper_toNode hr)
  | .call x hargs => .call x (proper_toTrees fun e he => ⟨hargs e he, proper_toNode (hargs e he)⟩)

theorem proper_map_toNode {o : Option Expr} (h : ∀ e ∈ o, e.Regular) : ∀ n ∈ o.map toNode, n.Proper := by
  cases o with
  | none => exact fun _ hn => nomatch hn
  | some e =>
    rintro n ⟨⟩
    exact proper_toNode (h e rfl)

end Expr

namespace Stmt

theorem proper_toTrees {ss : List Stmt} (h : ∀ s ∈ ss, s.Regular ∧ s.toNode.Proper) :
    ∀ o ∈ toTrees ss, ∀ n ∈ o, n.Proper := by
  induction ss with
  | nil => exact List.forall_mem_nil _
  | cons s ss ih =>
    obtain ⟨hregular, hs⟩ := h s List.mem_cons_self
    refine List.forall_mem_cons.mpr ⟨?_, ih fun t ht => h t (List.mem_cons_of_mem _ ht)⟩
    rw [hregular.toTree_eq]
    rintro n ⟨⟩
    exact hs

theorem proper_toNode {s : Stmt} : s.Regular → s.toNode.Proper
  | .varDecl x ht hinit => .varDecl x ht (Expr.proper_map_toNode hinit)
  | .assign x he => .assignment x (Expr.proper_toNode he)
  | .print he => .print (Expr.proper_toNode he)
  | .input x => .input x
  | .ifThen hcond hbody => by
    have hbody := proper_toTrees fun s hs => ⟨hbody s hs, proper_toNode (hbody s hs)⟩
    exact .branch (Expr.proper_toNode hcond) (.block hbody) nofun
  | .ifElse hcond hyes hno => by
    have hyes := proper_toTrees fun s hs => ⟨hyes s hs, proper_toNode (hyes s hs)⟩
    have hno := proper_toTrees fun s hs => ⟨hno s hs, proper_toNode (hno s hs)⟩
    refine .branch (Expr.proper_toNode hcond) (.block hyes) ?_
    rintro n ⟨⟩
    exact .block hno
  | .whileLoop hcond hbody => by
    have hbody := proper_toTrees fun s hs => ⟨hbody s hs, proper_toNode (hbody s hs)⟩
    exact .whileLoop (Expr.proper_toNode hcond) (.block hbody)
  | .forLoop hinit hcond hstep hbody => by
    have hbody := proper_toTrees fun s hs => ⟨hbody s hs, proper_toNode (hbody s hs)⟩
    exact .forLoop (proper_toNode hinit) (Expr.proper_toNode hcond) (proper_toNode hstep) (.block hbody)
  | .function x result hparams hbody => by
    have hbody := proper_toTrees fun s hs => ⟨hbody s hs, proper_toNode (hbody s hs)⟩
    refine .function x result (fun q hq => ?_) (.block hbody)
    obtain ⟨p, hp, rfl⟩ := List.mem_map.mp hq
    exact ⟨.string p.name, hparams p hp⟩
  | .ret hvalue => .ret (Expr.proper_map_toNode hvalue)
  | .expr he => .exprStmt (Expr.proper_toNode he)

end Stmt

/-- A file can hold the tree of a program. -/
theorem Program.proper_toNode {p : Program} (h : p.Regular) : p.toNode.Proper :=
  .program (Stmt.proper_toTrees fun s hs => ⟨h s hs, Stmt.proper_toNode (h s hs)⟩)

end TypedImp

import TypedImp.Proofs.Syntax.Regular
import TypedImp.Session

/-! Programs that go through a file. The text of a tree, on one line or over several, is loaded as the tree, so that a
    program that a front end finds is found again behind the text of its tree. -/

namespace TypedImp
namespace Session

theorem loadTree_of_read {text : String} {n : Node} (hread : Json.read text = .ok n.toJson) (h : n.Proper) :
    loadTree text = .ok (some n) := by
  simp only [loadTree, hread, Except.mapError, bind, Except.bind, Node.ofJson_toJson h]

theorem loadTree_emit {n : Node} (h : n.Proper) : loadTree (emit (some n)) = .ok (some n) :=
  loadTree_of_read (Json.read_compact (Node.writable_toJson h)) h

theorem loadTree_indented {n : Node} (h : n.Proper) (depth : Nat) :
    loadTree (n.toJson.indented depth) = .ok (some n) :=
  loadTree_of_read (Json.read_indented (Node.writable_toJson h) depth) h

theorem load_of_loadTree {text : String} {p : Program} (h : loadTree text = .ok (some p.toNode)) (hp : p.Regular) :
    load text = .ok p := by
  rw [load, h]
  exact congrArg Except.ok (Program.ofTree_toNode hp)

/-- Every tree that a file can hold is loaded from the text that it is written as. So is every program that a front end
    finds, on one line and over the lines of a file. -/
theorem load_written :
    (∀ n : Node, n.Proper → loadTree (emit (some n)) = .ok (some n)) ∧
      ∀ (f : FrontEnd) (text : String) (p : Program), f.parse text = .ok p →
        load (emit (some p.toNode)) = .ok p ∧ load (p.toNode.toJson.indented 0) = .ok p := by
  refine ⟨fun n => loadTree_emit, fun f text p hparse => ?_⟩
  have hregular := FrontEnd.regular_of_parse hparse
  have hproper := Program.proper_toNode hregular
  exact ⟨load_of_loadTree (loadTree_emit hproper) hregular, load_of_loadTree (loadTree_indented hproper 0) hregular⟩

/-! ### Numbers of one magnitude -/

/-- Two as a binary number. -/
def two : Float := Float.ofBits 0x4000000000000000

theorem readsBack_two : Decimal.ReadsBack two := by
  unfold Decimal.ReadsBack
  decide +kernel

/-- A tree with both twos and a text full of escapes. -/
def twosNode : Node :=
  .block [some (.print (.binary (.literal .int (.int 2)) (.string "==") (.literal .float (.float two)))), none,
    some (.print (.literal .string (.string "a\t\"b\"\\\x01é")))]

theorem proper_twosNode : twosNode.Proper := by
  have hint : Node.Payload .int (.int 2) := .int (by unfold Json.IsShort; decide)
  have hfloat : Node.Payload .float (.float two) := .float readsBack_two
  refine .block ?_
  rintro o ho n hn
  rcases List.mem_cons.mp ho with rfl | ho
  · cases hn
    exact .print (.binary "==" (.literal hint) (.literal hfloat))
  rcases List.mem_cons.mp ho with rfl | ho
  · cases hn
  · rw [List.mem_singleton.mp ho] at hn
    cases hn
    exact .print (.literal (.string _))

/-- A text with both zeros, and without an initializer, an else branch and a returned value. -/
def zerosText : String := "var x: float; x = 0.0; if (x == 0) \x7b return; \x7d"

def zerosProgram : Program :=
  ⟨[.varDecl "x" .float none, .assign "x" (.literal (.float (Binary64.ofRatio false 0 1))),
    .ifThen (.binary (.var "x") .eq (.literal (.int 0))) [.ret none]]⟩

theorem tokenize_zerosText : tokenize zerosText =
    [⟨.varWord, "var", ⟨1, 1⟩⟩, ⟨.ident, "x", ⟨1, 5⟩⟩, ⟨.colon, ":", ⟨1, 6⟩⟩, ⟨.ident, "float", ⟨1, 8⟩⟩,
      ⟨.semicolon, ";", ⟨1, 13⟩⟩, ⟨.ident, "x", ⟨1, 15⟩⟩, ⟨.assign, "=", ⟨1, 17⟩⟩, ⟨.float, "0.0", ⟨1, 19⟩⟩,
      ⟨.semicolon, ";", ⟨1, 22⟩⟩, ⟨.ifWord, "if", ⟨1, 24⟩⟩, ⟨.lparen, "(", ⟨1, 27⟩⟩, ⟨.ident, "x", ⟨1, 28⟩⟩,
      ⟨.eq, "==", ⟨1, 30⟩⟩, ⟨.integer, "0", ⟨1, 33⟩⟩, ⟨.rparen, ")", ⟨1, 34⟩⟩, ⟨.lbrace, "\x7b", ⟨1, 36⟩⟩,
      ⟨.returnWord, "return", ⟨1, 38⟩⟩, ⟨.semicolon, ";", ⟨1, 44⟩⟩, ⟨.rbrace, "\x7d", ⟨1, 46⟩⟩,
      ⟨.eof, "", ⟨1, 47⟩⟩] := by
  rw [tokenize_eq_tokensWithin]
  decide +kernel

theorem parse_zerosText : FrontEnd.descent.parse zerosText = .ok zerosProgram := by
  rw [FrontEnd.parse, Program.parse, tokenize_zerosText]
  rfl

/-- Both twos and both zeros are kept apart. -/
theorem load_twos_zeros :
    (twosNode.Proper ∧ loadTree (emit (some twosNode)) = .ok (some twosNode)) ∧
      FrontEnd.descent.parse zerosText = .ok zerosProgram ∧
        load (emit (some zerosProgram.toNode)) = .ok zerosProgram ∧
        load (zerosProgram.toNode.toJson.indented 0) = .ok zerosProgram :=
  ⟨⟨proper_twosNode, load_written.1 twosNode proper_twosNode⟩, parse_zerosText,
    load_written.2 .descent zerosText zerosProgram parse_zerosText⟩

end Session
end TypedImp

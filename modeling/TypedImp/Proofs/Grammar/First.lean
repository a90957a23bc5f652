import TypedImp.Grammar.Automaton
import TypedImp.Grammar.Tree

/-! How derivations begin. The table of first terminals is closed: one more step of every derivation changes
    nothing in it. So it knows the terminal that the lexemes of any tree begin with, and whether there need be
    none. -/

namespace TypedImp
namespace Grammar

/-! ### Sets of terminals -/

namespace TerminalSet
variable {a b : TerminalSet} {t u : Terminal}

theorem has_union : (a.union b).has t = (a.has t || b.has t) := Nat.testBit_or ..

theorem has_single_self (t : Terminal) : (single t).has t = true := by
  rw [has, single, Nat.one_shiftLeft, Nat.testBit_two_pow_self]

theorem has_of_includes (h : a.includes b = true) (ht : b.has t = true) : a.has t = true := by
  have hmask : a.mask &&& b.mask = b.mask := beq_iff_eq.mp h
  rw [has, ← hmask, Nat.testBit_and, Bool.and_eq_true] at ht
  exact ht.1

end TerminalSet

/-! ### The first lexeme -/

/-- The terminal of the first lexeme, or the end of the text. -/
def lookahead (ls : List Lexeme) : Terminal := (ls.head?.map Lexeme.terminal).getD .endOfText

@[simp] theorem lookahead_nil : lookahead [] = .endOfText := rfl

@[simp] theorem lookahead_cons (l : Lexeme) (ls : List Lexeme) : lookahead (l :: ls) = l.terminal := rfl

namespace First
variable {f g : First} {ls us vs : List Lexeme}

/-- The lexemes can begin so. -/
def Describes (f : First) : List Lexeme → Prop
  | [] => f.hasEmpty = true
  | l :: _ => f.terminals.has l.terminal = true

theorem Describes.union_left (h : f.Describes ls) (g : First) : (f.union g).Describes ls := by
  cases ls with
  | nil => exact Bool.or_eq_true_iff.mpr (.inl h)
  | cons l ls => exact TerminalSet.has_union.trans (Bool.or_eq_true_iff.mpr (.inl h))

theorem Describes.union_right (h : g.Describes ls) (f : First) : (f.union g).Describes ls := by
  cases ls with
  | nil => exact Bool.or_eq_true_iff.mpr (.inr h)
  | cons l ls => exact TerminalSet.has_union.trans (Bool.or_eq_true_iff.mpr (.inr h))

/-- What is looked ahead to before some lexemes and others behind them. -/
theorem Describes.before (h : f.Describes us) {follow : TerminalSet} (hfollow : follow.has (lookahead vs) = true) :
    (f.before follow).has (lookahead (us ++ vs)) = true := by
  unfold First.before
  cases us with
  | nil =>
    have hempty : f.hasEmpty = true := h
    rw [if_pos hempty, TerminalSet.has_union, List.nil_append, hfollow, Bool.or_true]
  | cons l us =>
    have hl : f.terminals.has l.terminal = true := h
    split
    · rw [TerminalSet.has_union, List.cons_append, lookahead_cons, hl, Bool.true_or]
    · exact hl

/-- How the texts of one symbol can begin. -/
def ofSymbol : Symbol → First
  | .terminal t => ⟨.single t, false⟩
  | .nonterminal n => (table.lookup n.number).getD none

theorem describes_cons {s : Symbol} {ss : List Symbol} (hs : (ofSymbol s).Describes us)
    (hss : (ofSymbols table ss).Describes vs) : (ofSymbols table (s :: ss)).Describes (us ++ vs) := by
  cases s with
  | terminal t =>
    cases us with
    | nil => cases hs
    | cons l us => exact hs
  | nonterminal n =>
    have hn : ofSymbols table (.nonterminal n :: ss) =
        if (ofSymbol (.nonterminal n)).hasEmpty then
          ⟨(ofSymbol (.nonterminal n)).terminals.union (ofSymbols table ss).terminals, (ofSymbols table ss).hasEmpty⟩
        else ofSymbol (.nonterminal n) := rfl
    rw [hn]
    cases us with
    | nil =>
      have hempty : (ofSymbol (.nonterminal n)).hasEmpty = true := hs
      rw [if_pos hempty]
      cases vs with
      | nil => exact hss
      | cons l vs => exact TerminalSet.has_union.trans (Bool.or_eq_true_iff.mpr (.inr hss))
    | cons l us =>
      split
      · exact TerminalSet.has_union.trans (Bool.or_eq_true_iff.mpr (.inl hs))
      · exact hs

/-! ### The closed table -/

theorem improved_table : improved table = table := by decide +kernel

theorem lookup_map_number {α : Type} (g : Nonterminal → α) {ns : List Nonterminal} {n : Nonterminal} (h : n ∈ ns) :
    (ns.map fun m => (m.number, g m)).lookup n.number = some (g n) := by
  induction ns with
  | nil => cases h
  | cons m ns ih =>
    by_cases hm : n = m
    · subst hm
      simp
    · have hne : (n.number == m.number) = false := beq_false_of_ne fun h => hm (Nonterminal.number_injective h)
      rw [List.map_cons, List.lookup_cons, hne]
      exact ih ((List.mem_cons.mp h).resolve_left hm)

theorem describes_fold {rs : List Rule} {r : Rule} (hr : r ∈ rs) (h : (ofSymbols table r.rhs).Describes ls) (f : First) :
    (rs.foldl (fun f r => f.union (ofSymbols table r.rhs)) f).Describes ls := by
  have hkeep : ∀ (rs : List Rule) (f : First), f.Describes ls →
      (rs.foldl (fun f r => f.union (ofSymbols table r.rhs)) f).Describes ls := by
    intro rs
    induction rs with
    | nil => exact fun _ hf => hf
    | cons r rs ih => exact fun f hf => ih _ (hf.union_left _)
  induction rs generalizing f with
  | nil => cases hr
  | cons r' rs ih =>
    rcases List.mem_cons.mp hr with rfl | hr
    · exact hkeep rs _ (h.union_right f)
    · exact ih hr _

theorem mem_rules (r : Rule) : r ∈ r.lhs.rules := by
  have key : ∀ r ∈ Rule.all, r ∈ r.lhs.rules := by decide
  exact key r (Rule.mem_all r)

theorem describes_rule {r : Rule} (h : (ofSymbols table r.rhs).Describes ls) :
    (ofSymbol (.nonterminal r.lhs)).Describes ls := by
  have hentry : table.lookup r.lhs.number =
      some (r.lhs.rules.foldl (fun f r => f.union (ofSymbols table r.rhs)) none) := by
    rw [← improved_table]
    exact (lookup_map_number _ (Nonterminal.mem_all r.lhs)).trans (by rw [improved_table])
  rw [ofSymbol, hentry]
  exact describes_fold (mem_rules r) h none

end First

mutual
/-- The lexemes of a derivation begin as the table says. -/
theorem Tree.first {s : Symbol} : (tree : Tree s) → (First.ofSymbol s).Describes tree.yield
  | .leaf l => TerminalSet.has_single_self l.terminal
  | .node _ children => First.describes_rule children.first

theorem Forest.first {ss : List Symbol} :
    (trees : Forest ss) → (First.ofSymbols First.table ss).Describes trees.yield
  | .nil => rfl
  | .cons tree trees => First.describes_cons tree.first trees.first
end

end Grammar
end TypedImp

import TypedImp.Proofs.Grammar.Lexing
import TypedImp.Proofs.Grammar.Viable

/-! The terminals that are named where a text stops to fit. They are those for which the state has something to do in
    which the parser stops. So a terminal that is named can come next, or it asks for reductions after which nothing is
    left to do; and one that can come next is named, if it asks for the reductions that have been made, unless it is a
    keyword and stands for itself among the names. -/

namespace TypedImp
namespace Grammar
open Stack (Leads Valid)

/-! ### Where a text stops to fit -/

/-- The lexemes that the parser takes in, until nothing can be cut off or what is cut off is not shifted. -/
def takenRest (a : Automaton) : Nat → Scanner → Stack → List Lexeme
  | 0, _, _ => []
  | n + 1, s, st =>
    match cut (a.state st.place).accepted s with
    | .lexeme l s =>
      match st.reactTo a l.terminal with
      | .shift j st => l :: takenRest a n s (⟨j, .terminal l.terminal, .leaf l⟩ :: st)
      | _ => []
    | _ => []

/-- The lexemes of the text in front of the place where it stops to fit. -/
def takenLexemes (text : String) : List Lexeme :=
  let s := Scanner.ofText text
  takenRest automaton (s.rest.length + 1) s []

/-- The parser stops on a stack, and names terminals: it has not cut off anything, or what it has cut off asks for
    reductions, and then for nothing. -/
inductive Stops (a : Automaton) (st : Stack) : Stack → List Terminal → Prop
  | unmatched : Stops a st st ((tried (a.state st.place).accepted).filter fun t => !t.isIgnored)
  | stuck {u : Terminal} {st' : Stack} : Leads a u st st' → (a.state st'.place).action? u = none →
      Stops a st st' (a.state st'.place).accepted

section
variable {a : Automaton} {st st' : Stack} {s s' : Scanner} {l : Lexeme} {t : Terminal} {expected : List Terminal}

/-- Whatever is cut off is taken from the text. -/
theorem length_rest_of_cut (ha : a.isSafe = true) {k : Nat} (h : cut (a.state k).accepted s = .lexeme l s') :
    s'.rest.length < s.rest.length := by
  obtain ⟨t, -, hignored, n, hn⟩ := match_of_cut h
  have hbegins := tokens_begin s
  generalize s.tokens = ts at hbegins
  cases hbegins with
  | eof hrest => exact nomatch h.symm.trans (cut_end hrest)
  | fault hkind => exact absurd hkind (Terminal.next_valid hn hignored)
  | token rest hrest hspells hlt =>
    rw [cut_skipTrivia] at h
    cases piece_of_cut ha hspells hrest (isClear_skipTrivia s) h with
    | whole | reserved => exact hlt
    | half hk =>
      have hle : s.skipTrivia.rest.length ≤ s.rest.length := by
        rw [Scanner.skipTrivia, Scanner.length_rest_advance]
        exact Nat.sub_le ..
      have hpos := length_pos_of_match hn
      rw [Scanner.length_rest_advance]
      omega

theorem terminal_of_cut {accepted : List Terminal} (h : cut accepted s = .lexeme l s') : l.terminal ≠ .endOfText := by
  cases cutsOff_of_eq h with
  | @lexeme t n hfirst =>
    have hmatch := (firstMatch?_tried.mp hfirst).2.1
    intro hend
    dsimp only at hend
    by_cases hname : t = .name
    · subst hname
      rcases recognised_name accepted (String.ofList (s.skipTrivia.rest.take n)) with hrecognised | hkeyword
      · exact nomatch hrecognised.symm.trans hend
      · rw [hend] at hkeyword
        cases hkeyword
    · rw [recognised, if_neg hname] at hend
      rw [hend] at hmatch
      cases hmatch

/-- Only the derivation of the whole text is left where it is recognised. -/
theorem Stack.Valid.eq_start_of_root (ha : a.isSafe = true) (hg : a.isGrounded = true) (hst : Valid a st)
    (h : (a.state st.place).action? t = some (.reduce .root)) :
    ∃ j tree, st = [⟨j, .nonterminal .start, tree⟩] := by
  have hcontains : a.Contains st.place .root 1 := (Automaton.contains_of_reduce hg h).1
  cases hst with
  | nil => exact nomatch Automaton.Contains.start hg hcontains
  | @cons f st hf hst =>
    obtain ⟨hsymbol, hbegins⟩ := hcontains.before hg hf
    obtain rfl := hst.eq_nil_of_start ha (hbegins.root hg)
    obtain ⟨j, symbol, tree⟩ := f
    obtain rfl : .nonterminal .start = symbol := Option.some.inj hsymbol
    exact ⟨j, tree, rfl⟩

theorem action_endOfText_ne_shift (hg : a.isGrounded = true) {k j : Nat} :
    (a.state k).action? .endOfText ≠ some (.shift j) := by
  intro h
  obtain ⟨r, dot, -, hnext⟩ := Automaton.contains_of_shift hg h
  have key : ∀ r ∈ Rule.all, .terminal .endOfText ∉ r.rhs := by decide
  exact key r (Rule.mem_all r) (List.mem_of_getElem? hnext)

/-- Where the text is at its end, the parser stops unless the whole of it is recognised. -/
theorem parseRest_stops_at_end (ha : a.isSafe = true) (hg : a.isGrounded = true) {n : Nat} {last place : Position}
    {found : Found} (hst : Valid a st) (hcut : cut (a.state st.place).accepted s = .endOfText)
    (h : parseRest a (n + 1) s st last = .error (.unexpected found place expected)) :
    ∃ st', Stops a st st' expected := by
  have hends := Stack.reactTo_ends ha hg hst .endOfText
  simp only [parseRest, hcut] at h
  generalize st.reactTo a .endOfText = x at h hends
  cases hends with
  | shift _ haction => exact absurd haction (action_endOfText_ne_shift hg)
  | accept hleads haction =>
    obtain ⟨j, tree, rfl⟩ := (hleads.keeps hst).1.eq_start_of_root ha hg haction
    cases h
  | @stuck st' hleads haction =>
    cases h
    exact ⟨st', .stuck hleads haction⟩

/-- The parser shifts the lexemes that it takes in, and stops behind them. -/
theorem parseRest_stops (ha : a.isSafe = true) (hg : a.isGrounded = true) {n : Nat} {last place : Position}
    {found : Found} (hn : s.rest.length < n) (hst : Valid a st)
    (h : parseRest a n s st last = .error (.unexpected found place expected)) :
    ∃ st₁ st₂, st.shiftAll a (takenRest a n s st) = some st₁ ∧ Stops a st₁ st₂ expected := by
  induction n generalizing s st last with
  | zero => exact absurd hn (Nat.not_lt_zero _)
  | succ n ih =>
    rw [takenRest]
    cases hcut : cut (a.state st.place).accepted s with
    | nothing s' =>
      simp only [parseRest, hcut, mismatch] at h
      split at h
      · cases h
        exact ⟨st, st, rfl, .unmatched⟩
      · cases h
    | lexeme l s' =>
      have hends := Stack.reactTo_ends ha hg hst l.terminal
      simp only [parseRest, hcut] at h ⊢
      generalize hreact : st.reactTo a l.terminal = x at h hends
      cases hends with
      | @shift j st₁ hleads haction =>
        have hvalid := (hleads.keeps hst).1
        have hlt := length_rest_of_cut ha hcut
        rw [Stack.shiftAll, hreact]
        exact ih (by omega) (.cons (Automaton.target_of_shift ha haction) hvalid) h
      | accept _ haction => exact absurd ((Automaton.contains_of_reduce hg haction).2 rfl) (terminal_of_cut hcut)
      | @stuck st₁ hleads haction =>
        cases h
        exact ⟨st, st₁, rfl, .stuck hleads haction⟩
    | endOfText =>
      obtain ⟨st₁, hstops⟩ := parseRest_stops_at_end ha hg hst hcut h
      exact ⟨st, st₁, rfl, hstops⟩

theorem Stops.leads (h : Stops a st st' expected) : ∃ u, Leads a u st st' := by
  cases h with
  | unmatched => exact ⟨.endOfText, .refl⟩
  | stuck hleads _ => exact ⟨_, hleads⟩

/-- There is something to do for a terminal that is named. -/
theorem Stops.accepted (h : Stops a st st' expected) (ht : t ∈ expected) (hignored : t.isIgnored = false) :
    t ∈ (a.state st'.place).accepted := by
  cases h with
  | unmatched =>
    obtain ⟨-, hfrom⟩ := mem_tried.mp (List.mem_filter.mp ht).1
    rw [hignored] at hfrom
    exact (hfrom.resolve_left Bool.false_ne_true).1
  | stuck => exact ht

/-- A terminal for which there is something to do is named, or it is a keyword and names are. -/
theorem Stops.named (ha : a.isSafe = true) (h : Stops a st st' expected) (ht : t ∈ (a.state st'.place).accepted)
    (hignored : t.isIgnored = false) (hend : t ≠ .endOfText) :
    t ∈ expected ∨ t.keyword?.isSome = true ∧ .name ∈ expected := by
  cases h with
  | unmatched =>
    have key : ∀ t ∈ Terminal.all, t ≠ .endOfText → t ∈ Terminal.lexical := by decide
    cases hkeyword : t.keyword? with
    | none =>
      have htried : t ∈ tried (a.state st.place).accepted :=
        mem_tried.mpr ⟨key t (Terminal.mem_all t) hend, .inr ⟨ht, .inl hkeyword⟩⟩
      exact .inl (List.mem_filter.mpr ⟨htried, by simp [hignored]⟩)
    | some word =>
      have hname := Automaton.name_accepted ha ht (by rw [hkeyword]; rfl)
      have htried : .name ∈ tried (a.state st.place).accepted :=
        mem_tried.mpr ⟨by decide, .inr ⟨hname, .inl rfl⟩⟩
      exact .inr ⟨rfl, List.mem_filter.mpr ⟨htried, rfl⟩⟩
  | stuck => exact .inl ht

theorem State.exists_action_of_accepted {s : State} (h : t ∈ s.accepted) : ∃ act, s.action? t = some act := by
  obtain ⟨e, he, rfl⟩ := List.mem_map.mp h
  cases hact : s.action? e.1 with
  | none => simpa using List.lookup_eq_none_iff.mp hact e he
  | some act => exact ⟨act, rfl⟩

namespace Stack

theorem Reduces.rightUnique : Relator.RightUnique (Reduces a t) := by
  rintro st st₁ st₂ ⟨r, -, -, haction, hreduce⟩ ⟨r', -, -, haction', hreduce'⟩
  cases haction.symm.trans haction'
  exact Option.some.inj (hreduce.symm.trans hreduce')

/-- A terminal that is shifted in the end has something to do behind every reduction that it asks for. -/
theorem accepted_of_admits (ha : a.isSafe = true) (hg : a.isGrounded = true) (hst : Valid a st)
    (h : st.admits a t = true) (hleads : Leads a t st st') : t ∈ (a.state st'.place).accepted := by
  have hends := reactTo_ends ha hg hst t
  unfold admits at h
  split at h
  · next j st₁ hreact =>
    rw [hreact] at hends
    cases hends with
    | shift hleads₁ haction =>
      rcases Relation.ReflTransGen.total_of_right_unique Reduces.rightUnique hleads hleads₁ with hafter | hbefore
      · exact accepted_of_reduces hafter haction
      · cases hbefore using Relation.ReflTransGen.head_induction_on with
        | refl => exact State.mem_accepted_of_action haction
        | head hstep _ =>
          -- What is shifted is not reduced.
          obtain ⟨r, -, -, haction', -⟩ := hstep
          exact nomatch haction.symm.trans haction'
  · cases h

end Stack

end

/-! ### What is named -/

/-- The terminals that are named where the text stops to fit. -/
def namedTerminals (text : String) : List Terminal :=
  match parse text with
  | .error (.unexpected _ _ expected) => expected
  | _ => []

theorem Terminal.label_injective {t u : Terminal} (h : t.label = u.label) : t = u := by
  have key : ∀ t ∈ Terminal.all, ∀ u ∈ Terminal.all, t.label = u.label → t = u := by decide +kernel
  exact key t (Terminal.mem_all t) u (Terminal.mem_all u) h

section
variable {text : String} {found : Found} {place : Position} {expected : List Terminal} {t : Terminal}

theorem label_mem_expectedLabels : t.label ∈ expectedLabels text ↔ t ∈ namedTerminals text := by
  have hlabel : ∀ ts : List Terminal, t.label ∈ ts.map Terminal.label ↔ t ∈ ts := by
    intro ts
    refine ⟨fun h => ?_, List.mem_map_of_mem⟩
    obtain ⟨u, hu, hlabel⟩ := List.mem_map.mp h
    exact Terminal.label_injective hlabel ▸ hu
  unfold expectedLabels namedTerminals
  cases parse text with
  | ok tree => exact hlabel []
  | error f =>
    cases f with
    | unmatched => exact hlabel []
    | unexpected found place expected => exact List.mem_mergeSort.trans (hlabel expected)

theorem exists_unexpected (h : t ∈ namedTerminals text) :
    ∃ found place expected, parse text = .error (.unexpected found place expected) := by
  unfold namedTerminals at h
  split at h
  · next found place expected hparse => exact ⟨found, place, expected, hparse⟩
  · cases h

/-- Where a text stops to fit, the terminals that can come next are those that the automaton shifts there. One that is
    named can come next, unless it asks for reductions only; and one that can come next is named, unless it is a keyword
    and names are, or it does not ask for the reductions that have been made. -/
theorem expected_up_to_reductions (h : parse text = .error (.unexpected found place expected)) :
    ∃ st st', Stack.shiftAll automaton [] (takenLexemes text) = some st ∧ Stops automaton st st' expected ∧
      ∀ t : Terminal, t.isIgnored = false → t ≠ .endOfText →
        (CanFollow (takenLexemes text) t ↔ st.admits automaton t = true) ∧
        (t.label ∈ expectedLabels text → CanFollow (takenLexemes text) t ∨
          (∃ r, (automaton.state st'.place).action? t = some (.reduce r)) ∧ st'.admits automaton t = false) ∧
        (CanFollow (takenLexemes text) t → t.label ∈ expectedLabels text ∨
          t.keyword?.isSome = true ∧ Terminal.name.label ∈ expectedLabels text ∨ ¬ Leads automaton t st st') := by
  have hnamed : namedTerminals text = expected := by rw [namedTerminals, h]
  have hrest : parseRest automaton _ (Scanner.ofText text) [] ⟨1, 1⟩ = _ := h
  obtain ⟨st, st', hshiftAll, hstops⟩ :=
    parseRest_stops automaton_isSafe automaton_isGrounded (Nat.lt_succ_self _) .nil hrest
  replace hshiftAll : Stack.shiftAll automaton [] (takenLexemes text) = some st := hshiftAll
  obtain ⟨hvalid, hyield⟩ := Stack.shiftAll_keeps automaton_isSafe .nil hshiftAll
  obtain ⟨u, hleads⟩ := hstops.leads
  obtain ⟨hvalid', hyield'⟩ := hleads.keeps hvalid
  have hfollow : ∀ t, CanFollow (takenLexemes text) t ↔ st.admits automaton t = true := by
    intro t
    rw [canFollow_iff, hshiftAll, Option.any_some]
  refine ⟨st, st', hshiftAll, hstops, fun t hignored hend => ⟨hfollow t, ?_, ?_⟩⟩
  · intro ht
    rw [label_mem_expectedLabels, hnamed] at ht
    obtain ⟨act, haction⟩ := State.exists_action_of_accepted (hstops.accepted ht hignored)
    by_cases hadmits : st'.admits automaton t = true
    · have hcan := Stack.canFollow_of_admits automaton_isSafe automaton_isGrounded hvalid' hadmits
      rw [hyield', hyield] at hcan
      exact .inl hcan
    · cases act with
      | shift j => exact absurd (Stack.admits_of_leads .refl haction) hadmits
      | reduce r => exact .inr ⟨⟨r, haction⟩, by simpa using hadmits⟩
  · intro hcan
    rw [label_mem_expectedLabels, label_mem_expectedLabels, hnamed]
    by_cases hleads : Leads automaton t st st'
    · have haccepted :=
        Stack.accepted_of_admits automaton_isSafe automaton_isGrounded hvalid ((hfollow t).mp hcan) hleads
      exact (hstops.named automaton_isSafe haccepted hignored hend).imp_right .inl
    · exact .inr (.inr hleads)

end

/-- In the parentheses of a print statement a comma is named behind a name, where none can come; at the beginning of a
    text keywords can come and are not named. -/
theorem named_and_following : .comma ∈ namedTerminals "print(x 1);" ∧ ¬ CanFollow (takenLexemes "print(x 1);") .comma ∧
    .name ∈ namedTerminals ")" ∧ .printWord ∉ namedTerminals ")" ∧ CanFollow (takenLexemes ")") .printWord := by
  decide +kernel

/-- In front of the digit a comma asks for reductions only. -/
theorem comma_only_reduces : ∃ st st', Stack.shiftAll automaton [] (takenLexemes "print(x 1);") = some st ∧
    Stops automaton st st' (namedTerminals "print(x 1);") ∧
    (∃ r, (automaton.state st'.place).action? .comma = some (.reduce r)) ∧ st'.admits automaton .comma = false := by
  obtain ⟨hcomma, hnot, -⟩ := named_and_following
  obtain ⟨found, place, expected, hparse⟩ := exists_unexpected hcomma
  have hnamed : namedTerminals "print(x 1);" = expected := by rw [namedTerminals, hparse]
  obtain ⟨st, st', hshiftAll, hstops, hall⟩ := expected_up_to_reductions hparse
  have hreason := ((hall .comma (by decide) (by decide)).2.1 (label_mem_expectedLabels.mpr hcomma)).resolve_left hnot
  exact ⟨st, st', hshiftAll, hnamed ▸ hstops, hreason⟩

/-- What is named is not what can come next: a comma in a print statement is too much, a keyword at the beginning is
    missing. -/
theorem names_differ_from_followers :
    ((∃ found place expected, parse "print(x 1);" = .error (.unexpected found place expected)) ∧
      Terminal.comma.label ∈ expectedLabels "print(x 1);" ∧ ¬ CanFollow (takenLexemes "print(x 1);") .comma) ∧
    (∃ found place expected, parse ")" = .error (.unexpected found place expected)) ∧
      Terminal.printWord.label ∉ expectedLabels ")" ∧ CanFollow (takenLexemes ")") .printWord := by
  obtain ⟨hcomma, hnot, hname, hprint, hfollow⟩ := named_and_following
  exact ⟨⟨exists_unexpected hcomma, label_mem_expectedLabels.mpr hcomma, hnot⟩,
    exists_unexpected hname, fun h => hprint (label_mem_expectedLabels.mp h), hfollow⟩

end Grammar
end TypedImp

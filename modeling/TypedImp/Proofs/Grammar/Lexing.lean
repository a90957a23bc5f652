import Mathlib.Data.List.Forall2
import TypedImp.Proofs.Grammar.Cutting

/-! Lexemes and tokens of one text. Wherever the parser accepts the terminal of the next token it cuts off the lexeme
    that writes the token. Whatever it cuts off, if it can go on to the end of the text, writes a token or is a reserved
    word as a name. -/

namespace TypedImp
namespace Grammar
open Scanner (Spells Finds wordKind)

/-! ### What a lexeme writes -/

/-- The text of the token that a lexeme writes: the quotes do not belong to it, nor does a backslash in front of a
    double quote. -/
def Lexeme.content (l : Lexeme) : String :=
  match l.terminal with
  | .char => String.ofList (unwrapped l.text)
  | .string => String.ofList (unescaped (unwrapped l.text))
  | _ => l.text

/-- The lexeme writes the token. A name may also be a reserved word, which no token of its kind is. -/
structure Lexeme.Writes (l : Lexeme) (t : Token) : Prop where
  terminal : l.terminal = t.kind.terminal
  content : l.content = t.text
  fits : t.kind ≠ .ident → t.Fits

theorem Lexeme.content_of_plain {l : Lexeme} (hchar : l.terminal ≠ .char) (hstring : l.terminal ≠ .string) :
    l.content = l.text := by
  unfold Lexeme.content
  split <;> first | contradiction | rfl

theorem stringContent_quote (cs : List Char) : Scanner.stringContent ('\x22' :: cs) = some ([], 0) := by
  rw [Scanner.stringContent.eq_def]
  rfl

theorem stringContent_escape (cs : List Char) : Scanner.stringContent ('\\' :: '\x22' :: cs) =
    (Scanner.stringContent cs).map fun r => ('\x22' :: r.1, r.2 + 2) := by
  rw [Scanner.stringContent.eq_def]
  rfl

theorem stringContent_plain {c : Char} {cs : List Char} (hc : c ≠ '\x22')
    (hescape : c = '\\' → ∀ ds, cs ≠ '\x22' :: ds) :
    Scanner.stringContent (c :: cs) = (Scanner.stringContent cs).map fun r => (c :: r.1, r.2 + 1) := by
  rw [Scanner.stringContent.eq_def]
  simp only [hc, if_false]
  split
  · next hbackslash =>
    split
    · exact absurd rfl (hescape hbackslash _)
    · rw [hbackslash]
  · rfl

/-- A character of a string stands for itself, if it does not escape a double quote behind it; this does not depend on
    what follows the string. -/
theorem stringContent_own {c : Char} {cs rest content : List Char} (hescape : c = '\\' → ∀ ds, cs ≠ '\x22' :: ds)
    (h : Scanner.stringContent (c :: (cs ++ '\x22' :: rest)) = some (content, cs.length + 1)) (rest' : List Char) :
    Scanner.stringContent (c :: (cs ++ '\x22' :: rest')) =
      (Scanner.stringContent (cs ++ '\x22' :: rest')).map fun r => (c :: r.1, r.2 + 1) := by
  have hquote : c ≠ '\x22' := by
    rintro rfl
    rw [stringContent_quote] at h
    cases h
  refine stringContent_plain hquote fun hbackslash ds heq => ?_
  subst hbackslash
  cases cs with
  | nil =>
    rw [List.nil_append, stringContent_escape] at h
    obtain ⟨_, _, heq⟩ := Option.map_eq_some_iff.mp h
    simp at heq
  | cons d cs => exact hescape rfl cs (by rw [(List.cons.inj heq).1])

/-- What is read between the quotes of a string is what lies between them without the backslashes in front of double
    quotes, whatever follows the string. -/
theorem stringContent_congr {raw rest content : List Char}
    (h : Scanner.stringContent (raw ++ '\x22' :: rest) = some (content, raw.length)) (rest' : List Char) :
    Scanner.stringContent (raw ++ '\x22' :: rest') = some (unescaped raw, raw.length) := by
  fun_induction unescaped raw generalizing content with
  | case1 => exact stringContent_quote rest'
  | case2 cs ih =>
    rw [List.cons_append, List.cons_append, stringContent_escape] at h ⊢
    obtain ⟨⟨content', n⟩, h', heq⟩ := Option.map_eq_some_iff.mp h
    cases heq
    rw [ih h']
    rfl
  | case3 cs hquote ih =>
    have hown := stringContent_own (fun _ ds hds => hquote ds hds) h
    rw [List.cons_append, hown] at h ⊢
    obtain ⟨⟨content', n⟩, h', heq⟩ := Option.map_eq_some_iff.mp h
    cases heq
    rw [ih h']
    rfl
  | case4 c cs hc ih =>
    have hown := stringContent_own (fun hbackslash => absurd hbackslash hc) h
    rw [List.cons_append, hown] at h ⊢
    obtain ⟨⟨content', n⟩, h', heq⟩ := Option.map_eq_some_iff.mp h
    cases heq
    rw [ih h']
    rfl

theorem unescaped_of_stringContent {raw rest content : List Char}
    (h : Scanner.stringContent (raw ++ '\x22' :: rest) = some (content, raw.length)) : unescaped raw = content := by
  rw [stringContent_congr h rest] at h
  cases h
  rfl

theorem unwrapped_ofList (c d : Char) (cs : List Char) : unwrapped (String.ofList (c :: (cs ++ [d]))) = cs := by
  rw [unwrapped, String.toList_ofList, List.drop_succ_cons, List.drop_zero, List.dropLast_concat]

theorem wordKind_plain (word : String) :
    (wordKind word).terminal ≠ .char ∧ (wordKind word).terminal ≠ .string := by
  have key : ∀ k ∈ Token.Kind.keywords, k.terminal ≠ .char ∧ k.terminal ≠ .string := by decide
  rcases Scanner.wordKind_cases word with ⟨hkind, -⟩ | ⟨hkind, -⟩ | hkind
  · rw [hkind]
    decide
  · exact key _ hkind
  · rw [hkind]
    decide

theorem symbol_plain {k : Token.Kind} (hk : k ∈ Token.Kind.pairs ++ Token.Kind.singles) :
    k.terminal ≠ .char ∧ k.terminal ≠ .string := by
  have key : ∀ k ∈ Token.Kind.pairs ++ Token.Kind.singles, k.terminal ≠ .char ∧ k.terminal ≠ .string := by decide
  exact key k hk

/-- The characters of a spelled token write it. -/
theorem writes_of_spells {k : Token.Kind} {raw rest : List Char} {text : String} (h : Spells k raw text rest)
    (p q : Position) : Lexeme.Writes ⟨k.terminal, String.ofList raw, p⟩ ⟨k, text, q⟩ := by
  refine ⟨rfl, ?_, fun _ => h.fits q⟩
  cases h with
  | integer | float => rfl
  | word =>
    obtain ⟨hchar, hstring⟩ := wordKind_plain (String.ofList _)
    exact Lexeme.content_of_plain hchar hstring
  | @char c => exact congrArg String.ofList (unwrapped_ofList '\x27' '\x27' [c])
  | @string raw _ _ hcontent =>
    have hunwrapped := congrArg (String.ofList ∘ unescaped) (unwrapped_ofList '\x22' '\x22' raw)
    exact hunwrapped.trans (congrArg String.ofList (unescaped_of_stringContent hcontent))
  | pair hk =>
    obtain ⟨hchar, hstring⟩ := symbol_plain (List.mem_append_left _ hk)
    exact (Lexeme.content_of_plain hchar hstring).trans String.ofList_toList
  | single hk =>
    obtain ⟨hchar, hstring⟩ := symbol_plain (List.mem_append_right _ hk)
    exact (Lexeme.content_of_plain hchar hstring).trans String.ofList_toList

/-! ### Lexemes in front of a token -/

section
variable {a : Automaton} {i : Nat} {s : Scanner} {k : Token.Kind} {raw rest : List Char} {text : String}

theorem terminal_of_keyword (hk : k ∈ Token.Kind.keywords) : k.terminal.keyword? = some k.text := by
  have key : ∀ k ∈ Token.Kind.keywords, k.terminal.keyword? = some k.text := by decide
  exact key k hk

theorem keyword?_injective {t u : Terminal} {word : String} (ht : t.keyword? = some word) (hu : u.keyword? = some word) :
    t = u := by
  have key : ∀ t ∈ Terminal.all, ∀ u ∈ Terminal.all, t.keyword?.isSome = true → t.keyword? = u.keyword? → t = u := by
    decide
  exact key t (Terminal.mem_all t) u (Terminal.mem_all u) (by rw [ht]; rfl) (ht.trans hu.symm)

/-- The word of a keyword's terminal is a keyword. -/
theorem wordKind_keyword {t : Terminal} {word : String} (h : t.keyword? = some word) :
    wordKind word ∈ Token.Kind.keywords := by
  have key : ∀ t ∈ Terminal.all, ∀ word ∈ t.keyword?, wordKind word ∈ Token.Kind.keywords := by decide
  exact key t (Terminal.mem_all t) word h

/-- A name that is the word of an accepted keyword is that keyword. -/
theorem recognised_keyword {accepted : List Terminal} (hk : k ∈ Token.Kind.keywords) (h : k.terminal ∈ accepted) :
    recognised accepted .name k.text = k.terminal := by
  have hkeyword := terminal_of_keyword hk
  rw [recognised, if_pos rfl]
  cases hfind : accepted.find? fun t => t.keyword? = some k.text with
  | none => exact absurd hkeyword (by simpa using List.find?_eq_none.mp hfind _ h)
  | some t => exact keyword?_injective (by simpa using List.find?_some hfind) hkeyword

/-- What is recognised in a word is a name or the keyword that the word is. -/
theorem recognised_name (accepted : List Terminal) (word : String) :
    recognised accepted .name word = .name ∨
      (recognised accepted .name word).keyword? = some word := by
  rw [recognised, if_pos rfl]
  cases hfind : accepted.find? fun t => t.keyword? = some word with
  | none => exact .inl rfl
  | some t => exact .inr (by simpa using List.find?_some hfind)

theorem text_of_keyword (h : Spells k raw text rest) (hk : k ∈ Token.Kind.keywords) : String.ofList raw = k.text := by
  cases h with
  | word =>
    rcases Scanner.wordKind_cases (String.ofList _) with ⟨hkind, -⟩ | ⟨-, htext⟩ | hkind
    · rw [hkind] at hk
      exact absurd hk (by decide)
    · exact htext
    · rw [hkind] at hk
      exact absurd hk (by decide)
  | pair hpair =>
    have key : ∀ k ∈ Token.Kind.pairs, k ∉ Token.Kind.keywords := by decide
    exact absurd hk (key k hpair)
  | single hsingle =>
    have key : ∀ k ∈ Token.Kind.singles, k ∉ Token.Kind.keywords := by decide
    exact absurd hk (key k hsingle)
  | _ => exact absurd hk (by decide)

/-- The kind of a word is that of the words with the same characters. -/
theorem wordKind_of_spells (h : Spells k raw text rest) (hk : k.matched = .name ∨ k = .boolean) :
    wordKind (String.ofList raw) = k ∧ text = String.ofList raw := by
  cases h with
  | word => exact ⟨rfl, rfl⟩
  | pair hpair =>
    have key : ∀ k ∈ Token.Kind.pairs, ¬ (k.matched = .name ∨ k = .boolean) := by decide
    exact absurd hk (key k hpair)
  | single hsingle =>
    have key : ∀ k ∈ Token.Kind.singles, ¬ (k.matched = .name ∨ k = .boolean) := by decide
    exact absurd hk (key k hsingle)
  | _ => exact absurd hk (by decide)

/-- A spelled token is recognised as what it is, or, if it is a keyword, as a name. -/
theorem recognised_cases (accepted : List Terminal) (h : Spells k raw text rest) :
    recognised accepted k.matched (String.ofList raw) = k.terminal ∨
      k ∈ Token.Kind.keywords ∧ recognised accepted k.matched (String.ofList raw) = .name := by
  have key : ∀ k ∈ Token.Kind.all, k ∈ Token.Kind.keywords ∨ k = .ident ∨ k.matched = k.terminal ∧ k.terminal ≠ .name := by
    decide
  rcases key k k.mem_all with hkeyword | rfl | ⟨hmatched, hname⟩
  · rw [Token.Kind.matched, if_pos hkeyword, text_of_keyword h hkeyword]
    rcases recognised_name accepted k.text with hname | hword
    · exact .inr ⟨hkeyword, hname⟩
    · exact .inl (keyword?_injective hword (terminal_of_keyword hkeyword))
  · rcases recognised_name accepted (String.ofList raw) with hname | hkeyword
    · exact .inl hname
    · have hkind := wordKind_keyword hkeyword
      rw [(wordKind_of_spells h (.inl rfl)).1] at hkind
      exact absurd hkind (by decide)
  · rw [hmatched, recognised, if_neg hname]
    exact .inl rfl

theorem recognised_matched {accepted : List Terminal} (h : Spells k raw text rest) (hk : k.terminal ∈ accepted) :
    recognised accepted k.matched (String.ofList raw) = k.terminal := by
  rcases recognised_cases accepted h with hterminal | ⟨hkeyword, -⟩
  · exact hterminal
  · rw [Token.Kind.matched, if_pos hkeyword, text_of_keyword h hkeyword]
    exact recognised_keyword hkeyword hk

/-- A terminal that is tried where nothing is to skip is accepted, and it is no keyword. -/
theorem accepted_of_tried (ha : a.isSafe = true) {t : Terminal} (ht : t ∈ tried (a.state i).accepted)
    (hignored : t.isIgnored = false) : t ∈ (a.state i).accepted ∧ t.keyword? = none := by
  rcases (mem_tried.mp ht).2 with h | ⟨haccepted, h⟩
  · exact nomatch hignored.symm.trans h
  · refine ⟨haccepted, ?_⟩
    cases hkeyword : t.keyword? with
    | none => rfl
    | some word =>
      have hname := Automaton.name_accepted ha haccepted (by rw [hkeyword]; rfl)
      rw [hkeyword] at h
      exact absurd hname (h.resolve_left (Option.some_ne_none _))

/-- The terminal that a token is cut off by is tried where the token's terminal is accepted. -/
theorem matched_tried (ha : a.isSafe = true) (hspells : Spells k raw text rest)
    (hk : k.terminal ∈ (a.state i).accepted) : k.matched ∈ tried (a.state i).accepted := by
  refine mem_tried.mpr ⟨mem_lexical_of_match (Terminal.matchLength?_matched hspells), .inr ?_⟩
  by_cases hkeyword : k ∈ Token.Kind.keywords
  · rw [Token.Kind.matched, if_pos hkeyword]
    have hsome : k.terminal.keyword?.isSome = true := by rw [terminal_of_keyword hkeyword]; rfl
    exact ⟨Automaton.name_accepted ha hk hsome, .inl rfl⟩
  · rw [Token.Kind.matched, if_neg hkeyword]
    have key : ∀ k ∈ Token.Kind.all, k ∉ Token.Kind.keywords → k.terminal.keyword? = none := by decide
    exact ⟨hk, .inl (key k k.mem_all hkeyword)⟩

theorem firstMatch?_spelled (ha : a.isSafe = true) (hspells : Spells k raw text rest) (hs : s.rest = raw ++ rest)
    (hclear : IsClear s) (hk : k.terminal ∈ (a.state i).accepted) :
    firstMatch? (tried (a.state i).accepted) s.rest = some (k.matched, raw.length) := by
  have hmatch : k.matched.matchLength? s.rest = some raw.length := hs ▸ Terminal.matchLength?_matched hspells
  refine firstMatch?_tried.mpr ⟨matched_tried ha hspells hk, hmatch, fun u hu m hm => ?_⟩
  have hignored := hclear.not_ignored hm
  rcases Terminal.eq_matched_or_rival hspells (hs ▸ hm) hignored with rfl | hrival
  · exact Nat.le_refl _
  · cases hrival with
    | digits hkind | sign hkind | truth hkind =>
      subst hkind
      decide
    | keyword hkeyword =>
      have hnone := (accepted_of_tried ha hu hignored).2
      rw [hnone] at hkeyword
      cases hkeyword

/-- Where the parser accepts the terminal of the next token, it cuts that token off. -/
theorem cut_spelled (ha : a.isSafe = true) (hspells : Spells k raw text rest) (hs : s.rest = raw ++ rest)
    (hclear : IsClear s) (hk : k.terminal ∈ (a.state i).accepted) :
    cut (a.state i).accepted s = .lexeme ⟨k.terminal, String.ofList raw, s.position⟩ (s.advance raw.length) := by
  rw [cut, cutUpTo_some hclear (firstMatch?_spelled ha hspells hs hclear hk), hs, List.take_left,
    recognised_matched hspells hk]

/-- What the parser can cut off in front of a spelled token: its lexeme, a reserved word as a name, or one half of a
    sign of equality. -/
inductive Piece (k : Token.Kind) (raw : List Char) (s : Scanner) : Lexeme → Scanner → Prop
  | whole : Piece k raw s ⟨k.terminal, String.ofList raw, s.position⟩ (s.advance raw.length)
  | reserved : k ∈ Token.Kind.keywords ∨ k = .boolean →
      Piece k raw s ⟨.name, String.ofList raw, s.position⟩ (s.advance raw.length)
  | half {text : String} : k = .eq → Piece k raw s ⟨.equal, text, s.position⟩ (s.advance 1)

/-- Whatever the parser cuts off is one of these pieces. -/
theorem piece_of_cut (ha : a.isSafe = true) (hspells : Spells k raw text rest) (hs : s.rest = raw ++ rest)
    (hclear : IsClear s) {l : Lexeme} {s' : Scanner} (h : cut (a.state i).accepted s = .lexeme l s') :
    Piece k raw s l s' := by
  have hrest : s.rest ≠ [] := by
    rw [hs]
    exact List.append_ne_nil_of_left_ne_nil hspells.raw_ne_nil _
  have hmatch : k.matched.matchLength? s.rest = some raw.length := hs ▸ Terminal.matchLength?_matched hspells
  cases hfirst : firstMatch? (tried (a.state i).accepted) s.rest with
  | none =>
    rw [cut, cutUpTo_none hrest hfirst] at h
    cases h
  | some r =>
    obtain ⟨t, n⟩ := r
    rw [cut, cutUpTo_some hclear hfirst] at h
    cases h
    obtain ⟨ht, hn, hleast⟩ := firstMatch?_tried.mp hfirst
    have hignored := hclear.not_ignored hn
    obtain ⟨haccepted, hkeyword⟩ := accepted_of_tried ha ht hignored
    rcases Terminal.eq_matched_or_rival hspells (hs ▸ hn) hignored with rfl | hrival
    · obtain rfl : n = raw.length := Option.some_inj.mp (hn.symm.trans hmatch)
      rw [hs, List.take_left]
      rcases recognised_cases (a.state i).accepted hspells with hterminal | ⟨hkeyword, hname⟩
      · rw [hterminal]
        exact .whole
      · rw [hname]
        exact .reserved (.inl hkeyword)
    · cases hrival with
      | digits hkind =>
        -- Where integers are accepted numbers with a point are too, and they come first.
        subst hkind
        have hfloat := matched_tried ha hspells (Automaton.float_accepted ha haccepted)
        exact absurd (hleast _ hfloat _ hmatch) (by decide)
      | sign hkind => exact .half hkind
      | truth hkind =>
        rw [hs, List.take_left]
        rcases recognised_name (a.state i).accepted (String.ofList raw) with hname | hword
        · rw [hname]
          exact .reserved (.inr hkind)
        · have hword := wordKind_keyword hword
          rw [(wordKind_of_spells hspells (.inr hkind)).1, hkind] at hword
          exact absurd hword (by decide)
      | keyword hsome =>
        rw [hkeyword] at hsome
        cases hsome

end

/-! ### Lexemes from tokens -/

theorem isFinal_of_spells {k : Token.Kind} {raw rest : List Char} {text : String} (h : Spells k raw text rest) :
    k.isFinal = false := by
  cases h with
  | word =>
    have key : ∀ k ∈ Token.Kind.keywords, k.isFinal = false := by decide
    rcases Scanner.wordKind_cases (String.ofList _) with ⟨hkind, -⟩ | ⟨hkind, -⟩ | hkind
    · rw [hkind]
      rfl
    · exact key _ hkind
    · rw [hkind]
      rfl
  | pair hk =>
    have key : ∀ k ∈ Token.Kind.pairs, k.isFinal = false := by decide
    exact key _ hk
  | single hk =>
    have key : ∀ k ∈ Token.Kind.singles, k.isFinal = false := by decide
    exact key _ hk
  | _ => rfl

/-- How the tokens of a text begin: with the end, with a spelled token or with a fault. -/
inductive Begins (s : Scanner) : List Token → Prop
  | eof : s.skipTrivia.rest = [] → Begins s [⟨.eof, "", s.skipTrivia.position⟩]
  | token {k : Token.Kind} {raw : List Char} {text : String} (rest : List Char) :
      s.skipTrivia.rest = raw ++ rest → Spells k raw text rest →
      (s.skipTrivia.advance raw.length).rest.length < s.rest.length →
      Begins s (⟨k, text, s.skipTrivia.position⟩ :: (s.skipTrivia.advance raw.length).tokens)
  | fault {text : String} : s.next.1.kind = .invalid → Begins s [⟨.invalid, text, s.skipTrivia.position⟩]

theorem tokens_begin (s : Scanner) : Begins s s.tokens := by
  have hfinds := Scanner.next_finds s
  have hlength := @Scanner.length_rest_next s
  have hfault : s.next.1.kind = .invalid → Begins s [⟨.invalid, s.next.1.text, s.skipTrivia.position⟩] := .fault
  rw [Scanner.tokens_eq]
  generalize s.next = r at hfinds hlength hfault
  cases hfinds with
  | eof hrest => exact .eof hrest
  | token rest hrest hspells =>
    have hfinal := isFinal_of_spells hspells
    rw [if_neg (by rw [hfinal]; exact Bool.false_ne_true)]
    exact .token rest hrest hspells (hlength hfinal)
  | fault => exact hfault rfl

theorem cut_end {accepted : List Terminal} {s : Scanner} (h : s.skipTrivia.rest = []) :
    cut accepted s = .endOfText := by
  rw [cut_skipTrivia, cut, cutUpTo_nil h]

/-- A text without faults consists of lexemes that write its tokens and stand in their places. -/
theorem exists_placed_lexes {a : Automaton} (ha : a.isSafe = true) (s : Scanner) {body : List Token} {last : Token}
    (hts : s.tokens = body ++ [last]) (hlast : last.kind = .eof) :
    ∃ ls, Lexes a s ls ∧ List.Forall₂ (fun l t => Lexeme.Writes l t ∧ l.position = t.position) ls body := by
  have hbegins := tokens_begin s
  rw [hts] at hbegins
  generalize hlist : body ++ [last] = ts at hbegins
  cases hbegins with
  | eof hrest =>
    obtain ⟨rfl, -⟩ := List.append_eq_singleton_iff.mp hlist |>.resolve_right (by simp)
    exact ⟨[], .nil fun _ => cut_end hrest, .nil⟩
  | token rest hrest hspells hlt =>
    cases body with
    | nil =>
      obtain ⟨rfl, -⟩ := List.cons.inj hlist
      exact nomatch (isFinal_of_spells hspells).symm.trans (congrArg Token.Kind.isFinal hlast)
    | cons t body =>
      obtain ⟨rfl, hrest'⟩ := List.cons.inj hlist
      obtain ⟨ls, hlexes, hwrites⟩ := exists_placed_lexes ha _ hrest'.symm hlast
      refine ⟨_ :: ls, .cons (fun i hi => ?_) hlt hlexes, .cons ⟨writes_of_spells hspells _ _, rfl⟩ hwrites⟩
      rw [cut_skipTrivia]
      exact cut_spelled ha hspells hrest (isClear_skipTrivia s) hi
  | fault =>
    obtain ⟨-, hlist⟩ := List.append_eq_singleton_iff.mp hlist |>.resolve_right (by simp)
    rw [(List.cons.inj hlist).1] at hlast
    cases hlast
termination_by s.rest.length

theorem exists_lexes {a : Automaton} (ha : a.isSafe = true) (s : Scanner) {body : List Token} {last : Token}
    (hts : s.tokens = body ++ [last]) (hlast : last.kind = .eof) :
    ∃ ls, Lexes a s ls ∧ List.Forall₂ Lexeme.Writes ls body := by
  obtain ⟨ls, hlexes, hplaced⟩ := exists_placed_lexes ha s hts hlast
  exact ⟨ls, hlexes, hplaced.imp fun _ _ h => h.1⟩

/-! ### Tokens from lexemes -/

theorem rest_of_cut_end {accepted : List Terminal} {s : Scanner} (h : cut accepted s = .endOfText) :
    s.skipTrivia.rest = [] := by
  cases cutsOff_of_eq h with
  | endOfText hrest => exact hrest

/-- A lexeme is cut off by a terminal that matches. -/
theorem match_of_cut {accepted : List Terminal} {s s' : Scanner} {l : Lexeme} (h : cut accepted s = .lexeme l s') :
    ∃ t ∈ tried accepted, t.isIgnored = false ∧ ∃ n, t.matchLength? s.skipTrivia.rest = some n := by
  cases cutsOff_of_eq h with
  | @lexeme t n hfirst =>
    obtain ⟨ht, hn, -⟩ := firstMatch?_tried.mp hfirst
    exact ⟨t, ht, (isClear_skipTrivia s).not_ignored hn, n, hn⟩

theorem family_of_equal {s : Scanner} {rest : List Char} {t : Terminal} {n : Nat} (hs : s.rest = '=' :: rest)
    (ht : t.matchLength? s.rest = some n) : t.family = .equality := by
  rw [hs] at ht
  exact (Option.some_inj.mp (Terminal.familyOf_of_match ht)).symm

theorem isClear_equal {s : Scanner} {rest : List Char} (hs : s.rest = '=' :: rest) : IsClear s := by
  intro t hignored
  refine Option.eq_none_iff_forall_ne_some.mpr fun n ht => ?_
  have key : ∀ t ∈ Terminal.all, t.isIgnored = true → t.family ≠ .equality := by decide
  exact key t (Terminal.mem_all t) hignored (family_of_equal hs ht)

/-- Behind one half of a sign of equality nothing can be cut off in front of the other. -/
theorem cut_half {a : Automaton} (ha : a.isSafe = true) {i j : Nat} {s : Scanner} {rest : List Char}
    (htarget : State.target? (a.state i).targets (.terminal .equal) = some j) (hs : s.rest = '=' :: rest) :
    cut (a.state j).accepted s = .nothing s := by
  obtain ⟨hequal, hequality⟩ := Automaton.not_accepted_behind_equal ha htarget
  have hrest : s.rest ≠ [] := by
    rw [hs]
    exact List.cons_ne_nil _ _
  cases hfirst : firstMatch? (tried (a.state j).accepted) s.rest with
  | none => rw [cut, cutUpTo_none hrest hfirst]
  | some r =>
    obtain ⟨ht, hn, -⟩ := firstMatch?_tried.mp hfirst
    have haccepted := (accepted_of_tried ha ht ((isClear_equal hs).not_ignored hn)).1
    have key : ∀ t ∈ Terminal.all, t.family = .equality → t = .equal ∨ t = .equality := by decide
    rcases key r.1 (Terminal.mem_all r.1) (family_of_equal hs hn) with heq | heq
    · exact absurd (heq ▸ haccepted) hequal
    · exact absurd (heq ▸ haccepted) hequality

/-- Behind one half of a sign of equality the parser cannot go on. -/
theorem not_reads_half {a : Automaton} (ha : a.isSafe = true) {i j : Nat} {s : Scanner} {rest : List Char}
    {ls : List Lexeme} (htarget : State.target? (a.state i).targets (.terminal .equal) = some j)
    (hs : s.rest = '=' :: rest) : ¬ Reads a j s ls := by
  have hnothing := cut_half ha htarget hs
  intro hreads
  cases hreads with
  | nil hcut => exact nomatch hnothing.symm.trans hcut
  | cons hcut => exact nomatch hnothing.symm.trans hcut

theorem raw_of_eq {raw rest : List Char} {text : String} (h : Spells .eq raw text rest) : raw = ['=', '='] := by
  generalize hk : Token.Kind.eq = k at h
  cases h with
  | @word c cs =>
    rcases Scanner.wordKind_cases (String.ofList (c :: cs)) with ⟨hkind, -⟩ | ⟨hkind, -⟩ | hkind
    · exact nomatch hk.trans hkind
    · rw [← hk] at hkind
      exact absurd hkind (by decide)
    · exact nomatch hk.trans hkind
  | pair => exact hk ▸ rfl
  | single hsingle =>
    rw [← hk] at hsingle
    exact absurd hsingle (by decide)
  | _ => cases hk

theorem tokens_of_end {s : Scanner} (h : s.skipTrivia.rest = []) : s.tokens = [⟨.eof, "", s.skipTrivia.position⟩] := by
  have hnext : s.next = (⟨.eof, "", s.skipTrivia.position⟩, s.skipTrivia) := by
    unfold Scanner.next
    dsimp only
    rw [h]
  rw [Scanner.tokens_eq, hnext]
  rfl

/-- Lexemes that the parser cuts a text into write tokens. These are the text's own tokens, unless a reserved word is
    among them as a name. -/
theorem exists_tokens {a : Automaton} (ha : a.isSafe = true) {i : Nat} {s : Scanner} {ls : List Lexeme}
    (h : Reads a i s ls) : ∃ ts, List.Forall₂ Lexeme.Writes ls ts ∧
      ((∀ t ∈ ts, t.kind = .ident → wordKind t.text = .ident) → ∃ p, s.tokens = ts ++ [⟨.eof, "", p⟩]) := by
  induction h with
  | @nil i s hcut => exact ⟨[], .nil, fun _ => ⟨_, tokens_of_end (rest_of_cut_end hcut)⟩⟩
  | @cons i i' j s s' l ls hcut htarget hreads ih =>
    obtain ⟨ts, hwrites, htokens⟩ := ih
    have hbegins := tokens_begin s
    generalize hlist : s.tokens = us at hbegins
    cases hbegins with
    | eof hrest => exact nomatch hcut.symm.trans (cut_end hrest)
    | fault hkind =>
      obtain ⟨t, -, hignored, n, hn⟩ := match_of_cut hcut
      exact absurd hkind (Terminal.next_valid hn hignored)
    | @token k raw text rest hrest hspells hlt =>
      rw [cut_skipTrivia] at hcut
      cases piece_of_cut ha hspells hrest (isClear_skipTrivia s) hcut with
      | whole =>
        refine ⟨⟨k, text, s.skipTrivia.position⟩ :: ts, .cons (writes_of_spells hspells _ _) hwrites, fun hnames => ?_⟩
        obtain ⟨p, hp⟩ := htokens fun t ht => hnames t (List.mem_cons_of_mem _ ht)
        exact ⟨p, by rw [hp, List.cons_append]⟩
      | reserved hk =>
        have hmatched : k.matched = .name ∨ k = .boolean := hk.imp_left fun hk => if_pos hk
        obtain ⟨hword, htext⟩ := wordKind_of_spells hspells hmatched
        refine ⟨⟨.ident, text, s.skipTrivia.position⟩ :: ts, .cons ⟨rfl, htext.symm, absurd rfl⟩ hwrites, fun hnames => ?_⟩
        have hident := hnames _ (List.mem_cons_self ..) rfl
        rw [htext, hword] at hident
        rw [hident] at hk
        exact absurd hk (by decide)
      | half hk =>
        subst hk
        obtain rfl := raw_of_eq hspells
        have hhalf : (s.skipTrivia.advance 1).rest = '=' :: rest := by rw [Scanner.rest_advance, hrest]; rfl
        exact absurd hreads (not_reads_half ha htarget hhalf)

end Grammar
end TypedImp

import Mathlib.Data.List.TakeDrop
import TypedImp.Proofs.Grammar.Cutting

/-! The terminals as regular expressions, which are matched with backtracking: a repetition tries as many or as few
    rounds as it can first, and gives way when what follows does not match. Every terminal matches where its expression
    does, and the same characters. -/

namespace TypedImp
namespace Grammar

/-- Regular expressions. -/
inductive Pattern where
  | empty
  /-- A character in one of the ranges, or one in none of them. -/
  | among (inside : Bool) (ranges : List (Char × Char))
  | seq (first second : Pattern)
  | either (first second : Pattern)
  /-- As many rounds as possible, from none on. -/
  | many (round : Pattern)
  /-- As few rounds as possible. -/
  | few (round : Pattern)
  /-- No character, where the pattern does not match. -/
  | notBefore (ahead : Pattern)
  /-- No character, at the end of the text or in front of a newline that ends it. -/
  | finish
  deriving DecidableEq, Repr

namespace Pattern

def inRanges (ranges : List (Char × Char)) (c : Char) : Bool := ranges.any fun r => r.1 ≤ c && c ≤ r.2

/-- What the rounds of a repetition may leave of a text, in the order in which it is tried. A round that takes no
    character ends the repetition, so that the length of the text bounds their number. -/
def rounds (greedy : Bool) (round : List Char → List (List Char)) : Nat → List Char → List (List Char)
  | 0, cs => [cs]
  | n + 1, cs =>
    let more := ((round cs).filter fun r => r.length < cs.length).flatMap (rounds greedy round n)
    if greedy then more ++ [cs] else cs :: more

/-- What a match at the front may leave of a text, in the order in which it is tried. -/
def rests : Pattern → List Char → List (List Char)
  | empty, cs => [cs]
  | among _ _, [] => []
  | among inside ranges, c :: cs => if inRanges ranges c == inside then [cs] else []
  | seq p q, cs => (p.rests cs).flatMap q.rests
  | either p q, cs => p.rests cs ++ q.rests cs
  | many p, cs => rounds true p.rests cs.length cs
  | few p, cs => rounds false p.rests cs.length cs
  | notBefore p, cs => if (p.rests cs).isEmpty then [cs] else []
  | finish, cs => if cs = [] || cs = ['\n'] then [cs] else []

/-- What the match leaves of a text. -/
def rest? (p : Pattern) (cs : List Char) : Option (List Char) := (p.rests cs).head?

/-- How many characters the match takes. -/
def matchLength? (p : Pattern) (cs : List Char) : Option Nat := (p.rest? cs).map fun r => cs.length - r.length

/-! ### The expressions of the terminals -/

def char (c : Char) : Pattern := among true [(c, c)]

/-- One round at least. -/
def row (p : Pattern) : Pattern := seq p (many p)

def word (text : List Char) : Pattern := text.foldr (fun c p => seq (char c) p) empty

/-- The first of the texts that matches. -/
def oneOf (texts : List String) : Pattern := texts.foldr (fun s p => either (word s.toList) p) (among true [])

def digit : Pattern := among true [('0', '9')]

def letter : Pattern := among true [('a', 'z'), ('A', 'Z'), ('_', '_')]

def wordChar : Pattern := among true [('a', 'z'), ('A', 'Z'), ('_', '_'), ('0', '9')]

def blank : Pattern := among true [(' ', ' '), ('\t', '\t'), ('\x0c', '\x0c'), ('\r', '\r'), ('\n', '\n')]

def anything : Pattern := among false []

/-- A double quote behind a backslash, a backslash that no double quote follows, or any other character. -/
def stringItem : Pattern :=
  either (seq (char '\\') (char '\x22'))
    (either (seq (char '\\') (notBefore (char '\x22'))) (among false [('\x22', '\x22'), ('\\', '\\')]))

end Pattern

/-- The expression of a terminal. -/
def Terminal.pattern : Terminal → Pattern
  | float => .seq (.row .digit) (.seq (.char '.') (.many .digit))
  | bool => .seq (.oneOf ["true", "false"]) (.notBefore .wordChar)
  | name => .seq .letter (.many .wordChar)
  | string => .seq (.char '\x22') (.seq (.many .stringItem) (.char '\x22'))
  | blockComment =>
    .seq (.char '/') (.seq (.char '*') (.seq (.few .anything) (.either (.seq (.char '*') (.char '/')) .finish)))
  | blank => .row .blank
  | lineComment => .seq (.char '/') (.seq (.char '/') (.many (.among false [('\n', '\n')])))
  | int => .row .digit
  | char => .seq (.char '\x27') (.seq (.among false [('\x27', '\x27'), ('\n', '\n')]) (.char '\x27'))
  | relational => .oneOf ["<=", ">=", "<", ">"]
  | equality => .oneOf ["==", "!="]
  | and => .oneOf ["&&"]
  | or => .oneOf ["||"]
  | multiplicative => .oneOf ["*", "/", "%"]
  | additive => .oneOf ["+", "-"]
  | colon => .oneOf [":"]
  | comma => .oneOf [","]
  | equal => .oneOf ["="]
  | lbrace => .oneOf ["\x7b"]
  | lparen => .oneOf ["("]
  | rbrace => .oneOf ["\x7d"]
  | rparen => .oneOf [")"]
  | semicolon => .oneOf [";"]
  | endOfText => .oneOf []
  | keyword => .oneOf keyword.keyword?.toList

namespace Pattern
variable {p q : Pattern} {cs : List Char}

/-! ### Characters -/

theorem inRanges_single (c d : Char) : inRanges [(c, c)] d = decide (d = c) := by
  rw [inRanges, List.any_cons, List.any_nil, Bool.or_false, Bool.eq_iff_iff, Bool.and_eq_true, decide_eq_true_iff,
    decide_eq_true_iff, decide_eq_true_iff]
  exact ⟨fun h => Char.le_antisymm h.2 h.1, fun h => h ▸ ⟨Char.le_refl _, Char.le_refl _⟩⟩

theorem inRanges_cons (r r' : Char × Char) (rs : List (Char × Char)) (c : Char) :
    inRanges (r :: r' :: rs) c = (inRanges [r] c || inRanges (r' :: rs) c) := by
  simp [inRanges]

theorem inRanges_digit (c : Char) : inRanges [('0', '9')] c = Text.isAsciiDigit c := by
  simp [inRanges, Text.isAsciiDigit]

theorem inRanges_letter (c : Char) : inRanges [('a', 'z'), ('A', 'Z'), ('_', '_')] c = Scanner.isIdentStart c := by
  rw [inRanges_cons, inRanges_cons, inRanges_single]
  simp [inRanges, Scanner.isIdentStart, Bool.or_assoc]

theorem inRanges_wordChar (c : Char) :
    inRanges [('a', 'z'), ('A', 'Z'), ('_', '_'), ('0', '9')] c = Scanner.isIdentChar c := by
  rw [inRanges_cons, inRanges_cons, inRanges_cons, inRanges_single, inRanges_digit]
  simp [inRanges, Scanner.isIdentChar, Scanner.isIdentStart, Bool.or_assoc]

theorem inRanges_blank (c : Char) :
    inRanges [(' ', ' '), ('\t', '\t'), ('\x0c', '\x0c'), ('\r', '\r'), ('\n', '\n')] c = Scanner.isSpace c := by
  simp only [inRanges_cons, inRanges_single, Scanner.isSpace, Bool.or_assoc]

/-! ### Matching part by part -/

theorem rests_among_cons (inside : Bool) (ranges : List (Char × Char)) (c : Char) (cs : List Char) :
    (among inside ranges).rests (c :: cs) = if inRanges ranges c == inside then [cs] else [] := rfl

theorem rests_char_cons (c d : Char) (cs : List Char) : (char c).rests (d :: cs) = if d = c then [cs] else [] := by
  rw [char, rests_among_cons, inRanges_single]
  simp

theorem rest?_seq : (seq p q).rest? cs = (p.rests cs).findSome? q.rest? := by
  simp [rest?, rests, List.head?_flatMap]
  rfl

theorem rest?_either : (either p q).rest? cs = (p.rest? cs).or (q.rest? cs) := by
  simp [rest?, rests, List.head?_append]

theorem rest?_char_nil (c : Char) : (char c).rest? [] = none := rfl

theorem rest?_char_cons (c d : Char) (cs : List Char) : (char c).rest? (d :: cs) = if d = c then some cs else none := by
  rw [rest?, rests_char_cons]
  split <;> rfl

theorem rest?_seq_char_cons (c d : Char) (cs : List Char) :
    (seq (char c) q).rest? (d :: cs) = if d = c then q.rest? cs else none := by
  rw [rest?_seq, rests_char_cons]
  split <;> simp

theorem rest?_seq_among_cons (inside : Bool) (ranges : List (Char × Char)) (c : Char) (cs : List Char) :
    (seq (among inside ranges) q).rest? (c :: cs) = if inRanges ranges c == inside then q.rest? cs else none := by
  rw [rest?_seq, rests_among_cons]
  split <;> simp

/-- A text matches where it stands in front. -/
theorem rests_word (text cs : List Char) :
    (word text).rests cs = if text.isPrefixOf cs then [cs.drop text.length] else [] := by
  induction text generalizing cs with
  | nil => rfl
  | cons c text ih =>
    cases cs with
    | nil => rfl
    | cons d cs =>
      rw [word, List.foldr_cons, rests, rests_char_cons, ← word, List.isPrefixOf_cons_cons, List.length_cons,
        List.drop_succ_cons]
      by_cases h : d = c
      · subst h
        simp [ih]
      · have h' : (c == d) = false := by simpa using fun heq => h heq.symm
        rw [if_neg h, h', Bool.false_and, if_neg Bool.false_ne_true, List.flatMap_nil]

theorem rests_oneOf (texts : List String) (cs : List Char) :
    (oneOf texts).rests cs = (texts.filter fun s => s.toList.isPrefixOf cs).map fun s => cs.drop s.length := by
  induction texts with
  | nil => cases cs <;> rfl
  | cons s texts ih =>
    rw [oneOf, List.foldr_cons, rests, ← oneOf, ih, rests_word, List.filter_cons, String.length_toList]
    split <;> rfl

theorem rest?_oneOf (texts : List String) (cs : List Char) :
    (oneOf texts).rest? cs = (Terminal.literalLength? texts cs).map cs.drop := by
  rw [rest?, rests_oneOf, List.head?_map, List.head?_filter, Terminal.literalLength?, Option.map_map]
  rfl

/-! ### Repetitions -/

/-- The bound on the rounds is never reached. -/
theorem rounds_eq {greedy : Bool} {round : List Char → List (List Char)} :
    ∀ {m n : Nat} {cs : List Char}, cs.length ≤ m → cs.length ≤ n →
      rounds greedy round m cs = rounds greedy round n cs
  | 0, 0, _, _, _ => rfl
  | 0, n + 1, cs, hm, _ => by
    obtain rfl := List.length_eq_zero_iff.mp (Nat.le_zero.mp hm)
    cases greedy <;> simp [rounds]
  | m + 1, 0, cs, _, hn => by
    obtain rfl := List.length_eq_zero_iff.mp (Nat.le_zero.mp hn)
    cases greedy <;> simp [rounds]
  | m + 1, n + 1, cs, hm, hn => by
    have hmore : ((round cs).filter fun r => r.length < cs.length).flatMap (rounds greedy round m) =
        ((round cs).filter fun r => r.length < cs.length).flatMap (rounds greedy round n) := by
      rw [List.flatMap_def, List.flatMap_def]
      refine congrArg _ (List.map_congr_left fun r hr => ?_)
      have hlt : r.length < cs.length := by simpa using (List.mem_filter.mp hr).2
      exact rounds_eq (by omega) (by omega)
    simp only [rounds, hmore]

theorem rounds_single {greedy : Bool} {round : List Char → List (List Char)} {r : List Char} (h : round cs = [r])
    (hlt : r.length < cs.length) :
    rounds greedy round cs.length cs =
      if greedy then rounds greedy round r.length r ++ [cs] else cs :: rounds greedy round r.length r := by
  obtain ⟨n, hn⟩ := Nat.exists_eq_succ_of_ne_zero (Nat.ne_zero_of_lt hlt)
  have hrest : rounds greedy round n r = rounds greedy round r.length r := rounds_eq (by omega) (Nat.le_refl _)
  rw [hn, rounds, h]
  simp [hlt, hrest]

theorem rounds_none {greedy : Bool} {round : List Char → List (List Char)} (h : round cs = []) (n : Nat) :
    rounds greedy round n cs = [cs] := by
  cases n with
  | zero => rfl
  | succ n => cases greedy <;> simp [rounds, h]

/-- A round that has only one way to match comes first, and behind it all that comes first there. -/
theorem rests_many_next {r : List Char} (h : p.rests cs = [r]) (hlt : r.length < cs.length) :
    (many p).rests cs = (many p).rests r ++ [cs] := rounds_single h hlt

theorem rests_many_end (h : p.rests cs = []) : (many p).rests cs = [cs] := rounds_none h cs.length

theorem rests_few_next {r : List Char} (h : p.rests cs = [r]) (hlt : r.length < cs.length) :
    (few p).rests cs = cs :: (few p).rests r := rounds_single h hlt

/-- Of a repeated character as many as there are in front come first; with fewer of them another one comes next. -/
theorem rests_many_among (inside : Bool) (ranges : List (Char × Char)) (cs : List Char) :
    ∃ others, (many (among inside ranges)).rests cs =
        cs.dropWhile (fun c => inRanges ranges c == inside) :: others ∧
      ∀ r ∈ others, ∃ c r', r = c :: r' ∧ (inRanges ranges c == inside) = true := by
  induction cs with
  | nil => exact ⟨[], rfl, by simp⟩
  | cons c cs ih =>
    by_cases hc : (inRanges ranges c == inside) = true
    · obtain ⟨others, hothers, hbegin⟩ := ih
      have hround : (among inside ranges).rests (c :: cs) = [cs] := by rw [rests_among_cons, if_pos hc]
      refine ⟨others ++ [c :: cs], ?_, ?_⟩
      · rw [rests_many_next hround (Nat.lt_succ_self _), hothers, List.dropWhile_cons, if_pos hc, List.cons_append]
      · intro r hr
        rcases List.mem_append.mp hr with hr | hr
        · exact hbegin r hr
        · exact ⟨c, cs, List.mem_singleton.mp hr, hc⟩
    · have hround : (among inside ranges).rests (c :: cs) = [] := by rw [rests_among_cons, if_neg hc]
      exact ⟨[], by rw [rests_many_end hround, List.dropWhile_cons, if_neg hc], by simp⟩

theorem rest?_many_among (inside : Bool) (ranges : List (Char × Char)) (cs : List Char) :
    (many (among inside ranges)).rest? cs = some (cs.dropWhile fun c => inRanges ranges c == inside) := by
  obtain ⟨others, hothers, -⟩ := rests_many_among inside ranges cs
  rw [rest?, hothers]
  rfl

theorem drop_takeWhile (p : Char → Bool) (cs : List Char) : cs.drop (cs.takeWhile p).length = cs.dropWhile p := by
  induction cs with
  | nil => rfl
  | cons c cs ih =>
    by_cases hc : p c = true
    · simp [hc, ih]
    · simp [hc]

theorem rest?_row (ranges : List (Char × Char)) (cs : List Char) :
    (row (among true ranges)).rest? cs = (Terminal.rowLength? (inRanges ranges) cs).map cs.drop := by
  cases cs with
  | nil => rfl
  | cons c cs =>
    rw [row, rest?_seq_among_cons, rest?_many_among, Terminal.rowLength?]
    by_cases hc : inRanges ranges c = true
    · simp [hc, drop_takeWhile]
    · simp [hc]

/-- Behind the greatest number of characters nothing is tried again where what follows must begin otherwise. -/
theorem rest?_row_seq {ranges : List (Char × Char)} {q : Pattern}
    (hq : ∀ c cs, inRanges ranges c = true → q.rest? (c :: cs) = none)
    (cs : List Char) :
    (seq (row (among true ranges)) q).rest? cs = ((row (among true ranges)).rest? cs).bind q.rest? := by
  cases cs with
  | nil => rfl
  | cons c cs =>
    obtain ⟨others, hothers, hbegin⟩ := rests_many_among true ranges cs
    have hnone : others.findSome? q.rest? = none := List.findSome?_eq_none_iff.mpr fun r hr => by
      obtain ⟨d, r', rfl, hd⟩ := hbegin r hr
      exact hq d r' (by simpa using hd)
    rw [rest?_seq, row, rest?_seq_among_cons, rest?_many_among, rests, rests_among_cons]
    by_cases hc : (inRanges ranges c == true) = true
    · rw [if_pos hc, if_pos hc, List.flatMap_singleton, hothers, List.findSome?_cons, hnone,
        Option.bind_some]
      cases q.rest? (cs.dropWhile fun c => inRanges ranges c == true) <;> rfl
    · rw [if_neg hc, if_neg hc]
      rfl

/-! ### The terminals -/

theorem rest?_float (cs : List Char) : Terminal.float.pattern.rest? cs = (Terminal.floatLength? cs).map cs.drop := by
  have hpoint : ∀ c cs, inRanges [('0', '9')] c = true →
      (seq (char '.') (many digit)).rest? (c :: cs) = none := by
    intro c cs hc
    rw [rest?_seq_char_cons, if_neg]
    rintro rfl
    revert hc
    decide
  have hdigit : inRanges [('0', '9')] = Text.isAsciiDigit := funext inRanges_digit
  show (seq (row (among true [('0', '9')])) _).rest? cs = _
  rw [rest?_row_seq hpoint, rest?_row, hdigit]
  unfold Terminal.floatLength?
  cases hrow : Terminal.rowLength? Text.isAsciiDigit cs with
  | none => rfl
  | some n =>
    simp only [Option.map_some, Option.bind_some, Option.bind_eq_bind]
    cases hrest : cs.drop n with
    | nil => rfl
    | cons c rest =>
      rw [rest?_seq_char_cons]
      by_cases hc : c = '.'
      · subst hc
        have hdrop : cs.drop (n + 1) = rest := by rw [← List.drop_drop, hrest, List.drop_one, List.tail_cons]
        rw [if_pos rfl, digit, rest?_many_among]
        simp only [Option.map_some, ← List.drop_drop, hdrop, drop_takeWhile, hdigit, beq_true]
      · rw [if_neg hc]
        simp [hc]

theorem rest?_notBefore_among (ranges : List (Char × Char)) (cs : List Char) :
    (notBefore (among true ranges)).rest? cs = if (cs.head?.map (inRanges ranges)).getD false then none else some cs := by
  cases cs with
  | nil => rfl
  | cons c cs =>
    rw [rest?, rests, rests_among_cons]
    cases hc : inRanges ranges c <;> simp [hc]

theorem rest?_bool (cs : List Char) : Terminal.bool.pattern.rest? cs = (Terminal.boolLength? cs).map cs.drop := by
  have hchar : inRanges [('a', 'z'), ('A', 'Z'), ('_', '_'), ('0', '9')] = Scanner.isIdentChar := funext inRanges_wordChar
  -- Of the two words at most one stands in front, so that there is nothing to come back to.
  have hone : (oneOf ["true", "false"]).rests cs = ((oneOf ["true", "false"]).rest? cs).toList := by
    rw [rest?, rests_oneOf]
    cases htrue : "true".toList.isPrefixOf cs with
    | false => cases hfalse : "false".toList.isPrefixOf cs <;> simp only [List.filter, htrue, hfalse] <;> rfl
    | true =>
      obtain ⟨r, rfl⟩ := List.isPrefixOf_iff_prefix.mp htrue
      rfl
  show (seq _ (notBefore (among true _))).rest? cs = _
  rw [rest?_seq, hone, rest?_oneOf]
  unfold Terminal.boolLength?
  cases Terminal.literalLength? ["true", "false"] cs with
  | none => rfl
  | some n =>
    simp only [Option.map_some, Option.toList_some, List.findSome?_cons, List.findSome?_nil, rest?_notBefore_among, hchar,
      Option.bind_eq_bind, Option.bind_some]
    cases ((cs.drop n).head?.map Scanner.isIdentChar).getD false <;> rfl

theorem rest?_name (cs : List Char) : Terminal.name.pattern.rest? cs = (Terminal.nameLength? cs).map cs.drop := by
  have hchar : inRanges [('a', 'z'), ('A', 'Z'), ('_', '_'), ('0', '9')] = Scanner.isIdentChar := funext inRanges_wordChar
  cases cs with
  | nil => rfl
  | cons c cs =>
    show (seq (among true [('a', 'z'), ('A', 'Z'), ('_', '_')]) (many (among true _))).rest? (c :: cs) = _
    rw [rest?_seq_among_cons, inRanges_letter, rest?_many_among, hchar, Terminal.nameLength?]
    cases Scanner.isIdentStart c <;> simp [drop_takeWhile]

theorem rests_stringItem_quote (cs : List Char) : stringItem.rests ('\x22' :: cs) = [] := rfl

theorem rests_stringItem_escape (cs : List Char) : stringItem.rests ('\\' :: '\x22' :: cs) = [cs] := rfl

theorem rests_stringItem_backslash {cs : List Char} (h : ∀ ds, cs ≠ '\x22' :: ds) :
    stringItem.rests ('\\' :: cs) = [cs] := by
  cases cs with
  | nil => rfl
  | cons c cs =>
    have hc : c ≠ '\x22' := fun heq => h cs (by rw [heq])
    simp [stringItem, rests, rests_char_cons, inRanges, hc]

theorem rests_stringItem_other {c : Char} (hquote : c ≠ '\x22') (hbackslash : c ≠ '\\') (cs : List Char) :
    stringItem.rests (c :: cs) = [cs] := by
  have hin : inRanges [('\x22', '\x22'), ('\\', '\\')] c = false := by
    rw [inRanges_cons, inRanges_single, inRanges_single]
    simp [hquote, hbackslash]
  simp [stringItem, rests, rests_char_cons, hbackslash, hin]

/-- The items of a string go on to the first double quote that no backslash stands in front of. -/
theorem rest?_stringItems (cs : List Char) :
    (seq (many stringItem) (char '\x22')).rest? cs = (Terminal.stringRest? cs).map cs.drop := by
  have hnext {cs r : List Char} (hround : stringItem.rests cs = [r]) (hlt : r.length < cs.length)
      (hquote : (char '\x22').rest? cs = none) :
      (seq (many stringItem) (char '\x22')).rest? cs = (seq (many stringItem) (char '\x22')).rest? r := by
    rw [rest?_seq, rest?_seq, rests_many_next hround hlt, List.findSome?_append, List.findSome?_singleton, hquote,
      Option.or_none]
  fun_induction Terminal.stringRest? cs with
  | case1 => rfl
  | case2 cs =>
    rw [rest?_seq, rests_many_end (rests_stringItem_quote cs)]
    rfl
  | case3 cs _ ih =>
    rw [hnext (rests_stringItem_escape cs) (Nat.lt_add_of_pos_right (Nat.succ_pos 1)) rfl, ih]
    cases Terminal.stringRest? cs <;> rfl
  | case4 cs hescape _ ih =>
    rw [hnext (rests_stringItem_backslash hescape) (by simp) rfl, ih]
    cases Terminal.stringRest? cs <;> rfl
  | case5 c cs hquote hbackslash ih =>
    rw [hnext (rests_stringItem_other hquote hbackslash cs) (by simp) (by rw [rest?_char_cons, if_neg hquote]), ih]
    cases Terminal.stringRest? cs <;> rfl

theorem rest?_string (cs : List Char) : Terminal.string.pattern.rest? cs = (Terminal.stringLength? cs).map cs.drop := by
  show (seq (char '\x22') (seq (many stringItem) (char '\x22'))).rest? cs = _
  unfold Terminal.stringLength?
  split
  · next cs =>
    rw [rest?_seq_char_cons, if_pos rfl, rest?_stringItems]
    cases Terminal.stringRest? cs <;> rfl
  · next hquote =>
    cases cs with
    | nil => rfl
    | cons c cs =>
      rw [rest?_seq_char_cons, if_neg fun h => hquote cs (by rw [h])]
      rfl

theorem rest?_char (cs : List Char) : Terminal.char.pattern.rest? cs = (Terminal.charLength? cs).map cs.drop := by
  show (seq (char '\x27') (seq (among false [('\x27', '\x27'), ('\n', '\n')]) (char '\x27'))).rest? cs = _
  have hin (c : Char) : (inRanges [('\x27', '\x27'), ('\n', '\n')] c == false) =
      !(decide (c = '\n') || decide (c = '\x27')) := by
    rw [inRanges_cons, inRanges_single, inRanges_single, Bool.or_comm]
    cases (decide (c = '\n') || decide (c = '\x27')) <;> rfl
  unfold Terminal.charLength?
  split
  · next c cs =>
    rw [rest?_seq_char_cons, if_pos rfl, rest?_seq_among_cons, hin, rest?_char_cons, if_pos rfl]
    by_cases hc : c = '\n' ∨ c = '\x27'
    · rcases hc with rfl | rfl <;> rfl
    · obtain ⟨hnewline, hquote⟩ := not_or.mp hc
      simp [hnewline, hquote]
  · next hclosed =>
    rcases cs with _ | ⟨c, _ | ⟨d, _ | ⟨e, cs⟩⟩⟩
    · rfl
    · rw [rest?_seq_char_cons]
      split <;> rfl
    · rw [rest?_seq_char_cons, rest?_seq_among_cons, rest?_char_nil]
      simp
    · rw [rest?_seq_char_cons, rest?_seq_among_cons, rest?_char_cons]
      by_cases hopen : c = '\x27'
      · have hclose : e ≠ '\x27' := fun he => hclosed d cs (by rw [hopen, he])
        simp [hclose]
      · simp [hopen]

theorem rest?_lineComment (cs : List Char) :
    Terminal.lineComment.pattern.rest? cs = (Terminal.lineCommentLength? cs).map cs.drop := by
  show (seq (char '/') (seq (char '/') (many (among false [('\n', '\n')])))).rest? cs = _
  have hin : (fun c => inRanges [('\n', '\n')] c == false) = fun c => decide (c ≠ '\n') := by
    funext c
    rw [inRanges_single]
    by_cases hc : c = '\n' <;> simp [hc]
  unfold Terminal.lineCommentLength?
  split
  · next cs =>
    rw [rest?_seq_char_cons, if_pos rfl, rest?_seq_char_cons, if_pos rfl, rest?_many_among, hin, ← drop_takeWhile]
    rfl
  · next hslashes =>
    rcases cs with _ | ⟨c, _ | ⟨d, cs⟩⟩
    · rfl
    · rw [rest?_seq_char_cons]
      split <;> rfl
    · rw [rest?_seq_char_cons, rest?_seq_char_cons]
      by_cases hc : c = '/'
      · have hd : d ≠ '/' := fun hd => hslashes cs (by rw [hc, hd])
        simp [hd]
      · simp [hc]

theorem rests_anything_cons (c : Char) (cs : List Char) : anything.rests (c :: cs) = [cs] := rfl

/-- What closes a block comment: its mark, or the end of the text. -/
def commentEnd : Pattern := either (seq (char '*') (char '/')) finish

theorem rest?_commentEnd_cons (c : Char) (cs : List Char) :
    commentEnd.rest? (c :: cs) =
      if c = '*' && cs.head? = some '/' then some (cs.drop 1)
      else if c = '\n' && cs.isEmpty then some (c :: cs) else none := by
  have hfinish : finish.rest? (c :: cs) = if c = '\n' && cs.isEmpty then some (c :: cs) else none := by
    simp only [rest?, rests]
    by_cases h : c = '\n' ∧ cs = []
    · simp [h]
    · simp [h]
  rw [commentEnd, rest?_either, rest?_seq_char_cons, hfinish]
  cases cs with
  | nil => by_cases hc : c = '*' <;> simp [hc, rest?_char_nil]
  | cons d cs =>
    rw [rest?_char_cons]
    by_cases hc : c = '*'
    · by_cases hd : d = '/' <;> simp [hc, hd]
    · simp [hc]

/-- As few characters as possible are taken before the end of the comment. -/
theorem rest?_comment (cs : List Char) :
    (seq (few anything) commentEnd).rest? cs = some (cs.drop (Terminal.blockCommentRest cs)) := by
  have hnext (c : Char) (cs : List Char) : (seq (few anything) commentEnd).rest? (c :: cs) =
      (commentEnd.rest? (c :: cs)).or ((seq (few anything) commentEnd).rest? cs) := by
    rw [rest?_seq, rest?_seq, rests_few_next (rests_anything_cons c cs) (Nat.lt_succ_self _), List.findSome?_cons]
    cases commentEnd.rest? (c :: cs) <;> rfl
  fun_induction Terminal.blockCommentRest cs with
  | case1 => rfl
  | case2 c cs hclose =>
    rw [hnext, rest?_commentEnd_cons, if_pos hclose]
    rfl
  | case3 c cs hclose hnewline =>
    rw [hnext, rest?_commentEnd_cons, if_neg hclose, if_pos hnewline]
    rfl
  | case4 c cs hclose hnewline ih =>
    rw [hnext, rest?_commentEnd_cons, if_neg hclose, if_neg hnewline, ih]
    rfl

theorem rest?_blockComment (cs : List Char) :
    Terminal.blockComment.pattern.rest? cs = (Terminal.blockCommentLength? cs).map cs.drop := by
  show (seq (char '/') (seq (char '*') (seq (few anything) commentEnd))).rest? cs = _
  unfold Terminal.blockCommentLength?
  split
  · next cs =>
    rw [rest?_seq_char_cons, if_pos rfl, rest?_seq_char_cons, if_pos rfl, rest?_comment]
    rfl
  · next hopen =>
    rcases cs with _ | ⟨c, _ | ⟨d, cs⟩⟩
    · rfl
    · rw [rest?_seq_char_cons]
      split <;> rfl
    · rw [rest?_seq_char_cons, rest?_seq_char_cons]
      by_cases hc : c = '/'
      · have hd : d ≠ '*' := fun hd => hopen cs (by rw [hc, hd])
        simp [hd]
      · simp [hc]

/-- What the expression of a terminal leaves of a text is what is behind the terminal's lexeme. -/
theorem rest?_pattern (t : Terminal) (cs : List Char) : t.pattern.rest? cs = (t.matchLength? cs).map cs.drop := by
  cases t with
  | float => exact rest?_float cs
  | bool => exact rest?_bool cs
  | name => exact rest?_name cs
  | string => exact rest?_string cs
  | blockComment => exact rest?_blockComment cs
  | blank =>
    have hspace : inRanges [(' ', ' '), ('\t', '\t'), ('\x0c', '\x0c'), ('\r', '\r'), ('\n', '\n')] = Scanner.isSpace :=
      funext inRanges_blank
    exact (rest?_row _ cs).trans (by rw [hspace]; rfl)
  | lineComment => exact rest?_lineComment cs
  | int =>
    have hdigit : inRanges [('0', '9')] = Text.isAsciiDigit := funext inRanges_digit
    exact (rest?_row _ cs).trans (by rw [hdigit]; rfl)
  | char => exact rest?_char cs
  | endOfText => exact rest?_oneOf [] cs
  | _ => exact rest?_oneOf _ cs

end Pattern

namespace Terminal
variable {cs : List Char} {n : Nat}

theorem rowLength?_le {p : Char → Bool} (h : rowLength? p cs = some n) : n ≤ cs.length := by
  have hle : (cs.takeWhile p).length ≤ cs.length := (List.takeWhile_sublist p).length_le
  unfold rowLength? at h
  split at h
  · cases h
  · next m hm =>
    cases h
    omega

theorem stringRest?_le (h : stringRest? cs = some n) : n ≤ cs.length := by
  fun_induction stringRest? cs generalizing n with
  | case1 => cases h
  | case2 =>
    cases h
    simp
  | _ =>
    obtain ⟨m, hm, rfl⟩ := Option.map_eq_some_iff.mp h
    have := ‹∀ {n : Nat}, _ = some n → n ≤ _› hm
    simp only [List.length_cons]
    omega

theorem blockCommentRest_le (cs : List Char) : blockCommentRest cs ≤ cs.length := by
  fun_induction blockCommentRest cs with
  | case1 => exact Nat.le_refl _
  | case2 c cs hclose =>
    simp only [Bool.and_eq_true, decide_eq_true_eq] at hclose
    obtain ⟨ds, rfl⟩ := List.head?_eq_some_iff.mp hclose.2
    simp
  | case3 => exact Nat.zero_le _
  | case4 c cs _ _ ih => simpa using ih

/-- No lexeme is longer than the text. -/
theorem matchLength?_le {t : Terminal} (h : t.matchLength? cs = some n) : n ≤ cs.length := by
  cases t with
  | float =>
    obtain ⟨m, hm, h⟩ := Option.bind_eq_some_iff.mp h
    split at h
    · next rest hrest =>
      cases h
      have hlength := congrArg List.length hrest
      have hle : (rest.takeWhile Text.isAsciiDigit).length ≤ rest.length := (List.takeWhile_sublist _).length_le
      simp only [List.length_drop, List.length_cons] at hlength
      omega
    · cases h
  | bool =>
    obtain ⟨m, hm, h⟩ := Option.bind_eq_some_iff.mp h
    split at h
    · cases h
    · cases h
      obtain ⟨s, -, hprefix, hlength⟩ := literalLength?_eq_some hm
      rw [← hlength, ← String.length_toList]
      exact hprefix.length_le
  | name =>
    cases cs with
    | nil => cases h
    | cons c cs =>
      have hle : (cs.takeWhile Scanner.isIdentChar).length ≤ cs.length := (List.takeWhile_sublist _).length_le
      simp only [matchLength?, nameLength?] at h
      split at h
      · cases h
        simpa using hle
      · cases h
  | string =>
    simp only [matchLength?] at h
    unfold stringLength? at h
    split at h
    · obtain ⟨m, hm, rfl⟩ := Option.map_eq_some_iff.mp h
      simpa using stringRest?_le hm
    · cases h
  | blockComment =>
    obtain ⟨rest, rfl, rfl⟩ := blockComment_eq h
    simpa using blockCommentRest_le rest
  | blank => exact rowLength?_le h
  | lineComment =>
    obtain ⟨rest, rfl, rfl⟩ := lineComment_eq h
    simpa using (List.takeWhile_sublist (· ≠ '\n')).length_le
  | int => exact rowLength?_le h
  | char =>
    simp only [matchLength?] at h
    unfold charLength? at h
    split at h
    · split at h
      · cases h
      · cases h
        simp
    · cases h
  | endOfText => cases h
  | _ =>
    obtain ⟨s, -, hprefix, hlength⟩ := literalLength?_eq_some h
    rw [← hlength, ← String.length_toList]
    exact hprefix.length_le

/-- The expression of a terminal takes the characters of the terminal's lexeme. -/
theorem matchLength?_pattern (t : Terminal) (cs : List Char) : t.pattern.matchLength? cs = t.matchLength? cs := by
  rw [Pattern.matchLength?, Pattern.rest?_pattern]
  cases h : t.matchLength? cs with
  | none => rfl
  | some n =>
    have hle := matchLength?_le h
    simp only [Option.map_some, List.length_drop, Option.some.injEq]
    omega

end Terminal
end Grammar
end TypedImp

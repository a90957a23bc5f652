import TypedImp.Proofs.Grammar.Completeness
import TypedImp.Proofs.Grammar.Matching
import TypedImp.Proofs.Grammar.Soundness

/-! How the lexemes of a text follow its tokens. Blanks and comments are skipped as the scanner skips them. In front of
    a token the parser cuts the token's lexeme off wherever it accepts it. Where it does not, it can still cut off a
    reserved word as a name, or one half of a sign of equality; behind the latter it cannot go on. -/

namespace TypedImp
namespace Grammar
open Scanner (Spells Finds triviaLength rest_advance advance_advance wordKind)

/-! ### The first match -/

section
variable {accepted : List Terminal} {t u : Terminal} {cs : List Char} {n : Nat}

theorem lexical_sorted : Terminal.lexical.Pairwise fun t u => t.ctorIdx < u.ctorIdx := by decide

theorem mem_tried : t ∈ tried accepted ↔ t ∈ Terminal.lexical ∧
    (t.isIgnored = true ∨ t ∈ accepted ∧ (t.keyword? = none ∨ .name ∉ accepted)) := by
  simp [tried, List.mem_filter]

theorem matchLength?_nil (t : Terminal) : t.matchLength? [] = none := by
  cases t <;> rfl

theorem length_pos_of_match (h : t.matchLength? cs = some n) : 0 < cs.length := by
  cases cs with
  | nil => exact nomatch (matchLength?_nil t).symm.trans h
  | cons c cs => exact Nat.succ_pos _

theorem mem_lexical_of_match (h : t.matchLength? cs = some n) : t ∈ Terminal.lexical := by
  cases t with
  | endOfText => cases h
  | _ => decide

/-- Of the terminals that match the one is found that comes first. -/
theorem firstMatch?_tried : firstMatch? (tried accepted) cs = some (t, n) ↔
    t ∈ tried accepted ∧ t.matchLength? cs = some n ∧
      ∀ u ∈ tried accepted, ∀ m, u.matchLength? cs = some m → t.ctorIdx ≤ u.ctorIdx := by
  have hsorted : (tried accepted).Pairwise fun t u => t.ctorIdx < u.ctorIdx := lexical_sorted.filter _
  constructor
  · intro h
    obtain ⟨before, t', after, hsplit, ht, hbefore⟩ := List.findSome?_eq_some_iff.mp h
    obtain ⟨m, hm, heq⟩ := Option.map_eq_some_iff.mp ht
    cases heq
    rw [hsplit] at hsorted ⊢
    refine ⟨by simp, hm, fun u hu m' hm' => ?_⟩
    rcases List.mem_append.mp hu with hu | hu
    · have := hbefore u hu
      rw [hm'] at this
      cases this
    · rcases List.mem_cons.mp hu with rfl | hu
      · exact Nat.le_refl _
      · exact Nat.le_of_lt (List.rel_of_pairwise_cons (List.pairwise_append.mp hsorted).2.1 hu)
  · rintro ⟨ht, hn, hleast⟩
    obtain ⟨before, after, hsplit⟩ := List.append_of_mem ht
    refine List.findSome?_eq_some_iff.mpr ⟨before, t, after, hsplit, by rw [hn]; rfl, fun u hu => ?_⟩
    rw [hsplit] at hsorted hleast
    cases hm : u.matchLength? cs with
    | none => rfl
    | some m =>
      have hle := hleast u (by simp [hu]) m hm
      have hlt := (List.pairwise_append.mp hsorted).2.2 u hu t (by simp)
      omega

theorem lineComment_eq (h : Terminal.lineComment.matchLength? cs = some n) :
    ∃ rest, cs = '/' :: '/' :: rest ∧ n = (rest.takeWhile (· ≠ '\n')).length + 2 := by
  simp only [Terminal.matchLength?] at h
  unfold Terminal.lineCommentLength? at h
  split at h
  · cases h
    exact ⟨_, rfl, rfl⟩
  · cases h

theorem blockComment_eq (h : Terminal.blockComment.matchLength? cs = some n) :
    ∃ rest, cs = '/' :: '*' :: rest ∧ n = Terminal.blockCommentRest rest + 2 := by
  simp only [Terminal.matchLength?] at h
  unfold Terminal.blockCommentLength? at h
  split at h
  · cases h
    exact ⟨_, rfl, rfl⟩
  · cases h

/-- Blanks and comments are found before anything else. -/
theorem firstMatch?_ignored (hignored : t.isIgnored = true) (h : t.matchLength? cs = some n) :
    firstMatch? (tried accepted) cs = some (t, n) := by
  refine firstMatch?_tried.mpr ⟨mem_tried.mpr ⟨mem_lexical_of_match h, .inl hignored⟩, h, fun u _ m hm => ?_⟩
  obtain ⟨c, rest, rfl⟩ := List.exists_cons_of_length_pos (length_pos_of_match h)
  have hfamily : t.family = u.family :=
    Option.some_inj.mp ((Terminal.familyOf_of_match h).symm.trans (Terminal.familyOf_of_match hm))
  have key : ∀ t ∈ Terminal.all, ∀ u ∈ Terminal.all, t.isIgnored = true → t.family = u.family →
      t.ctorIdx ≤ u.ctorIdx ∨ t = .lineComment ∧ u = .blockComment := by decide
  rcases key t (Terminal.mem_all t) u (Terminal.mem_all u) hignored hfamily with hle | ⟨rfl, rfl⟩
  · exact hle
  · obtain ⟨_, heq, -⟩ := lineComment_eq h
    rw [heq] at hm
    obtain ⟨_, heq, -⟩ := blockComment_eq hm
    cases heq

/-! ### Blanks and comments -/

theorem triviaLength_space {c : Char} (hc : Scanner.isSpace c = true) (cs : List Char) :
    triviaLength .between (c :: cs) = triviaLength .between cs + 1 := by
  rw [Scanner.triviaLength.eq_def]
  simp [hc]

theorem triviaLength_lineComment (cs : List Char) : triviaLength .lineComment cs =
    (cs.takeWhile (· ≠ '\n')).length + triviaLength .between (cs.drop (cs.takeWhile (· ≠ '\n')).length) := by
  induction cs with
  | nil => rfl
  | cons c cs ih =>
    by_cases hc : c = '\n'
    · subst hc
      have hspace : Scanner.isSpace '\n' = true := rfl
      simp [triviaLength, triviaLength_space hspace]
    · simp [triviaLength, hc, ih]
      omega

theorem triviaLength_blockComment (cs : List Char) : triviaLength .blockComment cs =
    Terminal.blockCommentRest cs + triviaLength .between (cs.drop (Terminal.blockCommentRest cs)) := by
  fun_induction Terminal.blockCommentRest cs with
  | case1 => rfl
  | case2 c cs h =>
    simp only [Bool.and_eq_true, decide_eq_true_eq] at h
    obtain ⟨rfl, hhead⟩ := h
    obtain ⟨cs, rfl⟩ := List.head?_eq_some_iff.mp hhead
    simp [triviaLength, Nat.add_comm]
  | case3 c cs _ h =>
    simp only [Bool.and_eq_true, decide_eq_true_eq, List.isEmpty_iff] at h
    obtain ⟨rfl, rfl⟩ := h
    simp [triviaLength, Scanner.isSpace]
  | case4 c cs hclose _ ih =>
    have hstep : triviaLength .blockComment (c :: cs) = triviaLength .blockComment cs + 1 := by
      rw [Scanner.triviaLength.eq_def]
      dsimp only
      split
      · next hc =>
        split
        · simp [hc] at hclose
        · rfl
      · rfl
    rw [hstep, ih, List.drop_succ_cons]
    omega

theorem triviaLength_blank (cs : List Char) : triviaLength .between cs =
    (cs.takeWhile Scanner.isSpace).length + triviaLength .between (cs.drop (cs.takeWhile Scanner.isSpace).length) := by
  induction cs with
  | nil => rfl
  | cons c cs ih =>
    by_cases hc : Scanner.isSpace c = true
    · rw [triviaLength_space hc, ih]
      simp [hc]
      omega
    · simp [hc]

/-- A blank or comment in front is skipped. -/
theorem triviaLength_ignored (hignored : t.isIgnored = true) (h : t.matchLength? cs = some n) :
    0 < n ∧ triviaLength .between cs = n + triviaLength .between (cs.drop n) := by
  cases t with
  | blank =>
    simp only [Terminal.matchLength?] at h
    unfold Terminal.rowLength? at h
    split at h
    · cases h
    · next m hm =>
      cases h
      have hblank := triviaLength_blank cs
      rw [hm] at hblank
      exact ⟨Nat.succ_pos m, hblank⟩
  | lineComment =>
    obtain ⟨rest, rfl, rfl⟩ := lineComment_eq h
    have hstep : triviaLength .between ('/' :: '/' :: rest) = triviaLength .lineComment rest + 2 := by
      simp [triviaLength, Scanner.isSpace]
    rw [hstep, triviaLength_lineComment, List.drop_succ_cons, List.drop_succ_cons]
    exact ⟨by omega, by omega⟩
  | blockComment =>
    obtain ⟨rest, rfl, rfl⟩ := blockComment_eq h
    have hstep : triviaLength .between ('/' :: '*' :: rest) = triviaLength .blockComment rest + 2 := by
      simp [triviaLength, Scanner.isSpace]
    rw [hstep, triviaLength_blockComment, List.drop_succ_cons, List.drop_succ_cons]
    exact ⟨by omega, by omega⟩
  | _ => cases hignored

theorem triviaLength_clear (h : ∀ t : Terminal, t.isIgnored = true → t.matchLength? cs = none) :
    triviaLength .between cs = 0 := by
  have hblank := h .blank rfl
  have hline := h .lineComment rfl
  have hblock := h .blockComment rfl
  unfold triviaLength
  split
  · rfl
  · next c cs _ =>
    have hc : Scanner.isSpace c = false := by
      rw [← Bool.not_eq_true]
      intro hc
      simp [Terminal.matchLength?, Terminal.rowLength?, hc] at hblank
    rw [hc, if_neg Bool.false_ne_true]
    split
    · next hslash =>
      subst hslash
      split
      · cases hline
      · cases hblock
      · rfl
    · rfl
  all_goals contradiction

end

/-! ### Skipping blanks and comments -/

/-- Neither a blank nor a comment stands in front. -/
def IsClear (s : Scanner) : Prop := ∀ t : Terminal, t.isIgnored = true → t.matchLength? s.rest = none

theorem IsClear.not_ignored {s : Scanner} (h : IsClear s) {t : Terminal} {n : Nat} (hn : t.matchLength? s.rest = some n) :
    t.isIgnored = false := by
  rw [← Bool.not_eq_true]
  exact fun hignored => nomatch (h t hignored).symm.trans hn

theorem exists_match_of_not_isClear {s : Scanner} (h : ¬ IsClear s) :
    ∃ t : Terminal, t.isIgnored = true ∧ ∃ n, t.matchLength? s.rest = some n := by
  by_contra hnone
  refine h fun t hignored => Option.eq_none_iff_forall_ne_some.mpr fun n hn => hnone ⟨t, hignored, n, hn⟩

theorem skipTrivia_of_isClear {s : Scanner} (h : IsClear s) : s.skipTrivia = s := by
  rw [Scanner.skipTrivia, triviaLength_clear h]
  rfl

theorem skipTrivia_advance {s : Scanner} {t : Terminal} {n : Nat} (hignored : t.isIgnored = true)
    (h : t.matchLength? s.rest = some n) : s.skipTrivia = (s.advance n).skipTrivia := by
  rw [Scanner.skipTrivia, Scanner.skipTrivia, rest_advance, advance_advance, (triviaLength_ignored hignored h).2]

/-- What holds wherever nothing is to skip, and behind a blank or comment whenever it holds in front of it, holds
    everywhere. -/
theorem skip_induction {P : Scanner → Prop} (hclear : ∀ s, IsClear s → P s)
    (hskip : ∀ s (t : Terminal) n, t.isIgnored = true → t.matchLength? s.rest = some n → P (s.advance n) → P s)
    (s : Scanner) : P s := by
  by_cases h : IsClear s
  · exact hclear s h
  · obtain ⟨t, hignored, n, hn⟩ := exists_match_of_not_isClear h
    have hpos := (triviaLength_ignored hignored hn).1
    have hrest := length_pos_of_match hn
    have hlt : (s.advance n).rest.length < s.rest.length := by
      rw [Scanner.length_rest_advance]
      omega
    exact hskip s t n hignored hn (skip_induction hclear hskip (s.advance n))
termination_by s.rest.length

theorem isClear_skipTrivia (s : Scanner) : IsClear s.skipTrivia := by
  induction s using skip_induction with
  | hclear s h =>
    rw [skipTrivia_of_isClear h]
    exact h
  | hskip s t n hignored hn ih =>
    rw [skipTrivia_advance hignored hn]
    exact ih

theorem cutUpTo_ignored {accepted : List Terminal} {s : Scanner} {t : Terminal} {k : Nat} (hignored : t.isIgnored = true)
    (h : t.matchLength? s.rest = some k) (n : Nat) :
    cutUpTo accepted (n + 1) s = cutUpTo accepted n (s.advance k) := by
  have hrest : s.rest.isEmpty = false := List.isEmpty_eq_false_iff.mpr (List.ne_nil_of_length_pos (length_pos_of_match h))
  rw [cutUpTo, hrest, if_neg Bool.false_ne_true, firstMatch?_ignored hignored h]
  dsimp only
  rw [if_pos hignored]

section
variable {accepted : List Terminal} {s : Scanner}

theorem cutUpTo_nil (h : s.rest = []) (n : Nat) : cutUpTo accepted (n + 1) s = .endOfText := by
  rw [cutUpTo, h]
  rfl

theorem cutUpTo_none (hrest : s.rest ≠ []) (h : firstMatch? (tried accepted) s.rest = none) (n : Nat) :
    cutUpTo accepted (n + 1) s = .nothing s := by
  rw [cutUpTo, List.isEmpty_eq_false_iff.mpr hrest, if_neg Bool.false_ne_true, h]

theorem cutUpTo_some (hclear : IsClear s) {t : Terminal} {k : Nat}
    (h : firstMatch? (tried accepted) s.rest = some (t, k)) (n : Nat) :
    cutUpTo accepted (n + 1) s =
      .lexeme ⟨recognised accepted t (String.ofList (s.rest.take k)), String.ofList (s.rest.take k), s.position⟩
        (s.advance k) := by
  have hmatch := (firstMatch?_tried.mp h).2.1
  have hrest := List.ne_nil_of_length_pos (length_pos_of_match hmatch)
  rw [cutUpTo, List.isEmpty_eq_false_iff.mpr hrest, if_neg Bool.false_ne_true, h]
  dsimp only
  rw [hclear.not_ignored hmatch, if_neg Bool.false_ne_true]

/-- Where nothing is to skip only one step is made. -/
theorem cutUpTo_of_isClear (hclear : IsClear s) (n : Nat) : cutUpTo accepted (n + 1) s = cut accepted s := by
  by_cases hrest : s.rest = []
  · rw [cut, cutUpTo_nil hrest, cutUpTo_nil hrest]
  · cases h : firstMatch? (tried accepted) s.rest with
    | none => rw [cut, cutUpTo_none hrest h, cutUpTo_none hrest h]
    | some r => rw [cut, cutUpTo_some hclear h, cutUpTo_some hclear h]

end

/-- The bound on what is skipped is never reached. -/
theorem cutUpTo_eq {accepted : List Terminal} (s : Scanner) :
    ∀ {n : Nat}, s.rest.length < n → cutUpTo accepted n s = cut accepted s.skipTrivia := by
  induction s using skip_induction with
  | hclear s h =>
    intro n hn
    obtain ⟨n, rfl⟩ := Nat.exists_eq_succ_of_ne_zero (Nat.ne_zero_of_lt hn)
    rw [skipTrivia_of_isClear h, cutUpTo_of_isClear h]
  | hskip s t k hignored hk ih =>
    intro n hn
    obtain ⟨n, rfl⟩ := Nat.exists_eq_succ_of_ne_zero (Nat.ne_zero_of_lt hn)
    have hpos := (triviaLength_ignored hignored hk).1
    have hlength := length_pos_of_match hk
    have hrest := Scanner.length_rest_advance k s
    rw [skipTrivia_advance hignored hk, cutUpTo_ignored hignored hk, ih (by omega)]

theorem cut_skipTrivia (accepted : List Terminal) (s : Scanner) : cut accepted s = cut accepted s.skipTrivia :=
  cutUpTo_eq s (Nat.lt_succ_self _)

/-- What is cut off, by what comes behind blanks and comments. -/
inductive CutsOff (accepted : List Terminal) (s : Scanner) : Cut → Prop
  | endOfText : s.skipTrivia.rest = [] → CutsOff accepted s .endOfText
  | nothing : s.skipTrivia.rest ≠ [] → firstMatch? (tried accepted) s.skipTrivia.rest = none →
      CutsOff accepted s (.nothing s.skipTrivia)
  | lexeme {t : Terminal} {k : Nat} : firstMatch? (tried accepted) s.skipTrivia.rest = some (t, k) →
      CutsOff accepted s (.lexeme ⟨recognised accepted t (String.ofList (s.skipTrivia.rest.take k)),
        String.ofList (s.skipTrivia.rest.take k), s.skipTrivia.position⟩ (s.skipTrivia.advance k))

theorem cutsOff_cut (accepted : List Terminal) (s : Scanner) : CutsOff accepted s (cut accepted s) := by
  rw [cut_skipTrivia, cut]
  by_cases hrest : s.skipTrivia.rest = []
  · rw [cutUpTo_nil hrest]
    exact .endOfText hrest
  · cases hfirst : firstMatch? (tried accepted) s.skipTrivia.rest with
    | none =>
      rw [cutUpTo_none hrest hfirst]
      exact .nothing hrest hfirst
    | some r =>
      rw [cutUpTo_some (isClear_skipTrivia s) hfirst]
      exact .lexeme hfirst

theorem cutsOff_of_eq {accepted : List Terminal} {s : Scanner} {c : Cut} (h : cut accepted s = c) :
    CutsOff accepted s c :=
  h ▸ cutsOff_cut accepted s

end Grammar
end TypedImp

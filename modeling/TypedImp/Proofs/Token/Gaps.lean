import TypedImp.Proofs.Token.Spelling

/-! Gaps: what may stand between two tokens. A gap is a row of blanks and comments; a comment that is opened by two
    slashes goes on to the next newline, and one that is opened by a slash and a star to the first star with a slash
    behind it, or both to the end of the text. The scanner skips nothing but gaps. -/

namespace TypedImp
namespace Token

/-- No star of the characters has a slash behind it. -/
def IsUnclosed (cs : List Char) : Prop := ¬['*', '/'] <:+: cs

instance (cs : List Char) : Decidable (IsUnclosed cs) := inferInstanceAs (Decidable (¬['*', '/'] <:+: cs))

/-- The first characters are blanks and comments, and the others stand behind them in a text. -/
inductive IsGap : List Char → List Char → Prop
  | nil {rest : List Char} : IsGap [] rest
  | blank {c : Char} {cs rest : List Char} : Scanner.isSpace c = true → IsGap cs rest → IsGap (c :: cs) rest
  | lineComment {body cs rest : List Char} : '\n' ∉ body → (∀ c ∈ (cs ++ rest).head?, c = '\n') → IsGap cs rest →
      IsGap ('/' :: '/' :: (body ++ cs)) rest
  | blockComment {body cs rest : List Char} : IsUnclosed body → IsGap cs rest →
      IsGap ('/' :: '*' :: (body ++ '*' :: '/' :: cs)) rest
  | openComment {body : List Char} : IsUnclosed body → IsGap ('/' :: '*' :: body) []

theorem isUnclosed_nil : IsUnclosed [] := by decide

theorem isUnclosed_cons {c : Char} {cs : List Char} (h : IsUnclosed cs) (hc : c = '*' → cs.head? ≠ some '/') :
    IsUnclosed (c :: cs) := by
  intro hinfix
  rcases List.infix_cons_iff.mp hinfix with hprefix | hinfix
  · obtain ⟨hstar, hslash⟩ := List.cons_prefix_cons.mp hprefix
    obtain ⟨ds, hds⟩ := hslash
    exact hc hstar.symm (by rw [← hds]; rfl)
  · exact h hinfix

end Token

namespace Scanner
open Token (IsGap IsUnclosed isUnclosed_nil isUnclosed_cons)

/-- The characters that the scanner skips, by where it stands: in a gap or within one of its comments. -/
def Trivia.Skips : Trivia → List Char → List Char → Prop
  | .between, cs, rest => IsGap cs rest
  | .lineComment, cs, rest =>
    ∃ body more, cs = body ++ more ∧ '\n' ∉ body ∧ (∀ c ∈ (more ++ rest).head?, c = '\n') ∧ IsGap more rest
  | .blockComment, cs, rest =>
    (∃ body more, cs = body ++ '*' :: '/' :: more ∧ IsUnclosed body ∧ IsGap more rest) ∨ (IsUnclosed cs ∧ rest = [])

/-- One character more of a comment, which does not close it. -/
theorem Trivia.Skips.cons {c : Char} {cs rest : List Char} (h : Trivia.blockComment.Skips cs rest)
    (hc : c = '*' → (cs ++ rest).head? ≠ some '/') : Trivia.blockComment.Skips (c :: cs) rest := by
  rcases h with ⟨body, more, rfl, hbody, hmore⟩ | ⟨hcs, rfl⟩
  · refine .inl ⟨c :: body, more, rfl, isUnclosed_cons hbody fun hstar hhead => hc hstar ?_, hmore⟩
    obtain ⟨body, rfl⟩ := List.head?_eq_some_iff.mp hhead
    rfl
  · refine .inr ⟨isUnclosed_cons hcs fun hstar hhead => hc hstar ?_, rfl⟩
    rw [List.append_nil, hhead]

theorem skips_triviaLength (m : Trivia) (cs : List Char) :
    m.Skips (cs.take (triviaLength m cs)) (cs.drop (triviaLength m cs)) := by
  fun_induction triviaLength m cs with
  | case1 m =>
    cases m with
    | between => exact .nil
    | lineComment => exact ⟨[], [], rfl, List.not_mem_nil, nofun, .nil⟩
    | blockComment => exact .inr ⟨isUnclosed_nil, rfl⟩
  | case2 c cs hc ih => exact .blank hc ih
  | case3 cs _ ih =>
    obtain ⟨body, more, hcs, hbody, hhead, hmore⟩ := ih
    rw [List.take_succ_cons, List.take_succ_cons, List.drop_succ_cons, List.drop_succ_cons, hcs]
    exact .lineComment hbody hhead hmore
  | case4 cs _ ih =>
    rw [List.take_succ_cons, List.take_succ_cons, List.drop_succ_cons, List.drop_succ_cons]
    rcases ih with ⟨body, more, hcs, hbody, hmore⟩ | ⟨hcs, hrest⟩
    · rw [hcs]
      exact .blockComment hbody hmore
    · rw [hrest]
      exact .openComment hcs
  | case5 | case6 => exact .nil
  | case7 cs ih => exact ⟨[], _, rfl, List.not_mem_nil, fun c hc => (Option.some.inj hc).symm, .blank rfl ih⟩
  | case8 c cs hc ih =>
    obtain ⟨body, more, hcs, hbody, hhead, hmore⟩ := ih
    refine ⟨c :: body, more, by rw [List.take_succ_cons, hcs]; rfl, ?_, hhead, hmore⟩
    exact List.not_mem_cons_of_ne_of_not_mem (Ne.symm hc) hbody
  | case9 cs ih => exact .inl ⟨[], _, rfl, isUnclosed_nil, ih⟩
  | case10 cs hslash ih =>
    refine Trivia.Skips.cons ih fun _ hhead => ?_
    rw [List.drop_succ_cons, List.take_append_drop] at hhead
    obtain ⟨ds, hds⟩ := List.head?_eq_some_iff.mp hhead
    exact hslash ds hds
  | case11 c cs hc ih => exact Trivia.Skips.cons ih fun hstar => absurd hstar hc

/-- What the scanner skips in front of a token is a gap. -/
theorem isGap_take (cs : List Char) :
    IsGap (cs.take (triviaLength .between cs)) (cs.drop (triviaLength .between cs)) :=
  skips_triviaLength .between cs

theorem triviaLength_le (m : Trivia) (cs : List Char) : triviaLength m cs ≤ cs.length := by
  fun_induction triviaLength m cs with
  | case1 | case5 | case6 => exact Nat.zero_le _
  | case2 | case7 | case8 | case10 | case11 =>
    rw [List.length_cons]
    omega
  | case3 | case4 | case9 =>
    rw [List.length_cons, List.length_cons]
    omega

end Scanner
end TypedImp

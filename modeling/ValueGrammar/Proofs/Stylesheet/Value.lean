import ValueGrammar.Stylesheet.Value
import Mathlib.Data.List.DropRight

/-!
# `ValueGrammar.Proofs.Stylesheet.Value` — only the annotation is taken off a declaration

The annotation of a declaration is looked for from its end, past white space and comments: first the
word, then the mark before it. Both are significant, so what is found can be told from the significant
tokens alone. A declaration ends with the annotation if the last two of them are its two tokens.

## Contents
- `Token.significant`, `Token.Annotates`, `Token.Annotated`: what a declaration ends with.
- `Token.trimEnd_cases`: the last significant token is the last one after trimming.
- `Token.beforeImportant_cases`: the tokens before the annotation, or all of them.
- `Token.significant_trimImportant`: what is left of a declaration.
-/

namespace ValueGrammar

namespace Token

variable {ts front value : List Token} {mark word last : Token}

/-- The tokens that are neither white space nor comments. -/
def significant (ts : List Token) : List Token := ts.filter (·.isSignificant)

/-- The two tokens are the annotation `!important`, with the word in any case. -/
structure Annotates (mark word : Token) : Prop where
  delim : mark.kind = .delim
  mark : mark.value = "!"
  ident : word.kind = .ident
  word : Text.equalFold word.value "important" = true

/-- The significant tokens are `value` and then the annotation. -/
def Annotated (ts value : List Token) : Prop :=
  ∃ mark word, Annotates mark word ∧ significant ts = value ++ [mark, word]

/-! ## Trimming -/

theorem significant_append (ts us : List Token) :
    significant (ts ++ us) = significant ts ++ significant us := List.filter_append ..

theorem significant_singleton (h : last.isSignificant = true) : significant [last] = [last] :=
  List.filter_cons_of_pos h

theorem significant_dropWhile (ts : List Token) :
    significant (ts.dropWhile (!·.isSignificant)) = significant ts := by
  induction ts with
  | nil => rfl
  | cons t ts ih =>
      unfold significant at ih ⊢
      cases ht : t.isSignificant <;> simp [ht, ih]

theorem trimEnd_eq (ts : List Token) : trimEnd ts = ts.rdropWhile (!·.isSignificant) := rfl

theorem significant_trimEnd (ts : List Token) : significant (trimEnd ts) = significant ts := by
  have hreverse : significant (ts.reverse.dropWhile (!·.isSignificant)) = (significant ts).reverse := by
    rw [significant_dropWhile, significant, significant, List.filter_reverse]
  rw [trimEnd, significant, List.filter_reverse]
  rw [significant] at hreverse
  rw [hreverse, List.reverse_reverse]

/-- Trimming at the end leaves nothing if there is no significant token, else it leaves the last one of
them at the end. -/
theorem trimEnd_cases (ts : List Token) :
    (trimEnd ts = [] ∧ significant ts = []) ∨
      ∃ front last, last.isSignificant = true ∧ trimEnd ts = front ++ [last] ∧
        significant ts = significant front ++ [last] := by
  by_cases hnil : trimEnd ts = []
  · left
    refine ⟨hnil, ?_⟩
    rw [← significant_trimEnd, hnil]
    rfl
  · right
    have hlast : ((trimEnd ts).getLast hnil).isSignificant = true := by
      have hstays := List.rdropWhile_last_not (fun t : Token => !t.isSignificant) ts hnil
      simp only [Bool.not_eq_true', Bool.not_eq_false] at hstays
      exact hstays
    have hsplit : trimEnd ts = (trimEnd ts).dropLast ++ [(trimEnd ts).getLast hnil] :=
      (List.dropLast_append_getLast hnil).symm
    refine ⟨_, _, hlast, hsplit, ?_⟩
    calc significant ts = significant (trimEnd ts) := (significant_trimEnd ts).symm
      _ = significant ((trimEnd ts).dropLast ++ [(trimEnd ts).getLast hnil]) :=
          congrArg significant hsplit
      _ = significant (trimEnd ts).dropLast ++ [(trimEnd ts).getLast hnil] := by
          rw [significant_append, significant_singleton hlast]

theorem isPrefix_trimEnd (ts : List Token) : trimEnd ts <+: ts := by
  rw [trimEnd_eq]
  exact List.rdropWhile_prefix _ ts

/-- Trimming at both ends leaves a part with all the significant tokens, and such a token at each end. -/
theorem trim_spec (ts : List Token) :
    trim ts <:+: ts ∧ significant (trim ts) = significant ts ∧
      ∀ t, (trim ts).head? = some t ∨ (trim ts).getLast? = some t → t.isSignificant = true := by
  have hstart : trim ts <+: ts.dropWhile (!·.isSignificant) := isPrefix_trimEnd _
  have hsuffix : ts.dropWhile (!·.isSignificant) <:+ ts := List.dropWhile_suffix _
  refine ⟨hstart.isInfix.trans hsuffix.isInfix, ?_, ?_⟩
  · rw [trim, significant_trimEnd, significant_dropWhile]
  · intro t ht
    rcases ht with ht | ht
    · -- the first token that is left is the first one that was not dropped
      obtain ⟨rest, hrest⟩ := hstart
      have hhead : (ts.dropWhile (!·.isSignificant)).head? = some t := by
        rw [← hrest, List.head?_append, ht]
        rfl
      simpa [hhead] using List.head?_dropWhile_not (fun t : Token => !t.isSignificant) ts
    · rcases trimEnd_cases (ts.dropWhile (!·.isSignificant)) with ⟨hnil, -⟩ | ⟨front, last, hs, he, -⟩
      · rw [trim, hnil] at ht
        cases ht
      · rw [trim, he, List.getLast?_concat] at ht
        cases ht
        exact hs

/-! ## The annotation -/

/-- The annotation and what is before it are the same for tokens with the same significant ones. -/
theorem Annotated.unique (h : Annotated ts value) (hs : significant ts = front ++ [mark, word]) :
    Annotates mark word ∧ value = front := by
  obtain ⟨mark', word', ha, hs'⟩ := h
  rw [hs'] at hs
  obtain ⟨hvalue, hends⟩ := List.append_inj' hs rfl
  cases hends
  exact ⟨ha, hvalue⟩

/-- **The annotation is found where there is one.** The tokens before it are a part of the tokens
given; where there is none, only white space and comments at the end are passed over. -/
theorem beforeImportant_cases (ts : List Token) :
    beforeImportant ts <+: ts ∧
      (Annotated ts (significant (beforeImportant ts)) ∨
        (significant (beforeImportant ts) = significant ts ∧ ∀ value, ¬ Annotated ts value)) := by
  have hstart := isPrefix_trimEnd ts
  have hall : significant (trimEnd ts) = significant ts := significant_trimEnd ts
  unfold beforeImportant
  rcases trimEnd_cases ts with ⟨hnil, hs⟩ | ⟨front, word, hword, htrimmed, hs⟩
  · -- no token is significant
    rw [hnil] at hall ⊢
    refine ⟨List.nil_prefix, .inr ⟨hall, fun value hv => ?_⟩⟩
    obtain ⟨mark, word, -, hs'⟩ := hv
    rw [hs] at hs'
    simp at hs'
  · rw [htrimmed] at hstart hall ⊢
    simp only [List.getLast?_concat, List.dropLast_concat]
    split
    · rename_i hisWord
      rw [Bool.and_eq_true, beq_iff_eq] at hisWord
      have hfront : trimEnd front <+: ts :=
        (isPrefix_trimEnd front).trans ((List.prefix_append front [word]).trans hstart)
      rcases trimEnd_cases front with ⟨hnil, hs'⟩ | ⟨value, mark, hmark, hbefore, hs'⟩
      · -- the word is the only significant token
        rw [hnil]
        refine ⟨hstart, .inr ⟨hall, fun value hv => ?_⟩⟩
        obtain ⟨mark', word', -, hs''⟩ := hv
        rw [hs, hs'] at hs''
        simpa using congrArg List.length hs''
      · have hends : significant ts = significant value ++ [mark, word] := by
          rw [hs, hs', List.append_assoc]
          rfl
        rw [hbefore] at hfront ⊢
        simp only [List.getLast?_concat, List.dropLast_concat]
        split
        · rename_i hisMark
          rw [Bool.and_eq_true, beq_iff_eq, beq_iff_eq] at hisMark
          refine ⟨(List.prefix_append value [mark]).trans hfront, .inl ⟨mark, word, ?_, hends⟩⟩
          exact ⟨hisMark.1, hisMark.2, hisWord.1, hisWord.2⟩
        · rename_i hnotMark
          refine ⟨hstart, .inr ⟨hall, fun value' hv => hnotMark ?_⟩⟩
          have ha := (hv.unique hends).1
          rw [Bool.and_eq_true, beq_iff_eq, beq_iff_eq]
          exact ⟨ha.delim, ha.mark⟩
    · rename_i hnotWord
      refine ⟨hstart, .inr ⟨hall, fun value hv => hnotWord ?_⟩⟩
      obtain ⟨mark', word', ha, hs'⟩ := hv
      have hlast : word = word' := by
        rw [hs] at hs'
        simpa using congrArg List.getLast? hs'
      rw [Bool.and_eq_true, beq_iff_eq, hlast]
      exact ⟨ha.ident, ha.word⟩

/-- **Only the annotation is taken off a declaration, and what is insignificant at the ends.** What is
left is a contiguous part of the tokens, which starts and ends with a significant token if it has any.
Its significant tokens are all those before the annotation if there is one at the end, and all of them
if there is none, whatever else is before, between and after. -/
theorem significant_trimImportant (ts : List Token) :
    trimImportant ts <:+: ts ∧
      (∀ t, (trimImportant ts).head? = some t ∨ (trimImportant ts).getLast? = some t →
        t.isSignificant = true) ∧
      (∀ value, Annotated ts value → significant (trimImportant ts) = value) ∧
      ((∀ value, ¬ Annotated ts value) → significant (trimImportant ts) = significant ts) := by
  obtain ⟨hstart, hcases⟩ := beforeImportant_cases ts
  obtain ⟨hpart, hsame, hends⟩ := trim_spec (beforeImportant ts)
  refine ⟨hpart.trans hstart.isInfix, hends, fun value hv => ?_, fun hnone => ?_⟩
  · rcases hcases with ⟨mark, word, -, hs⟩ | ⟨-, hnone⟩
    · exact hsame.trans (hv.unique hs).2.symm
    · exact absurd hv (hnone value)
  · rcases hcases with hv | ⟨hall, -⟩
    · exact absurd hv (hnone _)
    · exact hsame.trans hall

/-- The tokens of ` 1px /**/ ! /**/ IMPORTANT `, where the spaces are tokens too. -/
def annotatedTokens : List Token :=
  [⟨.whitespace, " ", none⟩, ⟨.dimension, "1px", none⟩, ⟨.whitespace, " ", none⟩,
    ⟨.comment, "/**/", none⟩, ⟨.delim, "!", none⟩, ⟨.comment, "/**/", none⟩,
    ⟨.whitespace, " ", none⟩, ⟨.ident, "IMPORTANT", none⟩, ⟨.whitespace, " ", none⟩]

/-- White space and comments stand before, inside and after the annotation. -/
theorem significant_trimImportant_spaced :
    Annotated annotatedTokens [⟨.dimension, "1px", none⟩] ∧
      trimImportant annotatedTokens <:+: annotatedTokens ∧
      (trimImportant annotatedTokens).head? = some ⟨.dimension, "1px", none⟩ ∧
      significant (trimImportant annotatedTokens) = [⟨.dimension, "1px", none⟩] ∧
      (∀ value, ¬ Annotated [⟨.ident, "important", none⟩] value) ∧
      significant (trimImportant [⟨.ident, "important", none⟩]) = [⟨.ident, "important", none⟩] := by
  have hv : Annotated annotatedTokens [⟨.dimension, "1px", none⟩] :=
    ⟨⟨.delim, "!", none⟩, ⟨.ident, "IMPORTANT", none⟩, ⟨rfl, rfl, rfl, by decide +kernel⟩,
      by decide +kernel⟩
  have hnone : ∀ value, ¬ Annotated [⟨.ident, "important", none⟩] value := by
    rintro value ⟨mark, word, -, hs⟩
    have hlength := congrArg List.length hs
    rw [show significant [⟨.ident, "important", none⟩] = [⟨.ident, "important", none⟩] by decide]
      at hlength
    simp at hlength
  obtain ⟨hpart, -, hvalue, -⟩ := significant_trimImportant annotatedTokens
  obtain ⟨-, -, -, hrest⟩ := significant_trimImportant [⟨.ident, "important", none⟩]
  refine ⟨hv, hpart, by decide +kernel, hvalue _ hv, hnone, ?_⟩
  exact (hrest hnone).trans (by decide)

end Token

end ValueGrammar

import ValueGrammar.Proofs.Notation.Written

/-!
# `ValueGrammar.Proofs.WellFormed` — what the reader promises about a grammar

A grammar made by hand may have groups without terms or with an unknown combinator, a multiplier
whose upper limit is below its lower one, or a function with any name. The reader makes none of these.
What is shown here is all that the later developments need to know about a grammar that was read from
a text.

## Contents
- `Grammar.WellFormed`: groups have terms, multipliers have limits in order, functions have names.
- `Row.wellFormed_toGroup`: nesting a row by precedence keeps its terms well-formed.
- `Grammar.wellFormed_of_parse`: a grammar that was read is well-formed.
-/

namespace ValueGrammar

/-- Every group of the grammar has a term and one of the four combinators, every multiplier allows
some positive number of repetitions, and the names of functions have only characters of names. -/
inductive Grammar.WellFormed : Grammar → Prop where
  | group {c terms b n} (hc : ∀ code, c ≠ .other code) (hne : terms ≠ [])
      (h : ∀ t ∈ terms, WellFormed t) : WellFormed (.group c terms b n)
  | multiplier {t min max separated} (hmin : 0 ≤ min)
      (hmax : ∀ hi, max = some hi → Max.max min 1 ≤ hi) (h : WellFormed t) :
      WellFormed (.multiplier t min max separated)
  | keyword {name} : WellFormed (.keyword name)
  | atKeyword {name} : WellFormed (.atKeyword name)
  | function {name} (hname : ∀ c ∈ name.toList, Read.isNameChar c = true) :
      WellFormed (.function name)
  | type {name range} : WellFormed (.type name range)
  | property {name} : WellFormed (.property name)
  | token {value} : WellFormed (.token value)
  | string {value} : WellFormed (.string value)
  | comma : WellFormed .comma

/-! ## Rows -/

namespace Row

/-- Every term of the row is well-formed. -/
def WellFormed (r : Row) : Prop := ∀ t ∈ r.terms, t.WellFormed

theorem terms_ne_nil (r : Row) : r.terms ≠ [] := List.cons_ne_nil _ _

/-- The parts a row is cut into have the terms of the row, in order. -/
theorem flatMap_terms_cut (c : Combinator) (head : Grammar) (tail : List (Combinator × Grammar)) :
    ((cut c head tail).1 :: (cut c head tail).2).flatMap terms = terms ⟨head, tail⟩ := by
  induction tail generalizing head with
  | nil => rfl
  | cons dt rest ih =>
      obtain ⟨d, t⟩ := dt
      have ht := ih t
      rw [cut]
      simp only [List.flatMap_cons, terms, List.map_cons] at ht ⊢
      split
      · simp only [List.flatMap_cons, terms, List.map_nil, List.singleton_append]
        rw [ht]
      · simp only [List.map_cons, List.cons_append]
        rw [← ht]
        simp

theorem wellFormed_of_mem_cut {c : Combinator} {row part : Row} (h : row.WellFormed)
    (hp : part ∈ (cut c row.head row.tail).1 :: (cut c row.head row.tail).2) :
    part.WellFormed := by
  intro t ht
  refine h t ?_
  rw [← flatMap_terms_cut c row.head row.tail]
  exact List.mem_flatMap.mpr ⟨part, hp, ht⟩

/-- Nesting by precedence keeps terms well-formed, and there is always one. -/
theorem wellFormed_regroup {cs : List Combinator} (hcs : ∀ code, .other code ∉ cs) {row : Row}
    (h : row.WellFormed) :
    (∀ code, (regroup cs row).2 ≠ .other code) ∧ (regroup cs row).1 ≠ [] ∧
      ∀ t ∈ (regroup cs row).1, t.WellFormed := by
  induction cs generalizing row with
  | nil => exact ⟨by simp [regroup], terms_ne_nil row, h⟩
  | cons c tighter ih =>
      have htighter : ∀ code, .other code ∉ tighter :=
        fun code hm => hcs code (List.mem_cons_of_mem c hm)
      rw [regroup]
      split
      · exact ih htighter h
      · rename_i part parts _ hcut
        refine ⟨fun code he => hcs code (by rw [← he]; exact List.mem_cons_self), by simp,
          fun t ht => ?_⟩
        obtain ⟨r, hr, rfl⟩ := List.mem_map.mp ht
        have hwf : r.WellFormed := by
          refine wellFormed_of_mem_cut (c := c) h ?_
          rw [hcut]
          exact hr
        split
        · exact hwf r.head List.mem_cons_self
        · obtain ⟨hc, hne, hterms⟩ := ih htighter hwf
          exact .group hc hne hterms

theorem wellFormed_toGroup {row : Row} (h : row.WellFormed) (bracketed : Bool) :
    (row.toGroup bracketed).WellFormed := by
  have hcs : ∀ code, Combinator.other code ∉ Combinator.looseToTight := by
    simp [Combinator.looseToTight]
  obtain ⟨hc, hne, hwf⟩ := wellFormed_regroup hcs h
  exact .group hc hne hwf

end Row

/-! ## What was read -/

namespace Grammar

theorem WellFormed.markNonEmpty {g : Grammar} (h : g.WellFormed) :
    (Read.markNonEmpty g).WellFormed := by
  unfold Read.markNonEmpty
  split
  · cases h with
    | group hc hne hts => exact .group hc hne hts
  · exact h

theorem WellFormed.unwrap {g : Grammar} (h : g.WellFormed) : (Read.unwrap g).WellFormed := by
  unfold Read.unwrap
  split
  · cases h with
    | group _ _ hts => exact hts _ List.mem_cons_self
  · exact h

theorem Written.wellFormed {g : Grammar} (h : g.Written) : g.WellFormed := by
  induction h with
  | group _ _ ih => exact Row.wellFormed_toGroup ih true
  | nonEmpty _ _ ih => exact (Row.wellFormed_toGroup ih true).markNonEmpty
  | multiplier _ hl ih =>
      obtain ⟨lo, hlo, -⟩ := hl.lower
      refine .multiplier (by omega) (fun hi hh => ?_) ih
      obtain ⟨n, hn, -, hle, hpos⟩ := hl.upper hi hh
      omega
  | function h => exact .function h.chars
  | keyword _ => exact .keyword
  | atKeyword _ => exact .atKeyword
  | type _ _ _ => exact .type
  | property _ => exact .property
  | token _ => exact .token
  | string _ _ => exact .string
  | comma => exact .comma

/-- **A grammar that was read is well-formed.** -/
theorem wellFormed_of_parse {source : String} {g : Grammar} (h : Grammar.parse source = .ok g) :
    g.WellFormed := by
  obtain ⟨row, -, hterms, rfl⟩ := isDefinition_of_parse h
  exact (Row.wellFormed_toGroup (fun t ht => (hterms t ht).wellFormed) false).unwrap

end Grammar

end ValueGrammar

import ValueGrammar.Proofs.Notation.Unrolling
import ValueGrammar.Proofs.WellFormed

/-!
# `ValueGrammar.Proofs.Reader` — every text is read, or refused with a place in it

Reading never fails to end and never ends in a state of its own: a text is refused with the place
where it goes wrong, or read to its last character. The tree it is read into then has the shape the
compiler and the machine take for granted.

## Contents
- `Grammar.Proper`, `Grammar.ProperRoot`: the shape of the terms of a definition, and of the whole.
- `Row.two_le_length_regroup`: nesting by precedence makes no group of a single term.
- `Grammar.Written.proper`, `Grammar.IsDefinition.properRoot`: what can be written has the shape.
- `Grammar.parse_total`: every text is refused or read.
-/

namespace ValueGrammar

namespace Grammar

/-- A term below the root of a definition, as the notation allows it. A group without brackets is
there for the precedence of the combinators, so it has two terms or more. -/
inductive Proper : Grammar → Prop where
  | group {c terms bracketed nonEmpty} (hne : terms ≠ [])
      (himplicit : bracketed = false → 2 ≤ terms.length) (h : ∀ t ∈ terms, Proper t) :
      Proper (.group c terms bracketed nonEmpty)
  | multiplier {t min max separated} (hmin : 0 ≤ min)
      (hmax : ∀ hi, max = some hi → Max.max min 1 ≤ hi) (h : Proper t) :
      Proper (.multiplier t min max separated)
  | keyword {name} (h : IsName name) : Proper (.keyword name)
  | atKeyword {name} (h : IsName name) : Proper (.atKeyword name)
  | function {name} (h : IsName name) : Proper (.function name)
  | type {name parens range} (h : IsName name) (hp : parens = "" ∨ parens = "()")
      (hr : ∀ r, range = some r → r.lo.le r.hi = true) : Proper (.type (name ++ parens) range)
  | property {name} (h : IsName name) : Proper (.property name)
  | token {c : Char} (h : IsSign c) : Proper (.token c.toString)
  | string {quote body} (hq : quote = '\'' ∨ quote = '"') :
      Proper (.string (String.ofList (quote :: (body ++ [quote]))))
  | comma : Proper .comma

/-- A whole definition: a group of proper terms. -/
def ProperRoot (g : Grammar) : Prop :=
  ∃ c terms bracketed nonEmpty, g = .group c terms bracketed nonEmpty ∧ terms ≠ [] ∧
    ∀ t ∈ terms, Proper t

end Grammar

/-! ## Groups -/

namespace Row

theorem length_terms (r : Row) : r.terms.length = r.tail.length + 1 := by simp [terms]

/-- Nesting by precedence keeps a row of several terms a group of several terms. -/
theorem two_le_length_regroup {cs : List Combinator} {row : Row} (h : row.tail ≠ []) :
    2 ≤ (regroup cs row).1.length := by
  induction cs with
  | nil =>
      rw [regroup, length_terms]
      exact Nat.succ_le_succ (List.length_pos_iff.mpr h)
  | cons c tighter ih =>
      rw [regroup]
      split
      · exact ih
      · rename_i part parts hparts _
        have hpos : 0 < parts.length := List.length_pos_iff.mpr hparts
        simp only [List.length_map, List.length_cons]
        omega

/-- The groups that nesting makes have two terms or more, and the others are terms of the row. -/
theorem proper_regroup (cs : List Combinator) {row : Row} (h : ∀ t ∈ row.terms, t.Proper) :
    (regroup cs row).1 ≠ [] ∧ ∀ t ∈ (regroup cs row).1, t.Proper := by
  induction cs generalizing row with
  | nil => exact ⟨terms_ne_nil row, h⟩
  | cons c tighter ih =>
      rw [regroup]
      split
      · exact ih h
      · rename_i part parts _ hcut
        refine ⟨by simp, fun t ht => ?_⟩
        obtain ⟨r, hr, rfl⟩ := List.mem_map.mp ht
        have hproper : ∀ u ∈ r.terms, u.Proper := by
          intro u hu
          refine h u ?_
          rw [← flatMap_terms_cut c row.head row.tail, hcut]
          exact List.mem_flatMap.mpr ⟨r, hr, hu⟩
        -- a part of one term stays this term, a longer one is nested
        split
        · exact hproper r.head List.mem_cons_self
        · rename_i htail
          obtain ⟨hne, hterms⟩ := ih hproper
          refine .group hne (fun _ => two_le_length_regroup ?_) hterms
          simpa using htail

theorem proper_toGroup {row : Row} (h : ∀ t ∈ row.terms, t.Proper) :
    (row.toGroup true).Proper := by
  obtain ⟨hne, hterms⟩ := proper_regroup Combinator.looseToTight h
  exact .group hne nofun hterms

end Row

namespace Grammar

theorem Proper.markNonEmpty {g : Grammar} (h : g.Proper) : (Read.markNonEmpty g).Proper := by
  unfold Read.markNonEmpty
  split
  · cases h with
    | group hne himplicit hts => exact .group hne himplicit hts
  · exact h

/-! ## Strings -/

/-- A string literal that takes a whole text ends with its quote. -/
theorem getLast?_of_stringLength? {quote : Char} {cs : List Char} {n : Nat}
    (h : Read.stringLength? quote cs = some n) (hn : n = cs.length) : cs.getLast? = some quote := by
  fun_induction Read.stringLength? quote cs generalizing n with
  | case1 => cases h
  | case2 => cases h
  | case3 x r ih =>
    obtain ⟨k, hk, rfl⟩ := Option.map_eq_some_iff.mp h
    have hlast := ih hk (by simpa using hn)
    rw [List.getLast?_cons_cons]
    cases r with
    | nil => cases hlast
    | cons y r => rwa [List.getLast?_cons_cons]
  | case4 r _ _ =>
    cases h
    cases r with
    | nil => rfl
    | cons y r => simp at hn
  | case5 c r _ _ _ ih =>
    obtain ⟨k, hk, rfl⟩ := Option.map_eq_some_iff.mp h
    have hlast := ih hk (by simpa using hn)
    cases r with
    | nil => cases hlast
    | cons y r => rwa [List.getLast?_cons_cons]

/-! ## What was read -/

theorem Written.proper {g : Grammar} (h : g.Written) : g.Proper := by
  induction h with
  | group _ _ ih => exact Row.proper_toGroup ih
  | nonEmpty _ _ ih => exact (Row.proper_toGroup ih).markNonEmpty
  | multiplier _ hl ih =>
      obtain ⟨lo, hlo, -⟩ := hl.lower
      refine .multiplier (by omega) (fun hi hh => ?_) ih
      obtain ⟨n, hn, -, hle, hpos⟩ := hl.upper hi hh
      omega
  | keyword h => exact .keyword h.toIsName
  | atKeyword h => exact .atKeyword h
  | function h => exact .function h.toIsName
  | type h hp hr => exact .type h hp fun r hr' => (hr r hr').le
  | property h => exact .property h
  | token h => exact .token h
  | @string quote body hq h =>
      obtain ⟨inner, rfl⟩ := List.getLast?_eq_some_iff.mp (getLast?_of_stringLength? h rfl)
      exact .string hq
  | comma => exact .comma

theorem IsDefinition.properRoot {g : Grammar} (h : g.IsDefinition) : g.ProperRoot := by
  obtain ⟨row, -, hterms, rfl⟩ := h
  obtain ⟨hne, hproper⟩ :=
    Row.proper_regroup Combinator.looseToTight fun t ht => (hterms t ht).proper
  unfold Row.toGroup Read.unwrap
  split
  -- a definition that is a single group stands for its contents
  · rename_i c terms b n _ _ hgroup
    injection hgroup with _ hsingle
    cases hproper (.group c terms b n) (hsingle ▸ List.mem_cons_self) with
    | group hne _ hts => exact ⟨c, terms, b, n, rfl, hne, hts⟩
  · exact ⟨_, _, _, _, rfl, hne, hproper⟩

/-- **Every text is read, or refused with a place in it.** Reading takes a number of nested calls
bounded by the length of the text, whatever stands beneath them, and the loop over the digits of a
number is the only other one. A text is refused by a failure that was thrown, never by one that asks
for another alternative; a text that is read was read to its end, into a proper tree. -/
theorem parse_total (source : String) :
    (∀ P : Read.Procedures,
      (Read.Procedures.unrolled^[2 * source.length + 1] P).definition
          (Cursor.start source.toList) =
        Read.definition (Cursor.start source.toList)) ∧
    (∀ c, Parser.zeroOrMore Read.digit c = Parser.takeWhile Char.isDigit c) ∧
    ((∃ message offset end_ e,
        Read.definition (Cursor.start source.toList) = (.error (.thrown message offset), end_) ∧
        Grammar.parse source = .error e ∧ e.message = message ∧ e.source = source ∧
        e.offset ≤ source.length) ∨
      ∃ g, Read.definition (Cursor.start source.toList) = (.ok g, ⟨source.length, []⟩) ∧
        Grammar.parse source = .ok g ∧ g.ProperRoot) := by
  refine ⟨fun P => ?_, Read.zeroOrMore_digit, ?_⟩
  · rw [← String.length_toList]
    exact Read.Procedures.definition_unrolled P source.toList
  · rcases hd : Read.definition (Cursor.start source.toList) with ⟨(_ | _) | g, c⟩
    · rename_i message offset
      exact absurd (by rw [hd]) (Read.definition_settles _ message offset)
    · rename_i message offset
      refine .inl ⟨message, offset, c, .make source message offset, rfl, ?_, rfl, rfl, ?_⟩
      · rw [parse, hd]
      · exact Nat.min_le_right offset source.length
    · have hparse : Grammar.parse source = .ok g := by rw [parse, hd]
      have hc := Read.definition_takes hd
      rw [String.length_toList] at hc
      exact .inr ⟨g, by rw [hc], hparse, (isDefinition_of_parse hparse).properRoot⟩

end Grammar

end ValueGrammar

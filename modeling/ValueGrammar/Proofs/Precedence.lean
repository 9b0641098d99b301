import ValueGrammar.Proofs.Reader
import Mathlib.Data.List.Basic

/-!
# `ValueGrammar.Proofs.Precedence` — nesting a row by precedence loses nothing

A row of terms becomes one group. The groups nested in it are implicit: nobody wrote brackets around
them. What was written can be read off the result, the terms as well as the combinators: of two
neighbours the innermost group that has both is joined by the combinator that stood between them.

## Contents
- `Combinator.tightness`: how tightly a combinator binds.
- `Grammar.isImplicit`, `Grammar.flattened`: groups without brackets, and the terms in them.
- `Grammar.Joins`: the innermost group with two neighbours.
- `Grammar.Holds`: the implicit groups somewhere in a list of terms.
- `Row.Nests`: how a row is cut at its loosest combinators, level by level.
- `Row.Nests.flattenedAll_eq`, `Row.Nests.joins_iff`, `Row.Nests.holds`: one property each.
- `Row.toGroup_resolves`: the group a row stands for.
-/

namespace ValueGrammar

/-- How tightly a combinator binds: juxtaposition more than `&&`, that more than `||`, and `|` least. -/
def Combinator.tightness : Combinator → Nat
  | .one => 0
  | .any => 1
  | .all => 2
  | .juxtapose => 3
  | .other _ => 0

/-- A list with one element put between two parts holds the first part, this one, and the second
part. -/
theorem getElem?_append_cons_iff {α : Type} {xs ys : List α} {x y : α} {i : Nat} :
    (xs ++ x :: ys)[i]? = some y ↔
      xs[i]? = some y ∨ (i = xs.length ∧ y = x) ∨ ∃ j, i = xs.length + 1 + j ∧ ys[j]? = some y := by
  rcases Nat.lt_trichotomy i xs.length with hi | rfl | hi
  · rw [List.getElem?_append_left hi]
    refine ⟨.inl, ?_⟩
    rintro (h | ⟨h, -⟩ | ⟨j, h, -⟩)
    · exact h
    · omega
    · omega
  · rw [List.getElem?_append_right (Nat.le_refl _), List.getElem?_eq_none (Nat.le_refl _)]
    constructor
    · intro h
      rw [Nat.sub_self, List.getElem?_cons_zero, Option.some_inj] at h
      exact .inr (.inl ⟨rfl, h.symm⟩)
    · rintro (h | ⟨-, rfl⟩ | ⟨j, h, -⟩)
      · cases h
      · rw [Nat.sub_self, List.getElem?_cons_zero]
      · omega
  · obtain ⟨j, rfl⟩ : ∃ j, i = xs.length + 1 + j := ⟨i - xs.length - 1, by omega⟩
    have hindex : xs.length + 1 + j - xs.length = j + 1 := by omega
    have hnone : xs[xs.length + 1 + j]? = none := List.getElem?_eq_none (by omega)
    rw [List.getElem?_append_right (by omega), hnone, hindex, List.getElem?_cons_succ]
    constructor
    · exact fun h => .inr (.inr ⟨j, rfl, h⟩)
    · rintro (h | ⟨h, -⟩ | ⟨k, h, hk⟩)
      · cases h
      · omega
      · obtain rfl : k = j := by omega
        exact hk

namespace Grammar

/-! ## Implicit groups -/

/-- Is it a group that was not written in brackets? -/
def isImplicit : Grammar → Bool
  | .group _ _ bracketed _ => !bracketed
  | _ => false

mutual

/-- The terms read from left to right, through implicit groups. -/
def flattened : Grammar → List Grammar
  | .group _ terms false _ => flattenedAll terms
  | g => [g]

/-- The terms of several grammars, read from left to right. -/
def flattenedAll : List Grammar → List Grammar
  | [] => []
  | t :: ts => flattened t ++ flattenedAll ts

end

/-- The innermost group with both the term number `i` and the next one, where terms are numbered as
they are read from left to right. The group is joined by the last combinator; the first one joins the
terms given. -/
inductive Joins : Combinator → List Grammar → Nat → Combinator → Prop where
  /-- both are in the same implicit group -/
  | inside {c d terms n ts i e} (h : Joins d terms i e) : Joins c (.group d terms false n :: ts) i e
  /-- one is the last of its term and the other the first of a later one -/
  | across {c t ts i} (hi : i + 1 = (flattened t).length) (hts : flattenedAll ts ≠ []) :
      Joins c (t :: ts) i c
  /-- both are in later terms -/
  | later {c t ts i e} (h : Joins c ts i e) : Joins c (t :: ts) ((flattened t).length + i) e

/-- An implicit group stands among the terms, or in an implicit group that does. -/
inductive Holds : List Grammar → Combinator → List Grammar → Prop where
  | here {ts c terms n} (h : .group c terms false n ∈ ts) : Holds ts c terms
  | within {ts c terms n d us} (h : .group c terms false n ∈ ts) (h' : Holds terms d us) :
      Holds ts d us

theorem flattened_of_not_isImplicit {g : Grammar} (h : g.isImplicit = false) : g.flattened = [g] := by
  cases g with
  | group c terms bracketed n =>
      cases bracketed with
      | true => simp [flattened]
      | false => cases h
  | _ => simp [flattened]

theorem flattenedAll_eq_flatMap (ts : List Grammar) : flattenedAll ts = ts.flatMap flattened := by
  induction ts with
  | nil => simp [flattenedAll]
  | cons t ts ih => rw [flattenedAll, ih, List.flatMap_cons]

theorem joins_cons_iff {c e : Combinator} {t : Grammar} {ts : List Grammar} {i : Nat} :
    Joins c (t :: ts) i e ↔
      (∃ d terms n, t = .group d terms false n ∧ Joins d terms i e) ∨
        (i + 1 = (flattened t).length ∧ flattenedAll ts ≠ [] ∧ e = c) ∨
          ∃ j, i = (flattened t).length + j ∧ Joins c ts j e := by
  constructor
  · intro h
    cases h with
    | inside h => exact .inl ⟨_, _, _, rfl, h⟩
    | across hi hts => exact .inr (.inl ⟨hi, hts, rfl⟩)
    | later h => exact .inr (.inr ⟨_, rfl, h⟩)
  · rintro (⟨d, terms, n, rfl, h⟩ | ⟨hi, hts, rfl⟩ | ⟨j, rfl, h⟩)
    · exact .inside h
    · exact .across hi hts
    · exact .later h

theorem not_joins_nil {c e : Combinator} {i : Nat} : ¬ Joins c [] i e := nofun

theorem holds_iff {ts us : List Grammar} {d : Combinator} :
    Holds ts d us ↔ ∃ c terms n, .group c terms false n ∈ ts ∧
      ((c = d ∧ terms = us) ∨ Holds terms d us) := by
  constructor
  · intro h
    cases h with
    | here h => exact ⟨_, _, _, h, .inl ⟨rfl, rfl⟩⟩
    | within h h' => exact ⟨_, _, _, h, .inr h'⟩
  · rintro ⟨c, terms, n, h, ⟨rfl, rfl⟩ | h'⟩
    · exact .here h
    · exact .within h h'

end Grammar

namespace Row

open Grammar

/-- The combinators of a row, in order. -/
def combinators (row : Row) : List Combinator := row.tail.map (·.1)

/-- No term of the row is an implicit group. -/
def Explicit (row : Row) : Prop := ∀ t ∈ row.terms, t.isImplicit = false

/-- How a row is nested that may still be cut at the given combinators: it is a single term, it is not
cut at the first one, or it is and each part is nested with the others. -/
inductive Nests : List Combinator → Row → Prop where
  | single {row} (htail : row.tail = []) : Nests [] row
  | keep {c tighter row} (hregroup : regroup (c :: tighter) row = regroup tighter row)
      (h : Nests tighter row) : Nests (c :: tighter) row
  | nest {c tighter row part next parts} (hcut : cut c row.head row.tail = (part, next :: parts))
      (hregroup : regroup (c :: tighter) row = ((part :: next :: parts).map (nested tighter), c))
      (h : ∀ q ∈ part :: next :: parts, Nests tighter q) : Nests (c :: tighter) row

variable {c : Combinator} {tighter cs : List Combinator} {row part : Row} {parts : List Row}

/-! ## Cutting a row -/

theorem explicit_of_mem_cut (h : row.Explicit)
    (hp : part ∈ (cut c row.head row.tail).1 :: (cut c row.head row.tail).2) : part.Explicit := by
  intro t ht
  refine h t ?_
  rw [← flatMap_terms_cut c row.head row.tail]
  exact List.mem_flatMap.mpr ⟨part, hp, ht⟩

/-- The combinators of the parts, with the one that the row was cut at between them, are those of the
row. -/
theorem intercalate_combinators_cut (c : Combinator) (head : Grammar)
    (tail : List (Combinator × Grammar)) :
    [c].intercalate (((cut c head tail).1 :: (cut c head tail).2).map combinators) =
      combinators ⟨head, tail⟩ := by
  induction tail generalizing head with
  | nil => simp [cut, combinators, List.intercalate_singleton]
  | cons dt rest ih =>
      obtain ⟨d, t⟩ := dt
      have ht := ih t
      rw [cut]
      rcases hcut : cut c t rest with ⟨part, parts⟩
      rw [hcut] at ht
      dsimp only at ht ⊢
      split
      · rename_i hd
        subst hd
        rw [List.map_cons] at ht
        rw [List.map_cons, List.map_cons, List.intercalate_cons_cons, ht]
        simp [combinators]
      · have hrow : combinators ⟨head, (d, t) :: rest⟩ = d :: combinators ⟨t, rest⟩ := rfl
        have hpart : combinators ⟨head, (d, part.head) :: part.tail⟩ = d :: part.combinators := rfl
        rw [List.map_cons, hpart, hrow, ← ht]
        cases parts with
        | nil => simp [List.intercalate_singleton]
        | cons next parts => simp [List.intercalate_cons_cons]

/-! ## What a row becomes -/

/-- A row is nested in this way if it has no other combinators. -/
theorem nests_of_forall_mem (hcs : ∀ ct ∈ row.tail, ct.1 ∈ cs) : Nests cs row := by
  induction cs generalizing row with
  | nil =>
      refine .single (List.eq_nil_iff_forall_not_mem.mpr fun ct hct => ?_)
      simpa using hcs ct hct
  | cons c tighter ih =>
      have hjoined := joined_cut row.head hcs
      have hregroup := regroup_cons c tighter row
      rcases hcut : cut c row.head row.tail with ⟨part, _ | ⟨next, parts⟩⟩
      · rw [hcut] at hjoined hregroup
        have hpart : part = row := eq_of_cut hcut
        exact .keep hregroup (ih (hpart ▸ hjoined part List.mem_cons_self))
      · rw [hcut] at hjoined hregroup
        exact .nest hcut hregroup fun q hq => ih (hjoined q hq)

/-- The combinator of a row of several terms is one that it could be cut at. -/
theorem Nests.combinator_mem (h : Nests cs row) (htail : row.tail ≠ []) :
    (regroup cs row).2 ∈ cs := by
  induction h with
  | single hnil => exact absurd hnil htail
  | keep hregroup _ ih =>
      rw [hregroup]
      exact List.mem_cons_of_mem _ (ih htail)
  | nest _ hregroup _ _ =>
      rw [hregroup]
      exact List.mem_cons_self

/-- A part that became a group has several terms, which were nested. -/
theorem eq_of_nested_eq_group {d : Combinator} {terms : List Grammar} {n : Bool}
    (hpart : part.Explicit) (h : nested tighter part = .group d terms false n) :
    part.tail ≠ [] ∧ d = (regroup tighter part).2 ∧ terms = (regroup tighter part).1 := by
  unfold nested at h
  split at h
  · have hhead := hpart part.head List.mem_cons_self
    rw [h] at hhead
    cases hhead
  · rename_i htail
    cases h
    exact ⟨by simpa using htail, rfl, rfl⟩

theorem nested_of_tail_eq_nil (h : part.tail = []) : nested tighter part = part.head := by
  simp [nested, h]

theorem nested_of_tail_ne_nil (h : part.tail ≠ []) :
    nested tighter part = .group (regroup tighter part).2 (regroup tighter part).1 false false := by
  simp [nested, h]

theorem flattened_nested (hpart : part.Explicit)
    (h : flattenedAll (regroup tighter part).1 = part.terms) :
    (nested tighter part).flattened = part.terms := by
  by_cases htail : part.tail = []
  · rw [nested_of_tail_eq_nil htail, flattened_of_not_isImplicit (hpart part.head List.mem_cons_self),
      terms, htail]
    rfl
  · rw [nested_of_tail_ne_nil htail, flattened, h]

/-- **Read from left to right, the nested terms are those of the row.** -/
theorem Nests.flattenedAll_eq (h : Nests cs row) (hrow : row.Explicit) :
    flattenedAll (regroup cs row).1 = row.terms := by
  induction h with
  | @single row htail =>
      rw [regroup, terms, htail]
      simp [flattenedAll, flattened_of_not_isImplicit (hrow row.head List.mem_cons_self)]
  | keep hregroup _ ih => rw [hregroup, ih hrow]
  | @nest c tighter row part next parts hcut hregroup _ ih =>
      have hterms := flatMap_terms_cut c row.head row.tail
      rw [hcut] at hterms
      rw [hregroup, flattenedAll_eq_flatMap, List.flatMap_map]
      refine Eq.trans (List.flatMap_congr fun q hq => ?_) hterms
      have hq' : q.Explicit := explicit_of_mem_cut hrow (by rw [hcut]; exact hq)
      exact flattened_nested hq' (ih q hq hq')

/-- Where a part of a row has two neighbours, if what it became does. -/
theorem joins_nested_iff {i : Nat} {e : Combinator} (hpart : part.Explicit)
    (h : Joins (regroup tighter part).2 (regroup tighter part).1 i e ↔ part.combinators[i]? = some e) :
    (∃ d terms n, nested tighter part = .group d terms false n ∧ Joins d terms i e) ↔
      part.combinators[i]? = some e := by
  by_cases htail : part.tail = []
  · have hnone : ¬ part.combinators[i]? = some e := by simp [combinators, htail]
    refine iff_of_false ?_ hnone
    rintro ⟨d, terms, n, hnested, -⟩
    exact (eq_of_nested_eq_group hpart hnested).1 htail
  · rw [← h, nested_of_tail_ne_nil htail]
    constructor
    · rintro ⟨d, terms, n, hnested, hjoins⟩
      cases hnested
      exact hjoins
    · exact fun hjoins => ⟨_, _, _, rfl, hjoins⟩

/-- Neighbours within a part are joined as in the part, those of different parts by the combinator
between the parts. The induction is on the parts. -/
theorem joins_map_nested_iff {i : Nat} {e : Combinator} (hparts : ∀ q ∈ parts, q.Explicit)
    (hterms : ∀ q ∈ parts, (nested tighter q).flattened = q.terms)
    (h : ∀ q ∈ parts, ∀ i e, Joins (regroup tighter q).2 (regroup tighter q).1 i e ↔
      q.combinators[i]? = some e) :
    Joins c (parts.map (nested tighter)) i e ↔
      ([c].intercalate (parts.map combinators))[i]? = some e := by
  induction parts generalizing i with
  | nil => simp [not_joins_nil, List.intercalate]
  | cons part parts ih =>
      have hlen : (nested tighter part).flattened.length = part.combinators.length + 1 := by
        rw [hterms part List.mem_cons_self, length_terms, combinators, List.length_map]
      rw [List.map_cons, joins_cons_iff,
        joins_nested_iff (hparts part List.mem_cons_self) (h part List.mem_cons_self i e), hlen]
      cases parts with
      | nil => simp [not_joins_nil, flattenedAll, List.intercalate_singleton]
      | cons next parts =>
          have hrest : flattenedAll ((next :: parts).map (nested tighter)) ≠ [] := by
            rw [List.map_cons, flattenedAll, hterms next (by simp)]
            exact List.append_ne_nil_of_left_ne_nil (terms_ne_nil next) _
          have hsplit : [c].intercalate ((part :: next :: parts).map combinators) =
              part.combinators ++ c :: [c].intercalate ((next :: parts).map combinators) := by
            simp [List.intercalate_cons_cons]
          have hlater : ∀ j, Joins c ((next :: parts).map (nested tighter)) j e ↔
              ([c].intercalate ((next :: parts).map combinators))[j]? = some e :=
            fun j => ih (fun q hq => hparts q (List.mem_cons_of_mem _ hq))
              (fun q hq => hterms q (List.mem_cons_of_mem _ hq))
              fun q hq => h q (List.mem_cons_of_mem _ hq)
          rw [hsplit, getElem?_append_cons_iff]
          simp only [hlater, Nat.add_right_cancel_iff, hrest, ne_eq, not_false_eq_true, true_and]

/-- **Neighbours are joined by the combinator that stood between them.** -/
theorem Nests.joins_iff {i : Nat} {e : Combinator} (h : Nests cs row) (hrow : row.Explicit) :
    Joins (regroup cs row).2 (regroup cs row).1 i e ↔ row.combinators[i]? = some e := by
  induction h generalizing i e with
  | @single row htail =>
      have hterms : row.terms = [row.head] := by rw [terms, htail]; rfl
      have hhead := hrow row.head List.mem_cons_self
      rw [regroup, hterms, joins_cons_iff]
      simp only [not_joins_nil, flattenedAll, combinators, htail, ne_eq, not_true_eq_false, false_and,
        and_false, exists_false, or_false, List.map_nil, List.getElem?_nil, reduceCtorEq, iff_false]
      rintro ⟨d, terms, n, he, -⟩
      rw [he] at hhead
      cases hhead
  | keep hregroup _ ih =>
      rw [hregroup]
      exact ih hrow
  | @nest c tighter row part next parts hcut hregroup hnests ih =>
      have hcombinators := intercalate_combinators_cut c row.head row.tail
      rw [hcut] at hcombinators
      have hparts : ∀ q ∈ part :: next :: parts, q.Explicit :=
        fun q hq => explicit_of_mem_cut hrow (by rw [hcut]; exact hq)
      rw [hregroup, joins_map_nested_iff hparts
        (fun q hq => flattened_nested (hparts q hq) ((hnests q hq).flattenedAll_eq (hparts q hq)))
        (fun q hq i e => ih q hq (hparts q hq)), hcombinators]

/-- **Groups are nested in groups that bind less tightly**, and have two terms or more. -/
theorem Nests.holds (h : Nests cs row) (hcs : cs.Pairwise fun c d => c.tightness < d.tightness)
    (hrow : row.Explicit) {d : Combinator} {us : List Grammar} (hd : Holds (regroup cs row).1 d us) :
    2 ≤ us.length ∧ (regroup cs row).2.tightness < d.tightness ∧
      ∀ e vs, Holds us e vs → d.tightness < e.tightness := by
  induction h generalizing d us with
  | @single row htail =>
      -- a single term holds no implicit group
      have hterms : row.terms = [row.head] := by rw [terms, htail]; rfl
      obtain ⟨c, ts, n, hmem, -⟩ := holds_iff.mp hd
      have hhead := hrow row.head List.mem_cons_self
      rw [regroup, hterms, List.mem_singleton] at hmem
      rw [← hmem] at hhead
      cases hhead
  | keep hregroup _ ih =>
      rw [hregroup] at hd ⊢
      exact ih hcs.of_cons hrow hd
  | @nest c tighter row part next parts hcut hregroup hnests ih =>
      rw [hregroup] at hd ⊢
      obtain ⟨c', ts, n, hmem, hhere⟩ := holds_iff.mp hd
      obtain ⟨q, hq, hnested⟩ := List.mem_map.mp hmem
      have hq' : q.Explicit := explicit_of_mem_cut hrow (by rw [hcut]; exact hq)
      obtain ⟨htail, rfl, rfl⟩ := eq_of_nested_eq_group hq' hnested
      have hlt : c.tightness < (regroup tighter q).2.tightness :=
        List.rel_of_pairwise_cons hcs ((hnests q hq).combinator_mem htail)
      rcases hhere with ⟨rfl, rfl⟩ | hwithin
      · refine ⟨two_le_length_regroup htail, hlt, fun e vs he => ?_⟩
        exact (ih q hq hcs.of_cons hq' he).2.1
      · obtain ⟨hlen, hlt', hrest⟩ := ih q hq hcs.of_cons hq' hwithin
        exact ⟨hlen, Nat.lt_trans hlt hlt', hrest⟩

/-- **A row becomes a group by precedence, and nothing is lost.** The terms of the group, read through
the implicit groups in it, are those of the row in order. The innermost group with two neighbours is
joined by the combinator that stood between them. Every implicit group in it has two terms or more, and
binds more tightly than each group around it. -/
theorem toGroup_resolves (hjoined : row.Joined) (hrow : row.Explicit) (bracketed : Bool) :
    ∃ c ts, row.toGroup bracketed = .group c ts bracketed false ∧
      flattenedAll ts = row.terms ∧
      (∀ i e, Joins c ts i e ↔ row.combinators[i]? = some e) ∧
      ∀ d us, Holds ts d us → 2 ≤ us.length ∧ c.tightness < d.tightness ∧
        ∀ e vs, Holds us e vs → d.tightness < e.tightness := by
  have hnests : Nests Combinator.looseToTight row := nests_of_forall_mem hjoined
  have hsorted : Combinator.looseToTight.Pairwise fun c d => c.tightness < d.tightness := by
    decide
  exact ⟨_, _, rfl, hnests.flattenedAll_eq hrow, fun i e => hnests.joins_iff hrow,
    fun d us hd => hnests.holds hsorted hrow hd⟩

/-- The row `a b | c || d && e <f>`, in which all four combinators stand. -/
def fourRow : Row :=
  ⟨.keyword "a", [(.juxtapose, .keyword "b"), (.one, .keyword "c"), (.any, .keyword "d"),
    (.all, .keyword "e"), (.juxtapose, .type "f" none)]⟩

example : fourRow.toGroup false =
    .group .one
      [.group .juxtapose [.keyword "a", .keyword "b"] false false,
        .group .any
          [.keyword "c",
            .group .all
              [.keyword "d", .group .juxtapose [.keyword "e", .type "f" none] false false] false false]
          false false]
      false false := rfl

/-- Groups are nested in it three deep. -/
theorem toGroup_resolves_four :
    fourRow.Joined ∧ fourRow.Explicit ∧
      ∃ c ts, fourRow.toGroup false = .group c ts false false ∧
        flattenedAll ts = fourRow.terms ∧
        (∀ i e, Joins c ts i e ↔ fourRow.combinators[i]? = some e) ∧
        ∀ d us, Holds ts d us → 2 ≤ us.length ∧ c.tightness < d.tightness ∧
          ∀ e vs, Holds us e vs → d.tightness < e.tightness := by
  have hjoined : fourRow.Joined := by unfold Joined; decide
  have hrow : fourRow.Explicit := by unfold Explicit; decide
  exact ⟨hjoined, hrow, toGroup_resolves hjoined hrow false⟩

end Row

end ValueGrammar

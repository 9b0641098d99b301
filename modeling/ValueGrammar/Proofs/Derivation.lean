import ValueGrammar.Proofs.Acceptance
import ValueGrammar.Proofs.Repetition
import Mathlib.Data.List.Perm.Subperm

/-!
# `ValueGrammar.Proofs.Derivation` — the meaning of the value definition syntax

Which stretches of tokens are values of a grammar, said without states and without a machine.
`Derives env ts g o i j` is the least relation that says so: the tokens of `ts` from place `i` up to
place `j` are a value of `g`, where numbers are restricted to the range `o` that was inherited from
the references around.

## Contents
- `Meaning`: what a name stands for.
- `Derives`: one rule for each construct of the notation.
- `derives_row_iff`, `derives_bounded_iff`, …: the rules read backwards.
-/

namespace ValueGrammar

/-- What a name of a dictionary stands for. -/
inductive Meaning where
  | grammar (g : Grammar)
  | recognizer (count : Recognition)

/-- Terms in a row. -/
abbrev Grammar.row (terms : List Grammar) : Grammar := .group .juxtapose terms false false

/-- A term that must not match nothing. -/
abbrev Grammar.someOf (term : Grammar) : Grammar := .group .juxtapose [term] true true

/-- The comma between the repetitions of a multiplier that separates by commas. -/
abbrev Grammar.separator (separated : Bool) : Option Grammar :=
  if separated then some .comma else none

/-- The tokens from place `i` up to place `j` are a value of the grammar, under the range `o`. -/
inductive Derives (env : Reference → Option Meaning) (ts : List Token) :
    Grammar → Option Range → Nat → Nat → Prop where
  /-- every term in the given order; no term matches nothing -/
  | rowNil {b o i} : Derives env ts (.group .juxtapose [] b false) o i i
  | rowCons {t terms b o i k j} (ht : Derives env ts t o i k)
      (hs : Derives env ts (.group .juxtapose terms b false) o k j) :
      Derives env ts (.group .juxtapose (t :: terms) b false) o i j
  /-- one of the terms -/
  | one {t terms b o i j} (hm : t ∈ terms) (ht : Derives env ts t o i j) :
      Derives env ts (.group .one terms b false) o i j
  /-- every term once, in some order -/
  | all {order terms b o i j} (hp : order.Perm terms) (hs : Derives env ts (.row order) o i j) :
      Derives env ts (.group .all terms b false) o i j
  /-- some of the terms, each once, in some order -/
  | any {order terms b o i j} (hp : order.Subperm terms) (hne : order ≠ [])
      (hs : Derives env ts (.row order) o i j) : Derives env ts (.group .any terms b false) o i j
  /-- what must not match nothing takes a token -/
  | nonEmpty {c terms b o i j} (hlt : i < j) (hs : Derives env ts (.group c terms b false) o i j) :
      Derives env ts (.group c terms b true) o i j
  /-- as many repetitions as the limits allow -/
  | bounded {t separated o i j} {min max : Int} {k : Nat} (hmin : min ≤ k) (hmax : k ≤ max)
      (hs : Derives env ts (.row (spread (Grammar.separator separated) t k)) o i j) :
      Derives env ts (.multiplier t min (some max) separated) o i j
  /-- repetitions without an upper limit each take a token -/
  | unbounded {t separated o i j} {min : Int} {k : Nat} (hmin : max min 1 ≤ k)
      (hs : Derives env ts (.row (spread (Grammar.separator separated) (.someOf t) k)) o i j) :
      Derives env ts (.multiplier t min none separated) o i j
  | unboundedNone {t separated o i} : Derives env ts (.multiplier t 0 none separated) o i i
  | keyword {name t o i} (ht : ts[i]? = some t)
      (h : Text.equalFold (stripHack t.value) (Text.lower name) = true) :
      Derives env ts (.keyword name) o i (i + 1)
  | atKeyword {name t o i} (ht : ts[i]? = some t)
      (h : Text.equalFold t.value ("@" ++ Text.lower name) = true) :
      Derives env ts (.atKeyword name) o i (i + 1)
  | function {name t o i} (ht : ts[i]? = some t)
      (h : Text.equalFold t.value (Text.lower name ++ "(") = true) :
      Derives env ts (.function name) o i (i + 1)
  | token {value t o i} (ht : ts[i]? = some t) (h : t.value = value) :
      Derives env ts (.token value) o i (i + 1)
  /-- a literal with one character between the quotes is that character -/
  | character {value q c q' t o i} (hv : value.toList = [q, c, q']) (ht : ts[i]? = some t)
      (h : t.value = c.toString) : Derives env ts (.string value) o i (i + 1)
  /-- any other literal is spelled by as many tokens as it takes to have as many bytes -/
  | string {value o i n} (hv : value.length ≠ 3)
      (hn : n = spellingLength (Grammar.unquotedSize value) (ts.drop i))
      (h : Text.equalFold (Token.joined ((ts.drop i).take n)) (Grammar.unquoted value) = true) :
      Derives env ts (.string value) o i (i + n)
  /-- a comma that comes neither first nor last -/
  | comma {t o i} (ht : ts[i]? = some t) (hk : t.kind = .comma)
      (hs : isListStart (tokenBefore ts i) = false) (he : isListEnd ts[i + 1]? = false) :
      Derives env ts .comma o i (i + 1)
  /-- a comma that would come first or last is left out -/
  | noComma {o i} (hk : ∀ t, ts[i]? = some t → t.kind ≠ .comma)
      (h : isListStart (tokenBefore ts i) = true ∨ isListEnd ts[i]? = true) :
      Derives env ts .comma o i i
  /-- a reference with a range of its own passes that on, and otherwise the range around it -/
  | type {name range g o i j} (he : env ⟨.type, name⟩ = some (.grammar g))
      (h : Derives env ts g (range <|> o) i j) : Derives env ts (.type name range) o i j
  /-- a generic type has as many tokens as are counted, or as many as there are -/
  | generic {name range count o i n} (he : env ⟨.type, name⟩ = some (.recognizer count))
      (h : count (ts.drop i) (range <|> o) = n) (hpos : 0 < n) :
      Derives env ts (.type name range) o i (i + min n (ts.length - i))
  | property {name g o i j} (he : env ⟨.property, name⟩ = some (.grammar g))
      (h : Derives env ts g o i j) : Derives env ts (.property name) o i j

variable {env : Reference → Option Meaning} {ts : List Token} {o : Option Range} {i j : Nat}

/-! ## Places -/

/-- A value starts where it says, and ends within the tokens. -/
theorem Derives.forward {g : Grammar} (h : Derives env ts g o i j) :
    i ≤ j ∧ (i ≤ ts.length → j ≤ ts.length) := by
  have hget : ∀ {i : Nat} {t : Token}, ts[i]? = some t → i + 1 ≤ ts.length :=
    fun ht => (List.getElem?_eq_some_iff.mp ht).1
  induction h with
  | rowNil | unboundedNone | noComma => exact ⟨Nat.le_refl _, id⟩
  | rowCons _ _ ih₁ ih₂ => exact ⟨Nat.le_trans ih₁.1 ih₂.1, fun hi => ih₂.2 (ih₁.2 hi)⟩
  | one _ _ ih | all _ _ ih | any _ _ _ ih | nonEmpty _ _ ih | bounded _ _ _ ih
  | unbounded _ _ ih | type _ _ ih | property _ _ ih => exact ih
  | keyword ht _ | atKeyword ht _ | function ht _ | token ht _ | character _ ht _
  | comma ht _ _ _ => exact ⟨Nat.le_succ _, fun _ => hget ht⟩
  | @string value o i n _ hn _ =>
      have hle := spellingLength_le (Grammar.unquotedSize value) (ts.drop i)
      rw [← hn, List.length_drop] at hle
      exact ⟨Nat.le_add_right _ _, fun hi => by omega⟩
  | generic => exact ⟨Nat.le_add_right _ _, fun hi => by omega⟩

/-! ## The rules read backwards -/

/-- A row is derived by its terms one after the other. -/
theorem derives_row_iff {terms : List Grammar} {b : Bool} :
    Derives env ts (.group .juxtapose terms b false) o i j ↔
      Joined (fun t => Derives env ts t o) terms i j := by
  induction terms generalizing i with
  | nil =>
      constructor
      · intro h; cases h; rfl
      · rintro rfl; exact .rowNil
  | cons t terms ih =>
      constructor
      · intro h
        cases h with
        | rowCons ht hs => exact ⟨_, ht, ih.mp hs⟩
      · rintro ⟨k, ht, hs⟩; exact .rowCons ht (ih.mpr hs)

theorem derives_one_iff {terms : List Grammar} {b : Bool} :
    Derives env ts (.group .one terms b false) o i j ↔ ∃ t ∈ terms, Derives env ts t o i j := by
  constructor
  · intro h; cases h with | one hm ht => exact ⟨_, hm, ht⟩
  · rintro ⟨t, hm, ht⟩; exact .one hm ht

theorem derives_all_iff {terms : List Grammar} {b : Bool} :
    Derives env ts (.group .all terms b false) o i j ↔
      ∃ order : List Grammar, order.Perm terms ∧ Joined (fun t => Derives env ts t o) order i j := by
  constructor
  · intro h; cases h with | all hp hs => exact ⟨_, hp, derives_row_iff.mp hs⟩
  · rintro ⟨order, hp, hs⟩; exact .all hp (derives_row_iff.mpr hs)

theorem derives_any_iff {terms : List Grammar} {b : Bool} :
    Derives env ts (.group .any terms b false) o i j ↔
      ∃ order : List Grammar, order.Subperm terms ∧ order ≠ [] ∧
        Joined (fun t => Derives env ts t o) order i j := by
  constructor
  · intro h; cases h with | any hp hne hs => exact ⟨_, hp, hne, derives_row_iff.mp hs⟩
  · rintro ⟨order, hp, hne, hs⟩; exact .any hp hne (derives_row_iff.mpr hs)

theorem derives_nonEmpty_iff {c : Combinator} {terms : List Grammar} {b : Bool} :
    Derives env ts (.group c terms b true) o i j ↔
      Derives env ts (.group c terms b false) o i j ∧ i < j := by
  constructor
  · intro h; cases h with | nonEmpty hlt hs => exact ⟨hs, hlt⟩
  · rintro ⟨hs, hlt⟩; exact .nonEmpty hlt hs

theorem derives_someOf_iff {t : Grammar} :
    Derives env ts (.someOf t) o i j ↔ Derives env ts t o i j ∧ i < j := by
  rw [derives_nonEmpty_iff, derives_row_iff]
  simp

theorem derives_bounded_iff {t : Grammar} {min hi : Int} {separated : Bool} :
    Derives env ts (.multiplier t min (some hi) separated) o i j ↔
      ∃ k : Nat, min ≤ k ∧ k ≤ hi ∧
        Joined (fun t => Derives env ts t o) (spread (Grammar.separator separated) t k) i j := by
  constructor
  · intro h
    cases h with
    | bounded hmin hmax hs => exact ⟨_, hmin, hmax, derives_row_iff.mp hs⟩
  · rintro ⟨k, hmin, hmax, hs⟩; exact .bounded hmin hmax (derives_row_iff.mpr hs)

theorem derives_unbounded_iff {t : Grammar} {min : Int} {separated : Bool} :
    Derives env ts (.multiplier t min none separated) o i j ↔
      (min = 0 ∧ i = j) ∨ ∃ k : Nat, max min 1 ≤ k ∧
        Joined (fun t => Derives env ts t o)
          (spread (Grammar.separator separated) (.someOf t) k) i j := by
  constructor
  · intro h
    cases h with
    | unbounded hmin hs => exact .inr ⟨_, hmin, derives_row_iff.mp hs⟩
    | unboundedNone => exact .inl ⟨rfl, rfl⟩
  · rintro (⟨rfl, rfl⟩ | ⟨k, hmin, hs⟩)
    · exact .unboundedNone
    · exact .unbounded hmin (derives_row_iff.mpr hs)

/-! ## References -/

/-- The node of a reference without a range of its own. -/
def Reference.node (r : Reference) : Grammar :=
  match r.kind with
  | .type => .type r.name none
  | .property => .property r.name

/-- What references match: the values derived from their nodes. -/
def Derives.calls (env : Reference → Option Meaning) (ts : List Token) : Calls :=
  fun r o i j => Derives env ts r.node o i j

theorem Derives.calls_forward : (Derives.calls env ts).Forward ts :=
  fun _ _ _ _ h => h.forward

/-- The range of a reference to a type counts as the range around it. -/
theorem derives_type_iff {name : String} {range : Option Range} :
    Derives env ts (.type name range) o i j ↔
      Derives.calls env ts ⟨.type, name⟩ (range <|> o) i j := by
  constructor
  · intro h
    cases h with
    | type he h => exact .type he (by simpa using h)
    | generic he h hpos => exact .generic he (by simpa using h) hpos
  · intro h
    cases h with
    | type he h => exact .type he (by simpa using h)
    | generic he h hpos => exact .generic he (by simpa using h) hpos

theorem calls_grammar_iff {r : Reference} {g : Grammar} (he : env r = some (.grammar g)) :
    Derives.calls env ts r o i j ↔ Derives env ts g o i j := by
  obtain ⟨kind, name⟩ := r
  cases kind with
  | type =>
      constructor
      · intro h
        cases h with
        | type he' h => rw [he] at he'; cases he'; simpa using h
        | generic he' _ _ => rw [he] at he'; cases he'
      · intro h; exact .type he (by simpa using h)
  | property =>
      constructor
      · intro h
        cases h with
        | property he' h => rw [he] at he'; cases he'; exact h
      · intro h; exact .property he h

theorem calls_recognizer_iff {name : String} {count : Recognition}
    (he : env ⟨.type, name⟩ = some (.recognizer count)) :
    Derives.calls env ts ⟨.type, name⟩ o i j ↔
      0 < count (ts.drop i) o ∧ j = i + min (count (ts.drop i) o) (ts.length - i) := by
  constructor
  · intro h
    cases h with
    | type he' _ => rw [he] at he'; cases he'
    | generic he' h hpos =>
        rw [he] at he'
        cases he'
        subst h
        exact ⟨hpos, rfl⟩
  · rintro ⟨hpos, rfl⟩
    exact .generic he (by simp) hpos

theorem not_calls_of_eq_none {r : Reference} (he : env r = none) : ¬ Derives.calls env ts r o i j := by
  obtain ⟨kind, name⟩ := r
  cases kind with
  | type =>
      intro h
      cases h with
      | type he' _ => rw [he] at he'; cases he'
      | generic he' _ _ => rw [he] at he'; cases he'
  | property =>
      intro h
      cases h with
      | property he' _ => rw [he] at he'; cases he'

end ValueGrammar

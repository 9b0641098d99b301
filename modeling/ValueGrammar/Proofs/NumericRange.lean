import ValueGrammar.Grammar.Reader
import ValueGrammar.Recognizer

/-!
# `ValueGrammar.Proofs.NumericRange` — a range keeps some of the numbers

A reference to a type of numbers may carry a range. Whatever the type, the range leaves out the tokens
whose number is not within it, and no others; how much of a token is the number is told by its kind. The
exception are lengths and angles: a zero may be written without a unit there, and such a zero is taken
whether the range has it or not.

## Contents
- `Recognizer.isNumeric`, `Recognizer.numberText`: the types of numbers, and the number in a token.
- `Recognizer.Restricts`: a test that a range only filters; one lemma for each kind of token.
- `Recognizer.filters_iff`: exactly where a range is a filter.
- `Recognizer.zero_outside_range`: a zero that is taken outside the range.
-/

namespace ValueGrammar

namespace Recognizer

/-- The types of numbers. -/
def isNumeric : Recognizer → Bool
  | .number | .integer | .percentage | .dimension | .length | .angle | .time | .frequency
  | .resolution | .flex => true
  | _ => false

/-- The number in a token: a percentage without its sign, a dimension without its unit, and any other
token as it is. -/
def numberText (t : Token) : String :=
  match t.kind with
  | .percentage => percentageNumber t.value
  | .dimension => String.ofList (t.value.toList.take (numericPrefix t.value.toList))
  | _ => t.value

/-- The number in the token can be read, and is within the range. -/
def Within (range : Range) (t : Token) : Prop :=
  ∃ v, Binary64.read? (numberText t) = some v ∧ range.lo.le v = true ∧ v.le range.hi = true

/-- A range is a filter for the type at a token: with the range, the type has those of its values whose
number is within it. -/
def Filters (r : Recognizer) (range : Range) (t : Token) (ts : List Token) : Prop :=
  0 < r.consume (t :: ts) (some range) ↔ 0 < r.consume (t :: ts) none ∧ Within range t

variable {r : Recognizer} {range : Range} {t : Token} {ts : List Token}

/-! ## Tests of one token -/

theorem inRange_iff : inRange (numberText t) (some range) = true ↔ Within range t := by
  unfold inRange Within Range.contains
  cases Binary64.read? (numberText t) with
  | none => simp
  | some v => simp

/-- With a range, a test passes those tokens whose number is within it. -/
def Restricts (p : Token → Option Range → Bool) : Prop :=
  ∀ t range, p t (some range) = (p t none && inRange (numberText t) (some range))

theorem restricts_isNumber : Restricts isNumber := by
  intro t range
  cases hk : t.kind == .number with
  | false => simp [isNumber, hk]
  | true => simp [isNumber, inRange, numberText, beq_iff_eq.mp hk]

theorem restricts_isInteger : Restricts isInteger := by
  intro t range
  cases hk : t.kind == .number with
  | false => simp [isInteger, hk]
  | true => simp [isInteger, inRange, numberText, beq_iff_eq.mp hk]

theorem restricts_isPercentage : Restricts isPercentage := by
  intro t range
  cases hk : t.kind == .percentage with
  | false => simp [isPercentage, hk]
  | true => simp [isPercentage, inRange, numberText, beq_iff_eq.mp hk]

theorem restricts_isDimension (units : Option (List String)) : Restricts (isDimension units) := by
  intro t range
  cases hk : t.kind == .dimension with
  | false => simp [isDimension, hk]
  | true => simp [isDimension, inRange, numberText, beq_iff_eq.mp hk, Bool.and_assoc]

/-! ## Types -/

/-- A token that is no function is a value of a type of numbers if it passes the test of the type. -/
theorem numeric_pos_iff {p : Token → Bool} (ht : t.kind ≠ .function) :
    0 < numeric p (t :: ts) ↔ p t = true := by
  have hk : (t.kind == .function) = false := by simpa using ht
  rw [numeric, hk]
  cases p t <;> simp

/-- A range is a filter for a type whose test it restricts. -/
theorem Restricts.iff {p : Token → Option Range → Bool} (hp : Restricts p)
    (ht : t.kind ≠ .function) :
    (0 < numeric (p · (some range)) (t :: ts) ↔
      0 < numeric (p · none) (t :: ts) ∧ Within range t) := by
  rw [numeric_pos_iff ht, numeric_pos_iff ht, hp t range, Bool.and_eq_true, inRange_iff]

/-- Where a zero without a unit is allowed, a range is a filter for all tokens but such a zero, which has
to be within the range by itself. -/
theorem zeroOr_iff {p : Token → Option Range → Bool} (hp : Restricts p)
    (ht : t.kind ≠ .function) :
    (0 < numeric (fun t => isZero t || p t (some range)) (t :: ts) ↔
      0 < numeric (fun t => isZero t || p t none) (t :: ts) ∧ Within range t) ↔
        (isZero t = true → Within range t) := by
  rw [numeric_pos_iff ht, numeric_pos_iff ht]
  cases h : isZero t with
  | true => simp
  | false => simp [hp t range, inRange_iff]

/-- **A range is a filter for the types of numbers**, at every token that is no function, exactly unless
the type allows a zero without a unit, the token is one, and the range does not have it. -/
theorem filters_iff (hr : r.isNumeric = true) (ht : t.kind ≠ .function) :
    r.Filters range t ts ↔ ((r = .length ∨ r = .angle) → isZero t = true → Within range t) := by
  unfold Filters
  cases r with
  | number => simpa [consume] using restricts_isNumber.iff ht
  | integer => simpa [consume] using restricts_isInteger.iff ht
  | percentage => simpa [consume] using restricts_isPercentage.iff ht
  | dimension => simpa [consume] using (restricts_isDimension none).iff ht
  | time => simpa [consume] using (restricts_isDimension (some timeUnits)).iff ht
  | frequency => simpa [consume] using (restricts_isDimension (some frequencyUnits)).iff ht
  | resolution => simpa [consume] using (restricts_isDimension (some resolutionUnits)).iff ht
  | flex => simpa [consume] using (restricts_isDimension (some flexUnits)).iff ht
  | length =>
      simpa [consume] using zeroOr_iff (restricts_isDimension _) ht
  | angle =>
      simpa [consume] using zeroOr_iff (restricts_isDimension _) ht
  | _ => cases hr

/-- The range `[0,1]`. -/
def zeroToOne : Range := ⟨.finite false 0, .finite false (Nat.pow 2 Binary64.unitBits)⟩

/-- A zero as an angle, where the range has it. -/
theorem filters_iff_zero :
    Recognizer.angle.isNumeric = true ∧ (⟨.number, "-0.0", none⟩ : Token).kind ≠ .function ∧
      Recognizer.angle.Filters zeroToOne ⟨.number, "-0.0", none⟩ [] := by
  refine ⟨rfl, by decide, (filters_iff rfl (by decide)).mpr fun _ _ => ?_⟩
  exact ⟨.finite true 0, rfl, by decide +kernel, by decide +kernel⟩

/-- The range `[1,2]`. -/
def oneToTwo : Range :=
  ⟨.finite false (Nat.pow 2 Binary64.unitBits), .finite false (Nat.pow 2 (Binary64.unitBits + 1))⟩

/-- As a length between one and two, a zero is taken. -/
theorem zero_outside_range :
    Binary64.read? "1" = some oneToTwo.lo ∧ Binary64.read? "2" = some oneToTwo.hi ∧
      Recognizer.length.consume [⟨.number, "0", none⟩] (some oneToTwo) = 1 ∧
      ¬ Within oneToTwo ⟨.number, "0", none⟩ ∧
      ¬ Recognizer.length.Filters oneToTwo ⟨.number, "0", none⟩ [] := by
  have htaken : Recognizer.length.consume [⟨.number, "0", none⟩] (some oneToTwo) = 1 := rfl
  have hout : ¬ Within oneToTwo ⟨.number, "0", none⟩ := by
    rintro ⟨v, hv, hlo, -⟩
    cases hv
    revert hlo
    decide +kernel
  refine ⟨by decide +kernel, by decide +kernel, htaken, hout,
    fun hfilter => hout (hfilter.mp ?_).2⟩
  rw [htaken]
  exact Nat.one_pos

end Recognizer

end ValueGrammar

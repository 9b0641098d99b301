import ValueGrammar.Machine

/-!
# `ValueGrammar.Proofs.Leaf` — a leaf never reads past the tokens

Every leaf says how many of the tokens ahead it takes. A generic type is given no more tokens than
there are, whatever its recognizer counts. The recognizers of the types of CSS count brackets, read
strings of several tokens or look at one token only, and count no more tokens than there are anyway.

## Contents
- `Recognizer.consume_le`: a recognizer's count is bounded by the tokens it was given.
- `Leaf.take_le`: a leaf takes no more tokens than there are.
-/

namespace ValueGrammar

/-! ## Recognizers -/

namespace Recognizer

theorem single_le (p : Token → Bool) (ahead : List Token) : single p ahead ≤ ahead.length := by
  cases ahead with
  | nil => simp [single]
  | cons t ts => simp only [single, List.length_cons]; split <;> omega

theorem urlLength_le (ahead : List Token) : urlLength ahead ≤ ahead.length := by
  unfold urlLength
  repeat' split
  all_goals simp

/-- A function that closes does so within the tokens given. -/
theorem functionLength?_le {depth n : Nat} {ts : List Token} (h : functionLength? depth ts = some n) :
    n ≤ ts.length := by
  induction ts generalizing depth n with
  | nil => simp [functionLength?] at h
  | cons t ts ih =>
      simp only [functionLength?] at h
      rw [List.length_cons]
      split at h
      · obtain ⟨k, hk, rfl⟩ := Option.map_eq_some_iff.mp h
        have := ih hk; omega
      · obtain ⟨k, hk, rfl⟩ := Option.map_eq_some_iff.mp h
        have := ih hk; omega
      · split at h
        · cases h; omega
        · obtain ⟨k, hk, rfl⟩ := Option.map_eq_some_iff.mp h
          have := ih hk; omega
      · obtain ⟨k, hk, rfl⟩ := Option.map_eq_some_iff.mp h
        have := ih hk; omega

theorem functionLength_le (ahead : List Token) : functionLength ahead ≤ ahead.length := by
  cases ahead with
  | nil => simp [functionLength]
  | cons t ts =>
      rw [functionLength, List.length_cons]
      cases h : functionLength? 1 ts with
      | none => simp
      | some n =>
          have := functionLength?_le h
          simpa using this

theorem numeric_le (p : Token → Bool) (ahead : List Token) : numeric p ahead ≤ ahead.length := by
  cases ahead with
  | nil => simp [numeric]
  | cons t ts =>
      simp only [numeric]
      split
      · split
        · exact functionLength_le (t :: ts)
        · exact Nat.zero_le _
      · rw [List.length_cons]; split <;> omega

theorem balancedLength_le (declaration : Bool) (closers : List TokenKind) (ahead : List Token) :
    balancedLength declaration closers ahead ≤ ahead.length := by
  induction ahead generalizing closers with
  | nil => simp [balancedLength]
  | cons t ts ih =>
      rw [balancedLength, List.length_cons]
      split
      · exact Nat.succ_le_succ (ih _)
      · exact Nat.zero_le _

/-- **A recognizer counts only tokens there are.** -/
theorem consume_le (r : Recognizer) (ahead : List Token) (range : Option Range) :
    r.consume ahead range ≤ ahead.length := by
  cases r with
  | ident | customIdent | dashedIdent | customPropertyName | string | hexColor | zero | urange =>
      exact single_le _ _
  | number | integer | percentage | dimension | length | angle | time | frequency | resolution
  | flex => exact numeric_le _ _
  | url => exact urlLength_le _
  | declarationValue | anyValue => exact balancedLength_le _ _ _

end Recognizer

/-! ## Leaves -/

theorem spellingLength_le (size : Nat) (ts : List Token) : spellingLength size ts ≤ ts.length := by
  induction ts generalizing size with
  | nil => simp [spellingLength]
  | cons t ts ih =>
      rw [spellingLength, List.length_cons]
      split
      · exact Nat.zero_le _
      · exact Nat.succ_le_succ (ih _)

namespace Leaf

theorem takeOne_le (p : Token → Bool) (ahead : List Token) : (takeOne p ahead).1 ≤ ahead.length := by
  cases ahead with
  | nil => simp [takeOne]
  | cons t ts => simp only [takeOne, List.length_cons]; split <;> simp

theorem takeComma_le (last : Option Token) (ahead : List Token) :
    (takeComma last ahead).1 ≤ ahead.length := by
  cases ahead with
  | nil => simp [takeComma]
  | cons t ts =>
      simp only [takeComma, List.length_cons]
      split
      · split <;> simp
      · simp

/-- **A leaf takes only tokens there are.** -/
theorem take_le (l : Leaf) (last : Option Token) (range : Option Range) (ahead : List Token) :
    (l.take last range ahead).1 ≤ ahead.length := by
  cases l with
  | keyword name => exact takeOne_le _ _
  | atKeyword name => exact takeOne_le _ _
  | function name => exact takeOne_le _ _
  | token value => exact takeOne_le _ _
  | comma => exact takeComma_le _ _
  | string value size =>
      simp only [take]
      split
      · exact spellingLength_le _ _
      · exact Nat.zero_le _
  | generic name count => exact Nat.min_le_right _ _

/-- A recognizer of a type of CSS is given all the tokens it counts. -/
theorem take_generic (name : String) (r : Recognizer) (last : Option Token) (range : Option Range)
    (ahead : List Token) :
    (Leaf.generic name r).take last range ahead =
      (r.consume ahead range, decide (0 < r.consume ahead range)) := by
  simp only [take, Nat.min_eq_left (r.consume_le ahead range)]

theorem le_length_of_take {l : Leaf} {last : Option Token} {range : Option Range}
    {ahead : List Token} {n : Nat} {ok : Bool} (h : l.take last range ahead = (n, ok)) :
    n ≤ ahead.length := by
  have hle := l.take_le last range ahead
  rwa [h] at hle

end Leaf

end ValueGrammar

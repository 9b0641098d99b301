import ValueGrammar.Proofs.Folding.Table
import ValueGrammar.Proofs.LongestNumber
import ValueGrammar.Proofs.Number

/-!
# `ValueGrammar.Proofs.Case.Letters` — what is read off a text in either case

Letters are compared without their case in some places and character by character in others: units,
reserved words and names of functions in lower case, exponents and hexadecimal digits in both cases.
Where characters are compared as they are, they are no letters. So nothing that is read off a text
depends on the case of its ASCII letters: not its form in lower case, not the number it stands for, and
not how many of its characters or tokens belong to a generic type.

## Contents
- `Text.lower_lowerAscii`, `Text.equalFold_lowerAscii`, `stripHack_lowerAscii`: texts.
- `Numeral.read?_map_toLower`, `Binary64.read?_lowerAscii`: numbers.
- `numericPrefix_map_toLower`: where the number in a dimension ends.
- `Token.lowered`: a token in lower case.
- `Recognizer.consume_lowered`: every generic type takes as many tokens in lower case.
-/

namespace ValueGrammar

/-! ## Characters -/

namespace Text

variable {c d : Char}

@[simp] theorem isDigit_toLower (c : Char) : c.toLower.isDigit = c.isDigit := by
  have h := toNat_toLower c
  rw [Bool.eq_iff_iff]
  simp only [Char.isDigit, Bool.and_eq_true, decide_eq_true_eq, ge_iff_le, UInt32.le_iff_toNat_le]
  change 48 ≤ c.toLower.toNat ∧ c.toLower.toNat ≤ 57 ↔ 48 ≤ c.toNat ∧ c.toNat ≤ 57
  split at h <;> omega

theorem utf8Size_toLower (c : Char) : c.toLower.utf8Size = c.utf8Size := by
  have h := toNat_toLower c
  simp only [Char.utf8Size, UInt32.le_iff_toNat_le]
  change (if c.toLower.toNat ≤ 127 then 1 else if c.toLower.toNat ≤ 2047 then 2 else
      if c.toLower.toNat ≤ 65535 then 3 else 4) =
    if c.toNat ≤ 127 then 1 else if c.toNat ≤ 2047 then 2 else if c.toNat ≤ 65535 then 3 else 4
  split at h
  · rw [if_pos (by omega), if_pos (by omega)]
  · rw [h]

/-! ## Texts -/

variable (s t : String)

@[simp] theorem toList_lowerAscii : (lowerAscii s).toList = s.toList.map Char.toLower :=
  String.toList_ofList

@[simp] theorem lower_lowerAscii : lower (lowerAscii s) = lower s := by
  simp [lower, Function.comp_def]

@[simp] theorem equalFold_lowerAscii : equalFold (lowerAscii s) t = equalFold s t := by
  simp [equalFold, Function.comp_def]

@[simp] theorem length_lowerAscii : (lowerAscii s).length = s.length := by
  rw [← String.length_toList, toList_lowerAscii, List.length_map, String.length_toList]

theorem lowerAscii_append : lowerAscii (s ++ t) = lowerAscii s ++ lowerAscii t := by
  refine String.toList_inj.mp ?_
  simp

theorem lowerAscii_ofList (cs : List Char) :
    lowerAscii (String.ofList cs) = String.ofList (cs.map Char.toLower) := by
  refine String.toList_inj.mp ?_
  simp

@[simp] theorem utf8ByteSize_lowerAscii : (lowerAscii s).utf8ByteSize = s.utf8ByteSize := by
  have hsize : ∀ cs : List Char,
      (String.ofList (cs.map Char.toLower)).utf8ByteSize = (String.ofList cs).utf8ByteSize := by
    intro cs
    induction cs with
    | nil => rfl
    | cons c cs ih =>
        rw [List.map_cons, String.ofList_cons, String.ofList_cons, String.utf8ByteSize_append,
          String.utf8ByteSize_append, ih]
        simp [utf8Size_toLower]
  rw [lowerAscii, hsize, String.ofList_toList]

/-- A text without letters is the lower case of itself only. -/
theorem lowerAscii_eq_iff {s t : String} (ht : ∀ c ∈ t.toList, c.isAlpha = false) :
    lowerAscii s = t ↔ s = t := by
  rw [← String.toList_inj, ← String.toList_inj, toList_lowerAscii]
  generalize t.toList = ds at ht
  generalize s.toList = cs
  induction cs generalizing ds with
  | nil => simp
  | cons c cs ih =>
      cases ds with
      | nil => simp
      | cons d ds =>
          have hd : d.isAlpha = false := ht d List.mem_cons_self
          rw [List.map_cons, List.cons_eq_cons, List.cons_eq_cons,
            toLower_eq_iff_of_not_isAlpha hd, ih ds fun c hc => ht c (List.mem_cons_of_mem d hc)]

theorem lowerAscii_beq {t : String} (ht : ∀ c ∈ t.toList, c.isAlpha = false) (s : String) :
    (lowerAscii s == t) = (s == t) := by
  rw [Bool.eq_iff_iff, beq_iff_eq, beq_iff_eq, lowerAscii_eq_iff ht]

end Text

@[simp] theorem stripHack_lowerAscii (s : String) :
    stripHack (Text.lowerAscii s) = Text.lowerAscii (stripHack s) := by
  refine String.toList_inj.mp ?_
  simp [stripHack, withoutHack_map_toLower]

/-! ## Scanners -/

namespace Scan

@[simp] theorem sign_map_toLower (cs : List Char) : sign (cs.map Char.toLower) = sign cs := by
  cases cs with
  | nil => rfl
  | cons c cs =>
      rw [List.map_cons, sign_cons, sign_cons]
      simp only [Text.toLower_eq_iff (show '+'.toNat < 65 by decide),
        Text.toLower_eq_iff (show '-'.toNat < 65 by decide)]

/-- A run of characters that are told apart without their case. -/
theorem run_map_toLower {p : Char → Bool} (hp : ∀ c, p c.toLower = p c) (cs : List Char) :
    run p (cs.map Char.toLower) = run p cs := by
  rw [run, List.takeWhile_map, List.length_map, run]
  congr 2
  funext c
  exact hp c

@[simp] theorem isHexDigit_toLower (c : Char) : isHexDigit c.toLower = isHexDigit c := by
  have h := Text.toNat_toLower c
  rw [isHexDigit, isHexDigit, Text.isDigit_toLower, Bool.eq_iff_iff]
  simp only [Bool.or_eq_true, Bool.and_eq_true, decide_eq_true_eq, Char.le_def,
    UInt32.le_iff_toNat_le]
  change (_ ∨ 97 ≤ c.toLower.toNat ∧ c.toLower.toNat ≤ 102) ∨
      65 ≤ c.toLower.toNat ∧ c.toLower.toNat ≤ 70 ↔
    (_ ∨ 97 ≤ c.toNat ∧ c.toNat ≤ 102) ∨ 65 ≤ c.toNat ∧ c.toNat ≤ 70
  generalize (c.isDigit = true) = digit
  split at h <;> grind

/-- The mark of an exponent is looked for in both cases. -/
theorem isExponentMark_toLower (c : Char) :
    (c.toLower == 'e' || c.toLower == 'E') = (c == 'e' || c == 'E') := by
  have h := Text.toNat_toLower c
  rw [Bool.eq_iff_iff]
  simp only [Bool.or_eq_true, beq_iff_eq, ← Char.toNat_inj]
  change c.toLower.toNat = 101 ∨ c.toLower.toNat = 69 ↔ c.toNat = 101 ∨ c.toNat = 69
  split at h <;> omega

@[simp] theorem exponent_map_toLower (cs : List Char) :
    exponent (cs.map Char.toLower) = exponent cs := by
  cases cs with
  | nil => rfl
  | cons c cs =>
      simp only [List.map_cons, exponent, isExponentMark_toLower, sign_map_toLower,
        ← List.map_drop, run_map_toLower Text.isDigit_toLower]

end Scan

@[simp] theorem fractionLength_map_toLower (cs : List Char) :
    fractionLength (cs.map Char.toLower) = fractionLength cs := by
  cases cs with
  | nil => rfl
  | cons c r =>
      rw [List.map_cons, fractionLength_cons, fractionLength_cons,
        Scan.run_map_toLower Text.isDigit_toLower]
      simp only [Text.toLower_eq_iff (show '.'.toNat < 65 by decide)]

@[simp] theorem numericPrefix_map_toLower (cs : List Char) :
    numericPrefix (cs.map Char.toLower) = numericPrefix cs := by
  simp only [numericPrefix_eq, Scan.sign_map_toLower, ← List.map_drop, fractionLength_map_toLower,
    Scan.run_map_toLower Text.isDigit_toLower, Scan.exponent_map_toLower]

/-! ## Numbers -/

namespace Numeral

@[simp] theorem digit?_toLower (hexadecimal : Bool) (c : Char) :
    digit? hexadecimal c.toLower = digit? hexadecimal c := by
  unfold digit?
  rw [Text.isDigit_toLower, Text.toLower_toLower]
  cases hc : c.isDigit with
  | true => rw [toLower_of_isDigit hc]
  | false => rfl

theorem takeSign_cons (c : Char) (cs : List Char) :
    takeSign (c :: cs) =
      if c = '+' then (false, cs) else if c = '-' then (true, cs) else (false, c :: cs) := by
  unfold takeSign
  split <;> simp_all

theorem takeSign_map_toLower (cs : List Char) :
    takeSign (cs.map Char.toLower) = ((takeSign cs).1, (takeSign cs).2.map Char.toLower) := by
  cases cs with
  | nil => rfl
  | cons c cs =>
      rw [List.map_cons, takeSign_cons, takeSign_cons]
      simp only [Text.toLower_eq_iff (show '+'.toNat < 65 by decide),
        Text.toLower_eq_iff (show '-'.toNat < 65 by decide)]
      split
      · rfl
      · split <;> rfl

theorem takeHexMark_cons (z x c : Char) (cs : List Char) :
    takeHexMark (z :: x :: c :: cs) =
      if z = '0' ∧ x.toLower = 'x' then some (c :: cs) else none := by
  by_cases hz : z = '0'
  · subst hz
    simp [takeHexMark]
  · rw [takeHexMark, if_neg fun h => hz h.1]
    exact fun _ _ _ heq => absurd (List.cons.inj heq).1 hz

theorem takeHexMark_map_toLower (cs : List Char) :
    takeHexMark (cs.map Char.toLower) = (takeHexMark cs).map (List.map Char.toLower) := by
  rcases cs with _ | ⟨z, _ | ⟨x, _ | ⟨c, cs⟩⟩⟩
  · rfl
  · simp [takeHexMark]
  · simp [takeHexMark]
  · simp only [List.map_cons, takeHexMark_cons, Text.toLower_toLower,
      Text.toLower_eq_iff (show '0'.toNat < 65 by decide)]
    split <;> rfl

/-- The digits end at the same character. The induction is on the characters. -/
theorem takeDigits_map_toLower (hexadecimal : Bool) (cs : List Char) (d : Digits) :
    takeDigits hexadecimal (cs.map Char.toLower) d =
      ((takeDigits hexadecimal cs d).1, (takeDigits hexadecimal cs d).2.map Char.toLower) := by
  induction cs generalizing d with
  | nil => rfl
  | cons c cs ih =>
      rw [List.map_cons, takeDigits, takeDigits]
      simp only [beq_iff_eq, Text.toLower_eq_iff (show '.'.toNat < 65 by decide),
        Text.toLower_eq_iff_of_not_isAlpha (show '_'.isAlpha = false by decide), digit?_toLower, ih]
      split
      · rfl
      · split
        · split <;> rfl
        · split <;> rfl

theorem exponentDigits?_map_toLower (cs : List Char) (n : Nat) :
    exponentDigits? (cs.map Char.toLower) n = exponentDigits? cs n := by
  induction cs generalizing n with
  | nil => rfl
  | cons c cs ih =>
      rw [List.map_cons, exponentDigits?, exponentDigits?, Text.isDigit_toLower]
      simp only [beq_iff_eq, ih,
        Text.toLower_eq_iff_of_not_isAlpha (show '_'.isAlpha = false by decide)]
      split
      · rfl
      · split
        · rename_i hd
          rw [toLower_of_isDigit hd]
        · rfl

theorem exponent?_map_toLower (cs : List Char) :
    exponent? (cs.map Char.toLower) = exponent? cs := by
  unfold exponent?
  rw [takeSign_map_toLower]
  cases h : (takeSign cs).2 with
  | nil => simp [h]
  | cons c r =>
      have hdigits := exponentDigits?_map_toLower (c :: r) 0
      rw [List.map_cons] at hdigits
      simp only [h, List.map_cons, Text.isDigit_toLower, hdigits]

theorem parts?_map_toLower (cs : List Char) : parts? (cs.map Char.toLower) = parts? cs := by
  unfold parts?
  simp only [takeSign_map_toLower, takeHexMark_map_toLower]
  cases takeHexMark (takeSign cs).2 with
  | none =>
      simp only [Option.map_none, takeDigits_map_toLower]
      cases (takeDigits false (takeSign cs).2 {}).2 with
      | nil => rfl
      | cons c r => simp only [List.map_cons, Text.toLower_toLower, exponent?_map_toLower]
  | some body =>
      simp only [Option.map_some, takeDigits_map_toLower]
      cases (takeDigits true body {}).2 with
      | nil => rfl
      | cons c r => simp only [List.map_cons, Text.toLower_toLower, exponent?_map_toLower]

theorem separatorsBetween_map_toLower (hexadecimal : Bool) (cs : List Char) (seen : Seen) :
    separatorsBetween hexadecimal (cs.map Char.toLower) seen =
      separatorsBetween hexadecimal cs seen := by
  induction cs generalizing seen with
  | nil => rfl
  | cons c cs ih =>
      rw [List.map_cons, separatorsBetween, separatorsBetween]
      simp only [beq_iff_eq, digit?_toLower, ih,
        Text.toLower_eq_iff_of_not_isAlpha (show '_'.isAlpha = false by decide)]

/-- Where `_` may stand after the sign, with the mark of a base as a condition. -/
theorem separatorsOk_eq (cs : List Char) :
    separatorsOk cs =
      match (takeSign cs).2 with
      | z :: x :: r =>
        if z = '0' ∧ x.toLower = 'x' then separatorsBetween true r .digit
        else if z = '0' ∧ (x.toLower = 'b' ∨ x.toLower = 'o') then separatorsBetween false r .digit
        else separatorsBetween false (z :: x :: r) .start
      | r => separatorsBetween false r .start := by
  unfold separatorsOk
  rcases (takeSign cs).2 with _ | ⟨z, _ | ⟨x, r⟩⟩
  · rfl
  · by_cases hz : z = '0'
    · subst hz
      rfl
    · split
      · rename_i heq
        exact absurd (List.cons.inj heq).1 hz
      · rfl
  · by_cases hz : z = '0'
    · subst hz
      simp
    · simp only [hz, false_and, if_false]
      split
      · rename_i heq
        injection heq with hz' _
        exact absurd hz' hz
      · rfl

theorem separatorsOk_map_toLower (cs : List Char) :
    separatorsOk (cs.map Char.toLower) = separatorsOk cs := by
  rw [separatorsOk_eq, separatorsOk_eq, takeSign_map_toLower]
  rcases (takeSign cs).2 with _ | ⟨z, _ | ⟨x, r⟩⟩
  · rfl
  · exact separatorsBetween_map_toLower false [z] .start
  · have hwhole := separatorsBetween_map_toLower false (z :: x :: r) .start
    simp only [List.map_cons] at hwhole
    simp only [List.map_cons, Text.toLower_toLower, separatorsBetween_map_toLower, hwhole,
      Text.toLower_eq_iff (show '0'.toNat < 65 by decide)]

theorem contains_map_toLower {c : Char} (hc : c.isAlpha = false) (cs : List Char) :
    (cs.map Char.toLower).contains c = cs.contains c := by
  rw [Bool.eq_iff_iff, List.contains_iff_mem, List.contains_iff_mem, List.mem_map]
  constructor
  · rintro ⟨d, hd, he⟩
    rwa [(Text.toLower_eq_iff_of_not_isAlpha hc).mp he] at hd
  · exact fun h => ⟨c, h, (Text.toLower_eq_iff_of_not_isAlpha hc).mpr rfl⟩

theorem read?_map_toLower (cs : List Char) : read? (cs.map Char.toLower) = read? cs := by
  rw [read?, read?, contains_map_toLower (by decide), separatorsOk_map_toLower, parts?_map_toLower]

end Numeral

namespace Binary64

theorem word?_map_toLower (cs : List Char) : word? (cs.map Char.toLower) = word? cs := by
  have hlower : ∀ r : List Char, (r.map Char.toLower).map Char.toLower = r.map Char.toLower := by
    intro r
    rw [List.map_map]
    exact List.map_congr_left fun c _ => Text.toLower_toLower c
  unfold word?
  simp only [hlower, Numeral.takeSign_map_toLower]

/-- **A number is the same in either case.** -/
@[simp] theorem read?_lowerAscii (s : String) : read? (Text.lowerAscii s) = read? s := by
  rw [read?, read?, Text.toList_lowerAscii, word?_map_toLower, Numeral.read?_map_toLower]

end Binary64

/-! ## Tokens -/

/-- The token with the ASCII letters of its value in lower case, and without its mark. -/
def Token.lowered (t : Token) : Token := { kind := t.kind, value := Text.lowerAscii t.value }

@[simp] theorem Token.kind_lowered (t : Token) : t.lowered.kind = t.kind := rfl

@[simp] theorem Token.value_lowered (t : Token) : t.lowered.value = Text.lowerAscii t.value := rfl

theorem Token.joined_lowered (ts : List Token) :
    Token.joined (ts.map Token.lowered) = Text.lowerAscii (Token.joined ts) := by
  unfold Token.joined
  induction ts with
  | nil => rfl
  | cons t ts ih =>
      rw [List.map_cons, List.map_cons, List.map_cons, String.join_cons, String.join_cons, ih,
        Text.lowerAscii_append, Token.value_lowered]

namespace Recognizer

variable {t : Token} {range : Option Range}

@[simp] theorem inRange_lowerAscii (s : String) (range : Option Range) :
    inRange (Text.lowerAscii s) range = inRange s range := by
  simp [inRange]

@[simp] theorem isCustomIdent_lowered (t : Token) : isCustomIdent t.lowered = isCustomIdent t := by
  simp [isCustomIdent]

/-- Do the characters start with two dashes that something follows? -/
def hasDashes : List Char → Bool
  | '-' :: '-' :: _ :: _ => true
  | _ => false

theorem hasDashes_cons (a b c : Char) (cs : List Char) :
    hasDashes (a :: b :: c :: cs) = decide (a = '-' ∧ b = '-') := by
  unfold hasDashes
  split
  · simp_all
  · rename_i hne
    rw [decide_eq_false]
    rintro ⟨rfl, rfl⟩
    exact hne c cs rfl

theorem hasDashes_map_toLower (cs : List Char) :
    hasDashes (cs.map Char.toLower) = hasDashes cs := by
  rcases cs with _ | ⟨a, _ | ⟨b, _ | ⟨c, cs⟩⟩⟩
  · rfl
  · simp [hasDashes]
  · simp [hasDashes]
  · simp only [List.map_cons, hasDashes_cons, Text.toLower_eq_iff (show '-'.toNat < 65 by decide)]

theorem isDashedIdent_eq (t : Token) :
    isDashedIdent t = (t.kind == .ident && hasDashes t.value.toList) := rfl

@[simp] theorem isDashedIdent_lowered (t : Token) : isDashedIdent t.lowered = isDashedIdent t := by
  simp [isDashedIdent_eq, hasDashes_map_toLower]

/-- The characters of a colour after its sign. -/
def colorDigits : List Char → List Char
  | '#' :: r => r
  | r => r

theorem colorDigits_cons (c : Char) (cs : List Char) :
    colorDigits (c :: cs) = if c = '#' then cs else c :: cs := by
  unfold colorDigits
  split <;> simp_all

theorem colorDigits_map_toLower (cs : List Char) :
    colorDigits (cs.map Char.toLower) = (colorDigits cs).map Char.toLower := by
  cases cs with
  | nil => rfl
  | cons c cs =>
      simp only [List.map_cons, colorDigits_cons, Text.toLower_eq_iff (show '#'.toNat < 65 by decide)]
      split <;> rfl

theorem isHexColor_eq (t : Token) :
    isHexColor t = (t.kind == .hash &&
      ([3, 4, 6, 8].contains (colorDigits t.value.toList).length &&
        (colorDigits t.value.toList).all Scan.isHexDigit)) := rfl

@[simp] theorem isHexColor_lowered (t : Token) : isHexColor t.lowered = isHexColor t := by
  simp [isHexColor_eq, colorDigits_map_toLower, Function.comp_def]

@[simp] theorem isNumber_lowered (t : Token) (range : Option Range) :
    isNumber t.lowered range = isNumber t range := by
  simp [isNumber]

@[simp] theorem isInteger_lowered (t : Token) (range : Option Range) :
    isInteger t.lowered range = isInteger t range := by
  have hmark : ∀ c : Char,
      (c.toLower == '.' || c.toLower == 'e' || c.toLower == 'E') =
        (c == '.' || c == 'e' || c == 'E') := by
    intro c
    have hpoint : (c.toLower == '.') = (c == '.') := by
      rw [Bool.eq_iff_iff, beq_iff_eq, beq_iff_eq,
        Text.toLower_eq_iff (show '.'.toNat < 65 by decide)]
    rw [Bool.or_assoc, Scan.isExponentMark_toLower, hpoint, ← Bool.or_assoc]
  simp [isInteger, Function.comp_def, hmark]

theorem percentageNumber_lowerAscii (s : String) :
    percentageNumber (Text.lowerAscii s) = Text.lowerAscii (percentageNumber s) := by
  have hlast : ((s.toList.map Char.toLower).getLast? == some '%') =
      (s.toList.getLast? == some '%') := by
    rw [List.getLast?_map, Bool.eq_iff_iff, beq_iff_eq, beq_iff_eq]
    cases s.toList.getLast? with
    | none => simp
    | some c => simp [Text.toLower_eq_iff (show '%'.toNat < 65 by decide)]
  simp only [percentageNumber, Text.lowerAscii_ofList, Text.toList_lowerAscii, hlast]
  split
  · rw [List.map_dropLast]
  · rfl

@[simp] theorem isPercentage_lowered (t : Token) (range : Option Range) :
    isPercentage t.lowered range = isPercentage t range := by
  simp [isPercentage, percentageNumber_lowerAscii]

@[simp] theorem isZero_lowered (t : Token) : isZero t.lowered = isZero t := by
  simp [isZero]

@[simp] theorem isDimension_lowered (units : Option (List String)) (t : Token)
    (range : Option Range) : isDimension units t.lowered range = isDimension units t range := by
  simp only [isDimension, Token.kind_lowered, Token.value_lowered, Text.toList_lowerAscii,
    numericPrefix_map_toLower, List.length_map, ← List.map_drop, ← List.map_take,
    ← Text.lowerAscii_ofList, Text.lower_lowerAscii, inRange_lowerAscii]

/-! ### Several tokens -/

theorem functionLength?_lowered (depth : Nat) (ts : List Token) :
    functionLength? depth (ts.map Token.lowered) = functionLength? depth ts := by
  induction ts generalizing depth with
  | nil => rfl
  | cons t ts ih => simp only [List.map_cons, functionLength?, Token.kind_lowered, ih]

theorem functionLength_lowered (ts : List Token) :
    functionLength (ts.map Token.lowered) = functionLength ts := by
  cases ts with
  | nil => rfl
  | cons t ts => rw [List.map_cons, functionLength, functionLength, functionLength?_lowered]

theorem bracketsAfter_lowered (declaration : Bool) (closers : List TokenKind) (t : Token) :
    bracketsAfter declaration closers t.lowered = bracketsAfter declaration closers t := by
  have hmark : (Text.lowerAscii t.value == "!") = (t.value == "!") :=
    Text.lowerAscii_beq (by simp) t.value
  simp only [bracketsAfter, Token.kind_lowered, Token.value_lowered, hmark]

theorem balancedLength_lowered (declaration : Bool) (closers : List TokenKind) (ts : List Token) :
    balancedLength declaration closers (ts.map Token.lowered) =
      balancedLength declaration closers ts := by
  induction ts generalizing closers with
  | nil => rfl
  | cons t ts ih =>
      rw [List.map_cons, balancedLength, balancedLength, bracketsAfter_lowered]
      split
      · rw [ih]
      · rfl

theorem urlLength_lowered (ts : List Token) : urlLength (ts.map Token.lowered) = urlLength ts := by
  rcases ts with _ | ⟨t, _ | ⟨s, _ | ⟨e, ts⟩⟩⟩ <;> simp [urlLength]

theorem single_lowered {p : Token → Bool} (hp : ∀ t, p t.lowered = p t) (ts : List Token) :
    single p (ts.map Token.lowered) = single p ts := by
  cases ts with
  | nil => rfl
  | cons t ts => simp only [List.map_cons, single, hp]

theorem numeric_lowered {p : Token → Bool} (hp : ∀ t, p t.lowered = p t) (ts : List Token) :
    numeric p (ts.map Token.lowered) = numeric p ts := by
  cases ts with
  | nil => rfl
  | cons t ts =>
      have hlength := functionLength_lowered (t :: ts)
      rw [List.map_cons] at hlength
      simp only [List.map_cons, numeric, hp, hlength, Token.kind_lowered, Token.value_lowered,
        Text.lower_lowerAscii]

theorem numeric_isDimension_lowered (units : Option (List String)) (range : Option Range)
    (ts : List Token) :
    numeric (isDimension units · range) (ts.map Token.lowered) =
      numeric (isDimension units · range) ts := by
  refine numeric_lowered (fun t => ?_) ts
  rw [isDimension_lowered]

/-- Where a unit may be left out, it may for zero. -/
theorem numeric_isZero_lowered (units : Option (List String)) (range : Option Range)
    (ts : List Token) :
    numeric (fun t => isZero t || isDimension units t range) (ts.map Token.lowered) =
      numeric (fun t => isZero t || isDimension units t range) ts := by
  refine numeric_lowered (fun t => ?_) ts
  rw [isZero_lowered, isDimension_lowered]

/-- **Every generic type takes as many tokens in lower case as it takes of the tokens as they
are.** -/
theorem consume_lowered (r : Recognizer) (ahead : List Token) (range : Option Range) :
    r.consume (ahead.map Token.lowered) range = r.consume ahead range := by
  cases r with
  | ident | string | urange => exact single_lowered (fun _ => rfl) ahead
  | customIdent => exact single_lowered isCustomIdent_lowered ahead
  | dashedIdent | customPropertyName => exact single_lowered isDashedIdent_lowered ahead
  | hexColor => exact single_lowered isHexColor_lowered ahead
  | zero => exact single_lowered isZero_lowered ahead
  | url => exact urlLength_lowered ahead
  | number => exact numeric_lowered (fun t => isNumber_lowered t range) ahead
  | integer => exact numeric_lowered (fun t => isInteger_lowered t range) ahead
  | percentage => exact numeric_lowered (fun t => isPercentage_lowered t range) ahead
  | dimension => exact numeric_isDimension_lowered none range ahead
  | length => exact numeric_isZero_lowered (some lengthUnits) range ahead
  | angle => exact numeric_isZero_lowered (some angleUnits) range ahead
  | time => exact numeric_isDimension_lowered (some timeUnits) range ahead
  | frequency => exact numeric_isDimension_lowered (some frequencyUnits) range ahead
  | resolution => exact numeric_isDimension_lowered (some resolutionUnits) range ahead
  | flex => exact numeric_isDimension_lowered (some flexUnits) range ahead
  | declarationValue => exact balancedLength_lowered true [] ahead
  | anyValue => exact balancedLength_lowered false [] ahead

end Recognizer

end ValueGrammar

import ValueGrammar.Proofs.Combinators
import ValueGrammar.Proofs.Notation.Fused

/-!
# `ValueGrammar.Proofs.Notation.Reading` — reading the text of a grammar

The reader run on a text that was written by `Grammar.text`. What may come after a construct decides
where it ends, so each statement is about the text of the construct with a rest behind it, and says
which rests leave the construct alone.

## Contents
- `Parser.Reads`, `Parser.Refuses`: what a parser does in front of a rest; one rule for each way to
  build a parser.
- `Read.zeroOrMore_digit`: where the loop over digits ends.
- `Read.reads_multiplier`, `Read.reads_range`, `Read.reads_reference_type`, …: one statement for each
  construct of the notation that has no terms in it.
-/

namespace ValueGrammar

/-! ## Parsers -/

namespace Parser

variable {α β : Type} {p : Parser α} {s s' rest : List Char} {a : α} {b : β}

/-- In front of `rest` the parser takes the characters `s` and answers with `a`. -/
def Reads (p : Parser α) (s : List Char) (a : α) (rest : List Char) : Prop :=
  ∀ n, p ⟨n, s ++ rest⟩ = (.ok a, ⟨n + s.length, rest⟩)

/-- The parser backtracks if `rest` is ahead. -/
def Refuses (p : Parser α) (rest : List Char) : Prop :=
  ∀ n, ∃ message offset c, p ⟨n, rest⟩ = (.error (.backtrack message offset), c)

theorem reads_pure : Reads (pure a) [] a rest := fun _ => rfl

theorem reads_bind {f : α → Parser β} (hp : p.Reads s a (s' ++ rest))
    (hf : (f a).Reads s' b rest) : (p >>= f).Reads (s ++ s') b rest := by
  intro n
  change andThen p f _ = _
  rw [andThen, List.append_assoc, hp n]
  dsimp only
  rw [hf (n + s.length), List.length_append, Nat.add_assoc]

/-- A parser that takes nothing, then another one. -/
theorem reads_then {f : α → Parser β} (hp : p.Reads [] a (s ++ rest))
    (hf : (f a).Reads s b rest) : (p >>= f).Reads s b rest :=
  reads_bind hp hf

/-- A parser, then one that takes nothing. -/
theorem reads_last {f : α → Parser β} (hp : p.Reads s a rest) (hf : (f a).Reads [] b rest) :
    (p >>= f).Reads s b rest := by
  rw [← List.append_nil s]
  exact reads_bind hp hf

/-- A parser that takes one character, then another one. -/
theorem reads_cons {x : Char} {f : α → Parser β} (hp : p.Reads [x] a (s ++ rest))
    (hf : (f a).Reads s b rest) : (p >>= f).Reads (x :: s) b rest :=
  reads_bind hp hf

theorem reads_map {f : α → β} (hp : p.Reads s a rest) : (f <$> p).Reads s (f a) rest :=
  reads_last hp reads_pure

theorem reads_peek {f : Option Char → Parser β} (h : (f (s ++ rest).head?).Reads s b rest) :
    (peek >>= f).Reads s b rest := h

theorem reads_cursor {f : Cursor → Parser β} (h : ∀ n, (f ⟨n, s ++ rest⟩).Reads s b rest) :
    (cursor >>= f).Reads s b rest := fun n => h n n

theorem reads_skip {x : Char} : (skip 1).Reads [x] () rest := fun _ => rfl

theorem reads_anyChar {x : Char} : anyChar.Reads [x] x rest := fun _ => rfl

theorem reads_char {x : Char} : (char x).Reads [x] x rest := by
  refine reads_peek ?_
  simp only [List.cons_append, List.head?_cons, if_pos]
  exact reads_anyChar

theorem refuses_backtrack {message : String} : (backtrack message : Parser α).Refuses rest :=
  fun _ => ⟨_, _, _, rfl⟩

theorem refuses_peek {f : Option Char → Parser β} (h : (f rest.head?).Refuses rest) :
    (peek >>= f).Refuses rest := h

theorem refuses_char {x : Char} (h : ∀ y ∈ rest.head?, x ≠ y) : (char x).Refuses rest := by
  refine refuses_peek ?_
  cases rest with
  | nil => exact refuses_backtrack
  | cons y r =>
      have hxy : x ≠ y := h y rfl
      simp only [List.head?_cons, if_neg hxy]
      exact refuses_backtrack

theorem reads_literal (t : String) : (literal t).Reads t.toList t rest := by
  intro n
  rw [literal_of_ahead (List.prefix_append t.toList rest), Cursor.advance, ← String.length_toList,
    List.drop_left]

theorem refuses_literal {t : String} (h : ¬ t.toList <+: rest) : (literal t).Refuses rest :=
  fun _ => ⟨_, _, _, literal_of_not_ahead h⟩

theorem reads_takeWhile {f : Char → Bool} (hs : ∀ c ∈ s, f c = true)
    (hrest : ∀ c ∈ rest.head?, f c = false) : (takeWhile f).Reads s s rest := by
  intro n
  have htake : rest.takeWhile f = [] := by
    cases rest with
    | nil => rfl
    | cons c r => exact List.takeWhile_cons_of_neg (by simp [hrest c rfl])
  have hdrop : rest.dropWhile f = rest := by
    cases rest with
    | nil => rfl
    | cons c r => exact List.dropWhile_cons_of_neg (by simp [hrest c rfl])
  rw [takeWhile_apply, List.takeWhile_append_of_pos hs, List.dropWhile_append_of_pos hs, htake,
    hdrop, List.append_nil]

theorem reads_skipSpaces (hs : ∀ c ∈ s, Scan.isSpace c = true) (hrest : NotBlank rest) :
    skipSpaces.Reads s () rest :=
  reads_last (reads_takeWhile hs hrest) reads_pure

theorem reads_space (hrest : NotBlank rest) : skipSpaces.Reads [' '] () rest := by
  refine reads_skipSpaces (fun c hc => ?_) hrest
  rw [List.mem_singleton.mp hc]
  rfl

section choice

variable {ps : List (Parser α)}

theorem reads_choice_cons (last : Option Failure) (h : p.Reads s a rest) :
    (choiceAfter last (p :: ps)).Reads s a rest := by
  intro n
  unfold choiceAfter
  rw [h n]

theorem reads_choice_of_refuses (last : Option Failure) (hp : p.Refuses (s ++ rest))
    (h : ∀ last, (choiceAfter last ps).Reads s a rest) :
    (choiceAfter last (p :: ps)).Reads s a rest := by
  intro n
  obtain ⟨m, o, c, hc⟩ := hp n
  unfold choiceAfter
  rw [hc]
  exact h _ n

/-- A choice backtracks if each of its alternatives does. -/
theorem refuses_choice (h : ∀ q ∈ ps, q.Refuses rest) : (choice ps).Refuses rest := by
  intro n
  obtain ⟨m, o, hc⟩ := choice_of_backtracks fun q hq => h q hq n
  exact ⟨m, o, _, hc⟩

theorem refuses_map {f : α → β} (h : p.Refuses rest) : (f <$> p).Refuses rest := by
  intro n
  obtain ⟨m, o, c, hc⟩ := h n
  exact ⟨m, o, c, map_of_error hc⟩

theorem reads_optional (h : p.Reads s a rest) : (optional p).Reads s (some a) rest :=
  reads_choice_cons none (reads_map h)

theorem reads_optional_none (h : p.Refuses rest) : (optional p).Reads [] none rest :=
  reads_choice_of_refuses none (refuses_map h) fun last => reads_choice_cons last reads_pure

end choice

end Parser

/-! ## The constructs of the notation -/

namespace Read

open ValueGrammar.Parser Grammar

variable {rest : List Char}

theorem reads_require {x : Char} {message : String} : (require x message).Reads [x] () rest := by
  intro n
  unfold require
  rw [reads_char n]

theorem reads_name {n : String} (hn : ∀ c ∈ n.toList, isNameChar c = true)
    (hrest : ∀ c ∈ rest.head?, isNameChar c = false) : name.Reads n.toList n rest := by
  have h := reads_map (f := String.ofList) (reads_takeWhile hn hrest)
  rw [String.ofList_toList] at h
  exact h

/-! ### Multipliers -/

theorem reads_digit {c : Char} {r : List Char} (h : c.isDigit = true) : digit.Reads [c] c r := by
  refine reads_peek ?_
  simp only [List.cons_append, List.head?_cons, if_pos h]
  exact reads_anyChar

theorem refuses_digit (h : ∀ c ∈ rest.head?, c.isDigit = false) : digit.Refuses rest := by
  refine refuses_peek ?_
  cases rest with
  | nil => exact refuses_backtrack
  | cons c r =>
      simp only [List.head?_cons, h c rfl]
      exact refuses_backtrack

/-- Digits are read one after the other. -/
theorem chain_digit {ds : List Char} (hds : Numeral.AllDigits ds) (n : Nat) :
    digit.Chain ⟨n, ds ++ rest⟩ ds ⟨n + ds.length, rest⟩ := by
  induction ds generalizing n with
  | nil => exact .stop _
  | cons d ds ih =>
      have hd : digit ⟨n, d :: (ds ++ rest)⟩ = (.ok d, ⟨n + 1, ds ++ rest⟩) :=
        reads_digit (hds d List.mem_cons_self) n
      have hih := ih (fun c hc => hds c (List.mem_cons_of_mem d hc)) (n + 1)
      rw [Nat.add_assoc, Nat.add_comm 1] at hih
      exact .step hd hih

/-- All the digits are taken. -/
theorem reads_digits {ds : List Char} (hds : Numeral.AllDigits ds)
    (hrest : ∀ c ∈ rest.head?, c.isDigit = false) : (zeroOrMore digit).Reads ds ds rest :=
  fun n => zeroOrMore_of_backtracks (chain_digit hds n) (refuses_digit hrest _)

/-- The loop over digits ends at the first character that is none, and not before. -/
theorem zeroOrMore_digit (c : Cursor) : zeroOrMore digit c = takeWhile Char.isDigit c := by
  obtain ⟨location, text⟩ := c
  have hdigits : Numeral.AllDigits (text.takeWhile Char.isDigit) :=
    List.all_eq_true.mp List.all_takeWhile
  have hstop : ∀ x ∈ (text.dropWhile Char.isDigit).head?, x.isDigit = false := by
    intro x hx
    have hnot := List.head?_dropWhile_not Char.isDigit text
    rw [Option.mem_def.mp hx] at hnot
    simpa using hnot
  have hread := reads_digits hdigits hstop location
  rw [List.takeWhile_append_dropWhile] at hread
  rw [takeWhile_apply]
  exact hread

theorem natOfDigits_eq (ds : List Char) : natOfDigits ds = Nat.ofDigitChars 10 ds 0 := by
  unfold natOfDigits Nat.ofDigitChars
  simp only [Nat.mul_comm 10]

/-- A number is written with one or more digits, and they have its value. -/
theorem exists_digits (k : Nat) : ∃ d ds, (toString k).toList = d :: ds ∧
    Numeral.AllDigits (d :: ds) ∧ natOfDigits (d :: ds) = k := by
  have htext : (toString k).toList = Nat.toDigits 10 k := by
    rw [Nat.toString_eq_ofList_toDigits, String.toList_ofList]
  have hdigits : Numeral.AllDigits (Nat.toDigits 10 k) :=
    fun c hc => Nat.isDigit_of_mem_toDigits (by decide) (by decide) hc
  have hvalue : natOfDigits (Nat.toDigits 10 k) = k := by
    rw [natOfDigits_eq, Nat.ofDigitChars_ten_toDigits]
  rw [htext]
  cases hds : Nat.toDigits 10 k with
  | nil => exact absurd hds Nat.toDigits_ne_nil
  | cons d ds => exact ⟨d, ds, rfl, hds ▸ hdigits, hds ▸ hvalue⟩

theorem reads_int {k : Nat} (hk : k ≤ maxInt) (hrest : ∀ c ∈ rest.head?, c.isDigit = false) :
    int.Reads (toString k).toList k rest := by
  obtain ⟨d, ds, htext, hdigits, hvalue⟩ := exists_digits k
  have hmore : (zeroOrMore digit).Reads ds ds rest :=
    reads_digits (fun c hc => hdigits c (List.mem_cons_of_mem d hc)) hrest
  have hone : (oneOrMore digit).Reads (d :: ds) (d :: ds) rest :=
    reads_cons (reads_digit (hdigits d List.mem_cons_self)) (reads_last hmore reads_pure)
  rw [htext]
  intro n
  unfold int
  rw [hone n]
  dsimp only
  rw [hvalue, if_pos hk]

/-- The three ways limits are written within braces. -/
theorem bracesText_cases {min : Int} {max : Option Int} (h : IsLimits min max) :
    ∃ lo : Nat, min = lo ∧ lo ≤ maxInt ∧
      ((max = none ∧ (bracesText min max).toList =
          '\x7b' :: ((toString lo).toList ++ [',', '\x7d'])) ∨
        (0 < lo ∧ max = some (lo : Int) ∧ (bracesText min max).toList =
          '\x7b' :: ((toString lo).toList ++ ['\x7d'])) ∨
        ∃ hi : Nat, hi ≤ maxInt ∧ lo ≤ hi ∧ 0 < hi ∧ max = some (hi : Int) ∧
          (bracesText min max).toList =
            '\x7b' :: ((toString lo).toList ++ ',' :: ((toString hi).toList ++ ['\x7d']))) := by
  obtain ⟨lo, rfl, hlo⟩ := h.lower
  refine ⟨lo, rfl, hlo, ?_⟩
  have htext : ∀ n : Nat, toString (n : Int) = toString n := fun _ => rfl
  cases max with
  | none =>
      refine .inl ⟨rfl, ?_⟩
      have hne : ((lo : Int) == (none : Option Int).getD (-1)) = false := by simp
      simp only [bracesText, hne, htext, String.toList_append]
      simp
  | some hi =>
      obtain ⟨n, rfl, hn, hle, hpos⟩ := h.upper hi rfl
      by_cases heq : lo = n
      · subst heq
        refine .inr (.inl ⟨hpos, rfl, ?_⟩)
        simp only [bracesText, Option.getD_some, beq_self_eq_true, if_true, htext,
          String.toList_append]
        simp
      · refine .inr (.inr ⟨n, hn, by omega, hpos, rfl, ?_⟩)
        have hne : ((lo : Int) == (some (n : Int)).getD (-1)) = false := by simpa using heq
        simp only [bracesText, hne, htext, String.toList_append]
        simp

theorem reads_repetition {min : Int} {max : Option Int} (h : IsLimits min max) :
    repetition.Reads (bracesText min max).toList (min, max) rest := by
  obtain ⟨lo, rfl, hlo, hcases⟩ := bracesText_cases h
  unfold repetition
  rcases hcases with ⟨rfl, htext⟩ | ⟨hpos, rfl, htext⟩ | ⟨hi, hhi, hle, hpos, rfl, htext⟩
  · rw [htext]
    refine reads_cons reads_char (reads_bind (reads_int hlo (by simp)) (reads_peek ?_))
    refine reads_cons reads_skip (reads_peek (reads_then reads_pure ?_))
    exact reads_last reads_require reads_pure
  · rw [htext]
    refine reads_cons reads_char (reads_bind (reads_int hlo (by simp)) (reads_peek ?_))
    refine reads_then reads_pure (reads_last reads_require ?_)
    dsimp only
    rw [if_neg (by omega), if_neg (by omega)]
    exact reads_pure
  · rw [htext]
    refine reads_cons reads_char (reads_bind (reads_int hlo (by simp)) (reads_peek ?_))
    refine reads_cons reads_skip (reads_peek ?_)
    have hhead : ((toString hi).toList ++ ['\x7d'] ++ rest).head? ≠ some '\x7d' := by
      obtain ⟨d, ds, hd, hdigits, -⟩ := exists_digits hi
      rw [hd]
      rintro ⟨⟩
      exact absurd (hdigits '\x7d' List.mem_cons_self) (by decide)
    dsimp only
    split
    · rename_i heq
      exact absurd heq hhead
    · refine reads_bind (reads_map (reads_int hhi (by simp))) (reads_last reads_require ?_)
      dsimp only
      rw [if_neg (by omega), if_neg (by omega)]
      exact reads_pure

theorem reads_multiplier {t : Grammar} {min : Int} {max : Option Int} {separated : Bool}
    (h : IsLimits min max)
    (hrest : (Grammar.multiplier t min max separated).underHash?.isSome = true →
      rest.head? ≠ some '\x7b') :
    (multiplier t).Reads (multiplierText min max separated).toList
      (.multiplier t min max separated) rest := by
  have hlimits : repetition.Reads (bracesText min max).toList (min, max) rest := reads_repetition h
  have hrep := reads_map (f := fun limits : Int × Option Int =>
    Grammar.multiplier t limits.1 limits.2 separated) hlimits
  obtain ⟨s, hs⟩ : ∃ s, (bracesText min max).toList = '\x7b' :: s := by simp [bracesText]
  rw [multiplierText_eq]
  unfold multiplier
  split_ifs with hhash hstar hplus hopt hsep
  · obtain ⟨rfl, rfl, rfl⟩ : separated = true ∧ min = 1 ∧ max = none := by
      simpa [and_assoc] using hhash
    refine reads_peek (reads_cons reads_skip (reads_peek ?_))
    have hnext : ([] ++ rest).head? ≠ some '\x7b' := hrest rfl
    dsimp only
    split
    · rename_i heq
      exact absurd heq hnext
    · exact reads_pure
  · obtain ⟨rfl, rfl, rfl⟩ : separated = false ∧ min = 0 ∧ max = none := by
      simpa [and_assoc] using hstar
    exact reads_peek (reads_cons reads_skip reads_pure)
  · obtain ⟨rfl, rfl, rfl⟩ : separated = false ∧ min = 1 ∧ max = none := by
      simpa [and_assoc] using hplus
    exact reads_peek (reads_cons reads_skip reads_pure)
  · obtain ⟨rfl, rfl, rfl⟩ : separated = false ∧ min = 0 ∧ max = some 1 := by
      simpa [and_assoc] using hopt
    exact reads_peek (reads_cons reads_skip reads_pure)
  · subst hsep
    rw [String.toList_append]
    refine reads_peek (reads_cons reads_skip (reads_peek ?_))
    rw [hs] at hrep ⊢
    exact hrep
  · obtain rfl : separated = false := by simpa using hsep
    rw [String.empty_append]
    refine reads_peek ?_
    rw [hs] at hrep ⊢
    exact hrep

/-- The sign of a multiplier starts with one of five characters, and with a brace only where nothing
shorter or with a comma was meant. -/
theorem exists_multiplierText (min : Int) (max : Option Int) (separated : Bool) :
    ∃ c s, (multiplierText min max separated).toList = c :: s ∧ c ∈ "?*+#\x7b".toList ∧
      (c = '\x7b' → separated = false ∧ braced min max = true) := by
  rw [multiplierText_eq]
  split_ifs with hhash hstar hplus hopt hsep
  · exact ⟨'#', [], rfl, by decide, fun h => absurd h (by decide)⟩
  · exact ⟨'*', [], rfl, by decide, fun h => absurd h (by decide)⟩
  · exact ⟨'+', [], rfl, by decide, fun h => absurd h (by decide)⟩
  · exact ⟨'?', [], rfl, by decide, fun h => absurd h (by decide)⟩
  · exact ⟨'#', (bracesText min max).toList, by rw [String.toList_append]; rfl, by decide,
      fun h => absurd h (by decide)⟩
  · obtain rfl : separated = false := by simpa using hsep
    obtain ⟨s, hs⟩ : ∃ s, (bracesText min max).toList = '\x7b' :: s := by simp [bracesText]
    refine ⟨'\x7b', s, by rw [String.empty_append, hs], by decide, fun _ => ⟨rfl, ?_⟩⟩
    grind [braced]

/-- A multiplier in front of a rest is one step of reading the multipliers of a term. -/
theorem multipliers_succ {t u : Grammar} {s : List Char} (h : (multiplier t).Reads s u rest)
    (fuel n : Nat) :
    multipliers (fuel + 1) t ⟨n, s ++ rest⟩ = multipliers fuel u ⟨n + s.length, rest⟩ := by
  unfold multipliers
  rw [h n]
  cases fuel <;> rfl

theorem refuses_multiplier (t : Grammar) (h : ∀ c ∈ rest.head?, c ∉ "?*+#\x7b".toList) :
    (multiplier t).Refuses rest := by
  unfold multiplier
  refine refuses_peek ?_
  split
  case h_6 => exact refuses_backtrack
  all_goals
    rename_i heq
    exact absurd (h _ heq) (by decide)

theorem multipliers_stop (t : Grammar) (h : ∀ c ∈ rest.head?, c ∉ "?*+#\x7b".toList)
    (fuel n : Nat) : multipliers fuel t ⟨n, rest⟩ = (.ok t, ⟨n, rest⟩) := by
  cases fuel with
  | zero => rfl
  | succ fuel =>
      obtain ⟨m, o, c, hc⟩ := refuses_multiplier t h n
      unfold multipliers
      rw [hc]

/-! ### Ranges -/

/-- The characters of a bound after its sign start with a digit, a point or `∞`. -/
def IsBoundStart (c : Char) : Prop := c.isDigit = true ∨ c = '.' ∨ c = '∞'

theorem IsBoundStart.ne {c x : Char} (h : IsBoundStart c)
    (hx : x.isDigit = false ∧ x ≠ '.' ∧ x ≠ '∞') : c ≠ x := by
  rintro rfl
  rcases h with h | h | h
  · exact absurd h (by simp [hx.1])
  · exact hx.2.1 h
  · exact hx.2.2 h

/-- The text of a bound is a sign, and then `∞` or a number. -/
theorem exists_boundText {v : Binary64} (h : v.IsBound) :
    ∃ negative c r, (Range.boundText v).toList = (if negative then ['-'] else []) ++ c :: r ∧
      IsBoundStart c ∧
      ((c :: r = ['∞'] ∧ v = .infinite negative) ∨
        ∃ m, v = .finite negative m ∧ Numeral.Plain (c :: r) ∧
          Binary64.read? (String.ofList (c :: r)) = some (.finite false m)) := by
  cases v with
  | finite negative m =>
      obtain ⟨hne, hplain⟩ := Binary64.plain_magnitudeText m
      have hread := Binary64.read?_magnitudeText h
      rw [← String.ofList_toList (s := Binary64.magnitudeText m)] at hread
      cases hm : (Binary64.magnitudeText m).toList with
      | nil => exact absurd hm hne
      | cons c r =>
          rw [hm] at hplain hread
          refine ⟨negative, c, r, ?_, ?_, .inr ⟨m, rfl, hplain, hread⟩⟩
          · rw [Range.boundText, String.toList_append, hm]
            cases negative <;> rfl
          · rcases hplain c List.mem_cons_self with hc | hc
            · exact .inl hc
            · exact .inr (.inl hc)
  | infinite negative =>
      refine ⟨negative, '∞', [], ?_, .inr (.inr rfl), .inl ⟨rfl, rfl⟩⟩
      cases negative <;> rfl
  | nan => exact h.elim

/-- A sign in front of a bound is taken, and none is missed. -/
theorem reads_sign (negative : Bool) {c : Char} {r : List Char} (h : IsBoundStart c) :
    (optional (choice [char '-', char '+'])).Reads (if negative then ['-'] else [])
      (if negative then some '-' else none) (c :: r) := by
  cases negative with
  | true => exact reads_optional (reads_choice_cons none reads_char)
  | false =>
      refine reads_optional_none (refuses_choice fun q hq => ?_)
      have hne : c ≠ '-' ∧ c ≠ '+' := ⟨h.ne (by decide), h.ne (by decide)⟩
      simp only [List.mem_cons, List.not_mem_nil, or_false] at hq
      rcases hq with rfl | rfl
      · exact refuses_char (by simpa using hne.1.symm)
      · exact refuses_char (by simpa using hne.2.symm)

theorem reads_bound {missing v : Binary64} (h : v.IsBound)
    (hrest : ∀ c ∈ rest.head?, c = ',' ∨ c = ']') :
    (bound missing).Reads (Range.boundText v).toList v rest := by
  obtain ⟨negative, c, r, htext, hc, hcases⟩ := exists_boundText h
  have hstart : ∀ x ∈ ((if negative then ['-'] else []) ++ c :: r ++ rest).head?,
      x ≠ ',' ∧ x ≠ ']' := by
    cases negative with
    | true => rintro x ⟨⟩; decide
    | false => rintro x ⟨⟩; exact ⟨hc.ne (by decide), hc.ne (by decide)⟩
  rw [htext]
  unfold bound
  refine reads_cursor fun n => ?_
  dsimp only
  split
  · rename_i heq
    exact absurd rfl (hstart ',' (by rw [heq]; rfl)).1
  · rename_i heq
    exact absurd rfl (hstart ']' (by rw [heq]; rfl)).2
  refine reads_bind (reads_sign negative hc) ?_
  have hsigned : ∀ u : Binary64, (if (if negative then some '-' else none) = some '-' then u.neg
      else u) = if negative then u.neg else u := by
    cases negative <;> intro u <;> rfl
  simp only [hsigned]
  rcases hcases with ⟨hinf, rfl⟩ | ⟨m, rfl, hplain, hread⟩
  · cases hinf
    refine reads_peek (reads_cons reads_skip ?_)
    cases negative <;> exact reads_pure
  · have hhead : ((c :: r) ++ rest).head? ≠ some '∞' := by
      rintro ⟨⟩
      exact absurd (hplain '∞' List.mem_cons_self) (by decide)
    have hword : ¬ "Infinity".toList <+: c :: r ++ rest :=
      fun hprefix => hc.ne (by decide) (List.cons_prefix_cons.mp hprefix).1.symm
    have hdigits : (Parser.takeWhile fun x => x.isDigit || x == '.').Reads (c :: r) (c :: r) rest := by
      refine reads_takeWhile (fun x hx => by simpa using hplain x hx) fun x hx => ?_
      rcases hrest x hx with rfl | rfl <;> rfl
    refine reads_peek ?_
    split
    · rename_i heq
      exact absurd heq hhead
    · refine reads_then (reads_optional_none (refuses_literal hword)) ?_
      refine reads_last hdigits ?_
      rw [List.isEmpty_cons, if_neg (by decide), hread]
      cases negative <;> exact reads_pure

theorem reads_noSpaces (h : NotBlank rest) : skipSpaces.Reads [] () rest :=
  reads_skipSpaces (by simp) h

theorem notBlank_boundText {v : Binary64} (h : v.IsBound) (s : List Char) :
    NotBlank ((Range.boundText v).toList ++ s) := by
  obtain ⟨negative, c, r, htext, hc, -⟩ := exists_boundText h
  rw [htext]
  cases negative with
  | true => rintro x ⟨⟩; decide
  | false =>
      rintro x ⟨⟩
      have hne : c ≠ ' ' ∧ c ≠ '\t' ∧ c ≠ '\n' ∧ c ≠ '\r' ∧ c ≠ '\x0c' := by
        refine ⟨?_, ?_, ?_, ?_, ?_⟩ <;> exact hc.ne (by decide)
      simp [Scan.isSpace, hne]

theorem reads_range {r : Range} (h : r.Written) : range.Reads r.text.toList r rest := by
  have htext : r.text.toList = '[' :: ((Range.boundText r.lo).toList ++
      ',' :: ((Range.boundText r.hi).toList ++ [']'])) := by simp [Range.text]
  have hcomma : ∀ s, NotBlank (',' :: s) := by rintro s c ⟨⟩; decide
  have hclose : ∀ s, NotBlank (']' :: s) := by rintro s c ⟨⟩; decide
  rw [htext]
  unfold range
  refine reads_cons reads_char (reads_then (reads_noSpaces ?_) ?_)
  · rw [List.append_assoc]
    exact notBlank_boundText h.lo _
  refine reads_bind (reads_bound h.lo (by simp)) (reads_then (reads_noSpaces (hcomma _)) ?_)
  refine reads_cons reads_require (reads_then (reads_noSpaces ?_) ?_)
  · rw [List.append_assoc]
    exact notBlank_boundText h.hi _
  refine reads_bind (reads_bound h.hi (by simp)) (reads_then (reads_noSpaces (hclose _)) ?_)
  refine reads_last reads_require ?_
  rw [if_pos h.le]
  exact reads_pure

/-! ### References -/

theorem ne_of_isNameChar {c x : Char} (h : isNameChar c = true) (hx : isNameChar x = false) :
    c ≠ x := by
  rintro rfl
  rw [h] at hx
  cases hx

theorem isSpace_of_isNameChar {c : Char} (h : isNameChar c = true) : Scan.isSpace c = false := by
  have hne : c ≠ ' ' ∧ c ≠ '\t' ∧ c ≠ '\n' ∧ c ≠ '\r' ∧ c ≠ '\x0c' := by
    refine ⟨?_, ?_, ?_, ?_, ?_⟩ <;> exact ne_of_isNameChar h (by decide)
  simp [Scan.isSpace, hne]

theorem reads_propertyReference {n : String} (h : IsName n) :
    propertyReference.Reads ('\'' :: (n.toList ++ ['\''])) (.property n) rest := by
  have hne : n.isEmpty = false := by simpa using h.ne
  unfold propertyReference
  refine reads_cons reads_skip (reads_bind (reads_name h.chars ?_) ?_)
  · rintro c ⟨⟩; decide
  rw [hne, if_neg (by decide)]
  exact reads_last reads_require reads_pure

/-- What comes after the name of a type, up to the closing bracket. -/
def typeTail (parens : String) (range : Option Range) : List Char :=
  parens.toList ++ range.elim [] fun r => ' ' :: r.text.toList

theorem reads_typeReference {n parens : String} {r : Option Range} (h : IsName n)
    (hp : parens = "" ∨ parens = "()") (hr : ∀ r', r = some r' → r'.Written) :
    typeReference.Reads (n.toList ++ typeTail parens r) (.type (n ++ parens) r) ('>' :: rest) := by
  have hne : n.isEmpty = false := by simpa using h.ne
  -- a space or the closing bracket comes after the name and its parentheses
  have hnext : ∀ c ∈ ((r.elim [] fun r' => ' ' :: r'.text.toList) ++ '>' :: rest).head?,
      c = ' ' ∨ c = '>' := by
    cases r <;> simp
  have hparens : ∃ o, o.getD "" = parens ∧ (optional (literal "()")).Reads parens.toList o
      ((r.elim [] fun r' => ' ' :: r'.text.toList) ++ '>' :: rest) := by
    rcases hp with rfl | rfl
    · refine ⟨none, rfl, reads_optional_none (refuses_literal fun hprefix => ?_)⟩
      obtain ⟨s, hs⟩ := hprefix
      rcases hnext '(' (by rw [← hs]; rfl) with h' | h' <;> exact absurd h' (by decide)
    · exact ⟨some "()", rfl, reads_optional (reads_literal "()")⟩
  obtain ⟨o, ho, hparens⟩ := hparens
  unfold typeReference typeTail
  refine reads_bind (reads_name h.chars ?_) ?_
  · rcases hp with rfl | rfl
    · intro c hc
      rcases hnext c hc with rfl | rfl <;> decide
    · rintro c ⟨⟩; decide
  rw [hne, if_neg (by decide)]
  refine reads_bind hparens ?_
  rw [ho]
  cases r with
  | none =>
      refine reads_then (reads_noSpaces ?_) (reads_peek reads_pure)
      rintro c ⟨⟩; decide
  | some r' =>
      obtain ⟨s, hs⟩ : ∃ s, r'.text.toList = '[' :: s := by simp [Range.text]
      have hrange : range.Reads r'.text.toList r' ('>' :: rest) := reads_range (hr r' rfl)
      rw [hs] at hrange
      dsimp only [Option.elim]
      rw [hs]
      refine reads_cons (reads_space ?_) (reads_peek (reads_last hrange reads_pure))
      rintro c ⟨⟩; decide

theorem reads_reference_property {n : String} (h : IsName n) :
    reference.Reads (Grammar.property n).text.toList (.property n) rest := by
  have htext : (Grammar.property n).text.toList =
      '<' :: (('\'' :: (n.toList ++ ['\''])) ++ ['>']) := by simp [text]
  have hquote : ∀ s, NotBlank ('\'' :: s) := by rintro s c ⟨⟩; decide
  have hclose : ∀ s, NotBlank ('>' :: s) := by rintro s c ⟨⟩; decide
  rw [htext]
  unfold reference
  refine reads_cons reads_char (reads_then (reads_noSpaces (hquote _)) (reads_peek ?_))
  refine reads_bind (reads_propertyReference h) ?_
  exact reads_then (reads_noSpaces (hclose _)) (reads_last reads_require reads_pure)

theorem reads_reference_type {n parens : String} {r : Option Range} (h : IsName n)
    (hp : parens = "" ∨ parens = "()") (hr : ∀ r', r = some r' → r'.Written) :
    reference.Reads (Grammar.type (n ++ parens) r).text.toList (.type (n ++ parens) r) rest := by
  have htext : (Grammar.type (n ++ parens) r).text.toList =
      '<' :: ((n.toList ++ typeTail parens r) ++ ['>']) := by
    cases r <;> simp [text, typeText, typeTail]
  have hclose : ∀ s, NotBlank ('>' :: s) := by rintro s c ⟨⟩; decide
  obtain ⟨c, s, hs⟩ := List.exists_cons_of_ne_nil h.ne
  have hc : isNameChar c = true := h.chars c (by rw [hs]; exact List.mem_cons_self)
  have hhead : ∀ s', (n.toList ++ s').head? = some c := fun s' => by rw [hs]; rfl
  rw [htext]
  unfold reference
  refine reads_cons reads_char (reads_then (reads_noSpaces fun x hx => ?_) (reads_peek ?_))
  · rw [List.append_assoc, List.append_assoc, hhead] at hx
    cases hx
    exact isSpace_of_isNameChar hc
  · rw [List.append_assoc (n.toList ++ _), List.append_assoc, hhead]
    split
    · rename_i heq
      exact absurd (Option.some.inj heq) (ne_of_isNameChar hc (by decide))
    · refine reads_bind (reads_typeReference h hp hr) ?_
      exact reads_then (reads_noSpaces (hclose _)) (reads_last reads_require reads_pure)

/-! ### The other terms -/

theorem reads_string {quote : Char} {body : List Char}
    (h : stringLength? quote body = some body.length) :
    string.Reads (quote :: body) (.string (String.ofList (quote :: body))) rest := by
  have hlength : stringLength? quote (body ++ rest) = some body.length := by
    simpa using (stringLength?_take_append h).2 rest
  unfold string
  refine reads_cons reads_anyChar (reads_cursor fun n => ?_)
  dsimp only
  rw [hlength]
  refine reads_last (a := ()) (fun k => ?_) ?_
  · simp [skip, Cursor.advance]
  · rw [List.take_left]
    exact reads_pure

theorem reads_keyword {n : String} (h : IsWord n)
    (hrest : ∀ c ∈ rest.head?, isNameChar c = false ∧ c ≠ '(') :
    keywordOrFunction.Reads n.toList (.keyword n) rest := by
  have hne : n.isEmpty = false := by simpa using h.ne
  unfold keywordOrFunction
  refine reads_last (reads_name h.chars fun c hc => (hrest c hc).1) ?_
  rw [hne, if_neg (by decide)]
  refine reads_peek ?_
  split
  · rename_i heq
    exact absurd rfl (hrest '(' heq).2
  · exact reads_pure

theorem reads_function {n : String} (h : IsWord n) :
    keywordOrFunction.Reads (n.toList ++ ['(']) (.function n) rest := by
  have hne : n.isEmpty = false := by simpa using h.ne
  unfold keywordOrFunction
  refine reads_bind (reads_name h.chars (by rintro c ⟨⟩; decide)) ?_
  rw [hne, if_neg (by decide)]
  exact reads_peek (reads_last reads_skip reads_pure)

theorem reads_atKeyword {n : String} (h : IsName n)
    (hrest : ∀ c ∈ rest.head?, isNameChar c = false) :
    atKeyword.Reads ('@' :: n.toList) (.atKeyword n) rest := by
  have hne : n.isEmpty = false := by simpa using h.ne
  unfold atKeyword
  refine reads_cons reads_skip (reads_last (reads_name h.chars hrest) ?_)
  rw [hne, if_neg (by decide)]
  exact reads_pure

end Read

end ValueGrammar

import ValueGrammar.Recognizer
import Mathlib.Computability.Language
import Mathlib.Data.List.TakeWhile

/-!
# `ValueGrammar.Proofs.LongestNumber` — where the number in a dimension ends

A dimension is a number with a unit behind it and nothing between them, so an `e` may belong to either.
The number takes as much as it can: it is the longest prefix that is a number of CSS. The numbers are a
regular language here, put together from signs, digits, fractions and exponents, and the scanner of each
part finds the longest word of the part. Two parts in a row can be scanned one after the other because
the second starts with a character that the first has nowhere.

## Contents
- `Numeric.digits`, `Numeric.sign`, …, `Numeric.number`: the languages.
- `Numeric.Longest`: the length of the longest word ahead; `Numeric.Longest.mul_right` and
  `Numeric.Longest.mul_left` for two parts in a row.
- `Numeric.longest_digits`, …, `Numeric.longest_numericPrefix`: the scanner of each part.
- `Numeric.Splits`: a text split after its number; `Numeric.isDimension_iff`.
- `Numeric.numericPrefix_isGreatest`: all of it, in bytes.
-/

namespace ValueGrammar

/-! ## The scanner -/

theorem Scan.sign_cons (c : Char) (cs : List Char) :
    sign (c :: cs) = if c = '+' ∨ c = '-' then 1 else 0 := by
  unfold sign
  split <;> simp_all

theorem Scan.exponent_cons (e : Char) (r : List Char) :
    exponent (e :: r) =
      if (e = 'e' ∨ e = 'E') ∧ run Char.isDigit (r.drop (sign r)) ≠ 0 then
        1 + (sign r + run Char.isDigit (r.drop (sign r)))
      else 0 := by
  simp only [exponent, Bool.or_eq_true, beq_iff_eq]
  by_cases he : e = 'e' ∨ e = 'E'
  · rw [if_pos he]
    cases run Char.isDigit (r.drop (sign r)) with
    | zero => simp
    | succ d => simp [he, Nat.add_assoc]
  · rw [if_neg he, if_neg fun h => he h.1]

/-- How many characters a point and the digits after it are; none without a digit. -/
def fractionLength : List Char → Nat
  | '.' :: r =>
    match Scan.run Char.isDigit r with
    | 0 => 0
    | d => d + 1
  | _ => 0

theorem fractionLength_cons (c : Char) (cs : List Char) :
    fractionLength (c :: cs) =
      if c = '.' ∧ Scan.run Char.isDigit cs ≠ 0 then Scan.run Char.isDigit cs + 1 else 0 := by
  unfold fractionLength
  split
  · rename_i r heq
    obtain ⟨rfl, rfl⟩ := List.cons.inj heq
    cases Scan.run Char.isDigit cs <;> simp
  · rename_i hne
    rw [if_neg]
    rintro ⟨rfl, -⟩
    exact hne cs rfl

theorem numericPrefix_eq (cs : List Char) :
    numericPrefix cs =
      let s := Scan.sign cs
      let whole := Scan.run Char.isDigit (cs.drop s)
      let n := s + whole
      let fraction := fractionLength (cs.drop n)
      if whole == 0 && fraction == 0 then 0
      else n + fraction + Scan.exponent (cs.drop (n + fraction)) := rfl

namespace Numeric

/-! ## The languages -/

/-- One or more decimal digits. -/
def digits : Language Char := {ds | ds ≠ [] ∧ ∀ d ∈ ds, d.isDigit = true}

/-- A sign, or none. -/
def sign : Language Char := {[], ['+'], ['-']}

/-- A point and the digits after it. -/
def fraction : Language Char := {['.']} * digits

/-- Digits that may have a fraction, or a fraction only. -/
def mantissa : Language Char := digits * (1 + fraction) + fraction

/-- An `e` in either case, and an integer. -/
def exponent : Language Char := {['e'], ['E']} * (sign * digits)

/-- The numbers of CSS. -/
def number : Language Char := sign * mantissa * (1 + exponent)

variable {A B : Language Char} {P : Char → Prop} {a b cs ds w : List Char} {n k : Nat}

theorem mem_sign : a ∈ sign ↔ a = [] ∨ a = ['+'] ∨ a = ['-'] := Iff.rfl

theorem mem_fraction : w ∈ fraction ↔ ∃ ds ∈ digits, w = '.' :: ds := by
  simp only [fraction, Language.mem_mul]
  constructor
  · rintro ⟨a, rfl, ds, hds, rfl⟩
    exact ⟨ds, hds, rfl⟩
  · rintro ⟨ds, hds, rfl⟩
    exact ⟨_, rfl, ds, hds, rfl⟩

theorem mem_exponent :
    w ∈ exponent ↔ ∃ e, (e = 'e' ∨ e = 'E') ∧ ∃ b ∈ sign * digits, w = e :: b := by
  simp only [exponent, Language.mem_mul]
  constructor
  · rintro ⟨_, rfl | rfl, b, hb, rfl⟩
    · exact ⟨'e', .inl rfl, b, hb, rfl⟩
    · exact ⟨'E', .inr rfl, b, hb, rfl⟩
  · rintro ⟨e, rfl | rfl, b, hb, rfl⟩
    · exact ⟨['e'], .inl rfl, b, hb, rfl⟩
    · exact ⟨['E'], .inr rfl, b, hb, rfl⟩

/-- A part that need not be there. -/
theorem nil_mem_one_add : [] ∈ 1 + B := (Language.mem_add _ _ _).mpr (.inl Language.nil_mem_one)

/-! ## The longest word ahead -/

/-- The longest word of the language that the characters start with has length `n`; zero also stands for
there being none. -/
structure Longest (L : Language Char) (cs : List Char) (n : Nat) : Prop where
  le : ∀ w ∈ L, w <+: cs → w.length ≤ n
  mem : 0 < n → n ≤ cs.length ∧ cs.take n ∈ L

/-- Every word starts with a character without the property, so that no word is empty. -/
def StartsWithout (L : Language Char) (P : Char → Prop) : Prop := ∀ w ∈ L, ∃ c ∈ w.head?, ¬ P c

/-- Every character of a word has the property. -/
def Within (L : Language Char) (P : Char → Prop) : Prop := ∀ w ∈ L, ∀ c ∈ w, P c

theorem StartsWithout.nil_notMem (h : StartsWithout B P) : [] ∉ B := by
  intro hnil
  obtain ⟨c, hc, -⟩ := h [] hnil
  cases hc

theorem StartsWithout.ne_nil (h : StartsWithout B P) (hb : b ∈ B) : b ≠ [] :=
  ne_of_mem_of_not_mem hb h.nil_notMem

/-- A word of the first part is the longest if a word of the second part follows it: a longer one would
have a character that the first part has nowhere. -/
theorem Longest.eq_of_append (hA : Longest A cs n) (hP : Within A P) (hB : StartsWithout B P)
    (ha : a ∈ A) (hb : b ∈ B) (h : a ++ b <+: cs) : a.length = n ∧ b <+: cs.drop n := by
  obtain ⟨r, rfl⟩ := h
  have hle : a.length ≤ n := hA.le a ha (by simp)
  have heq : a.length = n := by
    by_contra hne
    have hlt : a.length < n := by omega
    obtain ⟨c, hc, hnot⟩ := hB b hb
    obtain ⟨t, rfl⟩ : ∃ t, b = c :: t := List.head?_eq_some_iff.mp hc
    have hmem : c ∈ (a ++ c :: t ++ r).take n := by
      refine List.mem_take_iff_getElem.mpr ⟨a.length, by simp; omega, by simp⟩
    exact hnot (hP _ (hA.mem (by omega)).2 c hmem)
  refine ⟨heq, ?_⟩
  rw [← heq, List.append_assoc, List.drop_left]
  exact List.prefix_append b r

/-- A word that must be there, and one that need not. -/
theorem Longest.mul_right (hA : Longest A cs n) (hnil : [] ∉ A) (hP : Within A P)
    (hB : StartsWithout B P) (hk : Longest B (cs.drop n) k) :
    Longest (A * (1 + B)) cs (if n = 0 then 0 else n + k) where
  le := by
    intro w hw h
    obtain ⟨a, ha, b, hb, rfl⟩ := Language.mem_mul.mp hw
    have hle : a.length ≤ n := hA.le a ha ((List.prefix_append a b).trans h)
    have hpos : 0 < a.length := List.length_pos_of_ne_nil (ne_of_mem_of_not_mem ha hnil)
    rw [if_neg (by omega), List.length_append]
    rcases (Language.mem_add _ _ _).mp hb with rfl | hb
    · simp only [List.length_nil]
      omega
    · obtain ⟨heq, hrest⟩ := hA.eq_of_append hP hB ha hb h
      have := hk.le b hb hrest
      omega
  mem := by
    intro hpos
    have hn : n ≠ 0 := by
      rintro rfl
      simp at hpos
    rw [if_neg hn]
    obtain ⟨hle, ha⟩ := hA.mem (by omega)
    rw [List.take_add]
    by_cases hzero : k = 0
    · subst hzero
      exact ⟨hle, Language.append_mem_mul ha nil_mem_one_add⟩
    · obtain ⟨hle', hb⟩ := hk.mem (by omega)
      rw [List.length_drop] at hle'
      exact ⟨by omega, Language.append_mem_mul ha ((Language.mem_add _ _ _).mpr (.inr hb))⟩

/-- A word that need not be there, and one that must. -/
theorem Longest.mul_left (hA : Longest A cs n) (hnil : [] ∈ A) (hP : Within A P)
    (hB : StartsWithout B P) (hk : Longest B (cs.drop n) k) :
    Longest (A * B) cs (if k = 0 then 0 else n + k) where
  le := by
    intro w hw h
    obtain ⟨a, ha, b, hb, rfl⟩ := Language.mem_mul.mp hw
    obtain ⟨heq, hrest⟩ := hA.eq_of_append hP hB ha hb h
    have hle := hk.le b hb hrest
    have hpos : 0 < b.length := List.length_pos_of_ne_nil (hB.ne_nil hb)
    rw [if_neg (by omega), List.length_append]
    omega
  mem := by
    intro hpos
    have hk0 : k ≠ 0 := by
      rintro rfl
      simp at hpos
    rw [if_neg hk0]
    obtain ⟨hle, hb⟩ := hk.mem (by omega)
    rw [List.take_add]
    rw [List.length_drop] at hle
    by_cases hzero : n = 0
    · subst hzero
      exact ⟨by omega, Language.append_mem_mul hnil hb⟩
    · obtain ⟨hle', ha⟩ := hA.mem (by omega)
      exact ⟨by omega, Language.append_mem_mul ha hb⟩

theorem Longest.unique (h : Longest A cs n) (h' : Longest A cs k) : n = k := by
  have hle : ∀ {m m' : Nat}, Longest A cs m → Longest A cs m' → m ≤ m' := by
    intro m m' hm hm'
    rcases Nat.eq_zero_or_pos m with rfl | hpos
    · exact Nat.zero_le m'
    · obtain ⟨hlen, hmem⟩ := hm.mem hpos
      simpa [List.length_take, hlen] using hm'.le _ hmem (List.take_prefix m cs)
  exact Nat.le_antisymm (hle h h') (hle h' h)

theorem Longest.eq_zero_iff (h : Longest A cs n) (hnil : [] ∉ A) :
    n = 0 ↔ ∀ w ∈ A, ¬ w <+: cs := by
  constructor
  · rintro rfl w hw hle
    have hlen := h.le w hw hle
    exact hnil (List.eq_nil_of_length_eq_zero (Nat.le_zero.mp hlen) ▸ hw)
  · intro hnone
    by_contra hne
    exact hnone _ (h.mem (Nat.pos_of_ne_zero hne)).2 (List.take_prefix n cs)

/-! ## The scanner of each part -/

theorem longest_digits (cs : List Char) : Longest digits cs (Scan.run Char.isDigit cs) where
  le := by
    rintro w ⟨-, hw⟩ ⟨r, rfl⟩
    rw [Scan.run, List.takeWhile_append_of_pos hw, List.length_append]
    exact Nat.le_add_right _ _
  mem := by
    intro hpos
    have h := List.takeWhile_prefix (l := cs) Char.isDigit
    refine ⟨h.length_le, ?_⟩
    rw [Scan.run, ← List.prefix_iff_eq_take.mp h]
    exact ⟨List.ne_nil_of_length_pos hpos, fun d hd => List.mem_takeWhile_imp hd⟩

theorem longest_sign (cs : List Char) : Longest sign cs (Scan.sign cs) := by
  cases cs with
  | nil => exact ⟨fun w _ h => h.length_le, fun hpos => absurd hpos (Nat.lt_irrefl 0)⟩
  | cons c r =>
      rw [Scan.sign_cons]
      constructor
      · rintro w (rfl | rfl | rfl) h
        · exact Nat.zero_le _
        · obtain ⟨rfl, -⟩ := List.cons_prefix_cons.mp h
          simp
        · obtain ⟨rfl, -⟩ := List.cons_prefix_cons.mp h
          simp
      · intro hpos
        split at hpos
        · rename_i hc
          rw [if_pos hc]
          rcases hc with rfl | rfl
          · exact ⟨by simp, .inr (.inl rfl)⟩
          · exact ⟨by simp, .inr (.inr rfl)⟩
        · exact absurd hpos (Nat.lt_irrefl 0)

theorem longest_fraction (cs : List Char) : Longest fraction cs (fractionLength cs) := by
  cases cs with
  | nil =>
      refine ⟨?_, fun hpos => absurd hpos (Nat.lt_irrefl 0)⟩
      rintro w - h
      exact h.length_le
  | cons c r =>
      rw [fractionLength_cons]
      have hd := longest_digits r
      constructor
      · rintro w hw h
        obtain ⟨ds, hds, rfl⟩ := mem_fraction.mp hw
        obtain ⟨rfl, hahead⟩ := List.cons_prefix_cons.mp h
        have hle := hd.le ds hds hahead
        have hpos := List.length_pos_of_ne_nil hds.1
        rw [if_pos ⟨rfl, by omega⟩, List.length_cons]
        omega
      · intro hpos
        split at hpos
        · rename_i hc
          rw [if_pos hc]
          obtain ⟨rfl, hne⟩ := hc
          obtain ⟨hle, hmem⟩ := hd.mem (Nat.pos_of_ne_zero hne)
          exact ⟨Nat.succ_le_succ hle, mem_fraction.mpr ⟨_, hmem, rfl⟩⟩
        · exact absurd hpos (Nat.lt_irrefl 0)

/-- Fractions start with the point, which is no digit. -/
theorem fraction_startsWithout : StartsWithout fraction fun c => c.isDigit = true := by
  intro w hw
  obtain ⟨ds, -, rfl⟩ := mem_fraction.mp hw
  exact ⟨'.', rfl, by decide⟩

theorem longest_mantissa (cs : List Char) :
    Longest mantissa cs
      (Scan.run Char.isDigit cs + fractionLength (cs.drop (Scan.run Char.isDigit cs))) := by
  have hd := longest_digits cs
  have hwhole := hd.mul_right (fun h => h.1 rfl) (fun w hw => hw.2) fraction_startsWithout
    (longest_fraction _)
  constructor
  · intro w hw h
    rcases (Language.mem_add _ _ _).mp hw with hw | hw
    · have hle := hwhole.le w hw h
      split at hle <;> omega
    · -- no digit is ahead of the point
      obtain ⟨ds, -, rfl⟩ := mem_fraction.mp hw
      obtain ⟨r, rfl⟩ := h
      have hrun : Scan.run Char.isDigit ('.' :: ds ++ r) = 0 := rfl
      rw [hrun, Nat.zero_add, List.drop_zero]
      exact (longest_fraction _).le _ hw (List.prefix_append _ _)
  · intro hpos
    by_cases hzero : Scan.run Char.isDigit cs = 0
    · rw [hzero, Nat.zero_add, List.drop_zero] at hpos ⊢
      obtain ⟨hle, hmem⟩ := (longest_fraction cs).mem hpos
      exact ⟨hle, (Language.mem_add _ _ _).mpr (.inr hmem)⟩
    · rw [if_neg hzero] at hwhole
      obtain ⟨hle, hmem⟩ := hwhole.mem hpos
      exact ⟨hle, (Language.mem_add _ _ _).mpr (.inl hmem)⟩

/-- A sign is no digit and no point. -/
def IsSign (c : Char) : Prop := c = '+' ∨ c = '-'

theorem sign_within : Within sign IsSign := by
  rintro w (rfl | rfl | rfl) c hc
  · cases hc
  · exact .inl (List.mem_singleton.mp hc)
  · exact .inr (List.mem_singleton.mp hc)

theorem digits_startsWithout (hP : ∀ c : Char, c.isDigit = true → ¬ P c) :
    StartsWithout digits P := by
  rintro (_ | ⟨d, ds⟩) ⟨hne, hds⟩
  · exact absurd rfl hne
  · exact ⟨d, rfl, hP d (hds d List.mem_cons_self)⟩

theorem not_isSign_of_isDigit {c : Char} (h : c.isDigit = true) : ¬ IsSign c := by
  rintro (rfl | rfl) <;> simp at h

theorem integer_ne_nil (h : w ∈ sign * digits) : w ≠ [] := by
  obtain ⟨a, -, b, hb, rfl⟩ := Language.mem_mul.mp h
  exact List.append_ne_nil_of_right_ne_nil a hb.1

theorem longest_integer (cs : List Char) :
    Longest (sign * digits) cs
      (if Scan.run Char.isDigit (cs.drop (Scan.sign cs)) = 0 then 0
        else Scan.sign cs + Scan.run Char.isDigit (cs.drop (Scan.sign cs))) :=
  (longest_sign cs).mul_left (.inl rfl) sign_within
    (digits_startsWithout fun _ => not_isSign_of_isDigit) (longest_digits _)

theorem longest_exponent (cs : List Char) : Longest exponent cs (Scan.exponent cs) := by
  cases cs with
  | nil =>
      refine ⟨?_, fun hpos => absurd hpos (Nat.lt_irrefl 0)⟩
      rintro w - h
      exact h.length_le
  | cons e r =>
      rw [Scan.exponent_cons]
      have hi := longest_integer r
      constructor
      · intro w hw h
        obtain ⟨e', he, b, hb, rfl⟩ := mem_exponent.mp hw
        obtain ⟨rfl, hahead⟩ := List.cons_prefix_cons.mp h
        have hle := hi.le b hb hahead
        have hpos : 0 < b.length := List.length_pos_of_ne_nil (integer_ne_nil hb)
        split at hle
        · omega
        · rename_i hne
          rw [if_pos ⟨he, hne⟩, List.length_cons]
          omega
      · intro hpos
        split at hpos
        · rename_i hc
          obtain ⟨he, hne⟩ := hc
          rw [if_neg hne] at hi
          obtain ⟨hle, hmem⟩ := hi.mem (by omega)
          rw [if_pos ⟨he, hne⟩, Nat.add_comm 1, List.take_succ_cons]
          exact ⟨Nat.succ_le_succ hle, mem_exponent.mpr ⟨e, he, _, hmem, rfl⟩⟩
        · exact absurd hpos (Nat.lt_irrefl 0)

/-! ## Whole numbers -/

/-- The characters up to the exponent. -/
def IsPlain (c : Char) : Prop := ¬ (c = 'e' ∨ c = 'E')

theorem isPlain_of_isDigit {c : Char} (h : c.isDigit = true) : IsPlain c := by
  rintro (rfl | rfl) <;> simp at h

theorem digits_within : Within digits IsPlain := fun _ hw c hc => isPlain_of_isDigit (hw.2 c hc)

theorem fraction_within : Within fraction IsPlain := by
  intro w hw c hc
  obtain ⟨ds, hds, rfl⟩ := mem_fraction.mp hw
  rcases List.mem_cons.mp hc with rfl | hc
  · rintro (h | h) <;> simp at h
  · exact digits_within ds hds c hc

theorem Within.mul (hA : Within A P) (hB : Within B P) : Within (A * B) P := by
  intro w hw c hc
  obtain ⟨a, ha, b, hb, rfl⟩ := Language.mem_mul.mp hw
  rcases List.mem_append.mp hc with hc | hc
  · exact hA a ha c hc
  · exact hB b hb c hc

theorem Within.add (hA : Within A P) (hB : Within B P) : Within (A + B) P := by
  intro w hw
  rcases (Language.mem_add _ _ _).mp hw with hw | hw
  · exact hA w hw
  · exact hB w hw

theorem Within.one : Within 1 P := by
  rintro w rfl c hc
  cases hc

theorem mantissa_within : Within mantissa IsPlain :=
  (digits_within.mul (Within.one.add fraction_within)).add fraction_within

theorem StartsWithout.mul_right (hA : StartsWithout A P) : StartsWithout (A * B) P := by
  intro w hw
  obtain ⟨a, ha, b, -, rfl⟩ := Language.mem_mul.mp hw
  obtain ⟨c, hc, hnot⟩ := hA a ha
  obtain ⟨t, rfl⟩ := List.head?_eq_some_iff.mp hc
  exact ⟨c, rfl, hnot⟩

theorem mantissa_startsWithout : StartsWithout mantissa IsSign := by
  intro w hw
  rcases (Language.mem_add _ _ _).mp hw with hw | hw
  · exact (digits_startsWithout fun _ => not_isSign_of_isDigit).mul_right w hw
  · obtain ⟨ds, -, rfl⟩ := mem_fraction.mp hw
    exact ⟨'.', rfl, by rintro (h | h) <;> simp at h⟩

theorem significand_within : Within (sign * mantissa) IsPlain := by
  refine Within.mul ?_ mantissa_within
  rintro w hw c hc
  rcases sign_within w hw c hc with rfl | rfl
  · rintro (h | h) <;> simp at h
  · rintro (h | h) <;> simp at h

theorem exponent_startsWithout : StartsWithout exponent IsPlain := by
  intro w hw
  obtain ⟨e, he, b, -, rfl⟩ := mem_exponent.mp hw
  exact ⟨e, rfl, not_not_intro he⟩

theorem nil_notMem_significand : [] ∉ sign * mantissa := by
  intro h
  obtain ⟨a, -, b, hb, heq⟩ := Language.mem_mul.mp h
  exact mantissa_startsWithout.ne_nil hb (List.append_eq_nil_iff.mp heq).2

theorem nil_notMem_number : [] ∉ number := by
  intro h
  obtain ⟨a, ha, b, -, heq⟩ := Language.mem_mul.mp h
  rw [(List.append_eq_nil_iff.mp heq).1] at ha
  exact nil_notMem_significand ha

/-- **The scanner finds the longest number.** -/
theorem longest_numericPrefix (cs : List Char) : Longest number cs (numericPrefix cs) := by
  have hsignificand := (longest_sign cs).mul_left (.inl rfl) sign_within mantissa_startsWithout
    (longest_mantissa _)
  have h := hsignificand.mul_right nil_notMem_significand significand_within
    exponent_startsWithout (longest_exponent _)
  rw [numericPrefix_eq]
  dsimp only
  rw [List.drop_drop] at h
  simp only [Bool.and_eq_true, beq_iff_eq, ← Nat.add_eq_zero_iff]
  split at h
  · rename_i hzero
    rw [if_pos hzero]
    exact h
  · rename_i hpos
    rw [if_neg (by omega), ← Nat.add_assoc] at h
    rw [if_neg hpos]
    exact h

/-- The scanner takes a whole number, and nothing else. -/
theorem numericPrefix_eq_length_iff (hw : w ≠ []) : numericPrefix w = w.length ↔ w ∈ number := by
  have h := longest_numericPrefix w
  constructor
  · intro heq
    have hmem := (h.mem (by rw [heq]; exact List.length_pos_of_ne_nil hw)).2
    rwa [heq, List.take_length] at hmem
  · intro hmem
    have hge := h.le w hmem (List.prefix_refl w)
    have hle := (h.mem (by have := List.length_pos_of_ne_nil hw; omega)).1
    omega

theorem numericPrefix_le (cs : List Char) : numericPrefix cs ≤ cs.length := by
  rcases Nat.eq_zero_or_pos (numericPrefix cs) with hzero | hpos
  · rw [hzero]
    exact Nat.zero_le _
  · exact ((longest_numericPrefix cs).mem hpos).1

/-- The number alone is scanned to its end. -/
theorem numericPrefix_take (cs : List Char) :
    numericPrefix (cs.take (numericPrefix cs)) = numericPrefix cs := by
  rcases Nat.eq_zero_or_pos (numericPrefix cs) with hzero | hpos
  · rw [hzero]
    rfl
  · obtain ⟨hle, hmem⟩ := (longest_numericPrefix cs).mem hpos
    have hne := ne_of_mem_of_not_mem hmem nil_notMem_number
    rw [(numericPrefix_eq_length_iff hne).mpr hmem, List.length_take, Nat.min_eq_left hle]

/-- What is behind a number that has no exponent stays there if it starts with no exponent. -/
theorem numericPrefix_append (ha : a ∈ sign * mantissa) (hmark : b.head? = some 'e' ∨ b.head? = some 'E')
    (hb : ∀ w ∈ exponent, ¬ w <+: b) : numericPrefix (a ++ b) = a.length := by
  have hlen : ∀ w ∈ sign * mantissa, w <+: a ++ b → w.length ≤ a.length := by
    intro w hw h
    -- a longer one would have the mark of an exponent
    by_contra hlt
    obtain ⟨e, r, rfl⟩ : ∃ e r, b = e :: r := by
      cases b with
      | nil => simp at hmark
      | cons e r => exact ⟨e, r, rfl⟩
    have hmem : e ∈ w := by
      rw [List.prefix_iff_eq_take.mp h]
      exact List.mem_take_iff_getElem.mpr ⟨a.length, by simp; omega, by simp⟩
    exact significand_within w hw e hmem (by simpa using hmark)
  have hlongest : Longest (sign * mantissa) (a ++ b) a.length :=
    ⟨hlen, fun _ => ⟨by simp, by simpa using ha⟩⟩
  have hnone : Longest exponent ((a ++ b).drop a.length) 0 := by
    rw [List.drop_left]
    exact ⟨fun w hw h => absurd h (hb w hw), fun hpos => absurd hpos (Nat.lt_irrefl 0)⟩
  have h := hlongest.mul_right nil_notMem_significand significand_within exponent_startsWithout hnone
  rw [(longest_numericPrefix (a ++ b)).unique h, Nat.add_zero]
  split <;> simp_all

/-! ## Bytes -/

theorem utf8ByteSize_ofList (h : ∀ c ∈ cs, c.utf8Size = 1) :
    (String.ofList cs).utf8ByteSize = cs.length := by
  induction cs with
  | nil => rfl
  | cons c cs ih =>
      rw [String.ofList_cons, String.utf8ByteSize_append, ih fun d hd => h d (List.mem_cons_of_mem c hd),
        List.length_cons, Nat.add_comm]
      simp [h c List.mem_cons_self]

theorem length_le_utf8ByteSize (s : String) : s.toList.length ≤ s.utf8ByteSize := by
  have h : ∀ cs : List Char, cs.length ≤ (String.ofList cs).utf8ByteSize := by
    intro cs
    induction cs with
    | nil => exact Nat.zero_le _
    | cons c cs ih =>
        have hpos := c.utf8Size_pos
        rw [String.ofList_cons, String.utf8ByteSize_append, List.length_cons]
        simp only [String.utf8ByteSize_singleton]
        omega
  simpa using h s.toList

theorem utf8Size_of_isDigit {c : Char} (h : c.isDigit = true) : c.utf8Size = 1 := by
  simp only [Char.isDigit, Bool.and_eq_true, decide_eq_true_eq, ge_iff_le,
    UInt32.le_iff_toNat_le] at h
  rw [Char.utf8Size, if_pos]
  rw [UInt32.le_iff_toNat_le]
  have hle : c.val.toNat ≤ 57 := h.2
  change c.val.toNat ≤ 127
  omega

/-- A number is written with one byte a character. -/
theorem number_ascii : Within number fun c => c.utf8Size = 1 := by
  have hsign : Within sign fun c => c.utf8Size = 1 := by
    intro w hw c hc
    rcases sign_within w hw c hc with rfl | rfl <;> rfl
  have hdigits : Within digits fun c => c.utf8Size = 1 :=
    fun _ hw c hc => utf8Size_of_isDigit (hw.2 c hc)
  have hfraction : Within fraction fun c => c.utf8Size = 1 := by
    refine Within.mul ?_ hdigits
    rintro w rfl c hc
    rw [List.mem_singleton.mp hc]
    rfl
  have hexponent : Within exponent fun c => c.utf8Size = 1 := by
    refine Within.mul ?_ (hsign.mul hdigits)
    rintro w (rfl | rfl) c hc <;>
    · rw [List.mem_singleton.mp hc]
      rfl
  exact (hsign.mul ((hdigits.mul (Within.one.add hfraction)).add hfraction)).mul
    (Within.one.add hexponent)

theorem utf8ByteSize_take_numericPrefix (cs : List Char) :
    (String.ofList (cs.take (numericPrefix cs))).utf8ByteSize = numericPrefix cs := by
  rcases Nat.eq_zero_or_pos (numericPrefix cs) with hzero | hpos
  · rw [hzero]
    rfl
  · have h := (longest_numericPrefix cs).mem hpos
    rw [utf8ByteSize_ofList (number_ascii _ h.2), List.length_take, Nat.min_eq_left h.1]

/-! ## Numbers and units -/

/-- A text is a number and what is behind it, and the number is as long as it can be. -/
structure Splits (s number unit : String) : Prop where
  eq : s = number ++ unit
  mem : number.toList ∈ Numeric.number
  longest : ∀ w ∈ Numeric.number, w <+: s.toList → w.length ≤ number.length

theorem splits_iff {s number unit : String} :
    Splits s number unit ↔ numericPrefix s.toList ≠ 0 ∧
      number = String.ofList (s.toList.take (numericPrefix s.toList)) ∧
      unit = String.ofList (s.toList.drop (numericPrefix s.toList)) := by
  have hn := longest_numericPrefix s.toList
  constructor
  · rintro ⟨rfl, hmem, hlongest⟩
    have htake : (number ++ unit).toList.take number.length = number.toList := by
      rw [String.toList_append, ← String.length_toList, List.take_left]
    have hdrop : (number ++ unit).toList.drop number.length = unit.toList := by
      rw [String.toList_append, ← String.length_toList, List.drop_left]
    have h : Longest Numeric.number (number ++ unit).toList number.length :=
      ⟨hlongest, fun _ => ⟨by simp [← String.length_toList], htake ▸ hmem⟩⟩
    have hpos : number.toList ≠ [] := ne_of_mem_of_not_mem hmem nil_notMem_number
    rw [hn.unique h, htake, hdrop, ← String.length_toList]
    exact ⟨fun hzero => hpos (List.eq_nil_of_length_eq_zero hzero), by simp, by simp⟩
  · rintro ⟨hne, rfl, rfl⟩
    obtain ⟨hle, hmem⟩ := hn.mem (Nat.pos_of_ne_zero hne)
    refine ⟨?_, by simpa using hmem, ?_⟩
    · rw [← String.ofList_append, List.take_append_drop, String.ofList_toList]
    · intro w hw h
      simpa [hle] using hn.le w hw h

/-- A dimension is split after its number. -/
theorem isDimension_iff (units : Option (List String)) (t : Token) (range : Option Range) :
    Recognizer.isDimension units t range = true ↔ t.kind = .dimension ∧
      ∃ number unit, Splits t.value number unit ∧ unit ≠ "" ∧
        (∀ us ∈ units, Text.lower unit ∈ us) ∧ Recognizer.inRange number range = true := by
  simp only [splits_iff]
  have hunit : String.ofList (t.value.toList.drop (numericPrefix t.value.toList)) ≠ "" ↔
      numericPrefix t.value.toList ≠ t.value.toList.length := by
    have hle := numericPrefix_le t.value.toList
    rw [not_iff_not, ← String.toList_inj]
    simp only [String.toList_ofList, String.toList_empty, List.drop_eq_nil_iff]
    omega
  have htests : Recognizer.isDimension units t range = true ↔ t.kind = .dimension ∧
      ((numericPrefix t.value.toList ≠ 0 ∧
        String.ofList (t.value.toList.drop (numericPrefix t.value.toList)) ≠ "") ∧
        ∀ us ∈ units,
          Text.lower (String.ofList (t.value.toList.drop (numericPrefix t.value.toList))) ∈ us) ∧
      Recognizer.inRange (String.ofList (t.value.toList.take (numericPrefix t.value.toList)))
        range = true := by
    rw [hunit]
    cases units <;> simp [Recognizer.isDimension, and_assoc]
  rw [htests]
  constructor
  · rintro ⟨hkind, ⟨⟨hne, hrest⟩, hus⟩, hrange⟩
    exact ⟨hkind, _, _, ⟨hne, rfl, rfl⟩, hrest, hus, hrange⟩
  · rintro ⟨hkind, _, _, ⟨hne, rfl, rfl⟩, hrest, hus, hrange⟩
    exact ⟨hkind, ⟨⟨hne, hrest⟩, hus⟩, hrange⟩

/-- **The number in a dimension is the longest there is.** The scanner counts the bytes of the longest
prefix that is a number of CSS, or none if there is no such prefix; there are never more than the text
has, and the number alone is scanned to its end. So a text that starts with a number is split into a
number and a unit in one way, and a dimension is split so with a unit that is left and allowed and a
number within the range. An `e` with no exponent behind it stays in the unit. -/
theorem numericPrefix_isGreatest (s : String) :
    (IsGreatest {k | ∃ p ∈ number, p <+: s.toList ∧ (String.ofList p).utf8ByteSize = k}
        (numericPrefix s.toList) ∨
      (∀ p ∈ number, ¬ p <+: s.toList) ∧ numericPrefix s.toList = 0) ∧
    numericPrefix s.toList ≤ s.utf8ByteSize ∧
    (∃ p, p <+: s.toList ∧ (String.ofList p).utf8ByteSize = numericPrefix s.toList ∧
      numericPrefix p = numericPrefix s.toList) ∧
    (∀ p ∈ number, p <+: s.toList → ∃! split : String × String, Splits s split.1 split.2) ∧
    (∀ units kind extra range,
      Recognizer.isDimension units ⟨kind, s, extra⟩ range = true ↔ kind = .dimension ∧
        ∃ num unit, Splits s num unit ∧ unit ≠ "" ∧
          (∀ us ∈ units, Text.lower unit ∈ us) ∧ Recognizer.inRange num range = true) ∧
    (∀ num ∈ sign * mantissa, ∀ e rest, s.toList = num ++ e :: rest → (e = 'e' ∨ e = 'E') →
      (∀ w ∈ exponent, ¬ w <+: e :: rest) →
      Splits s (String.ofList num) (String.ofList (e :: rest))) := by
  have hn := longest_numericPrefix s.toList
  have hle := numericPrefix_le s.toList
  have hbytes := utf8ByteSize_take_numericPrefix s.toList
  refine ⟨?_, hle.trans (length_le_utf8ByteSize s), ?_, ?_, ?_, ?_⟩
  · rcases Nat.eq_zero_or_pos (numericPrefix s.toList) with hzero | hpos
    · exact .inr ⟨(hn.eq_zero_iff nil_notMem_number).mp hzero, hzero⟩
    · refine .inl ⟨⟨_, (hn.mem hpos).2, List.take_prefix _ _, hbytes⟩, ?_⟩
      rintro k ⟨p, hp, hahead, rfl⟩
      rw [utf8ByteSize_ofList (number_ascii p hp)]
      exact hn.le p hp hahead
  · exact ⟨_, List.take_prefix _ _, hbytes, numericPrefix_take s.toList⟩
  · intro p hp hahead
    have hne : numericPrefix s.toList ≠ 0 := fun hzero =>
      (hn.eq_zero_iff nil_notMem_number).mp hzero p hp hahead
    refine ⟨(_, _), splits_iff.mpr ⟨hne, rfl, rfl⟩, ?_⟩
    rintro ⟨num, unit⟩ h
    obtain ⟨-, rfl, rfl⟩ := splits_iff.mp h
    rfl
  · intro units kind extra range
    exact isDimension_iff units ⟨kind, s, extra⟩ range
  · intro num hnum e rest hs he hnone
    have hahead : numericPrefix s.toList = num.length := by
      rw [hs]
      exact numericPrefix_append hnum (by simpa using he) hnone
    have hne : num ≠ [] := ne_of_mem_of_not_mem hnum nil_notMem_significand
    rw [splits_iff, hahead, hs, List.take_left, List.drop_left]
    exact ⟨fun hzero => hne (List.eq_nil_of_length_eq_zero hzero), rfl, rfl⟩

/-- The unit of a text that starts with an `e`, as the one of `2em`. -/
theorem numericPrefix_isGreatest_em : Splits "2em" "2" "em" := by
  have hnum : ['2'] ∈ sign * mantissa := by
    have hdigits : ['2'] ∈ digits := ⟨by simp, by simp⟩
    have hmantissa : ['2'] ∈ mantissa :=
      (Language.mem_add _ _ _).mpr (.inl (Language.append_mem_mul hdigits nil_mem_one_add))
    exact Language.append_mem_mul (mem_sign.mpr (.inl rfl)) hmantissa
  have hnone : ∀ w ∈ exponent, ¬ w <+: ['e', 'm'] :=
    ((longest_exponent ['e', 'm']).eq_zero_iff exponent_startsWithout.nil_notMem).mp rfl
  exact (numericPrefix_isGreatest "2em").2.2.2.2.2 ['2'] hnum 'e' ['m'] rfl (.inl rfl) hnone

end Numeric

end ValueGrammar

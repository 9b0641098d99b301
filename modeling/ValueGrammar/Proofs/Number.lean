import ValueGrammar.Number.Reader
import ValueGrammar.Number.Shortest
import Mathlib.Tactic.Ring

/-!
# `ValueGrammar.Proofs.Number` — a number that is written reads back

The bounds of a range are double precision numbers. They are read from decimal digits by rounding to
the nearest number, and written with the fewest digits that read back. This module shows that what is
written does read back as the number it was written from, for every number that can be read: the
search for few digits ends with digits that were tested, or with the whole decimal expansion, which
is rounded to the number itself.

## Contents
- `Binary64.IsMagnitude`: the magnitudes that rounding gives, and keeps.
- `Decimal.magnitude?_shortest`: the decimal chosen for a number is rounded to it.
- `Numeral.scaled?_eq`: the powers that are not computed do not matter.
- `Numeral.positional`, `Numeral.Plain`: digits with a point, and how they are read.
- `Binary64.read?_magnitudeText`: the text of a number reads back.
-/

namespace ValueGrammar

/-! ## Rounding -/

namespace Binary64

/-- Rounding depends only on the ratio. -/
theorem divHalfEven_mul_right (a b : Nat) {c : Nat} (hc : 0 < c) :
    divHalfEven (a * c) (b * c) = divHalfEven a b := by
  have hlt : 2 * (a * c % (b * c)) < b * c ↔ 2 * (a % b) < b := by
    rw [Nat.mul_mod_mul_right, ← Nat.mul_assoc]
    exact Nat.mul_lt_mul_right hc
  have hgt : b * c < 2 * (a * c % (b * c)) ↔ b < 2 * (a % b) := by
    rw [Nat.mul_mod_mul_right, ← Nat.mul_assoc]
    exact Nat.mul_lt_mul_right hc
  simp only [divHalfEven, Nat.mul_div_mul_right a b hc, hlt, hgt]

theorem divHalfEven_of_dvd {a b : Nat} (hb : 0 < b) (h : b ∣ a) : divHalfEven a b = a / b := by
  simp [divHalfEven, Nat.mod_eq_zero_of_dvd h, hb]

theorem div_le_divHalfEven (a b : Nat) : a / b ≤ divHalfEven a b := by
  simp only [divHalfEven]
  split_ifs <;> omega

theorem divHalfEven_le (a b : Nat) : divHalfEven a b ≤ a / b + 1 := by
  simp only [divHalfEven]
  split_ifs <;> omega

theorem divHalfEven_eq_zero {a b : Nat} (h : 2 * a < b) : divHalfEven a b = 0 := by
  have ha : a < b := by omega
  simp [divHalfEven, Nat.mod_eq_of_lt ha, Nat.div_eq_of_lt ha, h]

/-- The magnitudes of double precision numbers: those in range that have no bits but those kept. -/
structure IsMagnitude (m : Nat) : Prop where
  lt : m < limit
  dvd : 2 ^ droppedBits m ∣ m

theorem roundRatio_eq (num den : Nat) :
    roundRatio num den =
      if divHalfEven (num * 2 ^ unitBits) (den * 2 ^ droppedBits (num * 2 ^ unitBits / den)) *
          2 ^ droppedBits (num * 2 ^ unitBits / den) < limit
      then some (divHalfEven (num * 2 ^ unitBits)
          (den * 2 ^ droppedBits (num * 2 ^ unitBits / den)) *
            2 ^ droppedBits (num * 2 ^ unitBits / den))
      else none := by
  simp only [roundRatio, Nat.shiftLeft_eq]

theorem roundRatio_mul_right (num den : Nat) {c : Nat} (hc : 0 < c) :
    roundRatio (num * c) (den * c) = roundRatio num den := by
  rw [roundRatio_eq, roundRatio_eq, Nat.mul_right_comm num, Nat.mul_div_mul_right _ _ hc,
    Nat.mul_right_comm den, divHalfEven_mul_right _ _ hc]

/-- A magnitude is the nearest one to itself. -/
theorem roundRatio_of_isMagnitude {m : Nat} (h : IsMagnitude m) {c : Nat} (hc : 0 < c) :
    roundRatio (m * c) (2 ^ unitBits * c) = some m := by
  have hpow : 0 < 2 ^ unitBits := Nat.two_pow_pos _
  rw [roundRatio_mul_right _ _ hc, roundRatio_eq, Nat.mul_div_cancel _ hpow,
    Nat.mul_comm (2 ^ unitBits), divHalfEven_mul_right _ _ hpow,
    divHalfEven_of_dvd (Nat.two_pow_pos _) h.dvd, Nat.div_mul_cancel h.dvd, if_pos h.lt]

/-- A number with no more bits than are kept, followed by zeros, has no bits that are dropped. -/
theorem dvd_shifted {r k : Nat} (hr : r ≤ 2 ^ precision) :
    2 ^ droppedBits (r * 2 ^ k) ∣ r * 2 ^ k := by
  rcases Nat.eq_zero_or_pos r with rfl | hpos
  · simp
  rcases Nat.lt_or_eq_of_le hr with hlt | rfl
  · -- fewer bits than are kept: at most the bits it was moved by are dropped
    have hne : r * 2 ^ k ≠ 0 := Nat.mul_ne_zero hpos.ne' (Nat.two_pow_pos k).ne'
    have hlog : (r * 2 ^ k).log2 < precision + k := by
      rw [Nat.log2_lt hne, Nat.pow_add]
      exact Nat.mul_lt_mul_of_pos_right hlt (Nat.two_pow_pos k)
    have hle : droppedBits (r * 2 ^ k) ≤ k := by
      unfold droppedBits
      omega
    exact Dvd.dvd.mul_left (Nat.pow_dvd_pow 2 hle) r
  · rw [← Nat.pow_add]
    refine Nat.pow_dvd_pow 2 ?_
    rw [droppedBits, Nat.log2_two_pow]
    unfold precision
    omega

theorem div_pow_droppedBits_lt (s : Nat) : s / 2 ^ droppedBits s < 2 ^ precision := by
  rw [Nat.div_lt_iff_lt_mul (Nat.two_pow_pos _), ← Nat.pow_add]
  have hlog : s.log2 + 1 ≤ precision + droppedBits s := by
    unfold droppedBits
    omega
  exact Nat.lt_of_lt_of_le Nat.lt_log2_self (Nat.pow_le_pow_right (by decide) hlog)

/-- Rounding gives magnitudes. -/
theorem isMagnitude_of_roundRatio {num den m : Nat} (h : roundRatio num den = some m) :
    IsMagnitude m := by
  rw [roundRatio_eq] at h
  split at h
  · rename_i hlt
    cases h
    refine ⟨hlt, dvd_shifted ?_⟩
    have hle := divHalfEven_le (num * 2 ^ unitBits)
      (den * 2 ^ droppedBits (num * 2 ^ unitBits / den))
    rw [← Nat.div_div_eq_div_mul] at hle
    have hfloor := div_pow_droppedBits_lt (num * 2 ^ unitBits / den)
    omega
  · cases h

theorem limit_eq : limit = 2 ^ (1024 + unitBits) := by
  unfold limit
  generalize 1024 + unitBits = n
  rfl

theorem limit_pos : 0 < limit := by
  rw [limit_eq]
  exact Nat.two_pow_pos _

/-- What is out of range before it is rounded is so afterwards. -/
theorem roundRatio_eq_none {num den : Nat} (h : limit ≤ num * 2 ^ unitBits / den) :
    roundRatio num den = none := by
  rw [roundRatio_eq, if_neg]
  generalize hs : num * 2 ^ unitBits / den = s at h ⊢
  have hne : s ≠ 0 := by
    rintro rfl
    exact absurd h (Nat.not_le.mpr limit_pos)
  -- the leading bit of the ratio is kept
  have hlog : 1024 + unitBits ≤ s.log2 := (Nat.le_log2 hne).mpr (limit_eq ▸ h)
  have hdrop : droppedBits s ≤ s.log2 := by
    unfold droppedBits precision
    omega
  have hkept : 2 ^ s.log2 ≤ s / 2 ^ droppedBits s * 2 ^ droppedBits s := by
    have hsplit : 2 ^ s.log2 = 2 ^ (s.log2 - droppedBits s) * 2 ^ droppedBits s := by
      rw [← Nat.pow_add, Nat.sub_add_cancel hdrop]
    rw [hsplit]
    refine Nat.mul_le_mul_right _ ((Nat.le_div_iff_mul_le (Nat.two_pow_pos _)).mpr ?_)
    rw [← hsplit]
    exact Nat.log2_self_le hne
  have hround := div_le_divHalfEven (num * 2 ^ unitBits) (den * 2 ^ droppedBits s)
  rw [← Nat.div_div_eq_div_mul, hs] at hround
  rw [Nat.not_lt, limit_eq]
  calc 2 ^ (1024 + unitBits) ≤ 2 ^ s.log2 := Nat.pow_le_pow_right (by decide) hlog
    _ ≤ s / 2 ^ droppedBits s * 2 ^ droppedBits s := hkept
    _ ≤ _ := Nat.mul_le_mul_right _ hround

/-- What is less than half of the smallest number is rounded to zero. -/
theorem roundRatio_eq_zero {num den : Nat} (h : 2 * (num * 2 ^ unitBits) < den) :
    roundRatio num den = some 0 := by
  have hdiv : num * 2 ^ unitBits / den = 0 := Nat.div_eq_of_lt (by omega)
  have hdrop : droppedBits 0 = 0 := rfl
  rw [roundRatio_eq, hdiv, hdrop, Nat.pow_zero, Nat.mul_one, Nat.mul_one, divHalfEven_eq_zero h,
    if_pos limit_pos]

end Binary64

/-! ## Decimals -/

namespace Decimal

theorem magnitude?_ofNat (n k : Nat) :
    magnitude? ⟨n, .ofNat k⟩ = Binary64.roundRatio (n * 10 ^ k) 1 := rfl

theorem magnitude?_negSucc (n k : Nat) :
    magnitude? ⟨n, .negSucc k⟩ = Binary64.roundRatio n (10 ^ (k + 1)) := rfl

theorem magnitude?_neg (n f : Nat) :
    magnitude? ⟨n, -(f : Int)⟩ = Binary64.roundRatio n (10 ^ f) := by
  cases f with
  | zero => simp [magnitude?]
  | succ f => rfl

theorem isMagnitude_of_magnitude? {d : Decimal} {m : Nat} (h : d.magnitude? = some m) :
    Binary64.IsMagnitude m := by
  obtain ⟨n, e⟩ := d
  cases e with
  | ofNat k =>
      rw [magnitude?_ofNat] at h
      exact Binary64.isMagnitude_of_roundRatio h
  | negSucc k =>
      rw [magnitude?_negSucc] at h
      exact Binary64.isMagnitude_of_roundRatio h

/-- Zeros at the end of the places do not count. -/
theorem magnitude?_trailing (n f z : Nat) :
    magnitude? ⟨n * 10 ^ z, -((f + z : Nat) : Int)⟩ = magnitude? ⟨n, -(f : Int)⟩ := by
  rw [magnitude?_neg, magnitude?_neg, Nat.pow_add,
    Binary64.roundRatio_mul_right _ _ (Nat.pow_pos (by decide))]

theorem exact_eq (m : Nat) :
    exact m = ⟨m * 5 ^ Binary64.unitBits, -(Binary64.unitBits : Int)⟩ := by
  unfold exact
  generalize Binary64.unitBits = n
  rfl

theorem magnitude?_exact {m : Nat} (h : Binary64.IsMagnitude m) : (exact m).magnitude? = some m := by
  have hpow (n : Nat) : 10 ^ n = 2 ^ n * 5 ^ n := by rw [← Nat.mul_pow]
  have hround := Binary64.roundRatio_of_isMagnitude h (c := 5 ^ Binary64.unitBits)
    (Nat.pow_pos (by decide))
  rw [← hpow, ← magnitude?_neg, ← exact_eq] at hround
  exact hround

/-- **The shortest decimal of a number reads back as the number.** -/
theorem magnitude?_shortest {m : Nat} (h : Binary64.IsMagnitude m) :
    (shortest m).magnitude? = some m := by
  unfold shortest
  extract_lets p grids
  cases hf : grids.find? fun d => d.magnitude? == some m with
  | none => exact magnitude?_exact h
  | some d =>
      have hfound := List.find?_some hf
      exact eq_of_beq hfound

end Decimal

/-! ## Cut-offs -/

namespace Numeral

theorem two_pow_le_ten_pow {a b : Nat} (h : a ≤ 3 * b) : 2 ^ a ≤ 10 ^ b :=
  calc 2 ^ a ≤ 2 ^ (3 * b) := Nat.pow_le_pow_right (by decide) h
    _ = 8 ^ b := Nat.pow_mul 2 3 b
    _ ≤ 10 ^ b := Nat.pow_le_pow_left (by decide) b

section cutoff

variable {num den low high : Nat} (hl : 1 + Binary64.unitBits ≤ 3 * low) (hh : 1024 ≤ 3 * high)

include hh in
theorem roundRatio_eq_none_of_le (hd : 0 < den) (h : 10 ^ high * den ≤ num) :
    Binary64.roundRatio num den = none := by
  have hscaled : ∀ b, b ≤ 3 * high →
      2 ^ (b + Binary64.unitBits) ≤ 10 ^ high * 2 ^ Binary64.unitBits := by
    intro b hb
    rw [Nat.pow_add]
    exact Nat.mul_le_mul_right _ (two_pow_le_ten_pow hb)
  have hlimit : Binary64.limit ≤ 10 ^ high * 2 ^ Binary64.unitBits := by
    rw [Binary64.limit_eq]
    exact hscaled _ hh
  refine Binary64.roundRatio_eq_none ((Nat.le_div_iff_mul_le hd).mpr ?_)
  calc Binary64.limit * den ≤ 10 ^ high * 2 ^ Binary64.unitBits * den :=
        Nat.mul_le_mul_right _ hlimit
    _ = 10 ^ high * den * 2 ^ Binary64.unitBits := Nat.mul_right_comm _ _ _
    _ ≤ num * 2 ^ Binary64.unitBits := Nat.mul_le_mul_right _ h

include hl in
theorem roundRatio_eq_zero_of_lt (h : num * 10 ^ low < den) :
    Binary64.roundRatio num den = some 0 := by
  refine Binary64.roundRatio_eq_zero (Nat.lt_of_le_of_lt ?_ h)
  calc 2 * (num * 2 ^ Binary64.unitBits) = num * 2 ^ (1 + Binary64.unitBits) := by
        rw [Nat.pow_add]
        ring
    _ ≤ num * 10 ^ low := Nat.mul_le_mul_left _ (two_pow_le_ten_pow hl)

include hl hh in
/-- **The powers that are not computed do not matter**: they are of numbers out of range, or of
numbers that are rounded to zero. -/
theorem scaled?_eq (n : Nat) (e : Int) :
    scaled? 10 low high (Nat.toDigits 10 n).length n e = Decimal.magnitude? ⟨n, e⟩ := by
  have hupper : n < 10 ^ (Nat.toDigits 10 n).length :=
    (Nat.length_toDigits_le_iff (by decide) Nat.length_toDigits_pos).mp (Nat.le_refl _)
  have hlower : n ≠ 0 → 10 ^ ((Nat.toDigits 10 n).length - 1) ≤ n := by
    intro hn
    rcases Nat.lt_or_ge 1 (Nat.toDigits 10 n).length with hlen | hlen
    · refine Nat.le_of_not_lt fun hlt => ?_
      have := (Nat.length_toDigits_le_iff (by decide) (by omega)).mpr hlt
      omega
    · rw [Nat.sub_eq_zero_of_le hlen]
      exact Nat.pos_of_ne_zero hn
  generalize (Nat.toDigits 10 n).length = size at hupper hlower ⊢
  unfold scaled?
  split_ifs with hzero hhigh hlow
  · rw [eq_of_beq hzero]
    have hround : ∀ {den}, 0 < den → Binary64.roundRatio 0 den = some 0 := by
      intro den hd
      refine roundRatio_eq_zero_of_lt hl ?_
      rwa [Nat.zero_mul]
    cases e with
    | ofNat k => rw [Decimal.magnitude?_ofNat, Nat.zero_mul, hround Nat.one_pos]
    | negSucc k => rw [Decimal.magnitude?_negSucc, hround (Nat.pow_pos (by decide))]
  · -- the leading digit alone is out of range
    have hn : n ≠ 0 := by simpa using hzero
    cases e with
    | ofNat k =>
        have hsize : high ≤ size - 1 + k := by
          rw [Int.ofNat_eq_natCast] at hhigh
          omega
        rw [Decimal.magnitude?_ofNat, roundRatio_eq_none_of_le hh Nat.one_pos]
        calc 10 ^ high * 1 ≤ 10 ^ (size - 1 + k) := by
              rw [Nat.mul_one]
              exact Nat.pow_le_pow_right (by decide) hsize
          _ = 10 ^ (size - 1) * 10 ^ k := Nat.pow_add _ _ _
          _ ≤ n * 10 ^ k := Nat.mul_le_mul_right _ (hlower hn)
    | negSucc k =>
        have hsize : high + (k + 1) ≤ size - 1 := by omega
        rw [Decimal.magnitude?_negSucc, roundRatio_eq_none_of_le hh (Nat.pow_pos (by decide))]
        calc 10 ^ high * 10 ^ (k + 1) = 10 ^ (high + (k + 1)) := (Nat.pow_add _ _ _).symm
          _ ≤ 10 ^ (size - 1) := Nat.pow_le_pow_right (by decide) hsize
          _ ≤ n := hlower hn
  · cases e with
    | ofNat k =>
        rw [Int.ofNat_eq_natCast] at hlow
        omega
    | negSucc k =>
        have hsize : size + low ≤ k + 1 := by omega
        rw [Decimal.magnitude?_negSucc, roundRatio_eq_zero_of_lt hl]
        calc n * 10 ^ low < 10 ^ size * 10 ^ low :=
              Nat.mul_lt_mul_of_pos_right hupper (Nat.pow_pos (by decide))
          _ = 10 ^ (size + low) := (Nat.pow_add _ _ _).symm
          _ ≤ 10 ^ (k + 1) := Nat.pow_le_pow_right (by decide) hsize
  · cases e <;> rfl

end cutoff

theorem magnitude?_decimal {n : Numeral} (h : n.hexadecimal = false) :
    n.magnitude? = Decimal.magnitude? ⟨n.mantissa, n.exponent - n.fraction⟩ := by
  rw [magnitude?, h, if_neg Bool.false_ne_true]
  exact scaled?_eq (by decide) (by decide) _ _

/-! ## Positional notation -/

/-- Every character is a decimal digit. -/
def AllDigits (cs : List Char) : Prop := ∀ c ∈ cs, c.isDigit = true

theorem AllDigits.append {cs ds : List Char} (hc : AllDigits cs) (hd : AllDigits ds) :
    AllDigits (cs ++ ds) := by
  intro x hx
  rcases List.mem_append.mp hx with hx | hx
  · exact hc x hx
  · exact hd x hx

theorem allDigits_zeros (k : Nat) : AllDigits (List.replicate k '0') := by
  intro c hc
  rw [List.eq_of_mem_replicate hc]
  decide

theorem takeDigits_append {ds : List Char} (h : AllDigits ds) (rest : List Char) (d : Digits) :
    takeDigits false (ds ++ rest) d =
      takeDigits false rest
        { mantissa := Nat.ofDigitChars 10 ds d.mantissa
          fraction := if d.point then d.fraction + ds.length else d.fraction
          point := d.point
          any := d.any || !ds.isEmpty } := by
  induction ds generalizing d with
  | nil => simp [Nat.ofDigitChars_nil]
  | cons c ds ih =>
      have hc : c.isDigit = true := h c List.mem_cons_self
      have hbar : c ≠ '_' := by rintro rfl; revert hc; decide
      have hpoint : c ≠ '.' := by rintro rfl; revert hc; decide
      rw [List.cons_append, takeDigits]
      simp only [beq_iff_eq, hbar, hpoint, if_false, digit?, hc, if_true, Bool.false_eq_true]
      rw [ih fun x hx => h x (List.mem_cons_of_mem c hx)]
      simp only [Nat.ofDigitChars_cons, Nat.mul_comm 10, List.length_cons, List.isEmpty_cons,
        Bool.not_false, Bool.true_or, Bool.or_true]
      cases d.point
      · rfl
      · simp only [if_true, Nat.add_assoc, Nat.add_comm 1]

theorem toLower_of_isDigit {c : Char} (h : c.isDigit = true) : c.toLower = c := by
  unfold Char.toLower
  rw [dif_neg]
  simp only [Char.isDigit, Bool.and_eq_true, decide_eq_true_eq] at h
  intro hupper
  have hlow := UInt32.le_iff_toNat_le.mp h.2
  have hhigh := UInt32.le_iff_toNat_le.mp hupper.1
  exact absurd (Nat.le_trans hhigh hlow) (by decide)

/-- Only digits and points: neither a sign, nor a letter, nor a separator. -/
def Plain (cs : List Char) : Prop := ∀ c ∈ cs, c.isDigit = true ∨ c = '.'

section plain

variable {cs : List Char} (h : Plain cs)

include h

theorem Plain.map_toLower : cs.map Char.toLower = cs := by
  refine (List.map_congr_left fun c hc => ?_).trans (List.map_id cs)
  rcases h c hc with hd | rfl
  · exact toLower_of_isDigit hd
  · decide

theorem Plain.takeSign : takeSign cs = (false, cs) := by
  unfold Numeral.takeSign
  split
  · rcases h '+' List.mem_cons_self with hc | hc <;> exact absurd hc (by decide)
  · rcases h '-' List.mem_cons_self with hc | hc <;> exact absurd hc (by decide)
  · rfl

theorem Plain.takeHexMark : takeHexMark cs = none := by
  unfold Numeral.takeHexMark
  split
  · rename_i x c r
    rw [if_neg]
    rcases h x (by simp) with hd | rfl
    · rw [toLower_of_isDigit hd]
      rintro hx
      rw [eq_of_beq hx] at hd
      exact absurd hd (by decide)
    · decide
  · rfl

theorem Plain.contains_bar : cs.contains '_' = false := by
  rw [Bool.eq_false_iff, ne_eq, List.contains_iff_mem]
  intro hmem
  rcases h _ hmem with hc | hc <;> exact absurd hc (by decide)

theorem Plain.word? : Binary64.word? cs = none := by
  have hletter : ∀ w : List Char, 'n' ∈ w → cs.map Char.toLower ≠ w := by
    intro w hw heq
    rw [h.map_toLower] at heq
    subst heq
    rcases h _ hw with hc | hc <;> exact absurd hc (by decide)
  have hnan : (cs.map Char.toLower == "nan".toList) = false :=
    beq_eq_false_iff_ne.mpr (hletter _ (by decide))
  have hinf : (cs.map Char.toLower == "inf".toList) = false :=
    beq_eq_false_iff_ne.mpr (hletter _ (by decide))
  have hinfinity : (cs.map Char.toLower == "infinity".toList) = false :=
    beq_eq_false_iff_ne.mpr (hletter _ (by decide))
  simp only [Binary64.word?, h.takeSign, hnan, hinf, hinfinity, Bool.or_self, Bool.false_eq_true,
    if_false]

/-- A number without a sign is read as a magnitude. -/
theorem Plain.isMagnitude {v : Binary64} (hv : Binary64.read? (String.ofList cs) = some v) :
    ∃ m, v = .finite false m ∧ Binary64.IsMagnitude m := by
  have hdecimal : ∀ n, read? cs = some n → n.negative = false ∧ n.hexadecimal = false := by
    intro n hn
    unfold read? parts? at hn
    simp only [h.contains_bar, h.takeSign, h.takeHexMark, Bool.false_and, Bool.false_eq_true,
      if_false] at hn
    split at hn
    · cases hn
    · split at hn
      · cases hn; exact ⟨rfl, rfl⟩
      · split at hn
        · obtain ⟨e, -, rfl⟩ := Option.map_eq_some_iff.mp hn
          exact ⟨rfl, rfl⟩
        · cases hn
  unfold Binary64.read? at hv
  rw [String.toList_ofList, h.word?] at hv
  obtain ⟨n, hn, hv⟩ := Option.bind_eq_some_iff.mp hv
  obtain ⟨m, hm, hv⟩ := Option.bind_eq_some_iff.mp hv
  obtain ⟨hneg, hhex⟩ := hdecimal n hn
  cases hv
  rw [magnitude?_decimal hhex] at hm
  exact ⟨m, by rw [hneg], Decimal.isMagnitude_of_magnitude? hm⟩

end plain

/-- Digits, and more of them after a point if there are any. -/
def positional (whole places : List Char) : List Char :=
  whole ++ if places.isEmpty then [] else '.' :: places

section positional

variable {whole places : List Char} (hw : AllDigits whole) (hp : AllDigits places) (hne : whole ≠ [])

include hw hp

theorem plain_positional : Plain (positional whole places) := by
  intro c hc
  rcases List.mem_append.mp hc with hc | hc
  · exact .inl (hw c hc)
  · split at hc
    · cases hc
    · rcases List.mem_cons.mp hc with rfl | hc
      · exact .inr rfl
      · exact .inl (hp c hc)

include hne

theorem read?_positional :
    read? (positional whole places) =
      some ⟨false, false, Nat.ofDigitChars 10 (whole ++ places) 0, places.length, 0⟩ := by
  have hplain := plain_positional hw hp
  have hany : whole.isEmpty = false := by simpa using hne
  have htake : takeDigits false (positional whole places) {} =
      (⟨Nat.ofDigitChars 10 (whole ++ places) 0, places.length, !places.isEmpty, true⟩, []) := by
    unfold positional
    rw [takeDigits_append hw, Nat.ofDigitChars_append]
    split
    · rename_i hnil
      rw [List.isEmpty_iff.mp hnil, hany]
      rfl
    · rename_i hcons
      have hpoint : takeDigits false ('.' :: places) ⟨Nat.ofDigitChars 10 whole 0, 0, false, true⟩ =
          takeDigits false (places ++ []) ⟨Nat.ofDigitChars 10 whole 0, 0, true, true⟩ := by
        rw [takeDigits, List.append_nil]
        rfl
      simp only [hany, Bool.not_false, Bool.or_true, Bool.false_eq_true, if_false]
      rw [hpoint, takeDigits_append hp]
      simp [takeDigits, hcons]
  unfold read? parts?
  simp only [hplain.contains_bar, hplain.takeSign, hplain.takeHexMark, htake]
  rfl

/-- Positional notation is read as the nearest magnitude to the number that it stands for. -/
theorem binary64_positional :
    Binary64.read? (String.ofList (positional whole places)) =
      (Decimal.magnitude? ⟨Nat.ofDigitChars 10 (whole ++ places) 0, -(places.length : Int)⟩).map
        (.finite false) := by
  unfold Binary64.read?
  rw [String.toList_ofList, (plain_positional hw hp).word?, read?_positional hw hp hne]
  change (magnitude? _).bind _ = _
  rw [magnitude?_decimal rfl, Int.zero_sub]
  cases Decimal.magnitude? _ <;> rfl

end positional

end Numeral

namespace Decimal

open Numeral

theorem exists_eq_append_zeros (cs : List Char) :
    ∃ z, cs = (cs.reverse.dropWhile (· == '0')).reverse ++ List.replicate z '0' := by
  have hzeros : cs.reverse.takeWhile (· == '0') =
      List.replicate (cs.reverse.takeWhile (· == '0')).length '0' := by
    refine List.eq_replicate_of_mem fun c hc => ?_
    have hall := List.all_eq_true.mp (List.all_takeWhile (p := (· == '0')) (l := cs.reverse)) c hc
    exact eq_of_beq hall
  refine ⟨(cs.reverse.takeWhile (· == '0')).length, ?_⟩
  have hsplit := congrArg List.reverse
    (List.takeWhile_append_dropWhile (p := (· == '0')) (l := cs.reverse))
  rw [List.reverse_append, List.reverse_reverse, hzeros, List.reverse_replicate] at hsplit
  exact hsplit.symm

/-- Digits of which the last `k` are places after the point, written without the zeros at the end. -/
theorem magnitude?_cut {ds : List Char} (hds : AllDigits ds) {k : Nat} (hk : k < ds.length) :
    ∃ whole places, AllDigits whole ∧ AllDigits places ∧ whole ≠ [] ∧
      whole = ds.take (ds.length - k) ∧
      places = ((ds.drop (ds.length - k)).reverse.dropWhile (· == '0')).reverse ∧
      magnitude? ⟨Nat.ofDigitChars 10 (whole ++ places) 0, -(places.length : Int)⟩ =
        magnitude? ⟨Nat.ofDigitChars 10 ds 0, -(k : Int)⟩ := by
  obtain ⟨z, hz⟩ := exists_eq_append_zeros (ds.drop (ds.length - k))
  generalize hp : ((ds.drop (ds.length - k)).reverse.dropWhile (· == '0')).reverse = places at hz
  refine ⟨_, places, ?_, ?_, ?_, rfl, rfl, ?_⟩
  · exact fun c hc => hds c (List.mem_of_mem_take hc)
  · intro c hc
    refine hds c (List.mem_of_mem_drop (i := ds.length - k) ?_)
    rw [hz]
    exact List.mem_append_left _ hc
  · rw [ne_eq, List.take_eq_nil_iff]
    rintro (h | rfl)
    · omega
    · cases hk
  · have hplaces : places.length + z = k := by
      have hlen := congrArg List.length hz
      simp only [List.length_drop, List.length_append, List.length_replicate] at hlen
      omega
    have hvalue : Nat.ofDigitChars 10 ds 0 =
        Nat.ofDigitChars 10 (ds.take (ds.length - k) ++ places) 0 * 10 ^ z := by
      rw [Nat.mul_comm, ← Nat.ofDigitChars_replicate_zero, ← Nat.ofDigitChars_append,
        List.append_assoc, ← hz, List.take_append_drop]
    rw [hvalue, ← hplaces, magnitude?_trailing]

/-- The text of a decimal is positional notation of the same number. -/
theorem exists_text_eq (d : Decimal) :
    ∃ whole places, AllDigits whole ∧ AllDigits places ∧ whole ≠ [] ∧
      d.text = String.ofList (positional whole places) ∧
      magnitude? ⟨Nat.ofDigitChars 10 (whole ++ places) 0, -(places.length : Int)⟩ =
        d.magnitude? := by
  obtain ⟨n, e⟩ := d
  have hds : AllDigits (Nat.toDigits 10 n) :=
    fun c hc => Nat.isDigit_of_mem_toDigits (by decide) (by decide) hc
  cases e with
  | ofNat k =>
      refine ⟨Nat.toDigits 10 n ++ List.replicate k '0', [], hds.append (allDigits_zeros k),
        by simp [AllDigits], ?_, ?_, ?_⟩
      · simp [Nat.toDigits_ne_nil]
      · simp [text, positional]
      · rw [List.append_nil, Nat.ofDigitChars_append, Nat.ofDigitChars_ten_toDigits,
          Nat.ofDigitChars_replicate_zero, magnitude?_neg, magnitude?_ofNat, Nat.mul_comm,
          List.length_nil, Nat.pow_zero]
  | negSucc k =>
      have hlen : k + 1 < (List.replicate (k + 1 + 1 - (Nat.toDigits 10 n).length) '0' ++
          Nat.toDigits 10 n).length := by
        simp only [List.length_append, List.length_replicate]
        omega
      obtain ⟨whole, places, hw, hp, hne, hwhole, hplaces, hvalue⟩ :=
        magnitude?_cut ((allDigits_zeros _).append hds) hlen
      refine ⟨whole, places, hw, hp, hne, by rw [hwhole, hplaces]; rfl, hvalue.trans ?_⟩
      rw [Nat.ofDigitChars_append, Nat.ofDigitChars_replicate_zero, Nat.mul_zero,
        Nat.ofDigitChars_ten_toDigits]
      rfl

end Decimal

namespace Binary64

/-- The text of a number has only digits and a point. -/
theorem plain_magnitudeText (m : Nat) :
    (magnitudeText m).toList ≠ [] ∧ Numeral.Plain (magnitudeText m).toList := by
  unfold magnitudeText
  split
  · refine ⟨by decide, fun c hc => .inl ?_⟩
    obtain rfl : c = '0' := by simpa using hc
    decide
  · obtain ⟨whole, places, hw, hp, hne, htext, -⟩ := (Decimal.shortest m).exists_text_eq
    rw [htext, String.toList_ofList]
    exact ⟨fun h => hne (List.append_eq_nil_iff.mp h).1, Numeral.plain_positional hw hp⟩

/-- **The text of a number reads back as the number.** -/
theorem read?_magnitudeText {m : Nat} (h : IsMagnitude m) :
    read? (magnitudeText m) = some (.finite false m) := by
  unfold magnitudeText
  split
  · rename_i hzero
    rw [eq_of_beq hzero]
    rfl
  · obtain ⟨whole, places, hw, hp, hne, htext, hvalue⟩ := (Decimal.shortest m).exists_text_eq
    rw [htext, Numeral.binary64_positional hw hp hne, hvalue, Decimal.magnitude?_shortest h]
    rfl

end Binary64

end ValueGrammar

import ValueGrammar.Grammar.Reader
import ValueGrammar.Machine
import ValueGrammar.State.Compile
import Mathlib.Data.List.Find
import Mathlib.Tactic.Tauto

/-!
# `ValueGrammar.Proofs.Case.Forms` — letters with several lower case forms

A keyword is compared with a token up to case folding, but a table finds it by the lower case of the
token. The two maps on characters differ: some letters in lower case, such as the long `ſ`, are folded
to another letter and are their own lower case. So a table misses a keyword that is spelled with one.

What the maps do to all characters is read off their tables run by run. Two runs that lie apart cover no
character together, so that a few comparisons of runs settle what a map does to what it has moved. Most
runs are in both tables; the others move single letters, or the letters of Cherokee, which are folded to
upper case.

## Contents
- `Text.toNat_toLower`, `Text.lowerChar_toLower`, `Text.foldChar_toLower`: letters of ASCII.
- `Text.CaseRun.apart`, `Text.CaseRun.back`: runs without a common character, and the way back.
- `Text.singleRuns`, `Text.reversedRuns`, `Text.filter_isShared`: what the two tables share.
- `Text.lowerChar_lowerChar`, `Text.IsCommon.forms`: characters in both maps.
- `Text.otherForms`, `Text.mainForm`: the letters with several lower case forms.
- `Text.foldChar_eq_iff`, `Text.equalFold_lower_iff`: folding in terms of lower case.
- `stripHack_lower`: what is cut off from a value, in lower case.
- `Compiler.takesKeyword_iff`, `Compiler.findsKeyword_iff`: a keyword, and its key in a table.
- `Compiler.takesKeyword_iff_findsKeyword`: when a table misses it.
-/

namespace ValueGrammar

namespace Text

variable {c d : Char}

/-! ## Letters of ASCII -/

theorem toNat_toLower (c : Char) :
    c.toLower.toNat = if 65 ≤ c.toNat ∧ c.toNat ≤ 90 then c.toNat + 32 else c.toNat := by
  unfold Char.toLower
  split
  · rename_i h
    have hupper : 65 ≤ c.toNat ∧ c.toNat ≤ 90 := h
    have hval : c.val.toNat = c.toNat := rfl
    have hshift : (32 : UInt32).toNat = 32 := rfl
    rw [if_pos hupper]
    change (c.val + 32).toNat = c.toNat + 32
    rw [UInt32.toNat_add, hval]
    omega
  · rename_i h
    have hother : ¬ (65 ≤ c.toNat ∧ c.toNat ≤ 90) := h
    rw [if_neg hother]

theorem toLower_toLower (c : Char) : c.toLower.toLower = c.toLower := by
  have h := toNat_toLower c
  have h' := toNat_toLower c.toLower
  refine Char.toNat_inj.mp ?_
  split at h <;> split at h' <;> omega

/-- A character that comes before the letters is the lower case of itself only. -/
theorem toLower_eq_iff {c d : Char} (hd : d.toNat < 65) : c.toLower = d ↔ c = d := by
  have h := toNat_toLower c
  rw [← Char.toNat_inj, ← Char.toNat_inj]
  split at h <;> omega

theorem toLower_eq_backslash_iff {c : Char} : c.toLower = '\\' ↔ c = '\\' := by
  have h := toNat_toLower c
  have hd : '\\'.toNat = 92 := rfl
  rw [← Char.toNat_inj, ← Char.toNat_inj]
  split at h <;> omega

theorem isAlpha_iff :
    c.isAlpha = true ↔ 65 ≤ c.toNat ∧ c.toNat ≤ 90 ∨ 97 ≤ c.toNat ∧ c.toNat ≤ 122 := by
  change (decide (65 ≤ c.val ∧ c.val ≤ 90) || 97 ≤ c.val && c.val ≤ 122) = true ↔ _
  simp only [Bool.or_eq_true, Bool.and_eq_true, decide_eq_true_eq, UInt32.le_iff_toNat_le]
  rfl

/-- A character that is no letter is the lower case of itself only. -/
theorem toLower_eq_iff_of_not_isAlpha (hd : d.isAlpha = false) : c.toLower = d ↔ c = d := by
  have h := toNat_toLower c
  have hd' : ¬ d.isAlpha = true := by simp [hd]
  rw [isAlpha_iff] at hd'
  rw [← Char.toNat_inj, ← Char.toNat_inj]
  split at h <;> omega

theorem toLower_of_lt (h : 0x5a < c.toNat) : c.toLower = c := by
  refine Char.toNat_inj.mp ?_
  rw [toNat_toLower, if_neg (by omega)]

theorem toNat_toLower_lt_iff : c.toLower.toNat < 0x80 ↔ c.toNat < 0x80 := by
  rw [toNat_toLower]
  split <;> omega

@[simp] theorem lowerChar_toLower (c : Char) : lowerChar c.toLower = lowerChar c := by
  unfold lowerChar
  by_cases h : c.toNat < 0x80
  · rw [if_pos (toNat_toLower_lt_iff.mpr h), if_pos h, toLower_toLower]
  · simp only [toLower_of_lt (show 0x5a < c.toNat by omega)]

@[simp] theorem foldChar_toLower (c : Char) : foldChar c.toLower = foldChar c := by
  unfold foldChar
  by_cases h : c.toNat < 0x80
  · rw [if_pos (toNat_toLower_lt_iff.mpr h), if_pos h, toLower_toLower]
  · simp only [toLower_of_lt (show 0x5a < c.toNat by omega)]

/-! ## Runs -/

namespace CaseRun

variable {r s : CaseRun} {n : Nat}

theorem covers_iff : r.covers n = true ↔ r.first ≤ n ∧ n ≤ r.last ∧ (n - r.first) % r.step = 0 := by
  simp [covers, and_assoc]

/-- The run back from where this one leads. -/
def back (r : CaseRun) : CaseRun :=
  ⟨(r.first + r.shift).toNat, (r.last + r.shift).toNat, r.step, -r.shift⟩

/-- Runs that follow each other, or interlock. -/
def apart (r s : CaseRun) : Bool :=
  Nat.blt r.last s.first || Nat.blt s.last r.first ||
    ((Nat.beq r.step 2 || Nat.beq r.first r.last) && Nat.beq s.step 2 &&
      Nat.beq ((r.first + s.first) % 2) 1)

theorem not_covers_of_apart (h : r.apart s = true) (hr : r.covers n = true) :
    s.covers n = false := by
  obtain ⟨hle, hge, hstep⟩ := covers_iff.mp hr
  rw [← Bool.not_eq_true, covers_iff]
  rintro ⟨hle', hge', hstep'⟩
  simp only [apart, Bool.or_eq_true, Bool.and_eq_true, Nat.blt_eq, Nat.beq_eq] at h
  rcases h with (h | h) | ⟨⟨h2 | hone, h2'⟩, hodd⟩
  · omega
  · omega
  · rw [h2] at hstep
    rw [h2'] at hstep'
    omega
  · rw [h2'] at hstep'
    omega

/-- Characters move to characters that come no sooner than the lower case letters of ASCII. -/
def isValid (r : CaseRun) : Bool :=
  Nat.ble 0x61 r.back.first && (Nat.blt r.back.last 0xd800 ||
    (Nat.blt 0xdfff r.back.first && Nat.blt r.back.last 0x110000))

theorem covers_back (hv : r.isValid = true) (h : r.covers n = true) :
    r.back.covers (n + r.shift).toNat = true := by
  obtain ⟨hle, hge, hstep⟩ := covers_iff.mp h
  simp only [isValid, back, Bool.and_eq_true, Nat.ble_eq] at hv
  have hpos := hv.1
  refine covers_iff.mpr ⟨?_, ?_, ?_⟩
  · simp only [back]
    omega
  · simp only [back]
    omega
  · have hdiff : (n + r.shift).toNat - (r.first + r.shift).toNat = n - r.first := by omega
    simp only [back, hdiff, hstep]

theorem toNat_moved (hv : r.isValid = true) (h : r.covers n = true) :
    (Char.ofNat (n + r.shift).toNat).toNat = (n + r.shift).toNat := by
  obtain ⟨hle, hge, -⟩ := covers_iff.mp (covers_back hv h)
  simp only [isValid, Bool.and_eq_true, Bool.or_eq_true, Nat.blt_eq] at hv
  have hvalid : Nat.isValidChar (n + r.shift).toNat := by
    rcases hv.2 with hlt | ⟨hgt, hlt⟩
    · exact .inl (by omega)
    · exact .inr ⟨by omega, by omega⟩
  rw [Char.ofNat, dif_pos hvalid]
  rfl

end CaseRun

variable {runs : List CaseRun} {r : CaseRun}

theorem shiftBy_of_not_covers (h : ∀ s ∈ runs, s.covers c.toNat = false) : shiftBy runs c = c := by
  have hfind : runs.find? (·.covers c.toNat) = none := by
    simpa using h
  rw [shiftBy, hfind]

theorem shiftBy_of_apart (hr : r.covers c.toNat = true) (h : ∀ s ∈ runs, r.apart s = true) :
    shiftBy runs c = c :=
  shiftBy_of_not_covers fun s hs => CaseRun.not_covers_of_apart (h s hs) hr

/-- A run that meets no other one moves what it covers. -/
theorem shiftBy_of_covers (hr : r.covers c.toNat = true) (hmem : r ∈ runs)
    (h : ∀ s ∈ runs, s = r ∨ r.apart s = true) :
    shiftBy runs c = Char.ofNat (c.toNat + r.shift).toNat := by
  have hfind : runs.find? (·.covers c.toNat) = some r := by
    cases hs : runs.find? (·.covers c.toNat) with
    | none => exact absurd hr (List.find?_eq_none.mp hs r hmem)
    | some s =>
        rcases h s (List.mem_of_find?_eq_some hs) with rfl | hapart
        · rfl
        · have hcovers := List.find?_some hs
          rw [CaseRun.not_covers_of_apart hapart hr] at hcovers
          cases hcovers
  rw [shiftBy, hfind]

theorem shiftBy_cases (runs : List CaseRun) (c : Char) :
    (∃ r ∈ runs, r.covers c.toNat = true ∧ shiftBy runs c = Char.ofNat (c.toNat + r.shift).toNat) ∨
      shiftBy runs c = c := by
  unfold shiftBy
  split
  · rename_i r hr
    have hcovers := List.find?_some hr
    exact .inl ⟨r, List.mem_of_find?_eq_some hr, hcovers, rfl⟩
  · exact .inr rfl

/-! ## The two tables -/

/-- The runs of lower case that folding has back to front: the letters of Cherokee are folded to upper
case. -/
def reversedRuns : List CaseRun := [⟨0x13a0, 0x13ef, 1, 38864⟩, ⟨0x13f0, 0x13f5, 1, 8⟩]

/-- The runs of one table only that move single letters: the dotted capital `İ`, which has a lower case
and is not folded, and letters in lower case that are folded to another one. -/
def singleRuns : List CaseRun := [
  ⟨0x130, 0x130, 1, -199⟩, ⟨0xb5, 0xb5, 1, 775⟩, ⟨0x17f, 0x17f, 1, -268⟩, ⟨0x345, 0x345, 1, 116⟩,
  ⟨0x3c2, 0x3c2, 1, 1⟩, ⟨0x3d0, 0x3d0, 1, -30⟩, ⟨0x3d1, 0x3d1, 1, -25⟩, ⟨0x3d5, 0x3d5, 1, -15⟩,
  ⟨0x3d6, 0x3d6, 1, -22⟩, ⟨0x3f0, 0x3f0, 1, -54⟩, ⟨0x3f1, 0x3f1, 1, -48⟩, ⟨0x3f5, 0x3f5, 1, -64⟩,
  ⟨0x1c80, 0x1c80, 1, -6222⟩, ⟨0x1c81, 0x1c81, 1, -6221⟩, ⟨0x1c82, 0x1c82, 1, -6212⟩,
  ⟨0x1c83, 0x1c84, 1, -6210⟩, ⟨0x1c85, 0x1c85, 1, -6211⟩, ⟨0x1c86, 0x1c86, 1, -6204⟩,
  ⟨0x1c87, 0x1c87, 1, -6180⟩, ⟨0x1c88, 0x1c88, 1, 35267⟩, ⟨0x1e9b, 0x1e9b, 1, -58⟩,
  ⟨0x1fbe, 0x1fbe, 1, -7173⟩]

/-- The runs of one table only. -/
def unsharedRuns : List CaseRun := singleRuns ++ reversedRuns ++ reversedRuns.map CaseRun.back

/-- Starts no run of one table only. -/
def CaseRun.isShared (r : CaseRun) : Bool := !unsharedRuns.any fun s => Nat.beq s.first r.first

/-- The two tables have their other runs in common. -/
theorem filter_isShared : lowerRuns.filter CaseRun.isShared = foldRuns.filter CaseRun.isShared := by
  decide +kernel

theorem mem_unsharedRuns : ∀ r ∈ lowerRuns ++ foldRuns, r.isShared = false → r ∈ unsharedRuns := by
  decide +kernel

theorem isValid_lowerRuns : ∀ r ∈ lowerRuns, r.isValid = true := by
  decide +kernel

/-- No letter that a run of lower case leads to is moved by a run of it. -/
theorem back_apart_lowerRuns : ∀ r ∈ lowerRuns, ∀ s ∈ lowerRuns, r.back.apart s = true := by
  have h : (lowerRuns.all fun r => lowerRuns.all fun s => r.back.apart s) = true := by
    decide +kernel
  simpa only [List.all_eq_true] using h

/-- Nor by a run for single letters. -/
theorem back_apart_singleRuns : ∀ r ∈ lowerRuns, ∀ s ∈ singleRuns, r.back.apart s = true := by
  decide +kernel

/-- Nor by a reversed run, except that a reversed run leads to one. -/
theorem back_apart_reversedRuns : ∀ r ∈ lowerRuns, r.isShared = true →
    ∀ s ∈ reversedRuns, r.back.apart s = true ∧ r.back.apart s.back = true := by
  decide +kernel

/-- What makes a run a reversed one. -/
structure CaseRun.IsReversed (r : CaseRun) : Prop where
  mem_lower : r ∈ lowerRuns
  lower_apart : ∀ s ∈ lowerRuns, s = r ∨ r.apart s = true
  fold_apart : ∀ s ∈ foldRuns, r.apart s = true
  mem_fold : r.back ∈ foldRuns
  back_apart : ∀ s ∈ foldRuns, s = r.back ∨ r.back.apart s = true
  isValid_back : r.back.isValid = true
  back_back : r.back.back = r
  above : 0x80 ≤ r.first ∧ 0x80 ≤ r.back.first

theorem isReversed_of_mem (hr : r ∈ reversedRuns) : r.IsReversed := by
  have hparts : ∀ r ∈ reversedRuns, (r ∈ lowerRuns ∧ ∀ s ∈ lowerRuns, s = r ∨ r.apart s = true) ∧
      (∀ s ∈ foldRuns, r.apart s = true) ∧
      (r.back ∈ foldRuns ∧ ∀ s ∈ foldRuns, s = r.back ∨ r.back.apart s = true) ∧
      r.back.isValid = true ∧ r.back.back = r ∧ 0x80 ≤ r.first ∧ 0x80 ≤ r.back.first := by
    decide +kernel
  obtain ⟨⟨hlower, hlower'⟩, hnot, ⟨hfold, hfold'⟩, hvalid, hback, habove⟩ := hparts r hr
  exact ⟨hlower, hlower', hnot, hfold, hfold', hvalid, hback, habove⟩

/-- A character that only shared runs move has the same form in both tables. -/
theorem shiftBy_foldRuns (h : ∀ s ∈ unsharedRuns, s.covers c.toNat = false) :
    shiftBy foldRuns c = shiftBy lowerRuns c := by
  have hfilter : ∀ runs : List CaseRun, runs ⊆ lowerRuns ++ foldRuns →
      (runs.filter CaseRun.isShared).find? (·.covers c.toNat) = runs.find? (·.covers c.toNat) := by
    intro runs hsub
    rw [List.find?_filter]
    refine List.find?_congr fun r hr => ?_
    cases hshared : r.isShared with
    | true => simp
    | false => simp [h r (mem_unsharedRuns r (hsub hr) hshared)]
  have hlower := hfilter lowerRuns (List.subset_append_left _ _)
  have hfold := hfilter foldRuns (List.subset_append_right _ _)
  rw [shiftBy, shiftBy, ← hfold, ← hlower, filter_isShared]

/-! ## Letters -/

theorem lowerChar_of_le (h : 0x80 ≤ c.toNat) : lowerChar c = shiftBy lowerRuns c :=
  if_neg (Nat.not_lt.mpr h)

theorem foldChar_of_le (h : 0x80 ≤ c.toNat) : foldChar c = shiftBy foldRuns c :=
  if_neg (Nat.not_lt.mpr h)

/-- Above ASCII, a run has led to the lower case of a character, or it is its own. -/
theorem lowerChar_cases (h : 0x80 ≤ c.toNat) :
    (∃ r ∈ lowerRuns, r.covers c.toNat = true ∧ r.back.covers (lowerChar c).toNat = true ∧
      0x61 ≤ (lowerChar c).toNat) ∨ lowerChar c = c := by
  rw [lowerChar_of_le h]
  rcases shiftBy_cases lowerRuns c with ⟨r, hr, hcovers, heq⟩ | heq
  · have hv := isValid_lowerRuns r hr
    have hback := CaseRun.covers_back hv hcovers
    rw [heq, CaseRun.toNat_moved hv hcovers]
    refine .inl ⟨r, hr, hcovers, hback, ?_⟩
    simp only [CaseRun.isValid, Bool.and_eq_true, Nat.ble_eq] at hv
    exact hv.1.trans (CaseRun.covers_iff.mp hback).1
  · exact .inr heq

@[simp] theorem lowerChar_lowerChar (c : Char) : lowerChar (lowerChar c) = lowerChar c := by
  by_cases h : c.toNat < 0x80
  · have hlower : lowerChar c = c.toLower := if_pos h
    rw [hlower, lowerChar_toLower, hlower]
  · rcases lowerChar_cases (Nat.le_of_not_lt h) with ⟨r, hr, -, hback, hle⟩ | heq
    · generalize lowerChar c = d at hback hle ⊢
      -- the Kelvin sign and the dotted `İ` lead to letters of ASCII, which the table has nothing of
      by_cases hd : d.toNat < 0x80
      · rw [lowerChar, if_pos hd, toLower_of_lt (by omega)]
      · rw [lowerChar_of_le (Nat.le_of_not_lt hd)]
        exact shiftBy_of_apart hback (back_apart_lowerRuns r hr)
    · rw [heq, heq]

/-- The letters of a reversed run come in pairs, where lower case leads one way and folding the other. -/
theorem CaseRun.IsReversed.pair (hr : r.IsReversed) (h : r.covers c.toNat = true) :
    foldChar c = c ∧ foldChar (lowerChar c) = c := by
  have hle := (CaseRun.covers_iff.mp h).1
  have hc : 0x80 ≤ c.toNat := hr.above.1.trans hle
  have hlower := shiftBy_of_covers h hr.mem_lower hr.lower_apart
  have hvalid := isValid_lowerRuns r hr.mem_lower
  have hto := CaseRun.toNat_moved hvalid h
  have hback := CaseRun.covers_back hvalid h
  rw [← hto] at hback
  rw [lowerChar_of_le hc, hlower]
  have hd := hr.above.2.trans (CaseRun.covers_iff.mp hback).1
  refine ⟨by rw [foldChar_of_le hc, shiftBy_of_apart h hr.fold_apart], ?_⟩
  rw [foldChar_of_le hd, shiftBy_of_covers hback hr.mem_fold hr.back_apart, hto]
  have hpos : 0 < (c.toNat + r.shift).toNat := by omega
  have hsum : (((c.toNat + r.shift).toNat : Int) + r.back.shift).toNat = c.toNat := by
    simp only [CaseRun.back]
    omega
  rw [hsum, Char.ofNat_toNat]

theorem CaseRun.IsReversed.exists_of_back (hr : r.IsReversed) (h : r.back.covers d.toNat = true) :
    ∃ c, r.covers c.toNat = true ∧ lowerChar c = d := by
  have hto := CaseRun.toNat_moved hr.isValid_back h
  have hcovers := CaseRun.covers_back hr.isValid_back h
  rw [hr.back_back, ← hto] at hcovers
  refine ⟨_, hcovers, ?_⟩
  have hc := hr.above.1.trans (CaseRun.covers_iff.mp hcovers).1
  have hd := hr.above.2.trans (CaseRun.covers_iff.mp h).1
  rw [lowerChar_of_le hc, shiftBy_of_covers hcovers hr.mem_lower hr.lower_apart, hto]
  rw [hto] at hc
  have hsum : (((d.toNat + r.back.shift).toNat : Int) + r.shift).toNat = d.toNat := by
    simp only [CaseRun.back] at hc ⊢
    omega
  rw [hsum, Char.ofNat_toNat]

/-- Such a character has the same form in both maps, which are one in ASCII. -/
theorem foldChar_eq_lowerChar (h : ∀ s ∈ unsharedRuns, s.covers c.toNat = false) :
    foldChar c = lowerChar c := by
  rw [foldChar, lowerChar, shiftBy_foldRuns h]

/-- The character is moved by none of the runs for single letters. -/
def IsCommon (c : Char) : Prop := ∀ s ∈ singleRuns, s.covers c.toNat = false

theorem isCommon_of_lt (h : c.toNat < 0x80) : IsCommon c := by
  have habove : ∀ s ∈ singleRuns, 0x80 ≤ s.first := by decide
  intro s hs
  rw [← Bool.not_eq_true, CaseRun.covers_iff]
  intro hcovers
  have := habove s hs
  omega

theorem unshared_cases (h : IsCommon c) (hreversed : ∀ s ∈ reversedRuns,
    s.covers c.toNat = false ∧ s.back.covers c.toNat = false) :
    ∀ s ∈ unsharedRuns, s.covers c.toNat = false := by
  intro s hs
  rcases List.mem_append.mp hs with hs | hs
  · rcases List.mem_append.mp hs with hs | hs
    · exact h s hs
    · exact (hreversed s hs).1
  · obtain ⟨r, hr, rfl⟩ := List.mem_map.mp hs
    exact (hreversed r hr).2

/-- Lower case leads to no single letters. -/
theorem isCommon_lowerChar (h : IsCommon c) : IsCommon (lowerChar c) := by
  by_cases hc : c.toNat < 0x80
  · have hlower : lowerChar c = c.toLower := if_pos hc
    rw [hlower]
    exact isCommon_of_lt (toNat_toLower_lt_iff.mpr hc)
  · rcases lowerChar_cases (Nat.le_of_not_lt hc) with ⟨r, hr, -, hback, -⟩ | heq
    · exact fun s hs => CaseRun.not_covers_of_apart (back_apart_singleRuns r hr s hs) hback
    · rwa [heq]

/-- Up to single letters, lower case and folding have the same effect before each other. -/
theorem IsCommon.forms (h : IsCommon c) :
    lowerChar (foldChar c) = lowerChar c ∧ foldChar (lowerChar c) = foldChar c := by
  by_cases hc : c.toNat < 0x80
  · have hfold : foldChar c = c.toLower := if_pos hc
    have hlower : lowerChar c = c.toLower := if_pos hc
    refine ⟨by rw [hfold, lowerChar_toLower], by rw [hlower, foldChar_toLower]⟩
  have hc := Nat.le_of_not_lt hc
  by_cases hreversed : ∃ r ∈ reversedRuns, r.covers c.toNat = true ∨ r.back.covers c.toNat = true
  · -- a letter of Cherokee, which is one of a pair
    obtain ⟨r, hr, hcovers | hback⟩ := hreversed
    · obtain ⟨hfold, hfold'⟩ := (isReversed_of_mem hr).pair hcovers
      exact ⟨by rw [hfold], by rw [hfold', hfold]⟩
    · obtain ⟨b, hb, rfl⟩ := (isReversed_of_mem hr).exists_of_back hback
      obtain ⟨-, hfold⟩ := (isReversed_of_mem hr).pair hb
      exact ⟨by rw [hfold, lowerChar_lowerChar], by rw [lowerChar_lowerChar]⟩
  · have hunshared : ∀ s ∈ unsharedRuns, s.covers c.toNat = false := by
      refine unshared_cases h fun s hs => ⟨?_, ?_⟩
      · exact eq_false_of_ne_true fun hcovers => hreversed ⟨s, hs, .inl hcovers⟩
      · exact eq_false_of_ne_true fun hcovers => hreversed ⟨s, hs, .inr hcovers⟩
    -- both tables move the character alike, and neither moves it on
    have hfold := foldChar_eq_lowerChar hunshared
    refine ⟨by rw [hfold, lowerChar_lowerChar], ?_⟩
    rcases lowerChar_cases hc with ⟨r, hr, hcovers, hback, -⟩ | heq
    · have hshared : r.isShared = true := by
        by_contra hnot
        have hmem := mem_unsharedRuns r (List.mem_append_left _ hr) (eq_false_of_ne_true hnot)
        rw [hunshared r hmem] at hcovers
        cases hcovers
      have hlower : ∀ s ∈ unsharedRuns, s.covers (lowerChar c).toNat = false := by
        refine unshared_cases (isCommon_lowerChar h) fun s hs => ?_
        have hapart := back_apart_reversedRuns r hr hshared s hs
        exact ⟨CaseRun.not_covers_of_apart hapart.1 hback,
          CaseRun.not_covers_of_apart hapart.2 hback⟩
      rw [foldChar_eq_lowerChar hlower, lowerChar_lowerChar, hfold]
    · rw [heq]

/-! ## Letters with several lower case forms -/

/-- The letters that are their own lower case but are folded to another one, and the lower case of
that: forms for special places or older spellings, and signs. -/
def otherForms : List (Char × Char) := [
  ('µ', 'μ'), ('ſ', 's'), ('\u0345', 'ι'), ('ς', 'σ'), ('ϐ', 'β'), ('ϑ', 'θ'), ('ϕ', 'φ'),
  ('ϖ', 'π'), ('ϰ', 'κ'), ('ϱ', 'ρ'), ('ϵ', 'ε'), ('ᲀ', 'в'), ('ᲁ', 'д'), ('ᲂ', 'о'), ('ᲃ', 'с'),
  ('ᲄ', 'т'), ('ᲅ', 'т'), ('ᲆ', 'ъ'), ('ᲇ', 'ѣ'), ('ᲈ', 'ꙋ'), ('ẛ', 'ṡ'), ('\u1fbe', 'ι')]

/-- The lower case form that a letter in lower case is compared by. -/
def mainForm (c : Char) : Char := (otherForms.lookup c).getD c

theorem isCommon_or_single (c : Char) : IsCommon c ∨ c = 'İ' ∨ ∃ p ∈ otherForms, p.1 = c := by
  have hends : ∀ r ∈ singleRuns, r.last ≤ r.first + 1 ∧
      (Char.ofNat r.first = 'İ' ∨ ∃ p ∈ otherForms, p.1 = Char.ofNat r.first) ∧
      (Char.ofNat r.last = 'İ' ∨ ∃ p ∈ otherForms, p.1 = Char.ofNat r.last) := by
    decide +kernel
  by_cases h : IsCommon c
  · exact .inl h
  · obtain ⟨r, hr, hcovers⟩ : ∃ r ∈ singleRuns, r.covers c.toNat = true := by
      simpa [IsCommon] using h
    obtain ⟨hlen, hfirst, hlast⟩ := hends r hr
    obtain ⟨hle, hge, -⟩ := CaseRun.covers_iff.mp hcovers
    rw [← Char.ofNat_toNat c]
    rcases (by omega : c.toNat = r.first ∨ c.toNat = r.last) with heq | heq
    · rw [heq]
      exact .inr hfirst
    · rw [heq]
      exact .inr hlast

theorem mainForm_of_isCommon (h : IsCommon c) : mainForm c = c := by
  have hcovered : ∀ p ∈ otherForms, ∃ r ∈ singleRuns, r.covers p.1.toNat = true := by
    decide +kernel
  have hnone : otherForms.lookup c = none := by
    refine List.lookup_eq_none_iff.mpr fun p hp => ?_
    obtain ⟨r, hr, hcovers⟩ := hcovered p hp
    refine bne_iff_ne.mpr ?_
    rintro rfl
    rw [h r hr] at hcovers
    cases hcovers
  rw [mainForm, hnone, Option.getD_none]

/-- The other forms are in lower case, and fold like their main forms. -/
theorem otherForms_spec : ∀ p ∈ otherForms, lowerChar p.1 = p.1 ∧ mainForm p.1 = p.2 ∧
    foldChar p.2 = foldChar p.1 ∧ lowerChar (foldChar p.1) = p.2 ∧ p.2 ≠ 'i' := by
  decide +kernel

/-- **Folding is lower case with the main forms.** -/
theorem lowerChar_foldChar (c : Char) : lowerChar (foldChar c) = mainForm (lowerChar c) := by
  rcases isCommon_or_single c with h | rfl | ⟨p, hp, rfl⟩
  · rw [mainForm_of_isCommon (isCommon_lowerChar h), h.forms.1]
  · decide +kernel
  · obtain ⟨hlower, hmain, -, hfold, -⟩ := otherForms_spec p hp
    rw [hlower, hmain, hfold]

theorem foldChar_mainForm (h : c ≠ 'İ') : foldChar (mainForm (lowerChar c)) = foldChar c := by
  rcases isCommon_or_single c with hcommon | rfl | ⟨p, hp, rfl⟩
  · rw [mainForm_of_isCommon (isCommon_lowerChar hcommon), hcommon.forms.2]
  · exact absurd rfl h
  · obtain ⟨hlower, hmain, hfold, -⟩ := otherForms_spec p hp
    rw [hlower, hmain, hfold]

/-- The lower case of `İ` is not the main form of another letter. -/
theorem eq_of_mainForm_eq (h : mainForm c = 'i') : c = 'i' := by
  rcases isCommon_or_single c with hcommon | rfl | ⟨p, hp, rfl⟩
  · rwa [mainForm_of_isCommon hcommon] at h
  · exact absurd h (by decide +kernel)
  · obtain ⟨-, hmain, -, -, hne⟩ := otherForms_spec p hp
    exact absurd (hmain.symm.trans h) hne

/-- **When a character folds like one in lower case.** The main forms of their lower case are the same;
only the dotted capital `İ` has a lower case without folding to it. -/
theorem foldChar_eq_iff : foldChar c = foldChar (lowerChar d) ↔
    c ≠ 'İ' ∧ mainForm (lowerChar c) = mainForm (lowerChar d) := by
  have hdotted : lowerChar 'İ' = 'i' ∧ mainForm 'i' = 'i' ∧ foldChar 'İ' = 'İ' ∧ foldChar 'i' = 'i' := by
    decide +kernel
  obtain ⟨hlower, hmain, hfold, hfold'⟩ := hdotted
  constructor
  · intro h
    have heq : mainForm (lowerChar c) = mainForm (lowerChar d) := by
      rw [← lowerChar_foldChar, h, lowerChar_foldChar, lowerChar_lowerChar]
    refine ⟨?_, heq⟩
    -- the main form of its lower case is `i`, which has no other letter folded to `İ`
    rintro rfl
    rw [hlower, hmain] at heq
    rw [eq_of_mainForm_eq heq.symm, hfold, hfold'] at h
    cases h
  · rintro ⟨hc, h⟩
    have hd : lowerChar d ≠ 'İ' := by
      intro hd
      have hi := lowerChar_lowerChar d
      rw [hd, hlower] at hi
      cases hi
    rw [← foldChar_mainForm hc, h, ← foldChar_mainForm hd, lowerChar_lowerChar]

/-! ## Texts -/

@[simp] theorem lower_lower (s : String) : lower (lower s) = lower s := by
  simp [lower, Function.comp_def]

/-- The text in lower case, with the main forms of its letters. -/
def mainForms (s : String) : String := String.ofList (s.toList.map fun c => mainForm (lowerChar c))

/-- Folding compares a text with one in lower case by the main forms. -/
theorem equalFold_lower_iff (s t : String) :
    equalFold s (lower t) = true ↔ mainForms s = mainForms t ∧ 'İ' ∉ s.toList := by
  have hlists : ∀ cs ds : List Char, cs.map foldChar = ds.map (fun d => foldChar (lowerChar d)) ↔
      cs.map (fun c => mainForm (lowerChar c)) = ds.map (fun d => mainForm (lowerChar d)) ∧
        'İ' ∉ cs := by
    intro cs
    induction cs with
    | nil => simp
    | cons c cs ih =>
        intro ds
        cases ds with
        | nil => simp
        | cons d ds =>
            simp only [List.map_cons, List.cons.injEq, foldChar_eq_iff, ih, List.mem_cons, not_or]
            tauto
  rw [equalFold, beq_iff_eq, mainForms, mainForms, String.ofList_inj, ← hlists]
  simp [lower, Function.comp_def]

/-- A character before the lower case letters that is no capital is the lower case of itself only. -/
theorem lowerChar_eq_iff (hd : d.toNat < 0x61) (halpha : d.isAlpha = false) :
    lowerChar c = d ↔ c = d := by
  by_cases h : c.toNat < 0x80
  · have hlower : lowerChar c = c.toLower := if_pos h
    rw [hlower, toLower_eq_iff_of_not_isAlpha halpha]
  · rcases lowerChar_cases (Nat.le_of_not_lt h) with ⟨r, -, -, -, hle⟩ | heq
    · constructor
      · rintro rfl
        omega
      · rintro rfl
        omega
    · rw [heq]

end Text

/-- A value is cut where a backslash stands before a `0` or a `9`. -/
theorem withoutHack_cons (c : Char) (cs : List Char) :
    withoutHack (c :: cs) =
      if c = '\\' ∧ (cs.head? = some '0' ∨ cs.head? = some '9') then [] else c :: withoutHack cs := by
  by_cases hc : c = '\\'
  · subst hc
    cases cs with
    | nil => simp [withoutHack]
    | cons d cs => simp [withoutHack]
  · rw [if_neg fun h => hc h.1, withoutHack]
    exact fun d cs h => absurd h hc

/-- A map of characters that keeps those a cut depends on, and leads no others to them. -/
theorem withoutHack_map {f : Char → Char} (hslash : ∀ {c}, f c = '\\' ↔ c = '\\')
    (h0 : ∀ {c}, f c = '0' ↔ c = '0') (h9 : ∀ {c}, f c = '9' ↔ c = '9') (cs : List Char) :
    withoutHack (cs.map f) = (withoutHack cs).map f := by
  induction cs with
  | nil => rfl
  | cons c cs ih =>
      have hhead {d : Char} (hd : ∀ {c}, f c = d ↔ c = d) :
          (cs.map f).head? = some d ↔ cs.head? = some d := by
        cases cs with
        | nil => simp
        | cons e cs => simp [hd]
      simp only [List.map_cons, withoutHack_cons, ih, hslash, hhead h0, hhead h9]
      split <;> rfl

theorem withoutHack_map_toLower (cs : List Char) :
    withoutHack (cs.map Char.toLower) = (withoutHack cs).map Char.toLower :=
  withoutHack_map Text.toLower_eq_backslash_iff (Text.toLower_eq_iff (by decide))
    (Text.toLower_eq_iff (by decide)) cs

/-- The suffix for old browsers is cut off before or after taking the lower case. -/
theorem stripHack_lower (s : String) : stripHack (Text.lower s) = Text.lower (stripHack s) := by
  refine String.toList_inj.mp ?_
  simp only [stripHack, Text.lower, String.toList_ofList]
  exact withoutHack_map (Text.lowerChar_eq_iff (by decide) rfl)
    (Text.lowerChar_eq_iff (by decide) rfl) (Text.lowerChar_eq_iff (by decide) rfl) _

/-! ## Keywords -/

namespace Compiler

/-- The leaf that a keyword is compiled to takes the token. -/
def TakesKeyword (fold : Bool) (name : String) (t : Token) : Prop :=
  ∃ l node, (standard fold).compile (.keyword name) = .ok (.leaf l node) ∧
    ∀ last range ahead, l.take last range (t :: ahead) = (1, true)

/-- The token is looked up under the key of the keyword. -/
def FindsKeyword (name : String) (t : Token) : Prop :=
  enumKey? (.keyword name) = some (stripHack (Text.lower t.value))

variable {fold : Bool} {name : String} {t : Token}

theorem takesKeyword_iff :
    TakesKeyword fold name t ↔ Text.equalFold (stripHack t.value) (Text.lower name) = true := by
  constructor
  · rintro ⟨l, node, hcompile, htake⟩
    rw [compile] at hcompile
    cases hcompile
    by_contra hnot
    have h := htake none none []
    simp [Leaf.take, Leaf.takeOne, hnot] at h
  · intro h
    refine ⟨_, _, by rw [compile], fun last range ahead => ?_⟩
    simp [Leaf.take, Leaf.takeOne, h]

theorem findsKeyword_iff : FindsKeyword name t ↔ Text.lower (stripHack t.value) = Text.lower name := by
  rw [FindsKeyword, enumKey?, stripHack_lower, Option.some_inj, eq_comm]

/-- **Which keywords a table misses.** A token is taken for a keyword if and only if it is looked up under
its key and then taken, unless the two are spelled with different lower case forms of a letter: then they
are the same with the main forms of their letters, but not in lower case. -/
theorem takesKeyword_iff_findsKeyword (fold : Bool) (name : String) (t : Token) :
    (TakesKeyword fold name t ↔ FindsKeyword name t ∧ TakesKeyword fold name t) ↔
      ¬ (Text.mainForms (stripHack t.value) = Text.mainForms name ∧
        'İ' ∉ (stripHack t.value).toList ∧ Text.lower (stripHack t.value) ≠ Text.lower name) := by
  rw [takesKeyword_iff, findsKeyword_iff, Text.equalFold_lower_iff]
  constructor
  · rintro h ⟨hmain, hdotted, hne⟩
    exact hne (h.mp ⟨hmain, hdotted⟩).1
  · intro h
    constructor
    · rintro ⟨hmain, hdotted⟩
      refine ⟨?_, hmain, hdotted⟩
      by_contra hne
      exact h ⟨hmain, hdotted, hne⟩
    · exact And.right

/-- A long `ſ` is taken for the keyword `s`, but not looked up under its key. -/
theorem long_s_not_found : (∀ c ∈ "s".toList, Read.isNameChar c = true) ∧
    TakesKeyword true "s" ⟨.ident, "ſ", none⟩ ∧ ¬ FindsKeyword "s" ⟨.ident, "ſ", none⟩ := by
  rw [takesKeyword_iff, findsKeyword_iff]
  refine ⟨?_, by decide +kernel, by decide +kernel⟩
  intro c hc
  obtain rfl : c = 's' := by simpa using hc
  decide

end Compiler

end ValueGrammar

import ValueGrammar.Proofs.Leaf
import ValueGrammar.State.Compile
import ValueGrammar.Grammar.Reader

/-!
# `ValueGrammar.Proofs.Literal` — literals of one character

A string literal is compared with what the tokens ahead spell together, whatever the case of the
letters. A literal with a single character between its quotes takes a shortcut: it is compared with one
token, and exactly. The two ways agree but for one kind of token, the same letter in another case.

## Contents
- `Token.Writes`: tokens that begin with a letter, in any case.
- `Token.spelled_iff_writes`: when what is read for a character spells it.
- `Compiler.spelled`: a literal without the shortcut.
- `Compiler.take_stringLeaf_eq_iff`: exactly where the shortcut changes nothing.
- `Compiler.shortcut_misses_case`: a token that only the general way takes.
-/

namespace ValueGrammar

variable {c d : Char} {ts : List Token} {t : Token} {last : Option Token} {range : Option Range}

/-! ## Texts of one character -/

theorem equalFold_char_iff {s : String} :
    Text.equalFold s c.toString = true ↔ ∃ d, s = d.toString ∧ Text.foldChar d = Text.foldChar c := by
  simp only [Text.equalFold, beq_iff_eq, Char.toString_eq_singleton, String.toList_singleton,
    List.map_cons, List.map_nil, List.map_eq_singleton_iff]
  constructor
  · rintro ⟨d, hs, hd⟩
    exact ⟨d, String.ext (by simpa using hs), hd⟩
  · rintro ⟨d, rfl, hd⟩
    exact ⟨d, by simp, hd⟩

/-- One token is read if it has enough bytes, or if there is no other. -/
theorem spellingLength_eq_one_iff {size : Nat} (hsize : 0 < size) {rest : List Token} :
    spellingLength size (t :: rest) = 1 ↔ size ≤ t.value.utf8ByteSize ∨ rest = [] := by
  rw [spellingLength, if_neg (by omega)]
  cases rest with
  | nil => simp [spellingLength]
  | cons u rest =>
      simp only [spellingLength, Nat.add_eq_right, reduceCtorEq, or_false]
      split <;> omega

/-! ## Tokens of one character -/

namespace Token

theorem joined_cons : joined (t :: ts) = t.value ++ joined ts := by
  simp [joined, String.join_cons]

theorem joined_eq_empty_iff (hts : ∀ t ∈ ts, t.value ≠ "") : joined ts = "" ↔ ts = [] := by
  cases ts with
  | nil => simp [joined]
  | cons t ts =>
      have ht : t.value ≠ "" := hts t List.mem_cons_self
      simp [joined_cons, String.append_eq_empty_iff, ht]

/-- Tokens that spell a single character together are a single token. -/
theorem joined_eq_char_iff (hts : ∀ t ∈ ts, t.value ≠ "") :
    joined ts = d.toString ↔ ∃ t, ts = [t] ∧ t.value = d.toString := by
  constructor
  · intro h
    cases ts with
    | nil => simp [joined] at h
    | cons t ts =>
        have ht : t.value.toList ≠ [] := by
          simpa [String.toList_eq_nil_iff] using hts t List.mem_cons_self
        have hrest : ∀ t ∈ ts, t.value ≠ "" := fun t ht => hts t (List.mem_cons_of_mem _ ht)
        have hchars : t.value.toList ++ (joined ts).toList = [d] := by
          simpa [joined_cons] using congrArg String.toList h
        rcases List.append_eq_singleton_iff.mp hchars with ⟨hnil, -⟩ | ⟨hvalue, hnil⟩
        · exact absurd hnil ht
        · have hend : ts = [] :=
            (joined_eq_empty_iff hrest).mp (String.toList_eq_nil_iff.mp hnil)
          exact ⟨t, by rw [hend], String.ext (by simpa using hvalue)⟩
  · rintro ⟨t, rfl, ht⟩
    simp [joined, ht]

/-- The first token is the character `d`, which differs from `c` at most in case. As `c` tells how many
bytes are read, a `d` of fewer bytes has to be the last token: else the one behind it is read too. -/
def Writes (c : Char) (ts : List Token) (d : Char) : Prop :=
  ∃ t rest, ts = t :: rest ∧ t.value = d.toString ∧ Text.foldChar d = Text.foldChar c ∧
    (c.utf8Size ≤ d.utf8Size ∨ rest = [])

/-- A list of tokens begins with one character. -/
theorem Writes.unique {e : Char} (hd : Writes c ts d) (he : Writes c ts e) : d = e := by
  obtain ⟨t, rest, rfl, hd, -⟩ := hd
  obtain ⟨u, rest', hu, he, -⟩ := he
  cases hu
  simpa using hd.symm.trans he

theorem Writes.spellingLength (h : Writes c ts d) : spellingLength c.utf8Size ts = 1 := by
  obtain ⟨t, rest, rfl, ht, -, hsize⟩ := h
  rw [spellingLength_eq_one_iff c.utf8Size_pos, ht]
  simpa using hsize

/-- The tokens that are read for a character spell it if they begin with it. -/
theorem spelled_iff_writes (hts : ∀ t ∈ ts, t.value ≠ "") :
    Text.equalFold (joined (ts.take (spellingLength c.utf8Size ts))) c.toString = true ↔
      ∃ d, Writes c ts d := by
  have hread : ∀ t ∈ ts.take (spellingLength c.utf8Size ts), t.value ≠ "" :=
    fun t ht => hts t (List.mem_of_mem_take ht)
  simp only [equalFold_char_iff, joined_eq_char_iff hread]
  constructor
  · rintro ⟨d, ⟨t, hone, ht⟩, hfold⟩
    -- only one token was read, so it is the first one and had enough bytes
    have hlen := congrArg List.length hone
    rw [List.length_take, Nat.min_eq_left (spellingLength_le _ _)] at hlen
    obtain ⟨u, rest, rfl⟩ : ∃ u rest, ts = u :: rest :=
      List.exists_cons_of_ne_nil fun hnil => by simp [hnil] at hone
    rw [hlen] at hone
    cases hone
    refine ⟨d, t, rest, rfl, ht, hfold, ?_⟩
    simpa [ht] using (spellingLength_eq_one_iff c.utf8Size_pos).mp hlen
  · rintro ⟨d, hd⟩
    rw [hd.spellingLength]
    obtain ⟨t, rest, rfl, ht, hfold, -⟩ := hd
    exact ⟨d, ⟨t, rfl, ht⟩, hfold⟩

end Token

/-! ## The two ways to compare -/

namespace Leaf

theorem take_string_of_writes (hts : ∀ t ∈ ts, t.value ≠ "") (h : Token.Writes c ts d) :
    (Leaf.string c.toString c.utf8Size).take last range ts = (1, true) := by
  have hspelled := (Token.spelled_iff_writes hts).mpr ⟨d, h⟩
  rw [take, if_pos hspelled, h.spellingLength]

theorem take_string_of_not_writes (hts : ∀ t ∈ ts, t.value ≠ "") (h : ¬ ∃ d, Token.Writes c ts d) :
    (Leaf.string c.toString c.utf8Size).take last range ts = (0, false) := by
  rw [take, if_neg (mt (Token.spelled_iff_writes hts).mp h)]

theorem take_token_of_writes (h : Token.Writes c ts c) :
    (Leaf.token c.toString).take last range ts = (1, true) := by
  obtain ⟨t, rest, rfl, ht, -⟩ := h
  simp [take, takeOne, ht]

theorem take_token_of_not_writes (h : ¬ Token.Writes c ts c) :
    (Leaf.token c.toString).take last range ts = (0, false) := by
  cases ts with
  | nil => rfl
  | cons t rest =>
      have ht : t.value ≠ c.toString := fun ht => h ⟨t, rest, rfl, ht, rfl, .inl (Nat.le_refl _)⟩
      simpa [take, takeOne] using ht

end Leaf

/-! ## The shortcut -/

namespace Compiler

variable {value : String}

/-- A literal without the shortcut: its contents, and how many bytes they have. -/
def spelled (value : String) : Leaf :=
  .string (Grammar.unquoted value) (Grammar.unquotedSize value)

/-- One character between quotes of one kind. -/
def IsCharLiteral (value : String) (c : Char) : Prop :=
  ∃ q, (q = '\'' ∨ q = '"') ∧ value.toList = [q, c, q]

theorem stringLeaf_char (h : IsCharLiteral value c) : stringLeaf value = .token c.toString := by
  obtain ⟨q, -, h⟩ := h
  simp [stringLeaf, h]

/-- The contents of the literal are the character. -/
theorem spelled_char (h : IsCharLiteral value c) :
    spelled value = .string c.toString c.utf8Size := by
  obtain ⟨q, hq, h⟩ := h
  have hone : q.utf8Size = 1 := by
    rcases hq with rfl | rfl <;> rfl
  have hvalue : value = q.toString ++ c.toString ++ q.toString := String.ext (by simp [h])
  have hbytes : value.utf8ByteSize = c.utf8Size + 2 := by
    rw [hvalue]
    simp only [String.utf8ByteSize_append, Char.toString_eq_singleton, String.utf8ByteSize_singleton,
      hone]
    omega
  have hcut : Grammar.withoutEndBytes value.toList = [c] := by
    simp [h, hone, Grammar.withoutEndBytes, Grammar.replacements]
  have hsize : ¬ value.utf8ByteSize < 2 := by omega
  rw [spelled, Grammar.unquoted, Grammar.unquotedSize, if_neg hsize, if_neg hsize, hcut, hbytes]
  simp [Grammar.unescapeQuotes]

/-- **The shortcut for one character changes nothing** where the tokens ahead do not begin with the
character in another case, and only there. -/
theorem take_stringLeaf_eq_iff (h : IsCharLiteral value c) (hts : ∀ t ∈ ts, t.value ≠ "") :
    (stringLeaf value).take last range ts = (spelled value).take last range ts ↔
      ∀ d, Token.Writes c ts d → d = c := by
  rw [stringLeaf_char h, spelled_char h]
  constructor
  · intro hsame d hd
    by_cases hc : Token.Writes c ts c
    · exact hd.unique hc
    · rw [Leaf.take_token_of_not_writes hc, Leaf.take_string_of_writes hts hd] at hsame
      cases hsame
  · intro hexact
    by_cases hw : ∃ d, Token.Writes c ts d
    · obtain ⟨d, hd⟩ := hw
      obtain rfl := hexact d hd
      rw [Leaf.take_token_of_writes hd, Leaf.take_string_of_writes hts hd]
    · have hc : ¬ Token.Writes c ts c := fun hc => hw ⟨c, hc⟩
      rw [Leaf.take_token_of_not_writes hc, Leaf.take_string_of_not_writes hts hw]

/-- The literal `'+'` in front of a `+` and an `a`. -/
theorem take_stringLeaf_eq_plus :
    IsCharLiteral "'+'" '+' ∧
      (stringLeaf "'+'").take none none [⟨.delim, "+", none⟩, ⟨.ident, "a", none⟩] =
        (spelled "'+'").take none none [⟨.delim, "+", none⟩, ⟨.ident, "a", none⟩] := by
  have hliteral : IsCharLiteral "'+'" '+' := ⟨'\'', .inl rfl, rfl⟩
  refine ⟨hliteral, (take_stringLeaf_eq_iff hliteral (by simp)).mpr ?_⟩
  rintro d ⟨t, rest, hts, hd, -⟩
  cases hts
  have hchars : ['+'] = [d] := by simpa using congrArg String.toList hd
  exact (List.singleton_inj.mp hchars).symm

/-- The literal `'a'` does not take an `A`, which it would without the shortcut. -/
theorem shortcut_misses_case :
    Grammar.parse "'a'" = .ok (.group .juxtapose [.string "'a'"] false false) ∧
      IsCharLiteral "'a'" 'a' ∧
      (stringLeaf "'a'").take none none [⟨.ident, "A", none⟩] = (0, false) ∧
      (spelled "'a'").take none none [⟨.ident, "A", none⟩] = (1, true) :=
  ⟨rfl, ⟨'\'', .inl rfl, rfl⟩, rfl, rfl⟩

end Compiler

end ValueGrammar

import ValueGrammar.Proofs.Notation.Reading

/-!
# `ValueGrammar.Proofs.Notation.Progress` — the reader moves forward, and does not give up

Every construct of the notation is recognized by the character it starts with, so a parser that was
chosen by looking at that character can only succeed or find the text wrong: it never asks for
another alternative. And what it answers with was read from characters it has moved past.

## Contents
- `Cursor.Ahead`: one place lies at least so many characters after another.
- `Parser.TakesFrom`, `Parser.Takes`: where a parser answers, it has moved ahead.
- `Parser.SettlesFrom`, `Parser.Settles`: every failure of a parser is thrown.
- `Read.groupWithin_takes`, `Read.primaryWith_takes`, `Read.multiplier_takes`: the constructs that
  are repeated or nested take a character each.
- `Read.definition_takes`, `Read.definition_settles`: the whole definition.
-/

namespace ValueGrammar

/-- The second place is in the same text, at least `n` characters after the first. -/
def Cursor.Ahead (n : Nat) (c c' : Cursor) : Prop :=
  ∃ taken, c.rest = taken ++ c'.rest ∧ c'.location = c.location + taken.length ∧ n ≤ taken.length

namespace Cursor

variable {m n : Nat} {c c' c'' : Cursor}

theorem Ahead.refl (c : Cursor) : Ahead 0 c c := ⟨[], rfl, rfl, le_rfl⟩

theorem Ahead.trans (h : Ahead m c c') (h' : Ahead n c' c'') : Ahead (m + n) c c'' := by
  obtain ⟨taken, hrest, hloc, hm⟩ := h
  obtain ⟨taken', hrest', hloc', hn⟩ := h'
  refine ⟨taken ++ taken', by rw [hrest, hrest', List.append_assoc], ?_, ?_⟩
  · rw [hloc', hloc, List.length_append]; omega
  · rw [List.length_append]; omega

theorem Ahead.mono (h : Ahead n c c') (hm : m ≤ n) : Ahead m c c' := by
  obtain ⟨taken, hrest, hloc, hn⟩ := h
  exact ⟨taken, hrest, hloc, hm.trans hn⟩

theorem Ahead.length_le (h : Ahead n c c') : c'.rest.length + n ≤ c.rest.length := by
  obtain ⟨taken, hrest, -, hn⟩ := h
  rw [hrest, List.length_append]
  omega

/-- Nothing is left ahead at the end of the text only. -/
theorem Ahead.location_of_nil {text : List Char} (h : Ahead n (start text) c') (hc : c'.rest = []) :
    c' = ⟨text.length, []⟩ := by
  obtain ⟨taken, hrest, hloc, -⟩ := h
  obtain ⟨location, rest⟩ := c'
  simp only [start, Nat.zero_add] at hc hrest hloc
  rw [hc, List.append_nil] at hrest
  rw [hc, hloc, hrest]

/-- Skipping characters that are there is moving ahead. -/
theorem ahead_advance (h : n ≤ c.rest.length) : Ahead n c (c.advance n) := by
  refine ⟨c.rest.take n, (List.take_append_drop n c.rest).symm, ?_, ?_⟩
  · rw [List.length_take, Nat.min_eq_left h]; rfl
  · rw [List.length_take, Nat.min_eq_left h]

end Cursor

namespace Parser

open Cursor

variable {α β : Type} {n : Nat} {pre : List Char → Prop}

/-! ## Moving ahead -/

/-- Where `pre` holds of the characters ahead, the parser answers at least `n` characters on. -/
def TakesFrom (pre : List Char → Prop) (p : Parser α) (n : Nat) : Prop :=
  ∀ c a c', pre c.rest → p c = (.ok a, c') → Ahead n c c'

/-- The parser answers at least `n` characters on. -/
def Takes (p : Parser α) (n : Nat) : Prop := ∀ c a c', p c = (.ok a, c') → Ahead n c c'

theorem Takes.from {p : Parser α} (h : p.Takes n) : p.TakesFrom pre n :=
  fun c a c' _ hp => h c a c' hp

theorem Takes.mono {p : Parser α} {m : Nat} (h : p.Takes n) (hm : m ≤ n) : p.Takes m :=
  fun c a c' hp => (h c a c' hp).mono hm

theorem takes_pure {a : α} : Takes (pure a) 0 := by
  intro c b c' h
  cases h
  exact .refl c

theorem takes_throw {message : String} : Takes (throw message : Parser α) n := by
  intro c a c' h; cases h

theorem takes_backtrack {message : String} : Takes (backtrack message : Parser α) n := by
  intro c a c' h; cases h

/-- The parts of a parser that answers. -/
theorem bind_eq_ok {p : Parser α} {f : α → Parser β} {c c'' : Cursor} {b : β}
    (h : (p >>= f) c = (.ok b, c'')) : ∃ a c', p c = (.ok a, c') ∧ f a c' = (.ok b, c'') := by
  change andThen p f c = _ at h
  unfold andThen at h
  split at h
  · rename_i a c' ha
    exact ⟨a, c', ha, h⟩
  · cases h

/-- What is taken is taken by the first parser. -/
theorem takesFrom_first {p : Parser α} {f : α → Parser β} (hp : p.TakesFrom pre n)
    (hf : ∀ a, (f a).Takes 0) : (p >>= f).TakesFrom pre n := by
  intro c b c'' hpre h
  obtain ⟨a, c', ha, hb⟩ := bind_eq_ok h
  exact (hp c a c' hpre ha).trans (hf a c' b c'' hb)

theorem takes_first {p : Parser α} {f : α → Parser β} (hp : p.Takes n)
    (hf : ∀ a, (f a).Takes 0) : (p >>= f).Takes n := by
  have hfrom : (p >>= f).TakesFrom (fun _ => True) n := takesFrom_first hp.from hf
  exact fun c b c'' h => hfrom c b c'' trivial h

/-- What is taken is taken by the second parser. -/
theorem takes_second {p : Parser α} {f : α → Parser β} (hp : p.Takes 0)
    (hf : ∀ a, (f a).Takes n) : (p >>= f).Takes n := by
  intro c b c'' h
  obtain ⟨a, c', ha, hb⟩ := bind_eq_ok h
  simpa using (hp c a c' ha).trans (hf a c' b c'' hb)

theorem takes_map {p : Parser α} {f : α → β} (hp : p.Takes n) : (f <$> p).Takes n :=
  takes_first hp fun _ => takes_pure

theorem TakesFrom.mono {p : Parser α} {m : Nat} (h : p.TakesFrom pre n) (hm : m ≤ n) :
    p.TakesFrom pre m :=
  fun c a c' hpre hp => (h c a c' hpre hp).mono hm

/-- Asking for the place does not move. -/
theorem takes_cursor {f : Cursor → Parser β} (hf : ∀ c, (f c).TakesFrom (· = c.rest) n) :
    (cursor >>= f).Takes n :=
  fun c b c' h => hf c c b c' rfl h

/-- Looking at the next character does not move. -/
theorem takes_peek {f : Option Char → Parser β}
    (hf : ∀ rest, (f rest.head?).TakesFrom (· = rest) n) : (peek >>= f).Takes n :=
  fun c b c' h => hf c.rest c b c' rfl h

/-- Looking at the next character, where what follows does not rely on it. -/
theorem takes_looking {f : Option Char → Parser β} (hf : ∀ next, (f next).Takes n) :
    (peek >>= f).Takes n := takes_peek fun rest => (hf rest.head?).from

/-- A character that was seen can be skipped. -/
theorem takes_skip {x : Char} {rest : List Char} (h : rest.head? = some x) :
    (skip 1).TakesFrom (· = rest) 1 := by
  rintro c _ c' rfl hc
  cases hc
  refine ahead_advance (List.length_pos_iff.mpr fun hnil => ?_)
  rw [hnil] at h
  cases h

/-- What a character that was seen is followed by. -/
theorem takesFrom_skip {x : Char} {rest : List Char} {f : Unit → Parser β}
    (h : rest.head? = some x) (hf : (f ()).Takes 0) : (skip 1 >>= f).TakesFrom (· = rest) 1 :=
  takesFrom_first (takes_skip h) fun _ => hf

theorem takes_anyChar : anyChar.Takes 1 := by
  unfold anyChar
  refine takes_peek fun rest => ?_
  split
  · rename_i x hx
    exact takesFrom_skip hx takes_pure
  · exact takes_backtrack.from

theorem takes_char (x : Char) : (char x).Takes 1 := by
  unfold char
  refine takes_looking fun next => ?_
  split
  · split
    · exact takes_anyChar
    · exact takes_backtrack
  · exact takes_backtrack

theorem takes_chars (xs : List Char) : (chars xs).Takes 0 := by
  induction xs with
  | nil => exact takes_pure
  | cons x xs ih => exact takes_second ((takes_char x).mono (by decide)) fun _ => ih

theorem takes_literal (s : String) : (literal s).Takes 0 := by
  intro c a c' h
  unfold literal at h
  split at h
  · rename_i c₁ hc
    cases h
    exact takes_chars s.toList c () _ hc
  · cases h

theorem takes_takeWhile (p : Char → Bool) : (takeWhile p).Takes 0 := by
  intro c a c' h
  cases h
  exact (ahead_advance (List.takeWhile_sublist p).length_le).mono (Nat.zero_le _)

theorem takes_skipSpaces : skipSpaces.Takes 0 :=
  takes_first (takes_takeWhile Scan.isSpace) fun _ => takes_pure

theorem takes_choice {ps : List (Parser α)} (h : ∀ p ∈ ps, p.Takes n) : (choice ps).Takes n := by
  have hafter : ∀ last : Option Failure, (choiceAfter last ps).Takes n := by
    induction ps with
    | nil =>
      intro last c a c' hp
      cases last <;> cases hp
    | cons p ps ih =>
      intro last c a c' hp
      unfold choiceAfter at hp
      split at hp
      · rename_i b c₁ hb
        cases hp
        exact h p List.mem_cons_self c a _ hb
      · cases hp
      · exact ih (fun q hq => h q (List.mem_cons_of_mem p hq)) _ c a c' hp
  exact hafter none

theorem takes_optional {p : Parser α} (h : p.Takes 0) : (optional p).Takes 0 := by
  refine takes_choice fun q hq => ?_
  simp only [List.mem_cons, List.not_mem_nil, or_false] at hq
  rcases hq with rfl | rfl
  · exact takes_map h
  · exact takes_pure

/-! ## Failing for good -/

/-- Where `pre` holds of the characters ahead, the parser does not ask for another alternative. -/
def SettlesFrom (pre : List Char → Prop) (p : Parser α) : Prop :=
  ∀ c message offset, pre c.rest → (p c).1 ≠ .error (.backtrack message offset)

/-- The parser does not ask for another alternative, wherever it is started. -/
def Settles (p : Parser α) : Prop :=
  ∀ c message offset, (p c).1 ≠ .error (.backtrack message offset)

theorem Settles.from {p : Parser α} (h : p.Settles) : p.SettlesFrom pre :=
  fun c message offset _ => h c message offset

theorem settles_pure {a : α} : Settles (pure a) := by
  intro c message offset h; cases h

theorem settles_throw {message : String} : Settles (throw message : Parser α) := by
  intro c message offset h; cases h

theorem settlesFrom_yields {p : Parser α} {f : α → Parser β} {P : α → Prop}
    (hp : p.SettlesFrom pre) (hy : p.YieldsFrom pre P) (hf : ∀ a, P a → (f a).Settles) :
    (p >>= f).SettlesFrom pre := by
  intro c message offset hpre h
  change (andThen p f c).1 = _ at h
  unfold andThen at h
  split at h
  · rename_i a c' ha
    exact hf a (hy c a c' hpre ha) c' message offset h
  · rename_i e c' he
    cases h
    exact hp c message offset hpre (by rw [he])

theorem settlesFrom_bind {p : Parser α} {f : α → Parser β} (hp : p.SettlesFrom pre)
    (hf : ∀ a, (f a).Settles) : (p >>= f).SettlesFrom pre :=
  settlesFrom_yields hp (yields_any p).from fun a _ => hf a

theorem settles_bind {p : Parser α} {f : α → Parser β} (hp : p.Settles)
    (hf : ∀ a, (f a).Settles) : Settles (p >>= f) := by
  have hfrom : (p >>= f).SettlesFrom fun _ => True := settlesFrom_bind hp.from hf
  exact fun c message offset h => hfrom c message offset trivial h

theorem settles_cursor : cursor.Settles := by
  intro c message offset h; cases h

theorem settles_skip (n : Nat) : (skip n).Settles := by
  intro c message offset h; cases h

theorem settles_takeWhile (p : Char → Bool) : (takeWhile p).Settles := by
  intro c message offset h; cases h

theorem settles_skipSpaces : skipSpaces.Settles :=
  settles_bind (settles_takeWhile Scan.isSpace) fun _ => settles_pure

theorem settlesFrom_peek {f : Option Char → Parser β}
    (hf : ∀ rest, pre rest → (f rest.head?).SettlesFrom (· = rest)) :
    (peek >>= f).SettlesFrom pre :=
  fun c message offset hpre h => hf c.rest hpre c message offset rfl h

theorem settles_peek {f : Option Char → Parser β}
    (hf : ∀ rest, (f rest.head?).SettlesFrom (· = rest)) : (peek >>= f).Settles :=
  fun c message offset h => hf c.rest c message offset rfl h

theorem settles_looking {f : Option Char → Parser β} (hf : ∀ next, (f next).Settles) :
    (peek >>= f).Settles := settles_peek fun rest => (hf rest.head?).from

/-- A character that was seen can be taken. -/
theorem settles_anyChar : anyChar.SettlesFrom (· ≠ []) := by
  rintro ⟨n, _ | ⟨x, r⟩⟩ message offset hne h
  · exact hne rfl
  · cases h

theorem settles_char (x : Char) : (char x).SettlesFrom fun rest => rest.head? = some x := by
  unfold char
  refine settlesFrom_peek fun rest hrest => ?_
  simp only [hrest, if_true]
  rintro c message offset rfl
  refine settles_anyChar c message offset fun hnil => ?_
  rw [hnil] at hrest
  cases hrest

/-- A choice whose last alternative does not give up does not give up. -/
theorem settles_choice {ps : List (Parser α)} (hne : ps ≠ []) (h : (ps.getLast hne).Settles) :
    (choice ps).Settles := by
  have hafter : ∀ last : Option Failure, (choiceAfter last ps).Settles := by
    induction ps with
    | nil => exact absurd rfl hne
    | cons p ps ih =>
      intro last c message offset hc
      unfold choiceAfter at hc
      split at hc
      · cases hc
      · cases hc
      · rename_i e _ hthrown hp
        cases ps with
        | nil =>
          cases e with
          | thrown m o => exact hthrown m o rfl
          | backtrack m o => exact h c m o (by rw [List.getLast_singleton, hp])
        | cons q qs => exact ih (List.cons_ne_nil q qs) (by simpa using h) _ c message offset hc
  exact hafter none

theorem settles_optional (p : Parser α) : (optional p).Settles :=
  settles_choice (List.cons_ne_nil _ _) settles_pure

end Parser

/-! ## The constructs -/

namespace Read

open ValueGrammar.Parser Grammar

variable {α : Type}

theorem require_takes (x : Char) (message : String) : (require x message).Takes 0 := by
  intro c a c' h
  unfold require at h
  split at h
  · rename_i y c₁ hc
    cases h
    exact (takes_char x c y _ hc).mono (by decide)
  · cases h

theorem require_settles (x : Char) (message : String) : (require x message).Settles := by
  intro c m o h
  unfold require at h
  split at h <;> cases h

theorem name_takes : name.Takes 0 := takes_map (takes_takeWhile isNameChar)

theorem name_settles : name.Settles :=
  settles_bind (settles_takeWhile isNameChar) fun _ => settles_pure

theorem digit_takes : digit.Takes 1 := by
  unfold digit
  refine takes_looking fun next => ?_
  split
  · split
    · exact takes_anyChar
    · exact takes_backtrack
  · exact takes_backtrack

theorem int_takes : int.Takes 0 := by
  intro c n c' h
  unfold int at h
  split at h
  · cases h
  · rename_i ds c₁ hds
    simp only at h
    split at h
    · cases h
      refine takes_first digit_takes (fun d => ?_) c ds _ hds |>.mono (by decide)
      refine takes_first (n := 0) ?_ fun _ => takes_pure
      rw [funext zeroOrMore_digit]
      exact takes_takeWhile Char.isDigit
    · cases h

theorem repetition_takes : repetition.Takes 1 := by
  unfold repetition
  refine takes_first (takes_char '{') fun _ => takes_second int_takes fun lo => ?_
  refine takes_peek fun rest => ?_
  extract_lets close
  have hclose : ∀ hi, (close hi).Takes 0 := by
    intro hi
    refine takes_second (require_takes _ _) fun _ => ?_
    split
    · exact takes_pure
    · split
      · exact takes_throw
      · split
        · exact takes_throw
        · exact takes_pure
  split
  · rename_i h
    refine (takesFrom_skip h (takes_looking fun next => ?_)).mono (by decide)
    split
    · exact hclose none
    · exact takes_second (takes_map int_takes) hclose
  · exact (hclose (some lo)).from

theorem multiplier_takes (t : Grammar) : (multiplier t).Takes 1 := by
  have hrep : ∀ separated, Takes (repetition >>= fun limits =>
      pure (Grammar.multiplier t limits.1 limits.2 separated)) 1 :=
    fun separated => takes_first repetition_takes fun _ => takes_pure
  unfold multiplier
  refine takes_peek fun rest => ?_
  split
  · rename_i h
    exact takesFrom_skip h takes_pure
  · rename_i h
    exact takesFrom_skip h takes_pure
  · rename_i h
    exact takesFrom_skip h takes_pure
  · rename_i h
    refine takesFrom_skip h (takes_looking fun next => ?_)
    split
    · exact (hrep true).mono (by decide)
    · exact takes_pure
  · exact (hrep false).from
  · exact takes_backtrack.from

theorem multipliers_takes (fuel : Nat) (t : Grammar) : (multipliers fuel t).Takes 0 := by
  induction fuel generalizing t with
  | zero => exact takes_pure
  | succ fuel ih =>
      intro c g c' hm
      unfold multipliers at hm
      split at hm
      · rename_i wrapped c₁ hw
        exact ((multiplier_takes t c wrapped c₁ hw).mono (by decide)).trans (ih wrapped c₁ g c' hm)
      · cases hm
      · cases hm
        exact .refl c

theorem multipliers_settles (fuel : Nat) (t : Grammar) : (multipliers fuel t).Settles := by
  induction fuel generalizing t with
  | zero => exact settles_pure
  | succ fuel ih =>
      intro c m o hm
      unfold multipliers at hm
      split at hm
      · rename_i wrapped c₁ _
        exact ih wrapped c₁ m o hm
      · cases hm
      · cases hm

theorem throwAt_takes {start : Cursor} {message : String} {n : Nat} :
    (throwAt start message : Parser α).Takes n := by
  intro c a c' h; cases h

theorem throwAt_settles {start : Cursor} {message : String} :
    (throwAt start message : Parser α).Settles := by
  intro c m o h; cases h

theorem bound_takes (missing : Binary64) : (bound missing).Takes 0 := by
  unfold bound
  refine takes_cursor fun start => ?_
  split
  · exact takes_pure.from
  · exact takes_pure.from
  · refine Takes.from (takes_second (takes_optional (takes_choice fun p hp => ?_)) fun sign => ?_)
    · simp only [List.mem_cons, List.not_mem_nil, or_false] at hp
      rcases hp with rfl | rfl <;> exact (takes_char _).mono (by decide)
    · extract_lets signed
      refine takes_peek fun rest => ?_
      split
      · rename_i h
        exact TakesFrom.mono (takesFrom_skip h takes_pure) (Nat.zero_le 1)
      · refine (takes_second (takes_optional (takes_literal _)) fun word => ?_).from
        split
        · exact takes_pure
        · refine takes_second (takes_takeWhile _) fun digits => ?_
          split
          · exact throwAt_takes
          · split
            · exact takes_pure
            · exact throwAt_takes

theorem bound_settles (missing : Binary64) : (bound missing).Settles := by
  unfold bound
  refine settles_bind settles_cursor fun start => ?_
  split
  · exact settles_pure
  · exact settles_pure
  · refine settles_bind (settles_optional _) fun sign => ?_
    extract_lets signed
    refine settles_looking fun next => ?_
    split
    · exact settles_bind (settles_skip 1) fun _ => settles_pure
    · refine settles_bind (settles_optional _) fun word => ?_
      split
      · exact settles_pure
      · refine settles_bind (settles_takeWhile _) fun digits => ?_
        split
        · exact throwAt_settles
        · split
          · exact settles_pure
          · exact throwAt_settles

theorem range_takes : range.Takes 1 := by
  unfold range
  refine takes_first (takes_char '[') fun _ => ?_
  refine takes_second takes_skipSpaces fun _ => takes_second (bound_takes _) fun lo => ?_
  refine takes_second takes_skipSpaces fun _ => takes_second (require_takes _ _) fun _ => ?_
  refine takes_second takes_skipSpaces fun _ => takes_second (bound_takes _) fun hi => ?_
  refine takes_second takes_skipSpaces fun _ => takes_second (require_takes _ _) fun _ => ?_
  split
  · exact takes_pure
  · exact takes_throw

theorem range_settles : range.SettlesFrom fun rest => rest.head? = some '[' := by
  unfold range
  refine settlesFrom_bind (settles_char '[') fun _ => ?_
  refine settles_bind settles_skipSpaces fun _ => settles_bind (bound_settles _) fun lo => ?_
  refine settles_bind settles_skipSpaces fun _ => settles_bind (require_settles _ _) fun _ => ?_
  refine settles_bind settles_skipSpaces fun _ => settles_bind (bound_settles _) fun hi => ?_
  refine settles_bind settles_skipSpaces fun _ => settles_bind (require_settles _ _) fun _ => ?_
  split
  · exact settles_pure
  · exact settles_throw

theorem propertyReference_settles : propertyReference.Settles := by
  unfold propertyReference
  refine settles_bind (settles_skip 1) fun _ => settles_bind name_settles fun n => ?_
  split
  · exact settles_throw
  · exact settles_bind (require_settles _ _) fun _ => settles_pure

theorem typeReference_takes : typeReference.Takes 0 := by
  unfold typeReference
  refine takes_second name_takes fun n => ?_
  split
  · exact takes_throw
  · refine takes_second (takes_optional (takes_literal _)) fun parens => ?_
    extract_lets full
    refine takes_second takes_skipSpaces fun _ => takes_looking fun next => ?_
    split
    · exact takes_first (range_takes.mono (by decide)) fun r => takes_pure
    · exact takes_pure

theorem typeReference_settles : typeReference.Settles := by
  unfold typeReference
  refine settles_bind name_settles fun n => ?_
  split
  · exact settles_throw
  · refine settles_bind (settles_optional _) fun parens => ?_
    extract_lets full
    refine settles_bind settles_skipSpaces fun _ => settles_peek fun rest => ?_
    split
    · rename_i h
      refine settlesFrom_bind (fun c m o hc => ?_) fun _ => settles_pure
      exact range_settles c m o (hc ▸ h)
    · exact settles_pure.from

theorem reference_takes : reference.Takes 1 := by
  unfold reference
  refine takes_first (takes_char '<') fun _ => takes_second takes_skipSpaces fun _ => ?_
  refine takes_peek fun rest => ?_
  extract_lets close
  have hclose : ∀ g, (close g).Takes 0 := fun g =>
    takes_second takes_skipSpaces fun _ => takes_second (require_takes _ _) fun _ => takes_pure
  split
  · rename_i h
    refine takesFrom_first (TakesFrom.mono (takesFrom_skip h ?_) (Nat.zero_le 1)) hclose
    refine takes_second name_takes fun n => ?_
    split
    · exact takes_throw
    · exact takes_second (require_takes _ _) fun _ => takes_pure
  · exact (takes_second typeReference_takes hclose).from

theorem reference_settles : reference.SettlesFrom fun rest => rest.head? = some '<' := by
  unfold reference
  refine settlesFrom_bind (settles_char '<') fun _ => settles_bind settles_skipSpaces fun _ => ?_
  refine settles_looking fun next => ?_
  extract_lets close
  have hclose : ∀ g, (close g).Settles := fun g =>
    settles_bind settles_skipSpaces fun _ => settles_bind (require_settles _ _) fun _ =>
      settles_pure
  split
  · exact settles_bind propertyReference_settles hclose
  · exact settles_bind typeReference_settles hclose

theorem string_takes : string.Takes 1 := by
  unfold string
  refine takes_first takes_anyChar fun quote => takes_cursor fun start => ?_
  split
  · rename_i n hn
    have hle : n ≤ start.rest.length := (stringLength?_take_append hn).1
    refine (takesFrom_first (n := n) ?_ fun _ => takes_pure).mono (Nat.zero_le n)
    rintro c a c' hc ⟨⟩
    exact Cursor.ahead_advance (by rw [hc]; exact hle)
  · refine takesFrom_first (n := 0) ?_ fun _ => takes_throw
    rintro c a c' hc ⟨⟩
    exact (Cursor.ahead_advance (by rw [hc])).mono (Nat.zero_le _)

theorem string_settles : string.SettlesFrom (· ≠ []) := by
  unfold string
  refine settlesFrom_bind settles_anyChar fun quote => settles_bind settles_cursor fun start => ?_
  split
  · exact settles_bind (settles_skip _) fun _ => settles_pure
  · exact settles_bind (settles_skip _) fun _ => settles_throw

/-- The characters of a name have been passed. -/
theorem name_ahead {c c' : Cursor} {n : String} (h : name c = (.ok n, c')) :
    Cursor.Ahead n.length c c' := by
  cases h
  simpa using Cursor.ahead_advance (List.takeWhile_sublist isNameChar).length_le

/-- A name that has to be there, then whatever is made of it. -/
theorem takes_name {f empty : String → Parser Grammar}
    (hempty : ∀ s, (empty s).Takes 1) (hf : ∀ s, (f s).Takes 0) :
    (name >>= fun s => if s.isEmpty then empty s else f s).Takes 1 := by
  intro c g c' h
  obtain ⟨s, c₁, hs, hg⟩ := bind_eq_ok h
  have hahead := name_ahead hs
  split at hg
  · simpa using (hahead.mono (Nat.zero_le _)).trans (hempty s c₁ g c' hg)
  · rename_i hne
    have hpos : 1 ≤ s.length := by
      rw [Nat.succ_le_iff, Nat.pos_iff_ne_zero]
      simpa using hne
    exact (hahead.mono hpos).trans (hf s c₁ g c' hg)

theorem keywordOrFunction_takes : keywordOrFunction.Takes 1 := by
  unfold keywordOrFunction
  refine takes_name (fun _ => takes_backtrack) fun _ => takes_peek fun rest => ?_
  split
  · rename_i h
    exact TakesFrom.mono (takesFrom_skip h takes_pure) (Nat.zero_le 1)
  · exact takes_pure.from

/-- A name is read where one starts. -/
theorem name_yieldsFrom {x : Char} (hstart : isNameStart x = true) :
    name.YieldsFrom (fun rest => rest.head? = some x) fun n => ¬ n.isEmpty = true := by
  rintro ⟨loc, rest⟩ n c' hx h
  cases h
  have hchar : isNameChar x = true := by rw [isNameChar, hstart, Bool.true_or]
  obtain ⟨r, rfl⟩ := List.head?_eq_some_iff.mp hx
  simp [List.takeWhile_cons_of_pos hchar]

theorem keywordOrFunction_settles {x : Char} (hstart : isNameStart x = true) :
    keywordOrFunction.SettlesFrom fun rest => rest.head? = some x := by
  unfold keywordOrFunction
  refine settlesFrom_yields name_settles.from (name_yieldsFrom hstart) fun n hn => ?_
  rw [if_neg hn]
  refine settles_looking fun next => ?_
  split
  · exact settles_bind (settles_skip 1) fun _ => settles_pure
  · exact settles_pure

theorem atKeyword_takes : atKeyword.TakesFrom (fun rest => rest.head? = some '@') 1 := by
  intro c g c' hc
  refine takesFrom_skip hc ?_ c g c' rfl
  refine takes_second name_takes fun n => ?_
  split
  · exact takes_throw
  · exact takes_pure

theorem atKeyword_settles : atKeyword.Settles := by
  unfold atKeyword
  refine settles_bind (settles_skip 1) fun _ => settles_bind name_settles fun n => ?_
  split
  · exact settles_throw
  · exact settles_pure

theorem combinator_takes : combinator.Takes 0 := by
  unfold combinator
  refine takes_choice fun p hp => ?_
  simp only [List.mem_cons, List.not_mem_nil, or_false] at hp
  rcases hp with rfl | rfl | rfl | rfl
  · exact takes_map (takes_literal _)
  · exact takes_map (takes_literal _)
  · exact takes_map ((takes_char _).mono (by decide))
  · refine takes_looking fun next => ?_
    split
    · exact takes_throw
    · exact takes_pure

theorem combinator_settles : combinator.Settles := by
  refine settles_choice (List.cons_ne_nil _ _) (settles_looking fun next => ?_)
  split
  · exact settles_throw
  · exact settles_pure

section nested

variable {group : Parser Grammar}

theorem primaryWith_takes (hg : group.Takes 1) : (primaryWith group).Takes 1 := by
  unfold primaryWith
  refine takes_peek fun rest => ?_
  split
  · exact takes_throw.from
  -- the next character decides what is read, and is the first one that is taken
  · rename_i c hc
    split_ifs with hgroup href hquote hat hcomma hstart hbad
    · exact hg.from
    · exact reference_takes.from
    · exact string_takes.from
    · rw [hat] at hc
      rintro cur g cur' rfl h
      exact atKeyword_takes cur g cur' hc h
    · exact takesFrom_skip hc takes_pure
    · exact keywordOrFunction_takes.from
    · exact takes_throw.from
    · exact takesFrom_skip hc takes_pure

theorem primaryWith_settles (hg : group.SettlesFrom fun rest => rest.head? = some '[') :
    (primaryWith group).Settles := by
  unfold primaryWith
  refine settles_peek fun rest => ?_
  split
  · exact settles_throw.from
  · rename_i c hc
    have hne : rest ≠ [] := by
      rintro rfl
      cases hc
    -- what is read has its first character already, so it does not ask for another alternative
    split_ifs with hgroup href hquote hat hcomma hstart hbad
    · rintro cur m o rfl
      exact hg cur m o (hgroup ▸ hc)
    · rintro cur m o rfl
      exact reference_settles cur m o (href ▸ hc)
    · rintro cur m o rfl
      exact string_settles cur m o hne
    · exact atKeyword_settles.from
    · exact (settles_bind (settles_skip 1) fun _ => settles_pure).from
    · rintro cur m o rfl
      exact keywordOrFunction_settles hstart cur m o hc
    · exact settles_throw.from
    · exact (settles_bind (settles_skip 1) fun _ => settles_pure).from

theorem termWith_takes (hg : group.Takes 1) : (termWith group).Takes 1 :=
  takes_first (primaryWith_takes hg) fun t => takes_cursor fun _ => (multipliers_takes _ t).from

theorem termWith_settles (hg : group.SettlesFrom fun rest => rest.head? = some '[') :
    (termWith group).Settles :=
  settles_bind (primaryWith_settles hg) fun t =>
    settles_bind settles_cursor fun _ => multipliers_settles _ t

theorem moreTerms_takes {term : Parser Grammar} (ht : term.Takes 0) (fuel : Nat) :
    (moreTerms term fuel).Takes 0 := by
  induction fuel with
  | zero => exact takes_pure
  | succ fuel ih =>
      refine takes_second takes_skipSpaces fun _ => takes_looking fun next => ?_
      split
      · exact takes_pure
      · exact takes_pure
      · refine takes_second combinator_takes fun _ => takes_second takes_skipSpaces fun _ => ?_
        exact takes_second ht fun _ => takes_first ih fun _ => takes_pure

theorem moreTerms_settles {term : Parser Grammar} (ht : term.Settles) (fuel : Nat) :
    (moreTerms term fuel).Settles := by
  induction fuel with
  | zero => exact settles_pure
  | succ fuel ih =>
      refine settles_bind settles_skipSpaces fun _ => settles_looking fun next => ?_
      split
      · exact settles_pure
      · exact settles_pure
      · refine settles_bind combinator_settles fun _ => settles_bind settles_skipSpaces fun _ => ?_
        exact settles_bind ht fun _ => settles_bind ih fun _ => settles_pure

theorem contentsWith_takes (hg : group.Takes 1) (bracketed : Bool) :
    (contentsWith group bracketed).Takes 1 := by
  refine takes_first (termWith_takes hg) fun _ => takes_cursor fun _ => Takes.from ?_
  exact takes_first (moreTerms_takes ((termWith_takes hg).mono (by decide)) _) fun _ => takes_pure

theorem contentsWith_settles (hg : group.SettlesFrom fun rest => rest.head? = some '[')
    (bracketed : Bool) : (contentsWith group bracketed).Settles :=
  settles_bind (termWith_settles hg) fun _ => settles_bind settles_cursor fun _ =>
    settles_bind (moreTerms_settles (termWith_settles hg) _) fun _ => settles_pure

end nested

/-- A bracketed group takes its brackets. The induction is on how deep groups may nest. -/
theorem groupWithin_takes (depth : Nat) : (groupWithin depth).Takes 1 := by
  induction depth with
  | zero => exact takes_throw
  | succ depth ih =>
      refine takes_first (takes_char '[') fun _ => takes_second takes_skipSpaces fun _ => ?_
      refine takes_looking fun next => ?_
      split
      · exact takes_throw
      · refine takes_second ((contentsWith_takes ih true).mono (by decide)) fun g => ?_
        refine takes_second takes_skipSpaces fun _ => takes_second (require_takes _ _) fun _ => ?_
        refine takes_peek fun rest => ?_
        split
        · rename_i h
          exact TakesFrom.mono (takesFrom_skip h takes_pure) (Nat.zero_le 1)
        · exact takes_pure.from

theorem groupWithin_settles (depth : Nat) :
    (groupWithin depth).SettlesFrom fun rest => rest.head? = some '[' := by
  induction depth with
  | zero => exact settles_throw.from
  | succ depth ih =>
      refine settlesFrom_bind (settles_char '[') fun _ => settles_bind settles_skipSpaces fun _ => ?_
      refine settles_looking fun next => ?_
      split
      · exact settles_throw
      · refine settles_bind (contentsWith_settles ih true) fun g => ?_
        refine settles_bind settles_skipSpaces fun _ => ?_
        refine settles_bind (require_settles _ _) fun _ => settles_looking fun next => ?_
        split
        · exact settles_bind (settles_skip 1) fun _ => settles_pure
        · exact settles_pure

theorem group_takes : group.Takes 1 :=
  fun c g c' h => groupWithin_takes (c.rest.length + 1) c g c' h

theorem group_settles : group.SettlesFrom fun rest => rest.head? = some '[' :=
  fun c m o hc => groupWithin_settles (c.rest.length + 1) c m o hc

/-- A definition is read up to the end of the text. -/
theorem definition_takes {text : List Char} {g : Grammar} {c : Cursor}
    (h : definition (Cursor.start text) = (.ok g, c)) : c = ⟨text.length, []⟩ := by
  obtain ⟨_, c₁, hspaces, h⟩ := bind_eq_ok h
  obtain ⟨body, c₂, hbody, h⟩ := bind_eq_ok h
  obtain ⟨_, c₃, hspaces', h⟩ := bind_eq_ok h
  have hahead := ((takes_skipSpaces _ _ _ hspaces).trans
    (contentsWith_takes group_takes false _ _ _ hbody)).trans (takes_skipSpaces _ _ _ hspaces')
  obtain ⟨next, c₄, hpeek, h⟩ := bind_eq_ok h
  cases hpeek
  -- whatever is left over is refused
  cases hend : c₃.rest.head? with
  | some x =>
      rw [hend] at h
      cases h
  | none =>
      rw [hend] at h
      cases h
      exact hahead.location_of_nil (List.head?_eq_none_iff.mp hend)

/-- No failure of a definition asks for another alternative. -/
theorem definition_settles : definition.Settles := by
  refine settles_bind settles_skipSpaces fun _ => ?_
  refine settles_bind (contentsWith_settles group_settles false) fun g => ?_
  refine settles_bind settles_skipSpaces fun _ => settles_looking fun next => ?_
  split
  · exact settles_throw
  · exact settles_pure

end Read

end ValueGrammar

import ValueGrammar.Grammar.Parser

/-!
# `ValueGrammar.Proofs.Combinators` — where the parsing expressions leave the cursor

The parsing expressions are made of parsers that nothing is assumed of: a parser may move before it
fails, and back as well as ahead. What an expression answers is told by what its parsers do at the
places they are started from, and by how they fail, for the expressions recover from one kind of failure
only. A failed attempt is undone: an expression ends at its start, or where the last success has led.

## Contents
- `Parser.Backtracks`, `Parser.Throws`: the two ways to fail.
- `Parser.Settled`, `Parser.choice_cases`: the first alternative that does not backtrack decides.
- `Parser.optional_error_iff`: when an option fails.
- `Parser.chars_ok_iff`, `Parser.literal_of_ahead`: when characters are taken.
- `Parser.Chain`, `Parser.Ends`: successes one after the other, and repetitions that end.
- `Parser.zeroOrMore_ok_iff`, `Parser.zeroOrMore_error_iff`, `Parser.fails_oneOrMore_iff`.
- `Parser.expressions_leave_cursor`: all the expressions together.
-/

namespace ValueGrammar

namespace Parser

variable {α : Type} {p q : Parser α} {ps : List (Parser α)} {c c' : Cursor} {a : α} {as : List α}
  {e : Failure}

/-! ## Two ways to fail -/

/-- Started at the place, the parser fails in a way the expressions recover from. -/
def Backtracks (p : Parser α) (c : Cursor) : Prop :=
  ∃ message offset c', p c = (.error (.backtrack message offset), c')

/-- Started at the place, the parser fails for good. -/
def Throws (p : Parser α) (c : Cursor) (e : Failure) : Prop :=
  ∃ message offset c', e = .thrown message offset ∧ p c = (.error e, c')

/-- A parser answers, or it fails in one of the two ways. -/
theorem outcome (p : Parser α) (c : Cursor) :
    (∃ a c', p c = (.ok a, c')) ∨ p.Backtracks c ∨ ∃ e, p.Throws c e := by
  rcases h : p c with ⟨e | a, c'⟩
  · cases e with
    | backtrack message offset => exact .inr (.inl ⟨message, offset, c', h⟩)
    | thrown message offset => exact .inr (.inr ⟨_, message, offset, c', rfl, h⟩)
  · exact .inl ⟨a, c', rfl⟩

/-! ## Choices -/

/-- The first of the alternatives that does not backtrack at the place, if it does not. -/
def Settled (ps : List (Parser α)) (c : Cursor) (p : Parser α) : Prop :=
  ∃ before after, ps = before ++ p :: after ∧ ∀ q ∈ before, q.Backtracks c

/-- Alternatives that backtrack are passed over. -/
theorem choiceAfter_append (last : Option Failure) {before : List (Parser α)}
    (h : ∀ q ∈ before, q.Backtracks c) (ps : List (Parser α)) :
    ∃ last', choiceAfter last (before ++ ps) c = choiceAfter last' ps c := by
  induction before generalizing last with
  | nil => exact ⟨last, rfl⟩
  | cons q before ih =>
      obtain ⟨message, offset, c', hq⟩ := h q List.mem_cons_self
      obtain ⟨last', hrest⟩ :=
        ih (some (.backtrack message offset)) fun q' hq' => h q' (List.mem_cons_of_mem q hq')
      refine ⟨last', ?_⟩
      simp only [List.cons_append, choiceAfter, hq]
      exact hrest

theorem choice_of_ok (h : Settled ps c p) (hp : p c = (.ok a, c')) : choice ps c = (.ok a, c') := by
  obtain ⟨before, after, rfl, hbefore⟩ := h
  obtain ⟨last, hchoice⟩ := choiceAfter_append none hbefore (p :: after)
  rw [choice, hchoice]
  simp only [choiceAfter, hp]

theorem choice_of_throws (h : Settled ps c p) (hp : p.Throws c e) : choice ps c = (.error e, c) := by
  obtain ⟨before, after, rfl, hbefore⟩ := h
  obtain ⟨message, offset, c', rfl, hp⟩ := hp
  obtain ⟨last, hchoice⟩ := choiceAfter_append none hbefore (p :: after)
  rw [choice, hchoice]
  simp only [choiceAfter, hp]

/-- If every alternative backtracks, the choice does so where it was started. -/
theorem choice_of_backtracks (h : ∀ q ∈ ps, q.Backtracks c) :
    ∃ message offset, choice ps c = (.error (.backtrack message offset), c) := by
  have hafter : ∀ last : Option Failure,
      (∀ e, last = some e → ∃ message offset, e = .backtrack message offset) →
      ∃ message offset, choiceAfter last ps c = (.error (.backtrack message offset), c) := by
    induction ps with
    | nil =>
        intro last hlast
        cases last with
        | none => exact ⟨_, _, rfl⟩
        | some e =>
            obtain ⟨message, offset, rfl⟩ := hlast e rfl
            exact ⟨message, offset, rfl⟩
    | cons q ps ih =>
        intro last _
        obtain ⟨message, offset, c', hq⟩ := h q List.mem_cons_self
        simp only [choiceAfter, hq]
        refine ih (fun q' hq' => h q' (List.mem_cons_of_mem q hq')) _ ?_
        intro e he
        exact ⟨message, offset, (Option.some.inj he).symm⟩
  exact hafter none (by simp)

/-- Either all alternatives backtrack, or one is the first that does not. -/
theorem settled_or_backtracks (ps : List (Parser α)) (c : Cursor) :
    (∃ p, Settled ps c p ∧ ¬ p.Backtracks c) ∨ ∀ q ∈ ps, q.Backtracks c := by
  induction ps with
  | nil => exact .inr (by simp)
  | cons p ps ih =>
      by_cases hp : p.Backtracks c
      · rcases ih with ⟨q, ⟨before, after, rfl, hbefore⟩, hq⟩ | hall
        · exact .inl ⟨q, ⟨p :: before, after, rfl, List.forall_mem_cons.mpr ⟨hp, hbefore⟩⟩, hq⟩
        · exact .inr (List.forall_mem_cons.mpr ⟨hp, hall⟩)
      · exact .inl ⟨p, ⟨[], ps, rfl, by simp⟩, hp⟩

theorem choice_cases (ps : List (Parser α)) (c : Cursor) :
    (∃ p a c', Settled ps c p ∧ p c = (.ok a, c') ∧ choice ps c = (.ok a, c')) ∨
      (∃ p e, Settled ps c p ∧ p.Throws c e ∧ choice ps c = (.error e, c)) ∨
      (∀ q ∈ ps, q.Backtracks c) ∧
        ∃ message offset, choice ps c = (.error (.backtrack message offset), c) := by
  rcases settled_or_backtracks ps c with ⟨p, hsettled, hp⟩ | hall
  · rcases outcome p c with ⟨a, c', ha⟩ | hback | ⟨e, he⟩
    · exact .inl ⟨p, a, c', hsettled, ha, choice_of_ok hsettled ha⟩
    · exact absurd hback hp
    · exact .inr (.inl ⟨p, e, hsettled, he, choice_of_throws hsettled he⟩)
  · exact .inr (.inr ⟨hall, choice_of_backtracks hall⟩)

/-! ## Options -/

theorem map_of_ok {β : Type} {f : α → β} (h : p c = (.ok a, c')) : (f <$> p) c = (.ok (f a), c') := by
  change andThen p _ c = _
  rw [andThen, h]
  rfl

theorem map_of_error {β : Type} {f : α → β} (h : p c = (.error e, c')) :
    (f <$> p) c = (.error e, c') := by
  change andThen p _ c = _
  rw [andThen, h]

theorem optional_of_ok (h : p c = (.ok a, c')) : optional p c = (.ok (some a), c') :=
  choice_of_ok ⟨[], _, rfl, by simp⟩ (map_of_ok h)

theorem optional_of_throws (h : p.Throws c e) : optional p c = (.error e, c) := by
  obtain ⟨message, offset, c', he, hp⟩ := h
  exact choice_of_throws ⟨[], _, rfl, by simp⟩ ⟨message, offset, c', he, map_of_error hp⟩

theorem optional_of_backtracks (h : p.Backtracks c) : optional p c = (.ok none, c) := by
  obtain ⟨message, offset, c', hp⟩ := h
  have hfirst : (some <$> p).Backtracks c := ⟨message, offset, c', map_of_error hp⟩
  exact choice_of_ok ⟨[some <$> p], [], rfl, by simpa using hfirst⟩ rfl

theorem optional_error_iff : optional p c = (.error e, c') ↔ p.Throws c e ∧ c' = c := by
  constructor
  · intro h
    rcases outcome p c with ⟨a, c₁, ha⟩ | hback | ⟨e', he'⟩
    · rw [optional_of_ok ha] at h
      cases h
    · rw [optional_of_backtracks hback] at h
      cases h
    · rw [optional_of_throws he'] at h
      cases h
      exact ⟨he', rfl⟩
  · rintro ⟨he, rfl⟩
    exact optional_of_throws he

/-! ## Literals -/

theorem char_cons_self (x : Char) (r : List Char) (n : Nat) :
    char x ⟨n, x :: r⟩ = (.ok x, ⟨n + 1, r⟩) := by
  change (if x = x then anyChar else _) ⟨n, x :: r⟩ = _
  rw [if_pos rfl]
  rfl

/-- A character that is not ahead is not taken. -/
theorem char_error {x : Char} (h : c.rest.head? ≠ some x) : ∃ e c', char x c = (.error e, c') := by
  obtain ⟨n, _ | ⟨y, r⟩⟩ := c
  · exact ⟨_, _, rfl⟩
  · have hxy : x ≠ y := by simpa using Ne.symm h
    change ∃ e c', (if x = y then anyChar else backtrack _) ⟨n, y :: r⟩ = (.error e, c')
    rw [if_neg hxy]
    exact ⟨_, _, rfl⟩

/-- Characters are taken if they are ahead, all of them. -/
theorem chars_ok_iff {xs : List Char} :
    chars xs c = (.ok (), c') ↔ xs <+: c.rest ∧ c' = c.advance xs.length := by
  induction xs generalizing c with
  | nil =>
      have hstay : c.advance 0 = c := rfl
      simp only [List.nil_prefix, List.length_nil, hstay, true_and]
      constructor
      · intro h
        cases h
        rfl
      · rintro rfl
        rfl
  | cons x xs ih =>
      change andThen (char x) (fun _ => chars xs) c = _ ↔ _
      unfold andThen
      by_cases hx : c.rest.head? = some x
      · obtain ⟨n, _ | ⟨y, r⟩⟩ := c
        · cases hx
        · cases hx
          rw [char_cons_self]
          dsimp only
          rw [ih, List.cons_prefix_cons]
          simp [Cursor.advance, Nat.add_assoc, Nat.add_comm 1]
      · obtain ⟨e, c₁, he⟩ := char_error hx
        rw [he]
        constructor
        · intro h
          cases h
        · rintro ⟨⟨s, hs⟩, -⟩
          exact absurd (by rw [← hs]; rfl) hx

theorem literal_of_ahead {s : String} (h : s.toList <+: c.rest) :
    literal s c = (.ok s, c.advance s.length) := by
  have hchars : chars s.toList c = (.ok (), c.advance s.length) :=
    chars_ok_iff.mpr ⟨h, by rw [String.length_toList]⟩
  unfold literal
  rw [hchars]

theorem literal_of_not_ahead {s : String} (h : ¬ s.toList <+: c.rest) :
    literal s c = (.error (.backtrack ("Expected `" ++ s ++ "`") c.location), c) := by
  unfold literal
  split
  · rename_i c' hc
    exact absurd (chars_ok_iff.mp hc).1 h
  · rfl

/-! ## Repetitions -/

/-- From the first place, the parser succeeds with the values one after the other, up to the second
place. -/
inductive Chain (p : Parser α) : Cursor → List α → Cursor → Prop where
  | stop (c : Cursor) : Chain p c [] c
  | step {c c' last a as} (h : p c = (.ok a, c')) (hrest : Chain p c' as last) :
      Chain p c (a :: as) last

/-- The parser does not succeed any more at the place. -/
def Fails (p : Parser α) (c : Cursor) : Prop := ∃ e c', p c = (.error e, c')

/-- The parser succeeds finitely often, one time after the other. -/
def Ends (p : Parser α) (c : Cursor) : Prop := ∃ as last, p.Chain c as last ∧ p.Fails last

theorem Backtracks.fails (h : p.Backtracks c) : p.Fails c := by
  obtain ⟨message, offset, c', h⟩ := h
  exact ⟨_, c', h⟩

theorem Throws.fails (h : p.Throws c e) : p.Fails c := by
  obtain ⟨message, offset, c', -, h⟩ := h
  exact ⟨e, c', h⟩

theorem Fails.cases (h : p.Fails c) : p.Backtracks c ∨ ∃ e, p.Throws c e := by
  obtain ⟨e, c', h⟩ := h
  rcases outcome p c with ⟨a, c'', ha⟩ | hback
  · rw [ha] at h
    cases h
  · exact hback

/-- The loop goes along a chain, and collects its values. -/
theorem zeroOrMoreAfter_of_chain {last : Cursor} (h : p.Chain c as last) (found : List α) :
    zeroOrMoreAfter p found c = zeroOrMoreAfter p (as.reverse ++ found) last := by
  induction h generalizing found with
  | stop => rfl
  | step ha _ ih =>
      rw [zeroOrMoreAfter, ha]
      simp [ih]

theorem zeroOrMore_of_backtracks {last : Cursor} (h : p.Chain c as last)
    (hlast : p.Backtracks last) : zeroOrMore p c = (.ok as, last) := by
  obtain ⟨message, offset, c', hlast⟩ := hlast
  rw [zeroOrMore, zeroOrMoreAfter_of_chain h, zeroOrMoreAfter, hlast]
  simp

theorem zeroOrMore_of_throws {last : Cursor} (h : p.Chain c as last) (hlast : p.Throws last e) :
    zeroOrMore p c = (.error e, last) := by
  obtain ⟨message, offset, c', rfl, hlast⟩ := hlast
  rw [zeroOrMore, zeroOrMoreAfter_of_chain h, zeroOrMoreAfter, hlast]

theorem zeroOrMore_ok_iff {last : Cursor} (hends : p.Ends c) :
    zeroOrMore p c = (.ok as, last) ↔ p.Chain c as last ∧ p.Backtracks last := by
  obtain ⟨as', last', hchain, hfails⟩ := hends
  constructor
  · intro h
    rcases hfails.cases with hback | ⟨e, he⟩
    · rw [zeroOrMore_of_backtracks hchain hback] at h
      cases h
      exact ⟨hchain, hback⟩
    · rw [zeroOrMore_of_throws hchain he] at h
      cases h
  · rintro ⟨h, hback⟩
    exact zeroOrMore_of_backtracks h hback

theorem zeroOrMore_error_iff {last : Cursor} (hends : p.Ends c) :
    zeroOrMore p c = (.error e, last) ↔ ∃ as, p.Chain c as last ∧ p.Throws last e := by
  obtain ⟨as', last', hchain, hfails⟩ := hends
  constructor
  · intro h
    rcases hfails.cases with hback | ⟨e, he⟩
    · rw [zeroOrMore_of_backtracks hchain hback] at h
      cases h
    · rw [zeroOrMore_of_throws hchain he] at h
      cases h
      exact ⟨as', hchain, he⟩
  · rintro ⟨as, h, he⟩
    exact zeroOrMore_of_throws h he

/-- A repetition does not ask for another alternative. -/
theorem not_backtracks_zeroOrMore (hends : p.Ends c) : ¬ (zeroOrMore p).Backtracks c := by
  rintro ⟨message, offset, last, h⟩
  obtain ⟨_, _, _, _, _, he, _⟩ := (zeroOrMore_error_iff hends).mp h
  cases he

theorem oneOrMore_of_ok (h : p c = (.ok a, c')) :
    oneOrMore p c =
      match zeroOrMore p c' with
      | (.ok as, last) => (.ok (a :: as), last)
      | (.error e, last) => (.error e, last) := by
  change andThen p (fun a => andThen (zeroOrMore p) fun as => pure (a :: as)) c = _
  rw [andThen, h]
  dsimp only
  rw [andThen]
  rcases zeroOrMore p c' with ⟨_ | _, _⟩ <;> rfl

theorem Chain.ends_of_cons {last : Cursor} (h : p.Chain c (a :: as) last) (hlast : p.Fails last) :
    ∃ c', p c = (.ok a, c') ∧ p.Chain c' as last ∧ p.Ends c' := by
  cases h with
  | step ha hrest => exact ⟨_, ha, hrest, as, last, hrest, hlast⟩

/-- One or more repetitions fail if the first does, or a later one for good. -/
theorem fails_oneOrMore_iff (hends : p.Ends c) :
    (oneOrMore p).Fails c ↔
      p.Fails c ∨ ∃ a as last e, p.Chain c (a :: as) last ∧ p.Throws last e := by
  constructor
  · rintro ⟨e, last, h⟩
    obtain ⟨_ | ⟨a, as⟩, end', hchain, hfails⟩ := hends
    · cases hchain
      exact .inl hfails
    · obtain ⟨c', ha, hrest, hends'⟩ := hchain.ends_of_cons hfails
      rw [oneOrMore_of_ok ha] at h
      rcases hfails.cases with hback | ⟨e', he'⟩
      · rw [zeroOrMore_of_backtracks hrest hback] at h
        cases h
      · exact .inr ⟨a, as, end', e', hchain, he'⟩
  · rintro (⟨e, c', h⟩ | ⟨a, as, last, e, hchain, he⟩)
    · refine ⟨e, c', ?_⟩
      change andThen p _ c = _
      rw [andThen, h]
    · obtain ⟨c', ha, hrest, -⟩ := hchain.ends_of_cons he.fails
      refine ⟨e, last, ?_⟩
      rw [oneOrMore_of_ok ha, zeroOrMore_of_throws hrest he]

/-! ## All the expressions -/

/-- **The parsing expressions keep the cursor consistent**, whatever the parsers they are made of do to
it. A choice answers as the first alternative that does not backtrack at its start; when it fails, be it
for good, the cursor is where it started. An option fails only if its parser throws. A literal is taken
whole or not at all. A repetition that ends never backtracks: it answers with the values of the longest
chain of successes, or passes on the failure thrown after them, and the cursor is at the end of the last
success either way. One or more repetitions fail if the first does or a later one throws, and only
then. -/
theorem expressions_leave_cursor (ps : List (Parser α)) (p : Parser α) (s : String) (c : Cursor) :
    ((∃ p a c', Settled ps c p ∧ p c = (.ok a, c') ∧ choice ps c = (.ok a, c')) ∨
        (∃ p e, Settled ps c p ∧ p.Throws c e ∧ choice ps c = (.error e, c)) ∨
        (∀ q ∈ ps, q.Backtracks c) ∧
          ∃ message offset, choice ps c = (.error (.backtrack message offset), c)) ∧
      (∀ e c', optional p c = (.error e, c') ↔ p.Throws c e ∧ c' = c) ∧
      (s.toList <+: c.rest ∧ literal s c = (.ok s, c.advance s.length) ∨
        ¬ s.toList <+: c.rest ∧ ∃ e, literal s c = (.error e, c)) ∧
      (p.Ends c →
        ¬ (zeroOrMore p).Backtracks c ∧
        (∀ as last, zeroOrMore p c = (.ok as, last) ↔ p.Chain c as last ∧ p.Backtracks last) ∧
        (∀ e last, zeroOrMore p c = (.error e, last) ↔
          ∃ as, p.Chain c as last ∧ p.Throws last e) ∧
        ((oneOrMore p).Fails c ↔
          p.Fails c ∨ ∃ a as last e, p.Chain c (a :: as) last ∧ p.Throws last e)) := by
  refine ⟨choice_cases ps c, fun e c' => optional_error_iff, ?_, fun hends => ?_⟩
  · by_cases h : s.toList <+: c.rest
    · exact .inl ⟨h, literal_of_ahead h⟩
    · exact .inr ⟨h, _, literal_of_not_ahead h⟩
  · exact ⟨not_backtracks_zeroOrMore hends, fun as last => zeroOrMore_ok_iff hends,
      fun e last => zeroOrMore_error_iff hends, fails_oneOrMore_iff hends⟩

/-- A parser that goes back one place each time, and far off when it cannot. -/
def stepBack : Parser Nat := fun c =>
  match c.location with
  | 0 => (.error (.backtrack "Start of input" 0), c.advance 7)
  | n + 1 => (.ok n, ⟨n, c.rest⟩)

/-- A repetition that moves back to the start of the text. -/
theorem expressions_leave_cursor_back :
    stepBack.Ends ⟨2, []⟩ ∧ zeroOrMore stepBack ⟨2, []⟩ = (.ok [1, 0], ⟨0, []⟩) := by
  have hchain : stepBack.Chain ⟨2, []⟩ [1, 0] ⟨0, []⟩ := .step rfl (.step rfl (.stop _))
  have hback : stepBack.Backtracks ⟨0, []⟩ := ⟨_, _, _, rfl⟩
  have hends : stepBack.Ends ⟨2, []⟩ := ⟨_, _, hchain, hback.fails⟩
  obtain ⟨-, -, -, hrepeat⟩ := expressions_leave_cursor [] stepBack "" ⟨2, []⟩
  obtain ⟨-, hok, -, -⟩ := hrepeat hends
  exact ⟨hends, (hok [1, 0] ⟨0, []⟩).mpr ⟨hchain, hback⟩⟩

end Parser

end ValueGrammar

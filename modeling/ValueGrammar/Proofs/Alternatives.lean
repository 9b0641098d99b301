import ValueGrammar.Proofs.Acceptance
import ValueGrammar.State.Compile

/-!
# `ValueGrammar.Proofs.Alternatives` — what compiled alternatives match

Alternatives become conditionals that fall through to the next one, and neighbours with a key may be
folded into one table. Not all of them are: an alternative between two without a key stands by itself,
and so does one whose key is taken. A table finds an alternative only at a token that spells its key, so
folding never adds a match; it keeps every match that starts with such a token, and every match of an
alternative that stands by itself.

## Contents
- `KeyAt`: the token at a place spells a key.
- `accepts_enum_cons_iff`: a table with one more entry.
- `Alternatives.accepts_addTerm_iff`, `Alternatives.accepts_tabled_iff`: one more alternative.
- `Compiler.tabled`: the alternatives that stand in tables.
- `Compiler.addAlternatives_cons`, `Compiler.keys?_addAlternatives`: they are the ones put there.
- `Compiler.exists_of_accepts_alternatives`, `Compiler.accepts_alternatives`: all of them.
-/

namespace ValueGrammar

variable {calls : Calls} {ts : List Token} {o : Option Range} {i j : Nat}

/-- The token at the place is found under the key in a table. -/
def KeyAt (ts : List Token) (i : Nat) (key : String) : Prop :=
  ∃ t, ts[i]? = some t ∧ stripHack (Text.lower t.value) = key

theorem accepts_enum_iff {table : List (String × State)} :
    Accepts calls ts (.state (.enum table)) o i j ↔
      ∃ key s, KeyAt ts i key ∧ table.lookup key = some s ∧ Accepts calls ts (.state s) o i j := by
  constructor
  · intro h
    cases h with
    | enum ht hs h => exact ⟨_, _, ⟨_, ht, rfl⟩, hs, h⟩
  · rintro ⟨key, s, ⟨t, ht, rfl⟩, hs, h⟩
    exact .enum ht hs h

theorem not_accepts_enum_nil : ¬ Accepts calls ts (.state (.enum [])) o i j := by
  rw [accepts_enum_iff]
  rintro ⟨key, s, -, hs, -⟩
  simp at hs

/-- A table with an entry under a key that was free matches what the entry matches at its key, and
what it matched before. -/
theorem accepts_enum_cons_iff {table : List (String × State)} {key : String} {s : State}
    (hfree : table.lookup key = none) :
    Accepts calls ts (.state (.enum ((key, s) :: table))) o i j ↔
      (KeyAt ts i key ∧ Accepts calls ts (.state s) o i j) ∨
        Accepts calls ts (.state (.enum table)) o i j := by
  rw [accepts_enum_iff, accepts_enum_iff]
  constructor
  · rintro ⟨key', s', hk, hs, h⟩
    rw [List.lookup_cons] at hs
    by_cases he : key' = key
    · subst he
      simp only [beq_self_eq_true, Option.some.injEq] at hs
      subst hs
      exact .inl ⟨hk, h⟩
    · rw [beq_eq_false_iff_ne.mpr he] at hs
      exact .inr ⟨key', s', hk, hs, h⟩
  · rintro (⟨hk, h⟩ | ⟨key', s', hk, hs, h⟩)
    · exact ⟨key, s, hk, by simp, h⟩
    · have he : key' ≠ key := by
        rintro rfl
        rw [hfree] at hs
        cases hs
      refine ⟨key', s', hk, ?_, h⟩
      rw [List.lookup_cons, beq_eq_false_iff_ne.mpr he]
      exact hs

namespace Compiler

variable {fold : Bool} {a : Alternatives} {term : State} {key : String}

/-! ## One more alternative -/

namespace Alternatives

theorem accepts_close_iff :
    Accepts calls ts (.state (a.close (standard fold))) o i j ↔
      Accepts calls ts (.state (.enum (a.table.getD []))) o i j ∨
        Accepts calls ts (.state a.rest) o i j := by
  unfold close
  cases a.table with
  | none => simp [not_accepts_enum_nil]
  | some t =>
      simp only [standard, accepts_branch_iff, accepts_cond_iff, Option.getD_some]
      simp [passes_of_ne]

theorem close_addTerm :
    (a.addTerm (standard fold) term).close (standard fold) =
      State.branch term .accept (a.close (standard fold)) := rfl

theorem accepts_addTerm_iff :
    Accepts calls ts (.state ((a.addTerm (standard fold) term).close (standard fold))) o i j ↔
      Accepts calls ts (.state term) o i j ∨
        Accepts calls ts (.state (a.close (standard fold))) o i j := by
  rw [close_addTerm, accepts_branch_iff, accepts_cond_iff]
  simp [passes_of_ne]

/-- An alternative with a key stands by itself, or in a table under a key that was free. -/
theorem addKeyed_cases (fold : Bool) (a : Alternatives) (more : Bool) (key : String) (term : State) :
    a.addKeyed (standard fold) more key term = a.addTerm (standard fold) term ∨
      ((a.table.getD []).lookup key = none ∧
        a.addKeyed (standard fold) more key term = ⟨a.rest, some ((key, term) :: a.table.getD [])⟩) := by
  unfold addKeyed
  cases a.table with
  | none =>
      cases more with
      | false => exact .inl rfl
      | true => exact .inr ⟨rfl, rfl⟩
  | some t =>
      simp only [Option.getD_some]
      split
      · exact .inl rfl
      · rename_i h
        exact .inr ⟨Option.not_isSome_iff_eq_none.mp h, rfl⟩

theorem accepts_tabled_iff (hfree : (a.table.getD []).lookup key = none) :
    Accepts calls ts (.state (close (standard fold)
        ⟨a.rest, some ((key, term) :: a.table.getD [])⟩)) o i j ↔
      (KeyAt ts i key ∧ Accepts calls ts (.state term) o i j) ∨
        Accepts calls ts (.state (a.close (standard fold))) o i j := by
  rw [accepts_close_iff, accepts_close_iff, Option.getD_some, accepts_enum_cons_iff hfree, or_assoc]

theorem addTerm_close_not_isSentinel (h : ¬ term.IsSentinel) :
    ¬ ((a.addTerm (standard fold) term).close (standard fold)).IsSentinel :=
  State.branch_not_isSentinel h

theorem addKeyed_close_not_isSentinel (more : Bool) (h : ¬ term.IsSentinel) :
    ¬ ((a.addKeyed (standard fold) more key term).close (standard fold)).IsSentinel := by
  rcases addKeyed_cases fold a more key term with he | ⟨-, he⟩
  · rw [he]; exact addTerm_close_not_isSentinel h
  · rw [he]; exact State.branch_not_isSentinel id

end Alternatives

/-! ## Which alternatives stand in tables -/

/-- The key under which an alternative is put into a table, if it is. `keys` are those of the table
that is open behind it; without one, a table is opened if `before`, the alternative in front of it, may
go into it too. A key that is taken keeps the alternative out. -/
def tableKey (before : Option Grammar) (node : Grammar) (keys : Option (List String)) :
    Option String :=
  (enumKey? node).filter fun key =>
    match keys with
    | some taken => !taken.contains key
    | none => (before.bind enumKey?).isSome

/-- The keys of the table that is open in front of alternatives, if there is one. -/
def openKeys (before : Option Grammar) : List Grammar → Option (List String)
  | [] => none
  | t :: rest =>
    let keys := openKeys (some t) rest
    (tableKey before t keys).map (· :: keys.getD [])

/-- The alternatives that stand in tables, each with its key. -/
def tabled (before : Option Grammar) : List Grammar → List (String × Grammar)
  | [] => []
  | t :: rest =>
    ((tableKey before t (openKeys (some t) rest)).map (·, t)).toList ++ tabled (some t) rest

-- of `a | <x> | b | B | c` the last two make a table, and the second `b` cannot join it
example :
    tabled none [.keyword "a", .type "x" none, .keyword "b", .keyword "B", .keyword "c"] =
      [("b", .keyword "B"), ("c", .keyword "c")] := rfl

theorem mem_tabled_cons {before : Option Grammar} {t u : Grammar} {rest : List Grammar} :
    (key, u) ∈ tabled before (t :: rest) ↔
      (tableKey before t (openKeys (some t) rest) = some key ∧ u = t) ∨
        (key, u) ∈ tabled (some t) rest := by
  rw [tabled, List.mem_append, Option.mem_toList, Option.map_eq_some_iff]
  simp only [Prod.mk.injEq]
  constructor
  · rintro (⟨key', hkey, rfl, rfl⟩ | h)
    · exact .inl ⟨hkey, rfl⟩
    · exact .inr h
  · rintro (⟨hkey, rfl⟩ | h)
    · exact .inl ⟨key, hkey, rfl, rfl⟩
    · exact .inr h

/-- The keys of the open table. -/
def Alternatives.keys? (a : Alternatives) : Option (List String) := a.table.map (List.map Prod.fst)

theorem isSome_lookup {table : List (String × State)} :
    (table.lookup key).isSome = (table.map Prod.fst).contains key := by
  induction table with
  | nil => rfl
  | cons entry table ih =>
      obtain ⟨k, s⟩ := entry
      rw [List.lookup_cons, List.map_cons, List.contains_cons]
      cases key == k with
      | true => rfl
      | false => simpa using ih

/-- An alternative gets a key in a table only if the key is free in it. -/
theorem lookup_of_tableKey {before : Option Grammar} {node : Grammar}
    (h : tableKey before node a.keys? = some key) : (a.table.getD []).lookup key = none := by
  obtain ⟨-, hfree⟩ := Option.filter_eq_some_iff.mp h
  unfold Alternatives.keys? at hfree
  cases ht : a.table with
  | none => rfl
  | some table =>
      simp only [ht, Option.map_some, ← isSome_lookup] at hfree
      simpa using hfree

/-- An alternative is put into the open table under its key there, and stands by itself if it has
none. -/
theorem addAlternatives_cons (before : Option Grammar) (node : Grammar) (term : State)
    (terms : List (Grammar × State)) :
    addAlternatives (standard true) before ((node, term) :: terms) =
      let a := addAlternatives (standard true) (some node) terms
      (tableKey before node a.keys?).elim (a.addTerm (standard true) term) fun key =>
        ⟨a.rest, some ((key, term) :: a.table.getD [])⟩ := by
  have hkeyOf : (standard true).keyOf = enumKey? := rfl
  rw [addAlternatives, hkeyOf]
  generalize addAlternatives (standard true) (some node) terms = a
  dsimp only
  unfold tableKey Alternatives.keys?
  cases enumKey? node with
  | none => rfl
  | some key =>
      obtain ⟨rest, table⟩ := a
      dsimp only
      unfold Alternatives.addKeyed
      cases table with
      | none => cases (before.bind enumKey?).isSome <;> rfl
      | some table =>
          simp only [isSome_lookup, Option.map_some, Option.filter_some, Option.getD_some]
          cases (table.map Prod.fst).contains key <;> rfl

/-- The open table has the keys that are said to be open. -/
theorem keys?_addAlternatives (before : Option Grammar) (terms : List (Grammar × State)) :
    (addAlternatives (standard true) before terms).keys? = openKeys before (terms.map Prod.fst) := by
  induction terms generalizing before with
  | nil => rfl
  | cons t terms ih =>
      obtain ⟨node, term⟩ := t
      rw [addAlternatives_cons, List.map_cons, openKeys]
      simp only [← ih]
      generalize addAlternatives (standard true) (some node) terms = a
      cases tableKey before node a.keys? with
      | none => rfl
      | some key => obtain ⟨rest, _ | table⟩ := a <;> rfl

/-! ## All alternatives -/

variable {terms : List (Grammar × State)}

/-- One more alternative matches what it matches by itself, if it does not stand in a table or a match
starts with its key there. -/
theorem accepts_addAlternatives_cons_iff {before : Option Grammar} {node : Grammar} :
    Accepts calls ts (.state
        ((addAlternatives (standard fold) before ((node, term) :: terms)).close
          (standard fold))) o i j ↔
      ((fold = true → ∀ key,
          tableKey before node (openKeys (some node) (terms.map Prod.fst)) = some key →
            KeyAt ts i key) ∧ Accepts calls ts (.state term) o i j) ∨
        Accepts calls ts
          (.state ((addAlternatives (standard fold) (some node) terms).close
            (standard fold))) o i j := by
  cases fold with
  | false =>
      rw [show addAlternatives (standard false) before ((node, term) :: terms) =
        (addAlternatives (standard false) (some node) terms).addTerm (standard false) term from rfl,
        Alternatives.accepts_addTerm_iff]
      simp
  | true =>
      rw [addAlternatives_cons, ← keys?_addAlternatives]
      dsimp only
      generalize addAlternatives (standard true) (some node) terms = a
      cases hkey : tableKey before node a.keys? with
      | none =>
          rw [Option.elim_none, Alternatives.accepts_addTerm_iff]
          simp
      | some key =>
          rw [Option.elim_some, Alternatives.accepts_tabled_iff (lookup_of_tableKey hkey)]
          simp

/-- What alternatives match is matched by one of them. -/
theorem exists_of_accepts_addAlternatives {before : Option Grammar}
    (h : Accepts calls ts
      (.state ((addAlternatives (standard fold) before terms).close (standard fold))) o i j) :
    ∃ t ∈ terms, Accepts calls ts (.state t.2) o i j := by
  induction terms generalizing before with
  | nil => exact absurd h not_accepts_reject
  | cons t terms ih =>
      rcases accepts_addAlternatives_cons_iff.mp h with ⟨-, ht⟩ | hrest
      · exact ⟨t, List.mem_cons_self, ht⟩
      · obtain ⟨u, hm, hu⟩ := ih hrest
        exact ⟨u, List.mem_cons_of_mem _ hm, hu⟩

/-- What one of the alternatives matches is matched by all of them together, if it does not stand in a
table or the match starts with its key there. The induction is on the alternatives. -/
theorem accepts_addAlternatives {before : Option Grammar} {t : Grammar × State} (hm : t ∈ terms)
    (hkey : fold = true → ∀ key, (key, t.1) ∈ tabled before (terms.map Prod.fst) → KeyAt ts i key)
    (h : Accepts calls ts (.state t.2) o i j) :
    Accepts calls ts
      (.state ((addAlternatives (standard fold) before terms).close (standard fold))) o i j := by
  induction terms generalizing before with
  | nil => simp at hm
  | cons u terms ih =>
      rw [List.map_cons] at hkey
      refine accepts_addAlternatives_cons_iff.mpr ?_
      rcases List.mem_cons.mp hm with rfl | hm
      · exact .inl ⟨fun hf key hk => hkey hf key (mem_tabled_cons.mpr (.inl ⟨hk, rfl⟩)), h⟩
      · exact .inr (ih hm fun hf key hk => hkey hf key (mem_tabled_cons.mpr (.inr hk)))

theorem exists_of_accepts_alternatives
    (h : Accepts calls ts (.state ((standard fold).alternatives terms)) o i j) :
    ∃ t ∈ terms, Accepts calls ts (.state t.2) o i j :=
  exists_of_accepts_addAlternatives h

theorem accepts_alternatives {t : Grammar × State} (hm : t ∈ terms)
    (hkey : fold = true → ∀ key, (key, t.1) ∈ tabled none (terms.map Prod.fst) → KeyAt ts i key)
    (h : Accepts calls ts (.state t.2) o i j) :
    Accepts calls ts (.state ((standard fold).alternatives terms)) o i j :=
  accepts_addAlternatives hm hkey h

theorem alternatives_not_isSentinel (hne : terms ≠ []) (h : ∀ t ∈ terms, ¬ t.2.IsSentinel) :
    ¬ ((standard fold).alternatives terms).IsSentinel := by
  cases terms with
  | nil => exact absurd rfl hne
  | cons t terms =>
      have ht := h t List.mem_cons_self
      rw [alternatives, addAlternatives]
      split
      · exact Alternatives.addKeyed_close_not_isSentinel _ ht
      · exact Alternatives.addTerm_close_not_isSentinel ht

end Compiler

end ValueGrammar

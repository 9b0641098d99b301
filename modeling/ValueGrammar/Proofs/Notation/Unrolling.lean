import ValueGrammar.Proofs.Notation.Progress

/-!
# `ValueGrammar.Proofs.Notation.Unrolling` — the reader needs no bounds

The reader counts down: how deep groups may nest, how many terms a group may have, and how many
multipliers a term. Here its procedures are written without those bounds, each calling the others
freely, and are unrolled: the procedures whose calls go to a given set of procedures. A text is read
in so many unrollings, whatever would be called beneath them, and the answer is the reader's.

## Contents
- `Read.Procedures`: parsers for groups, for the further terms of a group, for multipliers.
- `Read.Procedures.unrolled`: the bodies of the procedures, without bounds.
- `Read.Procedures.Reaches`: on texts of a bounded length, procedures do what the reader does.
- `Read.Procedures.definition_unrolled`: every text is read in a bounded number of calls.
-/

namespace ValueGrammar

namespace Parser

variable {α β : Type}

/-- Two parsers do the same at one place. -/
def AgreeAt (c : Cursor) (p p' : Parser α) : Prop := p c = p' c

theorem AgreeAt.refl (c : Cursor) (p : Parser α) : AgreeAt c p p := rfl

/-- Two parsers that agree, followed by parsers that agree where the first has led. -/
theorem AgreeAt.bind {p p' : Parser α} {f f' : α → Parser β} {c : Cursor} (hp : AgreeAt c p p')
    (hf : ∀ a c', p' c = (.ok a, c') → AgreeAt c' (f a) (f' a)) :
    AgreeAt c (p >>= f) (p' >>= f') := by
  change andThen p f c = andThen p' f' c
  unfold andThen
  rw [show p c = p' c from hp]
  split
  · rename_i a c' ha
    exact hf a c' ha
  · rfl

/-- The same parser, followed by parsers that agree where it has led. -/
theorem AgreeAt.after {p : Parser α} {f f' : α → Parser β} {c : Cursor}
    (hf : ∀ a c', p c = (.ok a, c') → AgreeAt c' (f a) (f' a)) :
    AgreeAt c (p >>= f) (p >>= f') := (AgreeAt.refl c p).bind hf

/-- Looking at the next character does not move. -/
theorem AgreeAt.peek {f f' : Option Char → Parser β} {c : Cursor}
    (hf : AgreeAt c (f c.rest.head?) (f' c.rest.head?)) :
    AgreeAt c (Parser.peek >>= f) (Parser.peek >>= f') := hf

end Parser

namespace Read

open ValueGrammar.Parser

/-- A term without multipliers calls the parser of groups where it starts, if at all. -/
theorem primaryWith_congr {group group' : Parser Grammar} {c : Cursor} (h : group c = group' c) :
    primaryWith group c = primaryWith group' c := by
  refine AgreeAt.peek ?_
  split
  · rfl
  · split
    · exact h
    · rfl

/-- The procedures that call each other while a definition is read. -/
structure Procedures where
  /-- applies multipliers to a term for as long as there are any -/
  multipliers : Grammar → Parser Grammar
  /-- further terms up to a closing bracket or the end, each with the combinator before it -/
  moreTerms : Parser (List (Combinator × Grammar))
  /-- a bracketed group -/
  group : Parser Grammar

namespace Procedures

/-- A term with its multipliers. -/
def term (P : Procedures) : Parser Grammar := do
  let primary ← primaryWith P.group
  P.multipliers primary

/-- The contents of a group. -/
def contents (P : Procedures) (bracketed : Bool) : Parser Grammar := do
  let head ← P.term
  let tail ← P.moreTerms
  return Row.toGroup ⟨head, tail⟩ bracketed

/-- A whole definition, up to the end of the text. -/
def definition (P : Procedures) : Parser Grammar := do
  skipSpaces
  let g ← P.contents false
  skipSpaces
  match ← peek with
  | some _ => throw "Unexpected input"
  | none => return unwrap g

/-- The bodies of the procedures: wherever they call each other, or themselves to go round a loop
once more, they call the given ones. -/
def unrolled (P : Procedures) : Procedures where
  multipliers t := fun cur =>
    match multiplier t cur with
    | (.ok wrapped, cur') => P.multipliers wrapped cur'
    | (.error (.thrown m o), cur') => (.error (.thrown m o), cur')
    | (.error (.backtrack _ _), _) => (.ok t, cur)
  moreTerms := do
    skipSpaces
    match ← peek with
    | none => return []
    | some ']' => return []
    | some _ =>
      let c ← combinator
      skipSpaces
      let t ← P.term
      let ts ← P.moreTerms
      return (c, t) :: ts
  group := do
    let _ ← char '['
    skipSpaces
    match ← peek with
    | some ']' => throw "Empty group"
    | _ =>
      let g ← P.contents true
      skipSpaces
      require ']' "Expected `]`"
      match ← peek with
      | some '!' =>
        skip 1
        return markNonEmpty g
      | _ => return g

/-- Up to `k` calls deep the procedures do what the reader does, with any bounds that are large
enough: a call of `group` or `multipliers` and one of `moreTerms` for every character ahead. -/
structure Reaches (P : Procedures) (k : Nat) : Prop where
  multipliers : ∀ t c fuel, 2 * c.rest.length < k → c.rest.length < fuel →
    P.multipliers t c = Read.multipliers fuel t c
  group : ∀ c depth, 2 * c.rest.length < k → c.rest.length < depth →
    P.group c = groupWithin depth c
  moreTerms : ∀ c nested fuel, 2 * c.rest.length + 1 < k → c.rest.length < fuel →
    (∀ c', c'.rest.length ≤ c.rest.length → P.group c' = nested c') →
    P.moreTerms c = Read.moreTerms (termWith nested) fuel c

namespace Reaches

variable {P : Procedures} {k : Nat}

/-- A term that was read lies behind. -/
theorem primaryWith_ahead (h : P.Reaches k) {c c' : Cursor} {g : Grammar}
    (hk : 2 * c.rest.length < k) (hg : primaryWith P.group c = (.ok g, c')) :
    c'.rest.length < c.rest.length := by
  have hbound := primaryWith_congr (h.group c _ hk (Nat.lt_succ_self c.rest.length))
  rw [hbound] at hg
  exact Nat.lt_of_succ_le (primaryWith_takes (groupWithin_takes _) c g c' hg).length_le

theorem term_eq (h : P.Reaches k) {c : Cursor} {nested : Parser Grammar}
    (hk : 2 * c.rest.length < k) (hn : P.group c = nested c) : P.term c = termWith nested c := by
  refine AgreeAt.bind (primaryWith_congr hn) fun g c' hg => ?_
  rw [← primaryWith_congr hn] at hg
  have hlt := h.primaryWith_ahead hk hg
  exact h.multipliers g c' _ (by omega) (Nat.lt_succ_self _)

theorem term_ahead (h : P.Reaches k) {c c' : Cursor} {g : Grammar}
    (hk : 2 * c.rest.length < k) (hg : P.term c = (.ok g, c')) :
    c'.rest.length < c.rest.length := by
  rw [h.term_eq hk (h.group c _ hk (Nat.lt_succ_self c.rest.length))] at hg
  exact Nat.lt_of_succ_le (termWith_takes (groupWithin_takes _) c g c' hg).length_le

theorem contents_eq (h : P.Reaches k) {c : Cursor} {nested : Parser Grammar} {bracketed : Bool}
    (hk : 2 * c.rest.length < k)
    (hn : ∀ c', c'.rest.length ≤ c.rest.length → P.group c' = nested c') :
    P.contents bracketed c = contentsWith nested bracketed c := by
  have hterm := h.term_eq hk (hn c le_rfl)
  refine AgreeAt.bind hterm fun head c' hhead => ?_
  rw [← hterm] at hhead
  have hlt := h.term_ahead hk hhead
  refine AgreeAt.bind ?_ fun _ _ _ => .refl _ _
  exact h.moreTerms c' nested _ (by omega) (Nat.lt_succ_self _) fun c'' hle => hn c'' (by omega)

/-- No call is made where nothing is unrolled. -/
theorem zero (P : Procedures) : P.Reaches 0 :=
  ⟨fun _ _ _ h => absurd h (Nat.not_lt_zero _), fun _ _ h => absurd h (Nat.not_lt_zero _),
    fun _ _ _ h => absurd h (Nat.not_lt_zero _)⟩

/-- Every multiplier lies behind when the next one is looked for. -/
theorem multipliers_unrolled (h : P.Reaches k) {t : Grammar} {c : Cursor} {fuel : Nat}
    (hk : 2 * c.rest.length < k + 1) (hfuel : c.rest.length < fuel) :
    P.unrolled.multipliers t c = Read.multipliers fuel t c := by
  obtain ⟨fuel, rfl⟩ := Nat.exists_eq_succ_of_ne_zero (Nat.ne_zero_of_lt hfuel)
  simp only [unrolled, Read.multipliers]
  rcases hw : multiplier t c with ⟨(_ | _) | wrapped, c'⟩
  · rfl
  · rfl
  · have hlt := (multiplier_takes t c wrapped c' hw).length_le
    exact h.multipliers wrapped c' fuel (by omega) (by omega)

/-- The opening bracket of a group lies behind when its contents are read. -/
theorem group_unrolled (h : P.Reaches k) {c : Cursor} {depth : Nat}
    (hk : 2 * c.rest.length < k + 1) (hdepth : c.rest.length < depth) :
    P.unrolled.group c = groupWithin depth c := by
  obtain ⟨depth, rfl⟩ := Nat.exists_eq_succ_of_ne_zero (Nat.ne_zero_of_lt hdepth)
  refine AgreeAt.after fun x c₁ hx => AgreeAt.after fun _ c₂ hspaces => AgreeAt.peek ?_
  have hlt := ((takes_char '[' c x c₁ hx).trans (takes_skipSpaces c₁ _ c₂ hspaces)).length_le
  by_cases hclose : c₂.rest.head? = some ']'
  · rw [hclose]
    exact .refl _ _
  · have hcontents : P.contents true c₂ = contentsWith (groupWithin depth) true c₂ :=
      h.contents_eq (by omega) fun c' hle => h.group c' depth (by omega) (by omega)
    -- both bodies look at the next character, and neither finds the end of the group
    repeat' split
    all_goals first
      | contradiction
      | exact AgreeAt.bind hcontents fun _ _ _ => .refl _ _

/-- Each further term lies behind when the next one is looked for. -/
theorem moreTerms_unrolled (h : P.Reaches k) {c : Cursor} {nested : Parser Grammar} {fuel : Nat}
    (hk : 2 * c.rest.length + 1 < k + 1) (hfuel : c.rest.length < fuel)
    (hn : ∀ c', c'.rest.length ≤ c.rest.length → P.unrolled.group c' = nested c') :
    P.unrolled.moreTerms c = Read.moreTerms (termWith nested) fuel c := by
  obtain ⟨fuel, rfl⟩ := Nat.exists_eq_succ_of_ne_zero (Nat.ne_zero_of_lt hfuel)
  -- one unrolling more or less does not matter to the groups ahead
  have hgroup : ∀ c', c'.rest.length ≤ c.rest.length → P.group c' = nested c' := by
    intro c' hle
    rw [← hn c' hle, h.group_unrolled (by omega) (Nat.lt_succ_self _)]
    exact h.group c' _ (by omega) (Nat.lt_succ_self _)
  -- a term that follows, and the terms after it
  have hmore : ∀ c₁, c₁.rest.length ≤ c.rest.length → AgreeAt c₁
      (do
        let comb ← combinator
        skipSpaces
        let t ← P.term
        return (comb, t) :: (← P.moreTerms))
      (do
        let comb ← combinator
        skipSpaces
        let t ← termWith nested
        return (comb, t) :: (← Read.moreTerms (termWith nested) fuel)) := by
    intro c₁ hle₁
    refine AgreeAt.after fun comb c₃ hcomb => AgreeAt.after fun _ c₄ hspaces' => ?_
    have hle := ((combinator_takes c₁ comb c₃ hcomb).trans
      (takes_skipSpaces c₃ _ c₄ hspaces')).length_le
    have hterm := h.term_eq (c := c₄) (by omega) (hgroup c₄ (by omega))
    refine AgreeAt.bind hterm fun t c₅ ht => ?_
    rw [← hterm] at ht
    have hlt := h.term_ahead (by omega) ht
    refine AgreeAt.bind ?_ fun _ _ _ => .refl _ _
    exact h.moreTerms c₅ nested fuel (by omega) (by omega) fun c' hle' => hgroup c' (by omega)
  refine AgreeAt.after fun _ c₁ hspaces => AgreeAt.peek ?_
  have hle := (takes_skipSpaces c _ c₁ hspaces).length_le
  cases hhead : c₁.rest.head? with
  | none => exact .refl _ _
  | some x =>
      by_cases hx : x = ']'
      · subst hx
        exact .refl _ _
      · repeat' split
        all_goals first
          | exact absurd (Option.some.inj ‹_›) hx
          | contradiction
          | exact hmore c₁ (by omega)

/-- Unrolling once more reaches one call further. -/
theorem unrolled (h : P.Reaches k) : P.unrolled.Reaches (k + 1) where
  multipliers _ _ _ hk hfuel := h.multipliers_unrolled hk hfuel
  group _ _ hk hdepth := h.group_unrolled hk hdepth
  moreTerms _ _ _ hk hfuel hn := h.moreTerms_unrolled hk hfuel hn

/-- Unrolling `k` times reaches `k` calls, whatever stands beneath. -/
theorem iterate (P : Procedures) (k : Nat) : (Procedures.unrolled^[k] P).Reaches k := by
  induction k with
  | zero => exact .zero P
  | succ k ih =>
      rw [Function.iterate_succ_apply']
      exact ih.unrolled

theorem definition_eq (h : P.Reaches k) {c : Cursor} (hk : 2 * c.rest.length < k) :
    P.definition c = Read.definition c := by
  refine AgreeAt.after fun _ c₁ hspaces => AgreeAt.bind ?_ fun _ _ _ => .refl _ _
  have hle := (takes_skipSpaces c _ c₁ hspaces).length_le
  refine h.contents_eq (by omega) fun c' hle' => ?_
  exact h.group c' _ (by omega) (Nat.lt_succ_self _)

end Reaches

/-- **A definition is read in a number of nested calls bounded by the length of the text**: unrolled
so often, the procedures give the reader's answer, whatever is called beneath them. -/
theorem definition_unrolled (P : Procedures) (text : List Char) :
    (unrolled^[2 * text.length + 1] P).definition (Cursor.start text) =
      Read.definition (Cursor.start text) :=
  (Reaches.iterate P _).definition_eq (Nat.lt_succ_self _)

end Procedures

end Read

end ValueGrammar

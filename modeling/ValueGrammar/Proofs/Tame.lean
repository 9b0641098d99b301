import ValueGrammar.Proofs.States

/-!
# `ValueGrammar.Proofs.Tame` — the states of compiled grammars

Not every state is one that a grammar is compiled to. In a compiled grammar the check that a token was
taken comes after something else, repetitions without a limit make this check each time, a group in any
order has no more terms than fit into a set, and the references are those of the grammar. A machine that
starts with such a state, and whose references lead to such states, never gets to any other.

## Contents
- `State.Tame`, `Compiler.tame_compile`: the states of every grammar that can be compiled.
- `Else.Tame`, `Machine.Leads.tame`: every path of a run.
-/

namespace ValueGrammar

/-! ## States -/

/-- The check that a token was taken only comes after something else, every repetition without a limit
makes it each time, groups in any order fit into a set, and `p` holds of the references. -/
inductive State.Tame (p : Reference → Prop) : State → Prop where
  | accept : Tame p .accept
  | reject : Tame p .reject
  | cond {test next other} (ht : Tame p test) (hn : Tame p next) (ho : Tame p other) :
      Tame p (.cond test next other)
  | checked {test other} (ht : Tame p test) (ho : Tame p other) :
      Tame p (.cond test .nonEmpty other)
  | loop {term sep} (h : Tame p term) : Tame p (.loop (.cond term .nonEmpty .reject) sep)
  | again {term sep} (h : Tame p term) : Tame p (.again (.cond term .nonEmpty .reject) sep)
  | enum {table} (h : ∀ entry ∈ table, Tame p entry.2) : Tame p (.enum table)
  | once {terms all node} (hlen : terms.length ≤ 64) (h : ∀ s ∈ terms, Tame p s) :
      Tame p (.once terms all node)
  | leaf {l node} : Tame p (.leaf l node)
  | call {r range node} (h : p r) : Tame p (.call r range node)

namespace State

variable {p : Reference → Prop} {s test next other : State}

theorem Tame.ne_nonEmpty (h : s.Tame p) : s ≠ .nonEmpty := by
  rintro rfl
  cases h

/-- A conditional whose second part may be the check that a token was taken. -/
theorem Tame.cond_of_next (ht : test.Tame p) (hn : next = .nonEmpty ∨ next.Tame p)
    (ho : other.Tame p) : (State.cond test next other).Tame p := by
  rcases hn with rfl | hn
  · exact .checked ht ho
  · exact .cond ht hn ho

theorem Tame.parts (h : s.Tame p) (hb : s.branch? = some (test, next, other)) :
    test.Tame p ∧ (next = .nonEmpty ∨ next.Tame p) ∧ other.Tame p := by
  cases h with
  | cond ht hn ho =>
      cases hb
      exact ⟨ht, .inr hn, ho⟩
  | checked ht ho =>
      cases hb
      exact ⟨ht, .inl rfl, ho⟩
  | loop h =>
      cases hb
      exact ⟨.checked h .reject, .inr (.again h), .reject⟩
  | @again term sep h =>
      cases sep with
      | none =>
          cases hb
          exact ⟨.accept, .inr .accept, .loop h⟩
      | some node =>
          cases hb
          exact ⟨.accept, .inr .accept, .cond .leaf (.loop h) .reject⟩
  | _ => cases hb

theorem Tame.branch (ht : test.Tame p) (hn : next.Tame p) (ho : other.Tame p) :
    (State.branch test next other).Tame p := by
  unfold State.branch
  split
  · exact ht
  · split
    · exact ht
    · split
      · split
        · rename_i hb
          split
          · exact .cond_of_next (ht.parts hb).1 (ht.parts hb).2.1 ho
          · exact .cond ht hn ho
        · exact .cond ht hn ho
      · exact .cond ht hn ho

/-- A compiler builds tame states of tame states. -/
theorem built_tame : State.Built (State.Tame p) where
  accept := .accept
  reject := .reject
  branch := .branch
  checked h := .checked h .reject
  loop := .loop
  comma := .leaf
  enum := .enum
  once := .once

/-- A machine takes tame states out of tame states. -/
theorem kept_tame : State.Kept (State.Tame p) where
  accept := .accept
  reject := .reject
  parts := Tame.parts
  enum h := by
    cases h with
    | enum htable => exact htable
  once h := by
    cases h with
    | once _ hterms => exact hterms

end State

/-! ## Compiled grammars -/

namespace Compiler

variable {p : Reference → Prop} {fold : Bool}

/-- **The states of every grammar that can be compiled are tame**, whether it was read or made by
hand. -/
theorem tame_compile (g : Grammar) {s : State} (hp : ∀ r ∈ g.references, p r)
    (hs : (standard fold).compile g = .ok s) : s.Tame p := by
  refine State.built_tame.compile g (fun n hn hterm s hs => ?_) hs
  have href : ∀ r, n.reference? = some r → p r := fun r hr =>
    hp r (List.mem_filterMap.mpr ⟨n, hn, hr⟩)
  cases n with
  | group | multiplier => exact hterm.elim
  | type | property =>
      cases hs
      exact .call (href _ rfl)
  | _ =>
      cases hs
      exact .leaf

end Compiler

/-! ## Paths -/

/-- What a path looks at is tame. -/
def Focus.Tame (p : Reference → Prop) : Focus → Prop
  | .state s => s.Tame p
  | .choose terms _ _ _ _ => ∀ s ∈ terms, s.Tame p
  | .resume terms _ _ _ => ∀ s ∈ terms, s.Tame p

/-- What a path looks at is tame, and so is everything it comes back to but for checks that a token
was taken. -/
structure Else.Tame (p : Reference → Prop) (e : Else) : Prop where
  next : e.next.Tame p
  thens : ∀ t ∈ e.thens, t.next = .state .nonEmpty ∨ t.next.Tame p

theorem Else.tame_iff {p : Reference → Prop} {e : Else} : e.Tame p ↔ e.Keeps (State.Tame p) := by
  have hfocus : ∀ f : Focus, f.Tame p ↔ f.Keeps (State.Tame p) := fun f => by cases f <;> exact .rfl
  constructor
  · exact fun h => ⟨(hfocus _).mp h.next, fun t ht => (h.thens t ht).imp_right (hfocus _).mp⟩
  · exact fun h => ⟨(hfocus _).mpr h.next, fun t ht => (h.thens t ht).imp_right (hfocus _).mpr⟩

theorem Else.Tame.state {p : Reference → Prop} {e : Else} {s : State} (h : e.Tame p)
    (hf : e.next = .state s) : s.Tame p := (Else.tame_iff.mp h).state hf

namespace Machine

variable {ε : Type} {m : Machine ε} {p : Reference → Prop}

/-- **Every path of a run is tame**, if it starts with a tame state and references lead to tame
states. -/
theorem Leads.tame {root : State} {c : Config} (h : m.Leads (.start root) c) (hroot : root.Tame p)
    (hroots : ∀ r root, m.resolve r = .ok (some root) → root.Tame p) : ∀ q ∈ c.paths, q.Tame p :=
  fun q hq => Else.tame_iff.mpr (h.keeps State.kept_tame hroot hroots q hq)

end Machine

end ValueGrammar

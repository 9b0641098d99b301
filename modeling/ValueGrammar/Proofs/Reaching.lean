import ValueGrammar.Proofs.References
import ValueGrammar.Proofs.Termination

/-!
# `ValueGrammar.Proofs.Reaching` — the names a value depends on

A grammar mentions names, the grammars of these mention others, and so on. Whether tokens are a value of
the grammar depends on nothing but what the names that are reached in this way stand for: all the others
may as well stand for nothing.

## Contents
- `Grammar.Reaches`: the names that are reached from a grammar.
- `Derives.of_same`: a derivation looks at no other names.
- `Grammar.within`, `Grammar.derives_within`: the names that are not reached stand for nothing.
-/

namespace ValueGrammar

open Relation

variable {env env' : Reference → Option Meaning} {ts : List Token} {o : Option Range} {i j : Nat}
  {g g' : Grammar} {r r' : Reference}

/-! ## Names -/

namespace Grammar

/-- The grammar refers to the name, directly or through the grammars of other names. -/
def Reaches (env : Reference → Option Meaning) (g : Grammar) (r : Reference) : Prop :=
  ∃ r₀ ∈ g.references, ReflTransGen (Refers env) r₀ r

theorem Reaches.of_mentions (h : g.Mentions r) : g.Reaches env r :=
  ⟨r, mem_references_iff.mpr h, .refl⟩

theorem Reaches.refers (h : g.Reaches env r) (hr : env r = some (.grammar g'))
    (h' : g'.Mentions r') : g.Reaches env r' := by
  obtain ⟨r₀, hr₀, hpath⟩ := h
  exact ⟨r₀, hr₀, hpath.tail ⟨g', hr, mem_references_iff.mpr h'⟩⟩

/-- A group mentions no less than one with fewer terms. -/
theorem Mentions.group_mono {c c' : Combinator} {terms terms' : List Grammar} {b b' n n' : Bool}
    (hterms : ∀ t ∈ terms, t ∈ terms') (h : (Grammar.group c terms b n).Mentions r) :
    (Grammar.group c' terms' b' n').Mentions r := by
  cases h with
  | group ht h => exact .group (hterms _ ht) h

/-- Repetitions mention what the repeated grammar does; the commas between them mention nothing. -/
theorem Mentions.of_spread {separated : Bool} {t : Grammar} {k : Nat}
    (h : (row (spread (separator separated) t k)).Mentions r) : t.Mentions r := by
  cases h with
  | group hmem h =>
      induction k using spread.induct with
      | case1 => cases hmem
      | case2 =>
          rw [List.mem_singleton.mp hmem] at h
          exact h
      | case3 k ih =>
          rw [spread, List.mem_cons, List.mem_append] at hmem
          rcases hmem with rfl | hsep | hmem
          · exact h
          · cases separated with
            | false => cases hsep
            | true =>
                rw [List.mem_singleton.mp hsep] at h
                cases h
          · exact ih hmem

theorem Mentions.of_someOf {t : Grammar} (h : (someOf t).Mentions r) : t.Mentions r := by
  cases h with
  | group hmem h =>
      rw [List.mem_singleton.mp hmem] at h
      exact h

end Grammar

/-! ## Derivations -/

/-- **A derivation looks at no names but those that are reached**: it is one wherever these stand for
the same. `p` holds of the names the grammar mentions, and of those the grammars of such names do. The
induction is on the derivation, and goes on at the grammar of a reference. -/
theorem Derives.of_same {p : Reference → Prop}
    (hclosed : ∀ r g, p r → env r = some (.grammar g) → ∀ r', g.Mentions r' → p r')
    (hsame : ∀ r meaning, p r → env r = some meaning → env' r = some meaning)
    (h : Derives env ts g o i j) (hp : ∀ r, g.Mentions r → p r) : Derives env' ts g o i j := by
  induction h with
  | rowNil => exact .rowNil
  | rowCons _ _ iht ihs =>
      refine .rowCons (iht fun r hr => hp r (.group List.mem_cons_self hr)) (ihs fun r hr => ?_)
      exact hp r (hr.group_mono fun _ ht => List.mem_cons_of_mem _ ht)
  | one hm _ ih => exact .one hm (ih fun r hr => hp r (.group hm hr))
  | all hperm _ ih =>
      exact .all hperm (ih fun r hr => hp r (hr.group_mono fun _ ht => hperm.mem_iff.mp ht))
  | any hsub hne _ ih =>
      exact .any hsub hne (ih fun r hr => hp r (hr.group_mono fun _ ht => hsub.subset ht))
  | nonEmpty hlt _ ih => exact .nonEmpty hlt (ih fun r hr => hp r (hr.group_mono fun _ ht => ht))
  | bounded hmin hmax _ ih => exact .bounded hmin hmax (ih fun r hr => hp r (.multiplier hr.of_spread))
  | unbounded hmin _ ih =>
      exact .unbounded hmin (ih fun r hr => hp r (.multiplier hr.of_spread.of_someOf))
  | unboundedNone => exact .unboundedNone
  | keyword ht h => exact .keyword ht h
  | atKeyword ht h => exact .atKeyword ht h
  | function ht h => exact .function ht h
  | token ht h => exact .token ht h
  | character hv ht h => exact .character hv ht h
  | string hv hn h => exact .string hv hn h
  | comma ht hk hs he => exact .comma ht hk hs he
  | noComma hk h => exact .noComma hk h
  | type he _ ih =>
      have hname := hp _ .type
      exact .type (hsame _ _ hname he) (ih (hclosed _ _ hname he))
  | generic he h hpos => exact .generic (hsame _ _ (hp _ .type) he) h hpos
  | property he _ ih =>
      have hname := hp _ .property
      exact .property (hsame _ _ hname he) (ih (hclosed _ _ hname he))

/-- Names that stand for more derive more. -/
theorem Derives.mono (hsub : ∀ r meaning, env r = some meaning → env' r = some meaning)
    (h : Derives env ts g o i j) : Derives env' ts g o i j :=
  h.of_same (p := fun _ => True) (fun _ _ _ _ _ _ => trivial) (fun r meaning _ => hsub r meaning)
    fun _ _ => trivial

/-- An alternative that is found wherever names stand for more is found. -/
theorem Grammar.Findable.anti (hsub : ∀ r meaning, env r = some meaning → env' r = some meaning)
    (h : g.Findable env' ts) : g.Findable env ts :=
  fun terms b n hm key t ht o i j hd => h terms b n hm key t ht o i j (hd.mono hsub)

namespace Grammar

open Classical in
/-- What the names that are reached from the grammar stand for; the others stand for nothing. -/
noncomputable def within (env : Reference → Option Meaning) (g : Grammar) :
    Reference → Option Meaning :=
  fun r => if g.Reaches env r then env r else none

theorem within_of_reaches (h : g.Reaches env r) : g.within env r = env r := if_pos h

theorem reaches_of_within {meaning : Meaning} (h : g.within env r = some meaning) :
    g.Reaches env r ∧ env r = some meaning := by
  unfold within at h
  split at h
  · rename_i hreach
    exact ⟨hreach, h⟩
  · cases h

/-- **Values do not depend on names that are not reached.** -/
theorem derives_within : Derives (g.within env) ts g o i j ↔ Derives env ts g o i j := by
  constructor
  · exact fun h => h.mono fun _ _ he => (reaches_of_within he).2
  · intro h
    refine h.of_same (p := g.Reaches env) (fun _ _ hr he _ hmentions => hr.refers he hmentions)
      (fun r meaning hr he => ?_) fun _ hr => .of_mentions hr
    rw [within_of_reaches hr, he]

end Grammar

end ValueGrammar

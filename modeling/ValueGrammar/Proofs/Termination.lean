import ValueGrammar.Proofs.Machine.Halting
import ValueGrammar.Proofs.Meaning
import ValueGrammar.Proofs.Tame
import Mathlib.Data.Set.Card

/-!
# `ValueGrammar.Proofs.Termination` — without recursive names every match has an answer

The states of a compiled grammar are such that every search through them comes to an end, as long as
looking at the references does: where there is no limit to the repetitions each of them takes a token,
and a group in any order has no more terms than fit into a set. A dictionary has finitely many names,
so that references come to an end too if none of them leads back to itself.

## Contents
- `Machine.settles_of_tame`: a search through tame states comes to an end.
- `Refers`, `Grammar.NotRecursive`, `acc_refers`: what names refer to.
- `Dictionary.Means.settles`: looking at a name comes to an end.
- `Matcher.answers_of_notRecursive`: every match has an answer, given enough steps.
-/

namespace ValueGrammar

open Relation

/-! ## States -/

/-- Looking at such a state comes to an end, if looking at what its references stand for does. -/
theorem Machine.settles_of_tame {ε : Type} {m : Machine ε} {p : Reference → Prop} {s : State}
    (h : s.Tame p)
    (hp : ∀ r, p r → ∀ root, m.resolve r = .ok (some root) → ∀ i, m.Settles (.state root) i)
    (i : Nat) : m.Settles (.state s) i := by
  induction h generalizing i with
  | accept => exact settles_accept
  | reject => exact settles_reject
  | cond _ _ _ iht ihn iho => exact settles_cond rfl (iht i) (ihn i) (iho i)
  | checked _ _ iht iho => exact settles_cond rfl (iht i) settles_nonEmpty (iho i)
  | loop _ ih => exact settles_loop ih
  | again _ ih => exact settles_again (settles_loop ih)
  | enum _ ih => exact settles_enum fun entry he => ih entry he i
  | once hlen _ ih => exact settles_once (settles_choose hlen (fun s hs => ih s hs i) _ _)
  | leaf => exact settles_leaf
  | call h => exact settles_call fun root hroot => hp _ h root hroot i

/-! ## References -/

/-- The grammar of one name refers to another name. -/
def Refers (env : Reference → Option Meaning) (r r' : Reference) : Prop :=
  ∃ g, env r = some (.grammar g) ∧ r' ∈ g.references

/-- None of the names that a grammar refers to, directly or through other names, refers to itself in
this way. -/
def Grammar.NotRecursive (env : Reference → Option Meaning) (g : Grammar) : Prop :=
  ∀ r₀ ∈ g.references, ∀ r, ReflTransGen (Refers env) r₀ r → ¬ TransGen (Refers env) r r

/-- A dictionary has finitely many names. -/
theorem Dictionary.Means.finite {p : Settings → Prop} {d : Dictionary}
    {env : Reference → Option Meaning} (h : d.Means p env) : {r | env r ≠ none}.Finite := by
  have hupdate : ∀ (env : Reference → Option Meaning) r meaning, {r | env r ≠ none}.Finite →
      {r' | Function.update env r (some meaning) r' ≠ none}.Finite := by
    intro env r meaning hfin
    refine (hfin.insert r).subset fun r' hr' => ?_
    by_cases he : r' = r
    · exact .inl he
    · exact .inr fun hnone => hr' (by rw [Function.update_of_ne he, hnone])
  induction h with
  | empty => simp
  | add _ _ _ ih => exact hupdate _ _ _ ih
  | addGeneric _ ih => exact hupdate _ _ _ ih
  | touch _ _ ih => exact ih

/-- Following references comes to an end where no name leads back to itself: what can still be reached
from a name is less than what can be reached from the one before it. -/
theorem acc_refers {env : Reference → Option Meaning} (hfin : {r | env r ≠ none}.Finite)
    {r : Reference}
    (h : ∀ x, ReflTransGen (Refers env) r x → ¬ TransGen (Refers env) x x) :
    Acc (fun r' r => Refers env r r') r := by
  generalize hn : {x | env x ≠ none ∧ ReflTransGen (Refers env) r x}.ncard = n
  induction n using Nat.strong_induction_on generalizing r with
  | _ n ih =>
      subst hn
      refine ⟨_, fun r' hr' => ih _ ?_ (fun x hx => h x (.head hr' hx)) rfl⟩
      have hname : env r ≠ none := by
        obtain ⟨g, hg, -⟩ := hr'
        rw [hg]
        exact Option.some_ne_none _
      refine Set.ncard_lt_ncard ⟨fun x hx => ⟨hx.1, .head hr' hx.2⟩, fun hsub => ?_⟩
        (hfin.subset fun x hx => hx.1)
      -- the name itself cannot be reached any more
      exact h r .refl (TransGen.head' hr' (hsub ⟨hname, .refl⟩).2)

/-- Looking at what a name stands for comes to an end if following its references does. -/
theorem Dictionary.Means.settles {p : Settings → Prop} {d : Dictionary}
    {env : Reference → Option Meaning} {settings : Settings} {m : Machine Error}
    (hm : m.resolve = d.roots settings) (hd : d.Means p env) (hp : p settings) {r : Reference}
    (hr : Acc (fun r' r => Refers env r r') r) :
    ∀ root, m.resolve r = .ok (some root) → ∀ i, m.Settles (.state root) i := by
  induction hr with
  | intro r _ ih =>
      intro root hroot i
      rw [hm] at hroot
      obtain ⟨graph, hgraph, rfl⟩ := roots_ok hroot
      rcases hd.resolve hp hgraph with ⟨g, fold, he, -, -, hc⟩ | ⟨name, count, -, -, rfl⟩
      · refine Machine.settles_of_tame (Compiler.tame_compile g (fun r' hr' => hr') hc) ?_ i
        exact fun r' hr' => ih r' ⟨g, he, hr'⟩
      · exact Machine.settles_leaf

/-! ## Matches -/

namespace Matcher

variable {compiling : Settings} {d : Dictionary} {env : Reference → Option Meaning}
  {label : String} {g : Grammar} {graph : Graph}

theorem runWith_eq (m : Matcher) (settings : Settings) (d : Dictionary) (tokens : List Token)
    (g : Graph) :
    m.runWith settings d tokens g =
      ((m.result tokens g.grammar (m.search settings d tokens g)).mapError Error.ofMachine,
        (m.search settings d tokens g).final.lookups.reverse.foldl (Dictionary.touch settings) d) :=
  rfl

/-- **Without recursive names every match has an answer.** For a grammar that can be compiled, whether
it was read or made by hand, and a dictionary in which no name that can be reached from it refers to
itself, there is a number of steps from which on every limit gives the same answer: the tokens match,
they do not, or there is an error. -/
theorem answers_of_notRecursive (hd : d.Means (fun _ => True) env)
    (hc : Graph.ofGrammar compiling label g = .ok graph) (hg : g.NotRecursive env)
    (matching : Settings) (lowPriority : Bool) (sees : Token → Bool) (tokens : List Token) :
    ∃ (n : Int) (answer : Except Error MatchResult × Dictionary),
      (∀ r, answer.1 = .ok r → r.reason = .matched ∨ r.reason = .mismatched) ∧
        ∀ limit, n ≤ limit → runWith ⟨limit, lowPriority, sees⟩ matching d tokens graph = answer := by
  obtain ⟨fold, -, hroot, -⟩ := Graph.ofGrammar_ok hc
  have hsettles : (machine ⟨0, lowPriority, sees⟩ tokens (d.roots matching)).Settles
      (.state graph.root) 0 := by
    refine Machine.settles_of_tame (Compiler.tame_compile g (fun r hr => hr) hroot) ?_ 0
    exact fun r hr => Dictionary.Means.settles rfl hd trivial (acc_refers hd.finite (hg r hr))
  obtain ⟨n, hn⟩ := Machine.runFrom_of_acc (Machine.acc_steps_of_settles hsettles)
  have hsame : ∀ limit : Int, n ≤ limit →
      search ⟨limit, lowPriority, sees⟩ matching d tokens graph =
        search ⟨n, lowPriority, sees⟩ matching d tokens graph := by
    intro limit hle
    exact (hn limit.toNat (by omega) 0).1
  refine ⟨n, runWith ⟨n, lowPriority, sees⟩ matching d tokens graph, fun r hr => ?_,
    fun limit hle => ?_⟩
  · have houtcome := outcome_search (congrArg (Except.map MatchResult.reason) hr)
    have hne := (hn n (Nat.le_refl n) 0).2
    change (search ⟨n, lowPriority, sees⟩ matching d tokens graph).outcome ≠ _ at hne
    rw [houtcome] at hne
    cases hreason : r.reason with
    | matched => exact .inl rfl
    | mismatched => exact .inr rfl
    | limited => rw [hreason] at hne; exact absurd rfl hne
  · rw [runWith_eq, hsame limit hle]
    rfl

/-- The grammar `[ <f>? ]*`. -/
def optionalGrammar : Grammar :=
  .row [.multiplier
    (.group .juxtapose [.multiplier (.type "f" none) 0 (some 1) false] true false) 0 none false]

/-- The type `<f>` is `<custom-ident> | y`, and `<custom-ident>` is a generic type. -/
def optionalMeaning : Reference → Option Meaning :=
  Function.update (Function.update (fun _ => none) ⟨.type, "custom-ident"⟩
    (some (.recognizer Recognizer.customIdent))) ⟨.type, "f"⟩
    (some (.grammar (.group .one [.type "custom-ident" none, .keyword "y"] false false)))

theorem refers_optional {r r' : Reference} (h : Refers optionalMeaning r r') :
    r = ⟨.type, "f"⟩ ∧ r' = ⟨.type, "custom-ident"⟩ := by
  obtain ⟨g, hg, hr'⟩ := h
  unfold optionalMeaning at hg
  by_cases hf : r = ⟨.type, "f"⟩
  · subst hf
    rw [Function.update_self] at hg
    cases hg
    exact ⟨rfl, List.mem_singleton.mp hr'⟩
  · rw [Function.update_of_ne hf] at hg
    by_cases hi : r = ⟨.type, "custom-ident"⟩
    · subst hi
      rw [Function.update_self] at hg
      cases hg
    · rw [Function.update_of_ne hi] at hg
      cases hg

theorem notRecursive_optional : optionalGrammar.NotRecursive optionalMeaning := by
  intro _ _ r _ hcycle
  obtain ⟨x, hfirst, -⟩ := TransGen.head'_iff.mp hcycle
  obtain ⟨y, -, hlast⟩ := TransGen.tail'_iff.mp hcycle
  have he := (refers_optional hfirst).1.symm.trans (refers_optional hlast).2
  exact absurd he (by decide)

/-- Repetitions of a term that may match nothing, and a type that is put off. -/
theorem answers_of_notRecursive_optional :
    ∃ d, d.Means (fun _ => True) optionalMeaning ∧
      Graph.ofGrammar .standard "[ <f>? ]*" optionalGrammar =
        .ok (foldedGraph "[ <f>? ]*" optionalGrammar) ∧
      optionalGrammar.NotRecursive optionalMeaning ∧
      ∃ (n : Int) (answer : Except Error MatchResult × Dictionary),
        (∀ r, answer.1 = .ok r → r.reason = .matched ∨ r.reason = .mismatched) ∧
          ∀ limit, n ≤ limit →
            runWith ⟨limit, true, Token.isSignificant⟩ .standard d
              [⟨.ident, "x", none⟩, ⟨.comma, ",", none⟩]
              (foldedGraph "[ <f>? ]*" optionalGrammar) = answer := by
  have hparse : Grammar.parse "<custom-ident> | y" =
      .ok (.group .one [.type "custom-ident" none, .keyword "y"] false false) := rfl
  have hd : Dictionary.Means (fun _ => True) _ optionalMeaning :=
    .add (.addGeneric .empty) hparse (r := ⟨.type, "f"⟩) rfl
  have hc : Graph.ofGrammar .standard "[ <f>? ]*" optionalGrammar =
      .ok (foldedGraph "[ <f>? ]*" optionalGrammar) := rfl
  exact ⟨_, hd, hc, notRecursive_optional, answers_of_notRecursive hd hc notRecursive_optional
    .standard true Token.isSignificant _⟩

end Matcher

end ValueGrammar

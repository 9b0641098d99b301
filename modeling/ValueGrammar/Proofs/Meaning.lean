import ValueGrammar.Dictionary
import ValueGrammar.Proofs.Compilation
import ValueGrammar.Proofs.Machine.Search
import Mathlib.Logic.Function.Basic

/-!
# `ValueGrammar.Proofs.Meaning` — what the names of a dictionary stand for

A dictionary is made by adding grammars and generic types, and changes when an entry is compiled on
its first look-up, with whatever settings hold at that moment. None of this changes what the names
stand for: the grammars they were given. A reference that is resolved leads to a state that matches
only values of its grammar, and all of them unless a table does not find one.

## Contents
- `Dictionary.Means`: a dictionary made in any way, and what its names stand for.
- `Definition.Stands`, `Dictionary.Means.find?`: what is known about an entry.
- `Dictionary.Means.sound`, `Dictionary.Means.complete`: what references match.
- `Completes`, `Matcher.outcome_search`: how a match of a list of tokens ends.
-/

namespace ValueGrammar

/-- The dictionary was made by additions and look-ups, where `p` holds of the settings of every
look-up, and `env` is what its names stand for. -/
inductive Dictionary.Means (p : Settings → Prop) :
    Dictionary → (Reference → Option Meaning) → Prop where
  | empty : Means p .empty fun _ => none
  | add {d d' env r source g} (h : Means p d env) (hg : Grammar.parse source = .ok g)
      (hd : d.add r source = .ok d') : Means p d' (Function.update env r (some (.grammar g)))
  | addGeneric {d env name count} (h : Means p d env) :
      Means p (d.addGeneric name count)
        (Function.update env ⟨.type, name⟩ (some (.recognizer count)))
  | touch {d env settings r} (h : Means p d env) (hp : p settings) :
      Means p (d.touch settings r) env

/-! ## Entries -/

theorem Dictionary.find?_put (d : Dictionary) (r r' : Reference) (e : Definition) :
    (d.put r e).find? r' = if r' = r then some e else d.find? r' := by
  obtain ⟨kind, name⟩ := r
  obtain ⟨kind', name'⟩ := r'
  cases kind <;> cases kind' <;> simp [put, find?, entries]

/-- Some of the settings say whether alternatives are folded into tables. -/
def Folds (p : Settings → Prop) (fold : Bool) : Prop :=
  ∃ s, p s ∧ s.requireBool Settings.enumFolding = .ok fold

theorem Graph.ofGrammar_ok {s : Settings} {source : String} {g : Grammar} {graph : Graph}
    (h : Graph.ofGrammar s source g = .ok graph) :
    ∃ fold, s.requireBool Settings.enumFolding = .ok fold ∧
      (Compiler.standard fold).compile g = .ok graph.root ∧ graph.grammar = g := by
  unfold Graph.ofGrammar at h
  cases hf : s.requireBool Settings.enumFolding with
  | error e => rw [hf] at h; cases h
  | ok fold =>
      rw [hf] at h
      refine ⟨fold, rfl, ?_⟩
      simp only [bind, Except.bind, Graph.compile] at h
      cases hc : (Compiler.standard fold).compile g with
      | error e => rw [hc] at h; cases h
      | ok root =>
          rw [hc] at h
          cases h
          exact ⟨rfl, rfl⟩

/-- What is known about the entry of a reference that stands for `meaning`. -/
def Definition.Stands (p : Settings → Prop) (r : Reference) (e : Definition)
    (meaning : Option Meaning) : Prop :=
  (meaning = some (.grammar e.grammar) ∧ e.grammar.WellFormed ∧ ∀ graph, e.compiled = .built graph →
    ∃ fold, Folds p fold ∧ (Compiler.standard fold).compile e.grammar = .ok graph.root) ∨
  ∃ name count, r = ⟨.type, name⟩ ∧ meaning = some (.recognizer count) ∧
    e.compiled = .built (Graph.ofRecognition name count)

/-- Compiling an entry on its first look-up keeps what is known about it. -/
theorem Definition.Stands.touch {p : Settings → Prop} {r : Reference} {e : Definition}
    {meaning : Option Meaning} {settings : Settings} (h : e.Stands p r meaning) (hp : p settings) :
    (e.touch settings).Stands p r meaning := by
  unfold Definition.touch
  split
  · rename_i hc
    rcases h with ⟨hm, hw, -⟩ | ⟨name, count, -, -, hb⟩
    · refine .inl ⟨hm, hw, fun graph hb => ?_⟩
      simp only at hb
      split at hb
      · rename_i graph' hg
        cases hb
        obtain ⟨fold, hf, hroot, -⟩ := Graph.ofGrammar_ok hg
        exact ⟨fold, ⟨settings, hp, hf⟩, hroot⟩
      · split at hb <;> cases hb
    · rw [hc] at hb
      cases hb
  · exact h

namespace Dictionary

variable {p : Settings → Prop} {d : Dictionary} {env : Reference → Option Meaning}

theorem add_ok {d' : Dictionary} {r : Reference} {source : String} {g : Grammar}
    (hg : Grammar.parse source = .ok g) (h : d.add r source = .ok d') :
    d' = d.put r ⟨g, source, .pending⟩ := by
  unfold add Definition.ofText at h
  rw [hg] at h
  cases h
  rfl

/-- **Every entry of a dictionary** stands for the grammar or the generic type it was made of, in
whatever order entries were added, replaced and looked up. -/
theorem Means.find? (h : d.Means p env) (r : Reference) :
    match d.find? r with
    | none => env r = none
    | some e => e.Stands p r (env r) := by
  induction h with
  | empty =>
      obtain ⟨kind, name⟩ := r
      cases kind <;> rfl
  | @add d d' env r' source g _ hg hd ih =>
      rw [add_ok hg hd, find?_put]
      by_cases hr : r = r'
      · subst hr
        rw [if_pos rfl, Function.update_self]
        exact .inl ⟨rfl, Grammar.wellFormed_of_parse hg, fun _ hb => by (cases hb)⟩
      · rw [if_neg hr, Function.update_of_ne hr]
        exact ih
  | @addGeneric d env name count _ ih =>
      rw [Dictionary.addGeneric, find?_put]
      by_cases hr : r = ⟨.type, name⟩
      · subst hr
        rw [if_pos rfl, Function.update_self]
        exact .inr ⟨name, count, rfl, rfl, rfl⟩
      · rw [if_neg hr, Function.update_of_ne hr]
        exact ih
  | @touch d env settings r' _ hp ih =>
      -- a look-up changes how far an entry is compiled, but not its grammar
      cases he : d.find? r' with
      | none =>
          simp only [Dictionary.touch, he]
          exact ih
      | some e =>
          simp only [Dictionary.touch, he, find?_put]
          by_cases hr : r = r'
          · subst hr
            rw [if_pos rfl]
            rw [he] at ih
            exact Definition.Stands.touch ih hp
          · rw [if_neg hr]
            exact ih

/-- The entry of a name that stands for a grammar. -/
theorem Means.find?_of_grammar (h : d.Means p env) {r : Reference} {g : Grammar}
    (he : env r = some (.grammar g)) : ∃ e, d.find? r = some e ∧ e.grammar = g ∧ g.WellFormed := by
  have hentry := h.find? r
  cases hfind : d.find? r with
  | none =>
      rw [hfind, he] at hentry
      cases hentry
  | some e =>
      rw [hfind, he] at hentry
      rcases hentry with ⟨hm, hw, -⟩ | ⟨_, _, -, hm, -⟩
      · cases hm
        exact ⟨e, rfl, rfl, hw⟩
      · cases hm

theorem Means.find?_eq_none (h : d.Means p env) {r : Reference} (he : env r = none) :
    d.find? r = none := by
  have hentry := h.find? r
  cases hfind : d.find? r with
  | none => rfl
  | some e =>
      rw [hfind, he] at hentry
      rcases hentry with ⟨hm, -, -⟩ | ⟨_, _, -, hm, -⟩
      · cases hm
      · cases hm

/-- What a reference that is resolved leads to. -/
theorem Means.resolve (h : d.Means p env) {settings : Settings} (hp : p settings) {r : Reference}
    {graph : Graph} (hr : d.resolve settings r = .ok (some graph)) :
    (∃ g fold, env r = some (.grammar g) ∧ g.WellFormed ∧ Folds p fold ∧
      (Compiler.standard fold).compile g = .ok graph.root) ∨
    ∃ name count, r = ⟨.type, name⟩ ∧ env r = some (.recognizer count) ∧
      graph = Graph.ofRecognition name count := by
  have hentry := h.find? r
  unfold Dictionary.resolve at hr
  split at hr
  · rename_i e he
    rw [he] at hentry
    unfold Definition.resolve at hr
    rcases hentry with ⟨hm, hw, hbuilt⟩ | ⟨name, count, hname, hm, hb⟩
    · refine .inl ⟨e.grammar, ?_⟩
      split at hr
      · -- compiled now, with the settings of this look-up
        cases hg : Graph.ofGrammar settings e.source e.grammar with
        | error err => rw [hg] at hr; cases hr
        | ok graph' =>
            rw [hg] at hr
            cases hr
            obtain ⟨fold, hf, hroot, -⟩ := Graph.ofGrammar_ok hg
            exact ⟨fold, hm, hw, ⟨settings, hp, hf⟩, hroot⟩
      · -- compiled before, with the settings of that time
        rename_i graph' hc
        cases hr
        obtain ⟨fold, hf, hroot⟩ := hbuilt graph hc
        exact ⟨fold, hm, hw, hf, hroot⟩
      · cases hr
      · cases hr
    · rw [hb] at hr
      cases hr
      exact .inr ⟨name, count, hname, hm, rfl⟩
  · cases hr

end Dictionary

/-! ## Machines over a dictionary -/

theorem accepts_generic_iff {env : Reference → Option Meaning} {ts : List Token} {name : String}
    {count : Recognition} {o : Option Range} {i j : Nat}
    (he : env ⟨.type, name⟩ = some (.recognizer count)) :
    Accepts (Derives.calls env ts) ts (.state (Graph.ofRecognition name count).root) o i j ↔
      Derives.calls env ts ⟨.type, name⟩ o i j := by
  rw [calls_recognizer_iff he]
  unfold Graph.ofRecognition
  rw [accepts_leaf_iff]
  simp only [Leaf.take, Prod.mk.injEq, decide_eq_true_eq, List.length_drop]
  constructor
  · rintro ⟨n, ⟨rfl, hpos⟩, rfl⟩; exact ⟨hpos, rfl⟩
  · rintro ⟨hpos, rfl⟩; exact ⟨_, ⟨rfl, hpos⟩, rfl⟩

namespace Dictionary

variable {p : Settings → Prop} {d : Dictionary} {env : Reference → Option Meaning}
  {settings : Settings}

/-- What references stand for in the machines that match with a dictionary. -/
def roots (d : Dictionary) (settings : Settings) (r : Reference) : Except Error (Option State) :=
  (d.resolve settings r).map (Option.map Graph.root)

/-- Looking the reference up leads to the grammar compiled with tables, which was done before, or is
done now. `p` holds of the settings it can have been done with. -/
def FoldedAt (d : Dictionary) (p : Settings → Prop) (settings : Settings) (r : Reference)
    (g : Grammar) : Prop :=
  Folds p true ∧ d.roots settings r = .ok (some ((Compiler.standard true).stateOf g))

theorem roots_ok {r : Reference} {root : State} (h : d.roots settings r = .ok (some root)) :
    ∃ graph, d.resolve settings r = .ok (some graph) ∧ graph.root = root := by
  unfold roots at h
  cases hr : d.resolve settings r with
  | error e => rw [hr] at h; cases h
  | ok found =>
      rw [hr] at h
      cases found with
      | none => cases h
      | some graph => cases h; exact ⟨graph, rfl, rfl⟩

variable {m : Machine Error} (hr : m.resolve = d.roots settings) (h : d.Means p env)
  (hp : p settings)

include hr h hp

/-- **What a reference leads to matches only values of what it stands for.** -/
theorem Means.sound : m.Sound (Derives.calls env m.tokens) := by
  intro r root hroot o i j ha
  rw [hr] at hroot
  obtain ⟨graph, hgraph, rfl⟩ := roots_ok hroot
  rcases h.resolve hp hgraph with ⟨g, fold, he, hw, -, hc⟩ | ⟨name, count, rfl, he, rfl⟩
  · rw [calls_grammar_iff he]
    exact (Compiler.faithful_compile hw hc).sound o i j ha
  · exact (accepts_generic_iff he).mp ha

/-- **What a reference leads to matches all values of what it stands for**, if the tables that were
made for it find them. Some of the names may be taken to stand for nothing. -/
theorem Means.complete {env' : Reference → Option Meaning}
    (hsub : ∀ r meaning, env' r = some meaning → env r = some meaning)
    (hfind : ∀ r g, env' r = some (.grammar g) → d.FoldedAt p settings r g →
      g.Findable env' m.tokens) :
    m.Complete (Derives.calls env' m.tokens) := by
  intro r root hroot o i j ha
  rw [hr] at hroot
  obtain ⟨graph, hgraph, rfl⟩ := roots_ok hroot
  cases he' : env' r with
  | none => exact absurd ha (not_calls_of_eq_none he')
  | some meaning =>
      have he := hsub r meaning he'
      rcases h.resolve hp hgraph with ⟨g, fold, hg, hw, hf, hc⟩ | ⟨name, count, rfl, hg, rfl⟩
      · rw [he] at hg
        cases hg
        rw [calls_grammar_iff he'] at ha
        refine (Compiler.faithful_compile hw hc).complete (fun hfold => ?_) o i j ha
        subst hfold
        refine hfind r g he' ⟨hf, ?_⟩
        rw [hroot, Compiler.stateOf_eq hc]
      · rw [he] at hg
        cases hg
        exact (accepts_generic_iff he').mpr ha

end Dictionary

/-! ## Matches of a list of tokens -/

/-- A grammar compiled with tables. -/
def foldedGraph (source : String) (g : Grammar) : Graph :=
  ⟨source, g, (Compiler.standard true).stateOf g⟩

/-- The outcome of a run that a result reports. -/
def Reason.outcome {ε : Type} : Reason → Machine.Outcome ε
  | .matched => .matched
  | .mismatched => .mismatched
  | .limited => .limited

/-- The run of the machine behind a match. -/
def Matcher.search (m : Matcher) (settings : Settings) (d : Dictionary) (tokens : List Token)
    (g : Graph) : Machine.Run Error :=
  (m.machine tokens (d.roots settings)).run m.limit.toNat g.root

/-- A match that gives a result reports the outcome of the run. -/
theorem Matcher.outcome_search {m : Matcher} {settings : Settings} {d : Dictionary}
    {tokens : List Token} {g : Graph} {reason : Reason}
    (h : (m.runWith settings d tokens g).1.map MatchResult.reason = .ok reason) :
    (m.search settings d tokens g).outcome = reason.outcome := by
  change ((m.result tokens g.grammar (m.search settings d tokens g)).mapError
    Error.ofMachine).map MatchResult.reason = _ at h
  unfold Matcher.result at h
  cases ho : (m.search settings d tokens g).outcome with
  | matched | mismatched | limited => rw [ho] at h; cases h; rfl
  | failed e => rw [ho] at h; cases h

/-- The tokens are used up at place `j`, or all but a last one that is a suffix for old browsers. -/
def Completes (ts : List Token) (j : Nat) : Prop :=
  j = ts.length ∨ ∃ t, ts.drop j = [t] ∧ (t.value = "\\0" ∨ t.value = "\\9")

theorem completes_iff {ts : List Token} {j : Nat} (hj : j ≤ ts.length) :
    Completes ts j ↔ endsAt ts j = true := by
  unfold Completes endsAt
  cases hd : ts.drop j with
  | nil =>
      have hlen : ts.length ≤ j := List.drop_eq_nil_iff.mp hd
      simp [Nat.le_antisymm hj hlen]
  | cons t rest =>
      have hlt : j < ts.length := by
        refine Nat.lt_of_not_le fun hle => ?_
        rw [List.drop_eq_nil_iff.mpr hle] at hd
        cases hd
      cases rest with
      | nil => simp [Nat.ne_of_lt hlt]
      | cons u rest => simp [Nat.ne_of_lt hlt]

end ValueGrammar

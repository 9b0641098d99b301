import ValueGrammar.Proofs.Folding.Opening

/-!
# `ValueGrammar.Proofs.Lookups` — references that a table leaves alone

Where alternatives are tried in turn each of them is looked up, and the first one that leads nowhere
ends the match. A type in a table is looked up only where the token is the function it is named after.
So a table may leave a type alone that does not exist, and a match goes on that would have ended. This
is all that is left out: as long as a type that is named after a function opens with this function, any
other reference that leads nowhere is found with tables and without.

## Contents
- `Grammar.WellNamed`: names are ASCII, and types named after functions open with them.
- `Grammar.Offers`, `Grammar.LeavesAlone`: types in a table, and those that need not exist.
- `Matcher.agree_or_leavesAlone`: answers with tables and without.
- `Matcher.reference_of_folding`: errors about references with tables and without.
-/

namespace ValueGrammar

/-- The settings say that alternatives are not folded into tables. -/
def Settings.FoldsNothing (s : Settings) : Prop := s.requireBool Settings.enumFolding = .ok false

namespace Grammar

/-- Names of keywords and functions are ASCII, and an alternative that is a type named after a function
does not exist or opens with this function. -/
structure WellNamed (env : Reference → Option Meaning) (g : Grammar) : Prop where
  keywords : ∀ name, Grammar.keyword name ∈ g.nodes → Text.IsAscii name
  functions : g.AsciiFunctions
  types : ∀ terms b n, Grammar.group .one terms b n ∈ g.nodes → ∀ name range f,
    Grammar.type name range ∈ terms → Compiler.functionTypeName? name = some f →
      env ⟨.type, name⟩ = none ∨ (Grammar.type name range).Opens env (Text.lower f)

/-- The reference is to a type named after a function, which is an alternative. -/
def Offers (g : Grammar) (r : Reference) : Prop :=
  ∃ terms b n name range, Grammar.group .one terms b n ∈ g.nodes ∧ Grammar.type name range ∈ terms ∧
    (Compiler.functionTypeName? name).isSome ∧ r = ⟨.type, name⟩

/-- The reference leads nowhere, and it is to such an alternative, of the grammar or of one in the
dictionary. -/
def LeavesAlone (env : Reference → Option Meaning) (g : Grammar) (r : Reference) : Prop :=
  env r = none ∧ (g.Offers r ∨ ∃ r' g', env r' = some (.grammar g') ∧ g'.Offers r)

variable {env : Reference → Option Meaning} {m : Machine Error} {p : Reference → Prop} {g : Grammar}

/-- Alternatives with a key fail in place where they are not found under it. -/
theorem WellNamed.tabulates (h : g.WellNamed env) (hw : g.WellFormed)
    (hm : ∀ r, m.resolve r = r.root false (env r)) (hts : ∀ t ∈ m.tokens, Text.IsAscii t.value)
    (henv : ∀ r g, env r = some (.grammar g) → g.WellFormed ∧ g.AsciiFunctions)
    (hp : ∀ r, env r = none → g.Offers r → p r) : g.Tabulates (m.FoundUnder p) := by
  intro terms b n hnode t ht key s hk hs
  have hmem : t ∈ g.nodes := mem_nodes_trans hnode (mem_nodes_group ht (self_mem_nodes t))
  by_cases htype : ∃ name range, t = .type name range
  · obtain ⟨name, range, rfl⟩ := htype
    obtain ⟨f, hf, rfl⟩ := Option.map_eq_some_iff.mp hk
    intro i hkey
    rcases h.types terms b n hnode name range f ht hf with hnone | hopens
    · cases hs
      have hoffers : g.Offers ⟨.type, name⟩ :=
        ⟨terms, b, n, name, range, hnode, ht, by rw [hf]; rfl, rfl⟩
      exact .missing (by rw [hm, hnone]; rfl) (hp _ hnone hoffers)
    · exact hopens.dies hm hts henv .type (fun _ hm => by cases List.mem_singleton.mp hm) hs hkey
  · push Not at htype
    refine ((hw.of_mem_nodes hmem).leafUnder hts ?_ htype hk hs).foundUnder
    rintro name (rfl | rfl)
    · exact h.keywords name hmem
    · exact h.functions name hmem

end Grammar

namespace Dictionary

variable {d d' : Dictionary} {env : Reference → Option Meaning} {s s' : Settings}

/-- A dictionary that was never compiled with tables. -/
theorem Means.roots_eq (h : d.Means Settings.FoldsNothing env) (hs : s.FoldsNothing) (r : Reference) :
    d.roots s r = r.root false (env r) := by
  obtain ⟨fold, rfl, hroot⟩ := h.exists_roots_eq_of (q := fun fold => fold = false)
    (fun _ hs => ⟨false, hs, rfl⟩) hs r
  exact hroot

end Dictionary

/-! ## Matches -/

namespace Matcher

variable {d d' : Dictionary} {env : Reference → Option Meaning} {s s' : Settings} {fold : Bool}
  {source : String} {g : Grammar} {tokens : List Token}

/-- A match that fails for a reference reports it. -/
theorem result_of_unresolved {m : Matcher} {run : Machine.Run Error} {r : Reference}
    (h : run.outcome = .failed (.unresolved r)) :
    (m.result tokens g run).mapError Error.ofMachine = .error (.reference r) := by
  rw [result, h]
  rfl

/-- **The answers with tables and without are the same**, unless the match without tables fails for a
reference that a table leaves alone. -/
theorem agree_or_leavesAlone (m : Matcher) (hd : d.Means Settings.SaysFolding env)
    (hd' : d'.Means Settings.FoldsNothing env)
    (henv : ∀ r g, env r = some (.grammar g) → g.WellNamed env)
    (hg : Grammar.parse source = .ok g) (hn : g.WellNamed env)
    (htokens : ∀ t ∈ tokens, Text.IsAscii t.value)
    (hs : s.requireBool Settings.enumFolding = .ok fold) (hs' : s'.FoldsNothing)
    (hlimit : ∀ r, m.answer s d source tokens = .ok r → r.reason ≠ .limited)
    (hlimit' : ∀ r, m.answer s' d' source tokens = .ok r → r.reason ≠ .limited) :
    Agree MatchResult.Same (m.answer s d source tokens) (m.answer s' d' source tokens) ∨
      ∃ r, g.LeavesAlone env r ∧ m.answer s' d' source tokens = .error (.reference r) := by
  have hw : g.WellFormed := Grammar.wellFormed_of_parse hg
  have hseen : ∀ t ∈ tokens.filter m.sees, Text.IsAscii t.value :=
    fun t ht => htokens t (List.mem_of_mem_filter ht)
  have hresolve : ∀ r, d'.roots s' r = r.root false (env r) := hd'.roots_eq hs'
  have hgrammars : ∀ r g, env r = some (.grammar g) → g.WellFormed ∧ g.AsciiFunctions :=
    fun r g he => ⟨hd.wellFormed he, (henv r g he).functions⟩
  -- the tables of the grammar and those of the dictionary
  have htables : g.Tabulates ((m.machine tokens (d'.roots s')).FoundUnder (g.LeavesAlone env)) :=
    hn.tabulates hw hresolve hseen hgrammars fun r hnone ho => ⟨hnone, .inl ho⟩
  have hroots : ∀ r g', env r = some (.grammar g') →
      g'.Tabulates ((m.machine tokens (d'.roots s')).FoundUnder (g.LeavesAlone env)) :=
    fun r g' he => (henv r g' he).tabulates (hd.wellFormed he) hresolve hseen hgrammars
      fun r' hnone ho => ⟨hnone, .inr ⟨r, g', he, ho⟩⟩
  have hmachine : (m.machine tokens (d.roots s)).Spreads (g.LeavesAlone env)
      (m.machine tokens (d'.roots s')) := by
    refine ⟨rfl, rfl, fun r => ?_⟩
    change Agree _ (d.roots s r) (d'.roots s' r)
    rw [hresolve]
    exact hd.agree_roots ⟨fold, hs⟩ hroots r
  have hagree : Agree (State.Spreads _) ((Compiler.standard fold).compile g)
      ((Compiler.standard false).compile g) := Compiler.spreads_compile hw htables
  cases hc' : (Compiler.standard false).compile g with
  | error e =>
      rw [hc'] at hagree
      rw [answer_eq_of_compile_error hg hs hagree.eq_error, answer_eq_of_compile_error hg hs' hc']
      exact .inl .error
  | ok root' =>
      rw [hc'] at hagree
      obtain ⟨root, hc, hroot⟩ := hagree.exists_ok
      have ha := answer_eq_of_compile hg hs hc m d tokens
      have ha' := answer_eq_of_compile hg hs' hc' m d' tokens
      rw [ha, ha']
      rcases hmachine.alike_or_unresolved hroot (outcome_ne_limited ha hlimit)
        (outcome_ne_limited ha' hlimit') with halike | ⟨r, hr, hfailed⟩
      · exact .inl (agree_result halike m tokens g)
      · exact .inr ⟨r, hr, result_of_unresolved hfailed⟩

/-- **A table hides an error about a reference only if it leaves the reference alone.** For a grammar
that can be read and a dictionary of such grammars, in which names are ASCII and types named after
functions open with these functions if they exist, and for tokens that are ASCII: where a match with
tables fails for a reference, so does the match without any; where the match without fails for a
reference, the match with tables fails for the same one, unless this is an alternative that is named
after a function and does not exist. The settings that entries of the dictionary were looked up with
before are those of a compiler with tables or without on the one side, and without on the other. -/
theorem reference_of_folding (m : Matcher) (hd : d.Means Settings.SaysFolding env)
    (hd' : d'.Means Settings.FoldsNothing env)
    (henv : ∀ r g, env r = some (.grammar g) → g.WellNamed env)
    (hg : Grammar.parse source = .ok g) (hn : g.WellNamed env)
    (htokens : ∀ t ∈ tokens, Text.IsAscii t.value)
    (hs : s.requireBool Settings.enumFolding = .ok fold) (hs' : s'.FoldsNothing)
    (hlimit : ∀ r, m.answer s d source tokens = .ok r → r.reason ≠ .limited)
    (hlimit' : ∀ r, m.answer s' d' source tokens = .ok r → r.reason ≠ .limited) :
    (∀ r, m.answer s d source tokens = .error (.reference r) →
      ∃ r', (r' = r ∨ g.LeavesAlone env r') ∧ m.answer s' d' source tokens = .error (.reference r')) ∧
    (∀ r, m.answer s' d' source tokens = .error (.reference r) →
      m.answer s d source tokens = .error (.reference r) ∨ g.LeavesAlone env r) := by
  rcases agree_or_leavesAlone m hd hd' henv hg hn htokens hs hs' hlimit hlimit' with
    hagree | ⟨r', hr', hunfolded⟩
  · refine ⟨fun r hr => ⟨r, .inl rfl, ?_⟩, fun r hr => .inl ?_⟩
    · rw [hr] at hagree
      generalize m.answer s' d' source tokens = answer at hagree
      cases hagree
      rfl
    · rw [hr] at hagree
      exact hagree.eq_error
  · refine ⟨fun r _ => ⟨r', .inr hr', hunfolded⟩, fun r hr => .inr ?_⟩
    rw [hunfolded] at hr
    cases hr
    exact hr'

/-- A matcher of significant tokens. -/
def lookupMatcher : Matcher := ⟨1000, true, Token.isSignificant⟩

/-- The type `<g()>` is `f( )`. -/
def swappedDictionary : Dictionary :=
  Dictionary.empty.put ⟨.type, "g()"⟩ ⟨.row [.function "f", .token ")"], "f( )", .pending⟩

/-- None of the conditions can be left out. In `<f()> | y` a table leaves `<f()>` alone, which does not
exist; in `<g()> | <f()>` it leaves `<g()>` alone, which opens with another function; in `s | t | <u>` it
does not find the long s, which is an `s` up to case. -/
theorem folding_changes_references :
    ((answer lookupMatcher .standard .empty "<f()> | y" [⟨.ident, "y", none⟩]).toOption.map
        MatchResult.reason = some .matched ∧
      answer lookupMatcher withoutTables .empty "<f()> | y" [⟨.ident, "y", none⟩] =
        .error (.reference ⟨.type, "f()"⟩)) ∧
    (answer lookupMatcher .standard swappedDictionary "<g()> | <f()>"
        [⟨.function, "f(", none⟩, ⟨.rightParen, ")", none⟩] = .error (.reference ⟨.type, "f()"⟩) ∧
      (answer lookupMatcher withoutTables swappedDictionary "<g()> | <f()>"
        [⟨.function, "f(", none⟩, ⟨.rightParen, ")", none⟩]).toOption.map MatchResult.reason =
          some .matched) ∧
    (answer lookupMatcher .standard .empty "s | t | <u>" [⟨.ident, "ſ", none⟩] =
        .error (.reference ⟨.type, "u"⟩) ∧
      (answer lookupMatcher withoutTables .empty "s | t | <u>" [⟨.ident, "ſ", none⟩]).toOption.map
        MatchResult.reason = some .matched) := by
  refine ⟨⟨?_, ?_⟩, ⟨?_, ?_⟩, ?_, ?_⟩
  · decide +kernel
  · rfl
  · rfl
  · decide +kernel
  · rfl
  · decide +kernel

/-- The reference that a match failed for. -/
def unresolved? : Except Error MatchResult → Option Reference
  | .error (.reference r) => some r
  | _ => none

theorem eq_of_unresolved? {answer : Except Error MatchResult} {r : Reference}
    (h : unresolved? answer = some r) : answer = .error (.reference r) := by
  unfold unresolved? at h
  split at h
  · cases h
    rfl
  · cases h

/-- The grammar `<f()> | <g()> | <u>`. -/
def lazyGrammar : Grammar :=
  .group .one [.type "f()" none, .type "g()" none, .type "u" none] false false

/-- The type `<f()>` is `f( )`. -/
def lazyMeaning : Reference → Option Meaning :=
  Function.update (fun _ => none) ⟨.type, "f()"⟩
    (some (.grammar (.row [.function "f", .token ")"])))

/-- A dictionary with this type. -/
def lazyDictionary : Dictionary :=
  Dictionary.empty.put ⟨.type, "f()"⟩ ⟨.row [.function "f", .token ")"], "f( )", .pending⟩

theorem wellNamed_lazyMeaning (r : Reference) (g : Grammar)
    (h : lazyMeaning r = some (.grammar g)) : g.WellNamed lazyMeaning := by
  unfold lazyMeaning at h
  by_cases hr : r = ⟨.type, "f()"⟩
  · subst hr
    rw [Function.update_self] at h
    cases h
    refine ⟨fun name hm => ?_, fun name hm => ?_, fun terms b n hm => ?_⟩
    · simp [Grammar.nodes, Grammar.inspect, Grammar.inspectAll] at hm
    · obtain rfl : name = "f" := by
        simpa [Grammar.row, Grammar.nodes, Grammar.inspect, Grammar.inspectAll] using hm
      decide
    · simp [Grammar.nodes, Grammar.inspect, Grammar.inspectAll] at hm
  · rw [Function.update_of_ne hr] at h
    cases h

theorem wellNamed_lazyGrammar : lazyGrammar.WellNamed lazyMeaning := by
  refine ⟨fun name hm => ?_, fun name hm => ?_, fun terms b n hm name range f ht hf => ?_⟩
  · simp [lazyGrammar, Grammar.nodes, Grammar.inspect, Grammar.inspectAll] at hm
  · simp [lazyGrammar, Grammar.nodes, Grammar.inspect, Grammar.inspectAll] at hm
  · obtain ⟨rfl, -, -⟩ : terms = [.type "f()" none, .type "g()" none, .type "u" none] ∧ b = false ∧
        n = false := by
      simpa [lazyGrammar, Grammar.nodes, Grammar.inspect, Grammar.inspectAll] using hm
    simp only [List.mem_cons, Grammar.type.injEq, List.not_mem_nil, or_false] at ht
    rcases ht with ⟨rfl, rfl⟩ | ⟨rfl, rfl⟩ | ⟨rfl, rfl⟩
    · right
      obtain rfl : f = "f(" := Option.some.inj (hf.symm.trans rfl)
      exact .type (by decide) (Function.update_self _ _ _) rfl (.row (.function (by decide +kernel)))
    · exact .inl rfl
    · exact .inl rfl

/-- At `y` a match with tables comes to `<u>`. It leaves `<g()>` alone, which the match without fails
for, having found that `<f()>` opens with its function. -/
theorem reference_of_folding_lazy :
    answer lookupMatcher .standard lazyDictionary "<f()> | <g()> | <u>" [⟨.ident, "y", none⟩] =
        .error (.reference ⟨.type, "u"⟩) ∧
      (∃ r', (r' = ⟨.type, "u"⟩ ∨ lazyGrammar.LeavesAlone lazyMeaning r') ∧
        answer lookupMatcher withoutTables lazyDictionary "<f()> | <g()> | <u>"
          [⟨.ident, "y", none⟩] = .error (.reference r')) ∧
      answer lookupMatcher withoutTables lazyDictionary "<f()> | <g()> | <u>"
          [⟨.ident, "y", none⟩] = .error (.reference ⟨.type, "g()"⟩) ∧
      lazyGrammar.LeavesAlone lazyMeaning ⟨.type, "g()"⟩ := by
  have hon : answer lookupMatcher .standard lazyDictionary "<f()> | <g()> | <u>"
      [⟨.ident, "y", none⟩] = .error (.reference ⟨.type, "u"⟩) :=
    eq_of_unresolved? (by decide +kernel)
  have hoff : answer lookupMatcher withoutTables lazyDictionary "<f()> | <g()> | <u>"
      [⟨.ident, "y", none⟩] = .error (.reference ⟨.type, "g()"⟩) :=
    eq_of_unresolved? (by decide +kernel)
  have hf : Grammar.parse "f( )" = .ok (.row [.function "f", .token ")"]) := rfl
  have hg : Grammar.parse "<f()> | <g()> | <u>" = .ok lazyGrammar := rfl
  have hd : lazyDictionary.Means Settings.SaysFolding lazyMeaning :=
    .add .empty hf (r := ⟨.type, "f()"⟩) rfl
  have hd' : lazyDictionary.Means Settings.FoldsNothing lazyMeaning :=
    .add .empty hf (r := ⟨.type, "f()"⟩) rfl
  have htokens : ∀ t ∈ [(⟨.ident, "y", none⟩ : Token)], Text.IsAscii t.value := by decide +kernel
  have hs : Settings.requireBool .standard Settings.enumFolding = .ok true := rfl
  have hs' : withoutTables.FoldsNothing := rfl
  have hends : ∀ {e : Error} {a : Except Error MatchResult}, a = .error e →
      ∀ r, a = .ok r → r.reason ≠ .limited := by
    rintro e a rfl r hr
    cases hr
  obtain ⟨hfolded, hunfolded⟩ := reference_of_folding lookupMatcher hd hd' wellNamed_lazyMeaning hg
    wellNamed_lazyGrammar htokens hs hs' (hends hon) (hends hoff)
  refine ⟨hon, hfolded _ hon, hoff, (hunfolded _ hoff).resolve_left fun h => ?_⟩
  rw [hon] at h
  exact absurd (Error.reference.inj (Except.error.inj h)) (by decide)

end Matcher

end ValueGrammar

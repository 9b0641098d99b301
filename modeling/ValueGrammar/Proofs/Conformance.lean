import ValueGrammar.Proofs.Reaching

/-!
# `ValueGrammar.Proofs.Conformance` — a match is a derivation

The two halves of what it means to match a list of tokens against a grammar. If the machine says that
the tokens match they are a value of the grammar, with every option of the compiler and of the
matcher. If it says that they do not, they are no value of it, provided that nothing was put off and
that the tables that were made find the alternatives that stand in them.

## Contents
- `Matcher.derives_of_matched`: tokens that match are a value of the grammar.
- `Matcher.not_derives_of_mismatched`: tokens that do not match are none.
- `Matcher.table_misses_value`: a table that does not find an alternative.
-/

namespace ValueGrammar

variable {m : Matcher} {compiling matching : Settings} {d : Dictionary}
  {env : Reference → Option Meaning} {tokens : List Token} {source label : String} {g : Grammar}
  {graph : Graph}

namespace Matcher

/-- **Tokens that match are a value of the grammar**: the significant ones are derived from it up to
the end, or up to a last one that is a suffix for old browsers. The dictionary may have been made
and looked up in any way, and the grammar compiled and matched with any settings. -/
theorem derives_of_matched (hd : d.Means (fun _ => True) env) (hg : Grammar.parse source = .ok g)
    (hc : Graph.ofGrammar compiling label g = .ok graph)
    (hm : (m.runWith matching d tokens graph).1.map MatchResult.reason = .ok .matched) :
    ∃ j, Derives env (tokens.filter m.sees) g none 0 j ∧ Completes (tokens.filter m.sees) j := by
  obtain ⟨j, ha, hend⟩ := Machine.accepts_of_run_matched
    (Dictionary.Means.sound rfl hd trivial) Derives.calls_forward (outcome_search hm)
  obtain ⟨fold, -, hroot, -⟩ := Graph.ofGrammar_ok hc
  have hder : Derives env (tokens.filter m.sees) g none 0 j :=
    (Compiler.faithful_compile (Grammar.wellFormed_of_parse hg) hroot).sound none 0 j ha
  exact ⟨j, hder, (completes_iff (hder.forward.2 (Nat.zero_le _))).mpr hend⟩

/-- The tokens of `a B, x`. -/
def listTokens : List Token :=
  [⟨.ident, "a", none⟩, ⟨.whitespace, " ", none⟩, ⟨.ident, "B", none⟩, ⟨.comma, ",", none⟩,
    ⟨.whitespace, " ", none⟩, ⟨.ident, "x", none⟩]

/-- The grammar `[ <f> | a b ]#`. -/
def listGrammar : Grammar :=
  .row [.multiplier
    (.group .one [.type "f" none, .row [.keyword "a", .keyword "b"]] true false) 1 none true]

/-- A list of alternatives, one of which is a reference. -/
theorem derives_of_matched_list :
    ∃ d env, d.Means (fun _ => True) env ∧
      Grammar.parse "[ <f> | a b ]#" = .ok listGrammar ∧
      Graph.ofGrammar .standard "[ <f> | a b ]#" listGrammar =
        .ok (foldedGraph "[ <f> | a b ]#" listGrammar) ∧
      (runWith ⟨1000, true, Token.isSignificant⟩ .standard d listTokens
        (foldedGraph "[ <f> | a b ]#" listGrammar)).1.map MatchResult.reason = .ok .matched ∧
      ∃ j, Derives env (listTokens.filter Token.isSignificant) listGrammar none 0 j ∧
        Completes (listTokens.filter Token.isSignificant) j := by
  have hd : Dictionary.Means (fun _ => True)
      (Dictionary.empty.put ⟨.type, "f"⟩ ⟨.row [.keyword "x"], "x", .pending⟩)
      (Function.update (fun _ => none) ⟨.type, "f"⟩ (some (.grammar (.row [.keyword "x"])))) :=
    .add .empty (by rfl : Grammar.parse "x" = _) rfl
  have hm : (runWith ⟨1000, true, Token.isSignificant⟩ .standard
      (Dictionary.empty.put ⟨.type, "f"⟩ ⟨.row [.keyword "x"], "x", .pending⟩) listTokens
      (foldedGraph "[ <f> | a b ]#" listGrammar)).1.map MatchResult.reason = .ok .matched := rfl
  have hg : Grammar.parse "[ <f> | a b ]#" = .ok listGrammar := rfl
  have hc : Graph.ofGrammar .standard "[ <f> | a b ]#" listGrammar =
      .ok (foldedGraph "[ <f> | a b ]#" listGrammar) := rfl
  exact ⟨_, _, hd, hg, hc, hm, derives_of_matched hd hg hc hm⟩

/-! ## Completeness -/

/-- **Tokens that do not match are no value of the grammar**, if nothing is put off and, where
alternatives were folded into tables, every value of an alternative in a table starts with its key
there. This is asked of the grammar only if it was compiled with tables, and of the grammars of the
names that it reaches only if they were or are now. `p` holds of the settings of all look-ups. -/
theorem not_derives_of_mismatched {p : Settings → Prop} (hlow : m.lowPriority = false)
    (hd : d.Means p env) (hmatching : p matching)
    (hg : Grammar.parse source = .ok g) (hc : Graph.ofGrammar compiling label g = .ok graph)
    (hfind : compiling.requireBool Settings.enumFolding = .ok true →
      g.Findable env (tokens.filter m.sees))
    (hnames : ∀ r g', g.Reaches env r → env r = some (.grammar g') → d.FoldedAt p matching r g' →
      g'.Findable env (tokens.filter m.sees))
    (hm : (m.runWith matching d tokens graph).1.map MatchResult.reason = .ok .mismatched) :
    ¬ ∃ j, Derives env (tokens.filter m.sees) g none 0 j ∧ Completes (tokens.filter m.sees) j := by
  rintro ⟨j, hder, hend⟩
  obtain ⟨fold, hfold, hroot, -⟩ := Graph.ofGrammar_ok hc
  -- names that are not reached may stand for nothing, and then nothing is asked of their tables
  have hsub : ∀ r meaning, g.within env r = some meaning → env r = some meaning :=
    fun _ _ h => (Grammar.reaches_of_within h).2
  have ha : Accepts (Derives.calls (g.within env) (tokens.filter m.sees)) (tokens.filter m.sees)
      (.state graph.root) none 0 j := by
    refine (Compiler.faithful_compile (Grammar.wellFormed_of_parse hg) hroot).complete
      (fun he => ?_) none 0 j (Grammar.derives_within.mpr hder)
    exact (hfind (he ▸ hfold)).anti hsub
  refine Machine.not_accepts_of_run_mismatched hlow
    (Dictionary.Means.complete rfl hd hmatching hsub fun r g' he hf => ?_) Derives.calls_forward
    (outcome_search hm) ⟨j, ha, ?_⟩
  · obtain ⟨hreach, he⟩ := Grammar.reaches_of_within he
    exact (hnames r g' hreach he hf).anti hsub
  · exact (completes_iff (hder.forward.2 (Nat.zero_le _))).mp hend

/-- The tokens `a c`. -/
def pairTokens : List Token := [⟨.ident, "a", none⟩, ⟨.ident, "c", none⟩]

/-- The grammar `a | b`. -/
def pairGrammar : Grammar := .group .one [.keyword "a", .keyword "b"] false false

/-- The grammar `<f()> | <g>`. Its first alternative has a key, but no neighbour to share a table
with. -/
def loneGrammar : Grammar := .group .one [.type "f()" none, .type "g" none] false false

/-- The type `<f()>` is `x`, and `<g>` is `a | b`. -/
def pairMeaning : Reference → Option Meaning :=
  Function.update (Function.update (fun _ => none) ⟨.type, "f()"⟩
    (some (.grammar (.row [.keyword "x"])))) ⟨.type, "g"⟩ (some (.grammar pairGrammar))

theorem findable_pair {env : Reference → Option Meaning} :
    pairGrammar.Findable env pairTokens := by
  intro terms b n hm key t ht o i j hder
  obtain ⟨rfl, -, -⟩ : terms = [.keyword "a", .keyword "b"] ∧ b = false ∧ n = false := by
    simpa [pairGrammar, Grammar.nodes, Grammar.inspect, Grammar.inspectAll] using hm
  have htabled : Compiler.tabled none [.keyword "a", .keyword "b"] =
      [("a", .keyword "a"), ("b", .keyword "b")] := rfl
  rw [htabled] at ht
  -- the only token a keyword of the group is equal to is the first one
  rcases List.mem_pair.mp ht with he | he
  · cases he
    cases hder with
    | keyword hget heq =>
        rcases i with _ | _ | i
        · exact ⟨_, rfl, rfl⟩
        · cases hget; exact absurd heq (by decide)
        · cases hget
  · cases he
    cases hder with
    | keyword hget heq =>
        rcases i with _ | _ | i
        · cases hget; exact absurd heq (by decide)
        · cases hget; exact absurd heq (by decide)
        · cases hget

/-- No alternative of the group stands in a table, so nothing has to be found. -/
theorem findable_lone {env : Reference → Option Meaning} {ts : List Token} :
    loneGrammar.Findable env ts := by
  intro terms b n hm key t ht
  obtain ⟨rfl, -, -⟩ : terms = [.type "f()" none, .type "g" none] ∧ b = false ∧ n = false := by
    simpa [loneGrammar, Grammar.nodes, Grammar.inspect, Grammar.inspectAll] using hm
  have htabled : Compiler.tabled none [.type "f()" none, .type "g" none] = [] := rfl
  rw [htabled] at ht
  cases ht

theorem findable_pairMeaning {r : Reference} {g : Grammar}
    (h : pairMeaning r = some (.grammar g)) : g.Findable pairMeaning pairTokens := by
  unfold pairMeaning at h
  by_cases hg : r = ⟨.type, "g"⟩
  · subst hg
    rw [Function.update_self] at h
    cases h
    exact findable_pair
  · rw [Function.update_of_ne hg] at h
    by_cases hf : r = ⟨.type, "f()"⟩
    · subst hf
      rw [Function.update_self] at h
      cases h
      -- a row has no alternatives
      intro terms b n hm
      simp [Grammar.nodes, Grammar.inspect, Grammar.inspectAll] at hm
    · rw [Function.update_of_ne hf] at h
      cases h

/-- Alternatives without a table, and a reference to two that are folded into one. -/
theorem not_derives_of_mismatched_pair :
    ∃ d, d.Means (· = Settings.standard) pairMeaning ∧
      Grammar.parse "<f()> | <g>" = .ok loneGrammar ∧
      Graph.ofGrammar .standard "<f()> | <g>" loneGrammar =
        .ok (foldedGraph "<f()> | <g>" loneGrammar) ∧
      d.FoldedAt (· = Settings.standard) .standard ⟨.type, "g"⟩ pairGrammar ∧
      loneGrammar.Findable pairMeaning (pairTokens.filter Token.isSignificant) ∧
      (∀ r g, pairMeaning r = some (.grammar g) →
        g.Findable pairMeaning (pairTokens.filter Token.isSignificant)) ∧
      (runWith ⟨1000, false, Token.isSignificant⟩ .standard d pairTokens
        (foldedGraph "<f()> | <g>" loneGrammar)).1.map MatchResult.reason = .ok .mismatched ∧
      ¬ ∃ j, Derives pairMeaning (pairTokens.filter Token.isSignificant) loneGrammar none 0 j ∧
        Completes (pairTokens.filter Token.isSignificant) j := by
  have hd : Dictionary.Means (· = Settings.standard)
      ((Dictionary.empty.put ⟨.type, "f()"⟩ ⟨.row [.keyword "x"], "x", .pending⟩).put
        ⟨.type, "g"⟩ ⟨pairGrammar, "a | b", .pending⟩) pairMeaning :=
    .add (.add .empty (by rfl : Grammar.parse "x" = _) rfl)
      (by rfl : Grammar.parse "a | b" = _) rfl
  have hg : Grammar.parse "<f()> | <g>" = .ok loneGrammar := rfl
  have hc : Graph.ofGrammar .standard "<f()> | <g>" loneGrammar =
      .ok (foldedGraph "<f()> | <g>" loneGrammar) := rfl
  have hm : (runWith ⟨1000, false, Token.isSignificant⟩ .standard
      ((Dictionary.empty.put ⟨.type, "f()"⟩ ⟨.row [.keyword "x"], "x", .pending⟩).put
        ⟨.type, "g"⟩ ⟨pairGrammar, "a | b", .pending⟩) pairTokens
      (foldedGraph "<f()> | <g>" loneGrammar)).1.map MatchResult.reason = .ok .mismatched := rfl
  refine ⟨_, hd, hg, hc, ⟨⟨.standard, rfl, rfl⟩, rfl⟩, findable_lone,
    fun _ _ h => findable_pairMeaning h, hm, ?_⟩
  refine not_derives_of_mismatched rfl hd rfl hg hc (fun _ => findable_lone) (fun _ _ _ h _ => ?_) hm
  exact findable_pairMeaning h

/-- The grammar `<f()> | y`. -/
def functionGrammar : Grammar := .group .one [.type "f()" none, .keyword "y"] false false

/-- A type that is looked up by the name of a function, but whose values are not functions: a table
does not find its value `x`, although nothing is put off. -/
theorem table_misses_value :
    ∃ d env, d.Means (· = Settings.standard) env ∧
      Grammar.parse "<f()> | y" = .ok functionGrammar ∧
      Graph.ofGrammar .standard "<f()> | y" functionGrammar =
        .ok (foldedGraph "<f()> | y" functionGrammar) ∧
      (runWith ⟨1000, false, Token.isSignificant⟩ .standard d [⟨.ident, "x", none⟩]
        (foldedGraph "<f()> | y" functionGrammar)).1.map MatchResult.reason = .ok .mismatched ∧
      Derives env [⟨.ident, "x", none⟩] functionGrammar none 0 1 ∧
      Completes [⟨.ident, "x", none⟩] 1 := by
  have hd : Dictionary.Means (· = Settings.standard)
      (Dictionary.empty.put ⟨.type, "f()"⟩ ⟨.row [.keyword "x"], "x", .pending⟩)
      (Function.update (fun _ => none) ⟨.type, "f()"⟩ (some (.grammar (.row [.keyword "x"])))) :=
    .add .empty (by rfl : Grammar.parse "x" = _) rfl
  refine ⟨_, _, hd, rfl, rfl, rfl, .one List.mem_cons_self ?_, .inl rfl⟩
  exact .type (Function.update_self ..) (.rowCons (.keyword rfl (by decide)) .rowNil)

end Matcher

end ValueGrammar

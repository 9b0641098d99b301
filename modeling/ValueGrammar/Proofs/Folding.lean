import ValueGrammar.Proofs.Folding.Simulation
import ValueGrammar.Proofs.Meaning

/-!
# `ValueGrammar.Proofs.Folding` — tables change nothing but the number of steps

Whether alternatives are folded into tables is a setting, and each entry of a dictionary is compiled
with the setting of its first look-up. A machine without any tables follows every such mixture, so that
all of them give the same answer.

## Contents
- `Compiler.tooManyTerms_of_compile`: the only error of a grammar that was read.
- `Reference.root`, `Dictionary.Means.exists_roots_eq`: what a reference leads to.
- `Dictionary.Means.unfolds`: machines over a dictionary, and the machine without tables.
- `Matcher.answer`, `MatchResult.Same`: what is compared.
- `Matcher.answer_same_of_folding`: the answer is the same with tables and without.
-/

namespace ValueGrammar

/-! ## Errors of a compiler -/

namespace Compiler

variable {fold : Bool} {e : CompileError}

theorem exists_of_compileAll_error {c : Compiler} {terms : List Grammar}
    (h : c.compileAll terms = .error e) : ∃ t ∈ terms, c.compile t = .error e := by
  induction terms with
  | nil =>
      rw [compileAll] at h
      cases h
  | cons t terms ih =>
      rw [compileAll] at h
      cases ht : c.compile t with
      | error e' =>
          rw [ht] at h
          cases h
          exact ⟨t, List.mem_cons_self, ht⟩
      | ok s =>
          rw [ht] at h
          cases hts : c.compileAll terms with
          | error e' =>
              rw [hts] at h
              cases h
              obtain ⟨t', ht', he⟩ := ih hts
              exact ⟨t', List.mem_cons_of_mem t ht', he⟩
          | ok pairs =>
              rw [hts] at h
              cases h

theorem tooManyTerms_of_grouped {c : Compiler} {node : Grammar} {combinator : Combinator}
    {terms : List (Grammar × State)} (hc : ∀ code, combinator ≠ .other code)
    (h : c.grouped node combinator terms = .error e) :
    ∃ group count combinator, e = .tooManyTerms group count combinator := by
  cases combinator with
  | juxtapose | one => cases h
  | other code => exact absurd rfl (hc code)
  | all | any =>
      simp only [grouped] at h
      split at h
      · cases h
      · split at h
        · cases h
          exact ⟨_, _, _, rfl⟩
        · cases h

/-- The only error of a grammar that was read is that a group has too many terms. The induction is on
the grammar. -/
theorem tooManyTerms_of_compile {c : Compiler} {g : Grammar} (hw : g.WellFormed)
    (h : c.compile g = .error e) :
    ∃ group count combinator, e = .tooManyTerms group count combinator := by
  induction hw with
  | @group combinator terms b n hc _ _ ih =>
      rw [compile] at h
      cases hts : c.compileAll terms with
      | error e' =>
          rw [hts] at h
          cases h
          obtain ⟨t, ht, he⟩ := exists_of_compileAll_error hts
          exact ih t ht he
      | ok pairs =>
          rw [hts] at h
          cases hs : c.grouped (.group combinator terms b n) combinator pairs with
          | error e' =>
              simp only [bind, Except.bind, hs] at h
              cases h
              exact tooManyTerms_of_grouped hc hs
          | ok state =>
              simp only [bind, Except.bind, hs] at h
              cases h
  | @multiplier t _ _ _ _ _ _ ih =>
      rw [compile] at h
      cases ht : c.compile t with
      | error e' =>
          rw [ht] at h
          cases h
          exact ih ht
      | ok s =>
          rw [ht] at h
          cases h
  | _ =>
      rw [compile] at h
      cases h

end Compiler

/-! ## Dictionaries -/

/-- The settings say whether alternatives are folded into tables. -/
def Settings.SaysFolding (s : Settings) : Prop :=
  ∃ fold, s.requireBool Settings.enumFolding = .ok fold

/-- What a reference to something leads to, compiled with tables or without. -/
def Reference.root (fold : Bool) (r : Reference) : Option Meaning → Except Error (Option State)
  | none => .ok none
  | some (.grammar g) => (((Compiler.standard fold).compile g).map some).mapError Error.ofCompile
  | some (.recognizer count) => .ok (some (Graph.ofRecognition r.name count).root)

theorem Graph.ofGrammar_eq {s : Settings} {fold : Bool}
    (hs : s.requireBool Settings.enumFolding = .ok fold) (source : String) (g : Grammar) :
    Graph.ofGrammar s source g =
      (((Compiler.standard fold).compile g).map (Graph.mk source g)).mapError Error.ofCompile := by
  unfold Graph.ofGrammar
  rw [hs]
  change (Graph.compile (Compiler.standard fold) source g).mapError Error.ofCompile = _
  unfold Graph.compile
  cases (Compiler.standard fold).compile g <;> rfl

theorem Graph.ofText_eq {s : Settings} {fold : Bool} {source : String} {g : Grammar}
    (hg : Grammar.parse source = .ok g) (hs : s.requireBool Settings.enumFolding = .ok fold) :
    Graph.ofText s source =
      (((Compiler.standard fold).compile g).map (Graph.mk source g)).mapError Error.ofCompile := by
  rw [Graph.ofText, hg, ← Graph.ofGrammar_eq hs]
  rfl

/-- The graph of an entry that is yet to be compiled leads to the root of its grammar. -/
theorem Graph.root_ofGrammar {s : Settings} {fold : Bool}
    (hs : s.requireBool Settings.enumFolding = .ok fold) (source : String) (g : Grammar)
    (r : Reference) :
    (some <$> Graph.ofGrammar s source g).map (Option.map Graph.root) =
      r.root fold (some (.grammar g)) := by
  rw [Graph.ofGrammar_eq hs, Reference.root]
  cases (Compiler.standard fold).compile g <;> rfl

/-- The first look-up of an entry settles whether it has tables. -/
theorem Definition.root_touch {s : Settings} {fold : Bool}
    (hs : s.requireBool Settings.enumFolding = .ok fold) {e : Definition}
    (hw : e.grammar.WellFormed) (hc : e.compiled = .pending) (s' : Settings) (r : Reference) :
    ((e.touch s).resolve s').map (Option.map Graph.root) = r.root fold (some (.grammar e.grammar)) := by
  rw [← Graph.root_ofGrammar hs e.source, Graph.ofGrammar_eq hs]
  simp only [Definition.touch, hc, Graph.ofGrammar_eq hs]
  cases hroot : (Compiler.standard fold).compile e.grammar with
  | ok root => rfl
  | error error =>
      obtain ⟨group, count, combinator, rfl⟩ := Compiler.tooManyTerms_of_compile hw hroot
      rfl

theorem Definition.touch_of_ne_pending {e : Definition} {s : Settings} (h : e.compiled ≠ .pending) :
    e.touch s = e := by
  unfold Definition.touch
  split
  · rename_i hc
    exact absurd hc h
  · rfl

namespace Dictionary

variable {d : Dictionary} {env : Reference → Option Meaning} {s : Settings}

theorem roots_put {r : Reference} {e : Definition} (r' : Reference) :
    (d.put r e).roots s r' =
      if r' = r then (e.resolve s).map (Option.map Graph.root) else d.roots s r' := by
  unfold roots resolve
  rw [find?_put]
  by_cases hr : r' = r
  · rw [if_pos hr, if_pos hr]
  · rw [if_neg hr, if_neg hr]

theorem roots_of_find? {r : Reference} {e : Definition} (he : d.find? r = some e) :
    d.roots s r = (e.resolve s).map (Option.map Graph.root) := by
  unfold roots resolve
  rw [he]

/-- What a reference leads to is what it stands for, compiled in one of the ways that the settings say.
The induction is on how the dictionary was made. -/
theorem Means.exists_roots_eq_of {p : Settings → Prop} {q : Bool → Prop} (h : d.Means p env)
    (hp : ∀ s, p s → ∃ fold, s.requireBool Settings.enumFolding = .ok fold ∧ q fold) (hs : p s)
    (r : Reference) : ∃ fold, q fold ∧ d.roots s r = r.root fold (env r) := by
  obtain ⟨fold, hs, hq⟩ := hp s hs
  induction h with
  | empty =>
      obtain ⟨kind, name⟩ := r
      cases kind <;> exact ⟨fold, hq, rfl⟩
  | @add d d' env r' source g _ hg hd ih =>
      rw [add_ok hg hd, roots_put]
      by_cases hr : r = r'
      · subst hr
        rw [if_pos rfl, Function.update_self]
        exact ⟨fold, hq, Graph.root_ofGrammar hs source g r⟩
      · rw [if_neg hr, Function.update_of_ne hr]
        exact ih
  | @addGeneric d env name rec _ ih =>
      rw [Dictionary.addGeneric, roots_put]
      by_cases hr : r = ⟨.type, name⟩
      · subst hr
        rw [if_pos rfl, Function.update_self]
        exact ⟨fold, hq, rfl⟩
      · rw [if_neg hr, Function.update_of_ne hr]
        exact ih
  | @touch d env settings r' hd hsettings ih =>
      obtain ⟨fold', hs', hq'⟩ := hp settings hsettings
      have hentry := hd.find? r'
      cases he : d.find? r' with
      | none =>
          simp only [Dictionary.touch, he]
          exact ih
      | some e =>
          rw [he] at hentry
          simp only [Dictionary.touch, he, roots_put]
          by_cases hr : r = r'
          · subst hr
            rw [if_pos rfl]
            -- a definition is compiled the first time it is looked up, with the settings of then
            by_cases hc : e.compiled = .pending
            · rcases hentry with ⟨hm, hw, -⟩ | ⟨_, _, -, -, hb⟩
              · rw [hm]
                exact ⟨fold', hq', Definition.root_touch hs' hw hc s r⟩
              · rw [hc] at hb
                cases hb
            · rw [Definition.touch_of_ne_pending hc, ← roots_of_find? he]
              exact ih
          · rw [if_neg hr]
            exact ih

/-- **What a reference leads to is what it stands for**, compiled with tables or without. -/
theorem Means.exists_roots_eq (h : d.Means Settings.SaysFolding env) (hs : s.SaysFolding)
    (r : Reference) : ∃ fold, d.roots s r = r.root fold (env r) := by
  obtain ⟨fold, -, hroot⟩ := h.exists_roots_eq_of (q := fun _ => True)
    (fun _ ⟨fold, hs⟩ => ⟨fold, hs, trivial⟩) hs r
  exact ⟨fold, hroot⟩

theorem Means.wellFormed {p : Settings → Prop} (h : d.Means p env) {r : Reference} {g : Grammar}
    (he : env r = some (.grammar g)) : g.WellFormed := by
  obtain ⟨-, -, -, hw⟩ := h.find?_of_grammar he
  exact hw

/-- What a reference leads to is what it stands for without tables, but for the tables. -/
theorem Means.agree_roots (h : d.Means Settings.SaysFolding env) (hs : s.SaysFolding)
    {K : String → State → Prop} (hK : ∀ r g, env r = some (.grammar g) → g.Tabulates K)
    (r : Reference) : Agree (Option.Rel (State.Spreads K)) (d.roots s r) (r.root false (env r)) := by
  obtain ⟨fold, hroot⟩ := h.exists_roots_eq hs r
  rw [hroot]
  cases he : env r with
  | none => exact .ok .none
  | some meaning =>
      cases meaning with
      | recognizer count => exact .ok (.some .leaf)
      | grammar g =>
          have hagree : Agree (State.Spreads K) ((Compiler.standard fold).compile g)
              ((Compiler.standard false).compile g) :=
            Compiler.spreads_compile (h.wellFormed he) (hK r g he)
          exact (hagree.map fun _ _ => Option.Rel.some).mapError Error.ofCompile

/-- **A machine over a dictionary is followed by the machine without any tables.** -/
theorem Means.unfolds (h : d.Means Settings.SaysFolding env) (hs : s.SaysFolding)
    (henv : ∀ r g, env r = some (.grammar g) → g.Plain) {tokens : List Token}
    (htokens : ∀ t ∈ tokens, Text.IsAscii t.value) (m : Matcher) :
    (m.machine tokens (d.roots s)).Unfolds (m.machine tokens fun r => r.root false (env r)) where
  tokens := rfl
  lowPriority := rfl
  resolve := by
    have hseen : ∀ t ∈ tokens.filter m.sees, Text.IsAscii t.value :=
      fun t ht => htokens t (List.mem_of_mem_filter ht)
    exact h.agree_roots hs fun r g he => (henv r g he).tabulates hseen (h.wellFormed he)

end Dictionary

/-! ## Matches -/

/-- The results differ at most in the number of steps. -/
structure MatchResult.Same (r r' : MatchResult) : Prop where
  reason : r'.reason = r.reason
  list : r'.list? = r.list?
  tree : r'.tree? = r.tree?
  longest : r'.longest = r.longest
  offset : r'.offset = r.offset

namespace Matcher

/-- Reads a grammar, compiles it and matches tokens against it. -/
def answer (m : Matcher) (settings : Settings) (d : Dictionary) (source : String)
    (tokens : List Token) : Except Error MatchResult := do
  let graph ← Graph.ofText settings source
  (m.runWith settings d tokens graph).1

/-- Runs that end in the same way have the same result. -/
theorem agree_result {r r' : Machine.Run Error} (h : r.Alike r') (m : Matcher) (tokens : List Token)
    (g : Grammar) : Agree MatchResult.Same ((m.result tokens g r).mapError Error.ofMachine)
      ((m.result tokens g r').mapError Error.ofMachine) := by
  have hlongest : r'.final.longest = r.final.longest := h.longest
  unfold result
  rw [h.outcome]
  cases ho : r.outcome with
  | matched =>
      have htrace := h.trace ho
      exact .ok ⟨rfl, congrArg (fun tr => some (Trace.items tr)) htrace,
        congrArg (fun tr => some (Trace.tree tr g)) htrace, hlongest,
        congrArg (fun n => offsetOf m.sees n tokens) hlongest⟩
  | mismatched | limited =>
      exact .ok ⟨rfl, rfl, rfl, hlongest, congrArg (fun n => offsetOf m.sees n tokens) hlongest⟩
  | failed error => exact .error

variable {s s' : Settings} {fold : Bool} {source : String} {g : Grammar}

/-- The answer for a grammar that can be read and compiled is that of a run from its root. -/
theorem answer_eq_of_compile (hg : Grammar.parse source = .ok g)
    (hs : s.requireBool Settings.enumFolding = .ok fold) {root : State}
    (hc : (Compiler.standard fold).compile g = .ok root) (m : Matcher) (d : Dictionary)
    (tokens : List Token) :
    m.answer s d source tokens =
      (m.result tokens g (m.search s d tokens ⟨source, g, root⟩)).mapError Error.ofMachine := by
  rw [answer, Graph.ofText_eq hg hs, hc]
  rfl

theorem answer_eq_of_compile_error (hg : Grammar.parse source = .ok g)
    (hs : s.requireBool Settings.enumFolding = .ok fold) {e : CompileError}
    (hc : (Compiler.standard fold).compile g = .error e) (m : Matcher) (d : Dictionary)
    (tokens : List Token) : m.answer s d source tokens = .error (Error.ofCompile e) := by
  rw [answer, Graph.ofText_eq hg hs, hc]
  rfl

theorem outcome_ne_limited {m : Matcher} {tokens : List Token} {r : Machine.Run Error}
    {answer : Except Error MatchResult}
    (ha : answer = (m.result tokens g r).mapError Error.ofMachine)
    (h : ∀ result, answer = .ok result → result.reason ≠ .limited) : r.outcome ≠ .limited := by
  intro ho
  subst ha
  unfold Matcher.result at h
  rw [ho] at h
  exact h _ rfl rfl

/-- **Folding alternatives into tables is not seen.** For a grammar that can be read and a dictionary
of such grammars, in which names are ASCII and no type that is looked up by the name of a function is
an alternative, and for tokens that are ASCII, the answer does not depend on the settings that grammars
are compiled with: not on those that hold now, and not on those that held when entries of the dictionary
were looked up first. The reason, the trace and the longest match are the same, and so are errors, as
long as no run is cut off. -/
theorem answer_same_of_folding {d d' : Dictionary} {env : Reference → Option Meaning}
    {fold' : Bool} {tokens : List Token} (m : Matcher) (hd : d.Means Settings.SaysFolding env)
    (hd' : d'.Means Settings.SaysFolding env) (henv : ∀ r g, env r = some (.grammar g) → g.Plain)
    (hg : Grammar.parse source = .ok g) (hp : g.Plain)
    (htokens : ∀ t ∈ tokens, Text.IsAscii t.value)
    (hs : s.requireBool Settings.enumFolding = .ok fold)
    (hs' : s'.requireBool Settings.enumFolding = .ok fold')
    (hlimit : ∀ r, m.answer s d source tokens = .ok r → r.reason ≠ .limited)
    (hlimit' : ∀ r, m.answer s' d' source tokens = .ok r → r.reason ≠ .limited) :
    Agree MatchResult.Same (m.answer s d source tokens) (m.answer s' d' source tokens) := by
  have hw : g.WellFormed := Grammar.wellFormed_of_parse hg
  have hseen : ∀ t ∈ tokens.filter m.sees, Text.IsAscii t.value :=
    fun t ht => htokens t (List.mem_of_mem_filter ht)
  have hagree : Agree (State.Unfolds (tokens.filter m.sees)) ((Compiler.standard fold).compile g)
      ((Compiler.standard false).compile g) := Compiler.unfolds_compile hseen hw hp
  have hagree' : Agree (State.Unfolds (tokens.filter m.sees)) ((Compiler.standard fold').compile g)
      ((Compiler.standard false).compile g) := Compiler.unfolds_compile hseen hw hp
  cases hc₀ : (Compiler.standard false).compile g with
  | error e =>
      rw [hc₀] at hagree hagree'
      rw [answer_eq_of_compile_error hg hs hagree.eq_error,
        answer_eq_of_compile_error hg hs' hagree'.eq_error]
      exact .error
  | ok root₀ =>
      rw [hc₀] at hagree hagree'
      obtain ⟨root, hc, hroot⟩ := hagree.exists_ok
      obtain ⟨root', hc', hroot'⟩ := hagree'.exists_ok
      have ha := answer_eq_of_compile hg hs hc m d tokens
      have ha' := answer_eq_of_compile hg hs' hc' m d' tokens
      -- both runs are followed by that of the machine without tables
      obtain ⟨n, hn⟩ := (hd.unfolds ⟨fold, hs⟩ henv htokens m).exists_alike hroot
        (outcome_ne_limited ha hlimit)
      obtain ⟨n', hn'⟩ := (hd'.unfolds ⟨fold', hs'⟩ henv htokens m).exists_alike hroot'
        (outcome_ne_limited ha' hlimit')
      have halike := (hn (max n n') (Nat.le_max_left n n')).of_common
        (hn' (max n n') (Nat.le_max_right n n'))
      rw [ha, ha']
      exact agree_result halike m tokens g

/-- The standard settings without tables. -/
def withoutTables : Settings := NameMap.insert Settings.standard Settings.enumFolding (.bool false)

/-- The grammar `[ a | b | A | <f> ]#`. -/
def mixedGrammar : Grammar :=
  .row [.multiplier (.group .one
    [.keyword "a", .keyword "b", .keyword "A", .type "f" none] true false) 1 none true]

/-- The grammar `<custom-ident> | x | y`. -/
def mixedType : Grammar :=
  .group .one [.type "custom-ident" none, .keyword "x", .keyword "y"] false false

/-- The type `<f>` is `<custom-ident> | x | y`, and `<custom-ident>` is a generic type. -/
def mixedMeaning : Reference → Option Meaning :=
  Function.update (Function.update (fun _ => none) ⟨.type, "custom-ident"⟩
    (some (.recognizer Recognizer.customIdent))) ⟨.type, "f"⟩ (some (.grammar mixedType))

/-- The tokens `B\9, z`. -/
def mixedTokens : List Token := [⟨.ident, "B\\9", none⟩, ⟨.comma, ",", none⟩, ⟨.ident, "z", none⟩]

/-- A dictionary with both types. -/
def mixedDictionary : Dictionary :=
  (Dictionary.addGeneric .empty "custom-ident" Recognizer.customIdent).put ⟨.type, "f"⟩
    ⟨mixedType, "<custom-ident> | x | y", .pending⟩

theorem means_mixed : mixedDictionary.Means Settings.SaysFolding mixedMeaning :=
  .add (.addGeneric .empty) (rfl : Grammar.parse "<custom-ident> | x | y" = .ok mixedType)
    (r := ⟨.type, "f"⟩) rfl

theorem plain_mixed (r : Reference) (g : Grammar) (h : mixedMeaning r = some (.grammar g)) :
    g.Plain := by
  unfold mixedMeaning at h
  by_cases hf : r = ⟨.type, "f"⟩
  · subst hf
    rw [Function.update_self] at h
    cases h
    decide +kernel
  · rw [Function.update_of_ne hf] at h
    by_cases hi : r = ⟨.type, "custom-ident"⟩
    · subst hi
      rw [Function.update_self] at h
      cases h
    · rw [Function.update_of_ne hi] at h
      cases h

/-- A key that occurs twice, a suffix for old browsers, and a type that is put off. In the second match
the type has been compiled with tables before, and what refers to it is compiled without. -/
theorem answer_same_of_folding_mixed :
    (answer ⟨1000, true, Token.isSignificant⟩ .standard mixedDictionary "[ a | b | A | <f> ]#"
        mixedTokens).toOption.map MatchResult.reason = some .matched ∧
      Agree MatchResult.Same
        (answer ⟨1000, true, Token.isSignificant⟩ .standard mixedDictionary "[ a | b | A | <f> ]#"
          mixedTokens)
        (answer ⟨1000, true, Token.isSignificant⟩ withoutTables
          (mixedDictionary.touch .standard ⟨.type, "f"⟩) "[ a | b | A | <f> ]#" mixedTokens) := by
  have hon : (answer ⟨1000, true, Token.isSignificant⟩ .standard mixedDictionary
      "[ a | b | A | <f> ]#" mixedTokens).toOption.map MatchResult.reason = some .matched := by
    decide +kernel
  have hoff : (answer ⟨1000, true, Token.isSignificant⟩ withoutTables
      (mixedDictionary.touch .standard ⟨.type, "f"⟩) "[ a | b | A | <f> ]#"
      mixedTokens).toOption.map MatchResult.reason = some .matched := by
    decide +kernel
  have hends : ∀ {a : Except Error MatchResult}, a.toOption.map MatchResult.reason = some .matched →
      ∀ r, a = .ok r → r.reason ≠ .limited := by
    rintro a h r rfl hr
    cases hr.symm.trans (Option.some.inj h)
  have hg : Grammar.parse "[ a | b | A | <f> ]#" = .ok mixedGrammar := rfl
  have hp : mixedGrammar.Plain := by decide +kernel
  have htokens : ∀ t ∈ mixedTokens, Text.IsAscii t.value := by decide +kernel
  have hs : Settings.requireBool .standard Settings.enumFolding = .ok true := rfl
  have hs' : withoutTables.requireBool Settings.enumFolding = .ok false := rfl
  refine ⟨hon, ?_⟩
  exact answer_same_of_folding ⟨1000, true, Token.isSignificant⟩ means_mixed
    (.touch means_mixed ⟨true, hs⟩) plain_mixed hg hp htokens hs hs' (hends hon) (hends hoff)

end Matcher

end ValueGrammar

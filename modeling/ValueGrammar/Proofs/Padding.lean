import ValueGrammar.Proofs.Folding
import ValueGrammar.Proofs.Padding.Search

/-!
# `ValueGrammar.Proofs.Padding` — leaving out conditionals does not change a match

A compiler that builds every conditional as it is makes bigger graphs of the same grammars. As long as
nothing is put off, a match gives the same answer with these: for the grammar it is made against, and for
everything that references lead to.

## Contents
- `Reference.rootBy`, `Dictionary.FoldedBy`: what references lead to, by the choices of a compiler.
- `Matcher.answerBy`: the answer with the graphs of a compiler.
- `Dictionary.Means.pads`: machines over a dictionary, with graphs of either kind.
- `Matcher.answer_same_of_verbatim`: the answer is the same.
-/

namespace ValueGrammar

/-- What a reference to something leads to, by the choices of a compiler. -/
def Reference.rootBy (c : Compiler) (r : Reference) : Option Meaning → Except Error (Option State)
  | none => .ok none
  | some (.grammar g) => ((c.compile g).map some).mapError Error.ofCompile
  | some (.recognizer count) => .ok (some (Graph.ofRecognition r.name count).root)

/-- References lead to what they stand for, compiled with the given choices of tables. -/
def Dictionary.FoldedBy (d : Dictionary) (s : Settings) (env : Reference → Option Meaning)
    (folds : Reference → Bool) : Prop :=
  ∀ r, d.roots s r = r.rootBy (Compiler.standard (folds r)) (env r)

namespace Dictionary

variable {d : Dictionary} {env : Reference → Option Meaning} {s : Settings} {folds : Reference → Bool}

theorem Means.exists_foldedBy (h : d.Means Settings.SaysFolding env) (hs : s.SaysFolding) :
    ∃ folds, d.FoldedBy s env folds := by
  choose folds hfolds using h.exists_roots_eq hs
  refine ⟨folds, fun r => (hfolds r).trans ?_⟩
  cases env r with
  | none => rfl
  | some meaning => cases meaning <;> rfl

/-- **A machine over a dictionary and the one with padded graphs.** -/
theorem Means.pads {p : Settings → Prop} (h : d.Means p env) (hfolds : d.FoldedBy s env folds)
    (m : Matcher) (tokens : List Token) :
    (m.machine tokens (d.roots s)).Pads
      (m.machine tokens fun r => r.rootBy (Compiler.verbatim (folds r)) (env r)) where
  tokens := rfl
  resolve r := by
    change Agree _ (d.roots s r) (r.rootBy _ (env r))
    rw [hfolds r]
    cases he : env r with
    | none => exact .ok .none
    | some meaning =>
        cases meaning with
        | recognizer count => exact .ok (.some .leaf)
        | grammar g =>
            have hagree : Agree State.Pads ((Compiler.standard (folds r)).compile g)
                ((Compiler.verbatim (folds r)).compile g) := Compiler.pads_compile (h.wellFormed he)
            exact (hagree.map fun _ _ => Option.Rel.some).mapError Error.ofCompile

end Dictionary

namespace Matcher

/-- Reads a grammar, compiles it by the choices of a compiler, and matches tokens against it. -/
def answerBy (m : Matcher) (c : Compiler) (resolve : Reference → Except Error (Option State))
    (source : String) (tokens : List Token) : Except Error MatchResult := do
  let g ← (Grammar.parse source).mapError Error.grammar
  let graph ← (Graph.compile c source g).mapError Error.ofCompile
  (m.run tokens graph resolve).1.mapError Error.ofMachine

theorem answerBy_eq_of_compile {source : String} {g : Grammar} (hg : Grammar.parse source = .ok g)
    {c : Compiler} {root : State} (hc : c.compile g = .ok root) (m : Matcher)
    (resolve : Reference → Except Error (Option State)) (tokens : List Token) :
    m.answerBy c resolve source tokens =
      (m.result tokens g ((m.machine tokens resolve).run m.limit.toNat root)).mapError
        Error.ofMachine := by
  have hgraph : Graph.compile c source g = .ok ⟨source, g, root⟩ := by
    unfold Graph.compile
    rw [hc]
    rfl
  rw [answerBy, hg]
  change ((Graph.compile c source g).mapError Error.ofCompile >>= _) = _
  rw [hgraph]
  rfl

theorem answerBy_eq_of_compile_error {source : String} {g : Grammar}
    (hg : Grammar.parse source = .ok g) {c : Compiler} {e : CompileError} (hc : c.compile g = .error e)
    (m : Matcher) (resolve : Reference → Except Error (Option State)) (tokens : List Token) :
    m.answerBy c resolve source tokens = .error (Error.ofCompile e) := by
  have hgraph : Graph.compile c source g = .error e := by
    unfold Graph.compile
    rw [hc]
    rfl
  rw [answerBy, hg]
  change ((Graph.compile c source g).mapError Error.ofCompile >>= _) = _
  rw [hgraph]
  rfl

/-- **Leaving out conditionals that change nothing is not seen.** Let a grammar be read, and a
dictionary be made of such grammars and generic types. The references then lead to graphs that were
compiled with some choices of tables. The answer for these graphs and the one for the graphs that are
compiled with the same choices of tables, but with every conditional as it is, have the same reason or
error, the same trace and the same longest match, if nothing is put off and neither run is cut off. -/
theorem answer_same_of_verbatim {m : Matcher} {s : Settings} {d : Dictionary}
    {env : Reference → Option Meaning} {source : String} {g : Grammar} {fold : Bool}
    (hlow : m.lowPriority = false) (hd : d.Means Settings.SaysFolding env)
    (hg : Grammar.parse source = .ok g) (hs : s.requireBool Settings.enumFolding = .ok fold)
    (tokens : List Token) :
    (∃ folds, d.FoldedBy s env folds) ∧
      ∀ folds, d.FoldedBy s env folds →
        (∀ r, m.answer s d source tokens = .ok r → r.reason ≠ .limited) →
        (∀ r, m.answerBy (Compiler.verbatim fold)
          (fun r => r.rootBy (Compiler.verbatim (folds r)) (env r)) source tokens = .ok r →
            r.reason ≠ .limited) →
        Agree MatchResult.Same (m.answer s d source tokens)
          (m.answerBy (Compiler.verbatim fold)
            (fun r => r.rootBy (Compiler.verbatim (folds r)) (env r)) source tokens) := by
  refine ⟨hd.exists_foldedBy ⟨fold, hs⟩, fun folds hfolds hlimit hlimit' => ?_⟩
  have hagree : Agree State.Pads ((Compiler.standard fold).compile g)
      ((Compiler.verbatim fold).compile g) := Compiler.pads_compile (Grammar.wellFormed_of_parse hg)
  generalize hc : (Compiler.standard fold).compile g = compiled,
    hc' : (Compiler.verbatim fold).compile g = compiled' at hagree
  cases hagree with
  | error =>
      rw [answer_eq_of_compile_error hg hs hc, answerBy_eq_of_compile_error hg hc']
      exact .error
  | ok hroot =>
      have ha := answer_eq_of_compile hg hs hc m d tokens
      have ha' := answerBy_eq_of_compile hg hc' m
        (fun r => r.rootBy (Compiler.verbatim (folds r)) (env r)) tokens
      have halike := (hd.pads hfolds m tokens).alike hroot hlow hlow (outcome_ne_limited ha hlimit)
        (outcome_ne_limited ha' hlimit')
      rw [ha, ha']
      exact agree_result halike m tokens g

/-- The grammar `x+ | y`. -/
def splicedType : Grammar :=
  .group .one [.multiplier (.keyword "x") 1 none false, .keyword "y"] false false

/-- The grammar `<f># z | a?`. -/
def splicedGrammar : Grammar :=
  .group .one [.row [.multiplier (.type "f" none) 1 none true, .keyword "z"],
    .multiplier (.keyword "a") 0 (some 1) false] false false

/-- The type `<f>` is `x+ | y`. -/
def splicedMeaning : Reference → Option Meaning :=
  Function.update (fun _ => none) ⟨.type, "f"⟩ (some (.grammar splicedType))

/-- A dictionary with this type. -/
def splicedDictionary : Dictionary :=
  Dictionary.empty.put ⟨.type, "f"⟩ ⟨splicedType, "x+ | y", .pending⟩

/-- The tokens `x x, y z`. -/
def splicedTokens : List Token :=
  [⟨.ident, "x", none⟩, ⟨.ident, "x", none⟩, ⟨.comma, ",", none⟩, ⟨.ident, "y", none⟩,
    ⟨.ident, "z", none⟩]

/-- The answer with every conditional as it is. -/
def splicedAnswer : Except Error MatchResult :=
  answerBy ⟨1000, false, Token.isSignificant⟩ (Compiler.verbatim true)
    (fun r => r.rootBy (Compiler.verbatim true) (splicedMeaning r)) "<f># z | a?" splicedTokens

theorem foldedBy_spliced : splicedDictionary.FoldedBy .standard splicedMeaning fun _ => true := by
  intro r
  unfold splicedDictionary splicedMeaning
  rw [Dictionary.roots_put]
  by_cases hr : r = ⟨.type, "f"⟩
  · subst hr
    rfl
  · rw [if_neg hr, Function.update_of_ne hr]
    obtain ⟨kind, name⟩ := r
    cases kind <;> rfl

/-- The loop of `x+` stands in the place of the alternative that it is, and an alternative to success is
left out at `a?`. It takes fewer steps to the same answer. -/
theorem answer_same_of_verbatim_spliced :
    (answer ⟨1000, false, Token.isSignificant⟩ .standard splicedDictionary "<f># z | a?"
        splicedTokens).toOption.map (fun r => (r.reason, r.iterations)) = some (.matched, 48) ∧
      splicedAnswer.toOption.map (fun r => (r.reason, r.iterations)) = some (.matched, 55) ∧
      Agree MatchResult.Same
        (answer ⟨1000, false, Token.isSignificant⟩ .standard splicedDictionary "<f># z | a?"
          splicedTokens) splicedAnswer := by
  have hon : (answer ⟨1000, false, Token.isSignificant⟩ .standard splicedDictionary "<f># z | a?"
      splicedTokens).toOption.map (fun r => (r.reason, r.iterations)) = some (.matched, 48) := by
    decide +kernel
  have hoff : splicedAnswer.toOption.map (fun r => (r.reason, r.iterations)) =
      some (.matched, 55) := by
    decide +kernel
  have hends : ∀ {a : Except Error MatchResult} {n},
      a.toOption.map (fun r => (r.reason, r.iterations)) = some (.matched, n) →
        ∀ r, a = .ok r → r.reason ≠ .limited := by
    rintro a n h r rfl hr
    cases hr.symm.trans (Prod.mk.inj (Option.some.inj h)).1
  have hd : splicedDictionary.Means Settings.SaysFolding splicedMeaning :=
    .add .empty (rfl : Grammar.parse "x+ | y" = .ok splicedType) rfl
  have hg : Grammar.parse "<f># z | a?" = .ok splicedGrammar := rfl
  have hs : Settings.requireBool .standard Settings.enumFolding = .ok true := rfl
  refine ⟨hon, hoff, ?_⟩
  exact (answer_same_of_verbatim (m := ⟨1000, false, Token.isSignificant⟩) rfl hd hg hs
    splicedTokens).2 _ foldedBy_spliced (hends hon) (hends hoff)

end Matcher

end ValueGrammar

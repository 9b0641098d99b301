import ValueGrammar.Proofs.Folding
import ValueGrammar.Proofs.Tame

/-!
# `ValueGrammar.Proofs.References` — what a check of the references predicts

A dictionary can be checked for references that nothing answers without compiling or matching anything:
the nodes of all its grammars are looked at. A match comes across references one by one, in the states
that grammars are compiled to and only on the paths it follows. This module shows that the check finds
exactly the references that grammars mention and nothing answers, and that a match can fail for no other
reference.

## Contents
- `Grammar.Mentions`, `Grammar.mem_references_iff`: the references of a grammar.
- `Dictionary.mem_missingReferences_iff`: what the check finds.
- `Dictionary.Answers`, `Dictionary.Means.answers`: what looking a reference up may give.
- `Dictionary.Means.mentioned_of_failed`: the references a run may fail for.
- `Matcher.missingReferences_predicts`: the check and the matches.
-/

namespace ValueGrammar

/-! ## Grammars -/

/-- The grammar has a type or a property in it that is the reference. -/
inductive Grammar.Mentions : Grammar → Reference → Prop where
  | type {name range} : Mentions (.type name range) ⟨.type, name⟩
  | property {name} : Mentions (.property name) ⟨.property, name⟩
  | group {c terms b n t r} (ht : t ∈ terms) (h : Mentions t r) : Mentions (.group c terms b n) r
  | multiplier {t min max separated r} (h : Mentions t r) :
      Mentions (.multiplier t min max separated) r

namespace Grammar

theorem mem_references_group {c : Combinator} {terms : List Grammar} {b n : Bool} {r : Reference} :
    r ∈ (Grammar.group c terms b n).references ↔ ∃ t ∈ terms, r ∈ t.references := by
  simp only [references, nodes_group, List.mem_filterMap, List.mem_cons, List.mem_flatMap]
  constructor
  · rintro ⟨x, rfl | ⟨t, ht, hx⟩, hr⟩
    · cases hr
    · exact ⟨t, ht, x, hx, hr⟩
  · rintro ⟨t, ht, x, hx, hr⟩
    exact ⟨x, .inr ⟨t, ht, hx⟩, hr⟩

theorem mem_references_multiplier {t : Grammar} {min : Int} {max : Option Int} {separated : Bool}
    {r : Reference} :
    r ∈ (Grammar.multiplier t min max separated).references ↔ r ∈ t.references := by
  rw [references, nodes_multiplier]
  exact Iff.rfl

/-- **The walk over the nodes of a grammar finds every reference.** The induction is on the grammar. -/
theorem mem_references_iff {g : Grammar} {r : Reference} : r ∈ g.references ↔ g.Mentions r := by
  induction g using nodeInduction with
  | group c terms b n ih =>
      rw [mem_references_group]
      constructor
      · rintro ⟨t, ht, hr⟩
        exact .group ht ((ih t ht).mp hr)
      · intro h
        cases h with
        | group ht h => exact ⟨_, ht, (ih _ ht).mpr h⟩
  | multiplier t min max separated ih =>
      rw [mem_references_multiplier, ih]
      constructor
      · exact .multiplier
      · intro h
        cases h with
        | multiplier h => exact h
  | leaf g hgroup hmultiplier =>
      cases g with
      | group c terms b n => exact absurd rfl (hgroup c terms b n)
      | multiplier t min max separated => exact absurd rfl (hmultiplier t min max separated)
      | type name range =>
          constructor
          · intro h
            rw [List.mem_singleton.mp h]
            exact .type
          · intro h
            cases h
            exact List.mem_singleton.mpr rfl
      | property name =>
          constructor
          · intro h
            rw [List.mem_singleton.mp h]
            exact .property
          · intro h
            cases h
            exact List.mem_singleton.mpr rfl
      | _ =>
          constructor
          · intro h
            cases h
          · intro h
            cases h

end Grammar

/-! ## Dictionaries -/

namespace Dictionary

variable {d : Dictionary} {p : Settings → Prop} {env : Reference → Option Meaning}

theorem mem_distinct {seen rs : List Reference} {r : Reference} :
    r ∈ distinct seen rs ↔ r ∈ rs ∧ r ∉ seen := by
  induction rs generalizing seen with
  | nil => simp [distinct]
  | cons r' rs ih =>
      rw [distinct]
      split
      · rename_i hseen
        have hmem : r' ∈ seen := by simpa using hseen
        rw [ih, List.mem_cons]
        constructor
        · exact fun h => ⟨.inr h.1, h.2⟩
        · rintro ⟨rfl | h, hr⟩
          · exact absurd hmem hr
          · exact ⟨h, hr⟩
      · rename_i hseen
        have hnew : r' ∉ seen := by simpa using hseen
        rw [List.mem_cons, ih, List.mem_cons, List.mem_cons]
        by_cases hr : r = r'
        · subst hr
          simp [hnew]
        · simp [hr]

theorem nodup_distinct (seen rs : List Reference) : (distinct seen rs).Nodup := by
  induction rs generalizing seen with
  | nil => exact List.nodup_nil
  | cons r rs ih =>
      rw [distinct]
      split
      · exact ih seen
      · refine List.nodup_cons.mpr ⟨fun h => ?_, ih _⟩
        exact (mem_distinct.mp h).2 List.mem_cons_self

/-- The references of one name space are those its entries mention. -/
theorem mem_referencesOf_iff {kind : ReferenceKind} {r : Reference} :
    r ∈ referencesOf (d.entries kind) ↔
      ∃ name e, d.find? ⟨kind, name⟩ = some e ∧ e.grammar.Mentions r := by
  simp only [referencesOf, List.mem_flatMap, Grammar.mem_references_iff]
  constructor
  · rintro ⟨⟨name, e⟩, hmem, hr⟩
    exact ⟨name, e, NameMap.mem_entries_iff.mp hmem, hr⟩
  · rintro ⟨name, e, hfind, hr⟩
    exact ⟨(name, e), NameMap.mem_entries_iff.mpr hfind, hr⟩

/-- **What the check finds**: the references that a grammar of the dictionary mentions and that no
entry answers. -/
theorem mem_missingReferences_iff {r : Reference} :
    r ∈ d.missingReferences ↔
      (∃ r' e, d.find? r' = some e ∧ e.grammar.Mentions r) ∧ d.find? r = none := by
  have hall : r ∈ referencesOf d.types ++ referencesOf d.properties ↔
      ∃ r' e, d.find? r' = some e ∧ e.grammar.Mentions r := by
    rw [List.mem_append]
    constructor
    · rintro (hr | hr)
      · change r ∈ referencesOf (d.entries .type) at hr
        obtain ⟨name, e, he⟩ := mem_referencesOf_iff.mp hr
        exact ⟨⟨.type, name⟩, e, he⟩
      · change r ∈ referencesOf (d.entries .property) at hr
        obtain ⟨name, e, he⟩ := mem_referencesOf_iff.mp hr
        exact ⟨⟨.property, name⟩, e, he⟩
    · rintro ⟨⟨kind, name⟩, e, he⟩
      cases kind with
      | type => exact .inl (mem_referencesOf_iff.mpr ⟨name, e, he⟩)
      | property => exact .inr (mem_referencesOf_iff.mpr ⟨name, e, he⟩)
  unfold missingReferences
  simp only [mem_distinct, List.mem_filter, hall, Option.isNone_iff_eq_none, List.not_mem_nil,
    not_false_eq_true, and_true]

theorem nodup_missingReferences (d : Dictionary) : d.missingReferences.Nodup := nodup_distinct _ _

/-! ## What references lead to -/

end Dictionary

/-- A setting that cannot be read is a fault. -/
theorem Settings.fault_of_requireBool {s : Settings} {path : String} {e : Error}
    (h : s.requireBool path = .error e) : ∃ fault, e = .fault fault := by
  unfold requireBool at h
  cases hs : s.bool path with
  | ok b => rw [hs] at h; cases h
  | error e' =>
      rw [hs] at h
      cases h
      exact ⟨_, rfl⟩

/-- Once an entry was looked up, it does not depend on the settings any more. -/
theorem Definition.resolve_of_ne_pending {e : Definition} (h : e.compiled ≠ .pending)
    (s s' : Settings) : e.resolve s = e.resolve s' := by
  unfold resolve
  split
  · rename_i hc
    exact absurd hc h
  all_goals rfl

namespace Dictionary

variable {d : Dictionary} {p : Settings → Prop} {env : Reference → Option Meaning}

/-- Some name stands for a grammar that mentions the reference. -/
def Mentioned (env : Reference → Option Meaning) (r : Reference) : Prop :=
  ∃ r' g, env r' = some (.grammar g) ∧ g.Mentions r

/-- What looking a reference up may give: nothing only if it stands for nothing, a state in which all
the references are mentioned by a grammar, or an error that is not about a reference. -/
inductive Answers (env : Reference → Option Meaning) (r : Reference) :
    Except Error (Option State) → Prop where
  | none (h : env r = none) : Answers env r (.ok none)
  | some {root} (h : root.Tame (Mentioned env)) : Answers env r (.ok (some root))
  | error {e} (h : ∀ r', e ≠ .reference r') : Answers env r (.error e)

theorem answers_root (env : Reference → Option Meaning) (r : Reference) (fold : Bool) :
    Answers env r (r.root fold (env r)) := by
  cases he : env r with
  | none => exact .none he
  | some meaning =>
      cases meaning with
      | recognizer count => exact .some .leaf
      | grammar g =>
          rw [Reference.root]
          cases hc : (Compiler.standard fold).compile g with
          | error e =>
              refine .error fun r' hr' => ?_
              cases e <;> cases hr'
          | ok root =>
              refine .some (Compiler.tame_compile g (fun r' hr' => ?_) hc)
              exact ⟨r, g, he, Grammar.mem_references_iff.mp hr'⟩

/-- **What looking a reference up gives**, whatever the settings are. -/
theorem Means.answers (h : d.Means Settings.SaysFolding env) (s : Settings) (r : Reference) :
    Answers env r (d.roots s r) := by
  by_cases hs : s.SaysFolding
  · obtain ⟨fold, hroot⟩ := h.exists_roots_eq hs r
    rw [hroot]
    exact answers_root env r fold
  · cases he : d.find? r with
    | none =>
        have hentry := h.find? r
        rw [he] at hentry
        have hnone : d.roots s r = .ok none := by
          rw [roots, Dictionary.resolve, he]
          rfl
        rw [hnone]
        exact .none hentry
    | some e =>
        by_cases hc : e.compiled = .pending
        · -- it cannot be compiled with these settings
          rw [roots_of_find? he, Definition.resolve, hc]
          cases hfold : s.requireBool Settings.enumFolding with
          | ok fold => exact absurd ⟨fold, hfold⟩ hs
          | error error =>
              obtain ⟨fault, rfl⟩ := Settings.fault_of_requireBool hfold
              simp only [Graph.ofGrammar, hfold]
              exact .error fun r' hr' => by cases hr'
        · -- it was compiled before, so that the settings do not matter any more
          obtain ⟨fold, hroot⟩ := h.exists_roots_eq (s := .standard) ⟨true, rfl⟩ r
          have hsame : d.roots s r = d.roots .standard r := by
            rw [roots_of_find? he, roots_of_find? he, Definition.resolve_of_ne_pending hc s .standard]
          rw [hsame, hroot]
          exact answers_root env r fold

/-- A step fails for a reference only if a grammar mentions it and it stands for nothing. -/
theorem Means.mentioned_of_failed (h : d.Means Settings.SaysFolding env) {s : Settings}
    {m : Machine Error} (hm : m.resolve = d.roots s) {root : State}
    (hroot : root.Tame (Mentioned env)) {c c' : Config} (hc : m.Leads (.start root) c)
    {error : MachineError Error} (hs : m.step c = .failed error c') {r : Reference}
    (he : Error.ofMachine error = .reference r) : Mentioned env r ∧ env r = none := by
  have hanswers : ∀ r, Answers env r (m.resolve r) := by
    intro r
    rw [hm]
    exact h.answers s r
  have htame : c.here.Tame (Mentioned env) := by
    refine hc.tame hroot (fun r root hr => ?_) _ (List.mem_append_left _ List.mem_cons_self)
    have hanswer := hanswers r
    rw [hr] at hanswer
    cases hanswer with
    | some htame => exact htame
  have hfails := Machine.step_failed hs
  generalize c'.notes = notes at hfails
  cases hfails with
  | stuck => cases he
  | @unresolved r' _ _ hf hr =>
      cases he
      have hanswer := hanswers r
      rw [hr] at hanswer
      cases hanswer with
      | none hnone =>
          cases htame.state hf with
          | call hmentioned => exact ⟨hmentioned, hnone⟩
  | @lookup r' _ _ e _ hr =>
      have hanswer := hanswers r'
      rw [hr] at hanswer
      cases hanswer with
      | error hne => exact absurd he (hne r)

end Dictionary

/-! ## Matches -/

namespace Matcher

/-- A match that gives an error reports how the run failed. -/
theorem outcome_of_error {m : Matcher} {settings : Settings} {d : Dictionary} {tokens : List Token}
    {graph : Graph} {e : Error} (h : (m.runWith settings d tokens graph).1 = .error e) :
    ∃ error, (m.search settings d tokens graph).outcome = .failed error ∧
      Error.ofMachine error = e := by
  change (m.result tokens graph.grammar (m.search settings d tokens graph)).mapError
    Error.ofMachine = _ at h
  unfold Matcher.result at h
  cases ho : (m.search settings d tokens graph).outcome with
  | matched | mismatched | limited => rw [ho] at h; cases h
  | failed error =>
      rw [ho] at h
      cases h
      exact ⟨error, rfl, rfl⟩

/-- **The check of the references predicts every error about a reference.** For a dictionary made by
additions, and by look-ups with settings that say how to compile, whatever the settings and the matcher
of a match are: if a match of tokens against the graph of an entry fails for a reference, the check
finds it. The check finds exactly the references that a grammar of the dictionary mentions and no entry
answers, and each of them once. -/
theorem missingReferences_predicts {d : Dictionary} {env : Reference → Option Meaning}
    (hd : d.Means Settings.SaysFolding env) :
    (∀ r compiling graph, d.resolve compiling r = .ok (some graph) →
      ∀ (m : Matcher) (matching : Settings) (tokens : List Token) (r' : Reference),
        (m.runWith matching d tokens graph).1 = .error (.reference r') →
          r' ∈ d.missingReferences) ∧
    (∀ r', r' ∈ d.missingReferences ↔
      (∃ r e, d.find? r = some e ∧ e.grammar.Mentions r') ∧ d.find? r' = none) ∧
    d.missingReferences.Nodup := by
  refine ⟨fun r compiling graph hgraph m matching tokens r' herror => ?_,
    fun _ => Dictionary.mem_missingReferences_iff, d.nodup_missingReferences⟩
  have hroot : graph.root.Tame (Dictionary.Mentioned env) := by
    have hanswer := hd.answers compiling r
    rw [Dictionary.roots, hgraph] at hanswer
    cases hanswer with
    | some htame => exact htame
  obtain ⟨error, hfailed, he⟩ := outcome_of_error herror
  obtain ⟨c, c', hc, hs⟩ := Machine.run_failed hfailed
  obtain ⟨⟨r₀, g, hg, hmentions⟩, hnone⟩ := hd.mentioned_of_failed rfl hroot hc hs he
  obtain ⟨e, hfind, rfl, -⟩ := hd.find?_of_grammar hg
  exact Dictionary.mem_missingReferences_iff.mpr
    ⟨⟨r₀, e, hfind, hmentions⟩, hd.find?_eq_none hnone⟩

/-- The type `<f>` is `<g> x`, and `<g>` is `<k> | <h>`, where `<k>` takes all the tokens there are. -/
def danglingDictionary : Dictionary :=
  ((Dictionary.empty.addGeneric "k" fun ahead _ => ahead.length).put ⟨.type, "f"⟩
      ⟨.row [.type "g" none, .keyword "x"], "<g> x", .pending⟩).put ⟨.type, "g"⟩
    ⟨.group .one [.type "k" none, .type "h" none] false false, "<k> | <h>", .pending⟩

/-- The match of `z` against `<f>` comes across `<h>` in the scope of `<g>`, after `<k>` left nothing
for `x`. -/
theorem missingReferences_predicts_dangling :
    ∃ env graph, danglingDictionary.Means Settings.SaysFolding env ∧
      danglingDictionary.resolve .standard ⟨.type, "f"⟩ = .ok (some graph) ∧
      (runWith ⟨1000, true, Token.isSignificant⟩ .standard danglingDictionary
        [⟨.ident, "z", none⟩] graph).1 = .error (.reference ⟨.type, "h"⟩) ∧
      ⟨.type, "h"⟩ ∈ danglingDictionary.missingReferences ∧
      (∀ r', r' ∈ danglingDictionary.missingReferences ↔
        (∃ r e, danglingDictionary.find? r = some e ∧ e.grammar.Mentions r') ∧
          danglingDictionary.find? r' = none) ∧
      danglingDictionary.missingReferences.Nodup := by
  have hf : Grammar.parse "<g> x" = .ok (.row [.type "g" none, .keyword "x"]) := rfl
  have hg : Grammar.parse "<k> | <h>" =
      .ok (.group .one [.type "k" none, .type "h" none] false false) := rfl
  have hd : danglingDictionary.Means Settings.SaysFolding _ :=
    .add (.add (.addGeneric .empty) hf (r := ⟨.type, "f"⟩) rfl) hg (r := ⟨.type, "g"⟩) rfl
  have hgraph : danglingDictionary.resolve .standard ⟨.type, "f"⟩ =
      .ok (some (foldedGraph "<g> x" (.row [.type "g" none, .keyword "x"]))) := rfl
  have herror : (runWith ⟨1000, true, Token.isSignificant⟩ .standard danglingDictionary
      [⟨.ident, "z", none⟩] (foldedGraph "<g> x" (.row [.type "g" none, .keyword "x"]))).1 =
        .error (.reference ⟨.type, "h"⟩) := rfl
  obtain ⟨hpredicts, hmissing, hnodup⟩ := missingReferences_predicts hd
  exact ⟨_, _, hd, hgraph, herror, hpredicts _ _ _ hgraph _ _ _ _ herror, hmissing, hnodup⟩

end Matcher

end ValueGrammar

import ValueGrammar.Proofs.Machine.Steps
import ValueGrammar.Proofs.Meaning
import ValueGrammar.Proofs.Tame
import ValueGrammar.Proofs.Views

/-!
# `ValueGrammar.Proofs.Safety` — a match never goes wrong

A machine has stacks that it takes things from without asking whether there are any: scopes that are
left until those of a continuation are reached, records of opened scopes that are erased, alternatives
to go back to. And there is a state that cannot be looked at by itself. This module shows that nothing
of this goes wrong in a run that starts with a compiled grammar, neither on the path it is on nor on any
of the paths it may still go back to.

## Contents
- `State.IsCompiled`, `Dictionary.Built`: compiled states, and dictionaries that lead to them.
- `Nested.pairwise`, `Unclosed.opened`: the scopes of continuations, and the record of an open scope.
- `Config.Safe`, `Machine.FromLookup`, `Machine.Safe`: what can go wrong, and does not.
- `Machine.step_reject_cases`: what a failure leads to.
- `Matcher.safe_of_isCompiled`: every configuration of every run.
-/

namespace ValueGrammar

/-! ## Compiled states -/

/-- The state was compiled from a grammar, read or made by hand, or recognizes a generic type. -/
def State.IsCompiled (s : State) : Prop :=
  (∃ fold g, (Compiler.standard fold).compile g = .ok s) ∨
    ∃ name count, s = (Graph.ofRecognition name count).root

theorem State.IsCompiled.tame {s : State} (h : s.IsCompiled) : s.Tame fun _ => True := by
  rcases h with ⟨fold, g, hc⟩ | ⟨name, count, rfl⟩
  · exact Compiler.tame_compile g (fun _ _ => trivial) hc
  · exact .leaf

namespace Dictionary

/-- What the dictionary has built so far was compiled; the grammars of the other entries may be any,
read or made by hand. -/
def Built (d : Dictionary) : Prop :=
  ∀ r e graph, d.find? r = some e → e.compiled = .built graph → graph.root.IsCompiled

variable {p : Settings → Prop} {d : Dictionary} {env : Reference → Option Meaning}

/-- A dictionary made by additions and look-ups is built. -/
theorem Means.built (h : d.Means p env) : d.Built := by
  intro r e graph he hb
  have hentry := h.find? r
  rw [he] at hentry
  rcases hentry with ⟨-, -, hbuilt⟩ | ⟨name, count, -, -, hgeneric⟩
  · obtain ⟨fold, -, hc⟩ := hbuilt graph hb
    exact .inl ⟨fold, e.grammar, hc⟩
  · rw [hgeneric] at hb
    cases hb
    exact .inr ⟨name, count, rfl⟩

/-- References lead to compiled states: an entry that is not built yet is compiled when it is looked
up. -/
theorem Built.roots (h : d.Built) {settings : Settings} {r : Reference} {root : State}
    (hr : d.roots settings r = .ok (some root)) : root.IsCompiled := by
  obtain ⟨graph, hgraph, rfl⟩ := roots_ok hr
  unfold Dictionary.resolve at hgraph
  split at hgraph
  · rename_i e he
    unfold Definition.resolve at hgraph
    split at hgraph
    · cases hg : Graph.ofGrammar settings e.source e.grammar with
      | error err => rw [hg] at hgraph; cases hgraph
      | ok graph' =>
          rw [hg] at hgraph
          cases hgraph
          obtain ⟨fold, -, hroot, -⟩ := Graph.ofGrammar_ok hg
          exact .inl ⟨fold, e.grammar, hroot⟩
    · rename_i graph' hb
      cases hgraph
      exact h r e graph he hb
    · cases hgraph
    · cases hgraph
  · cases hgraph

end Dictionary

/-! ## Scopes and records -/

/-- The scopes of a continuation are those around the scopes of the path and of every continuation
before it. -/
theorem Nested.pairwise {scopes : List Scope} {thens : List Then} (h : Nested scopes thens) :
    (scopes :: thens.map Then.scopes).Pairwise fun inner outer => outer <:+ inner := by
  induction thens generalizing scopes with
  | nil => exact List.pairwise_singleton _ _
  | cons t thens ih =>
      have htail := ih h.2
      refine List.pairwise_cons.mpr ⟨fun outer houter => ?_, htail⟩
      rcases List.mem_cons.mp houter with rfl | houter
      · exact h.1
      · exact ((List.pairwise_cons.mp htail).1 outer houter).trans h.1

namespace Unclosed

variable {scopes outer : List Scope} {s : Scope} {tr : Trace}

/-- Where the last record opens a scope, it is the innermost of those that are not closed, and the
scopes around it are not closed in the records before. -/
theorem opened {node : Grammar} (h : Unclosed (s :: outer) (Entry.opened node :: tr).reverse) :
    node = s.node ∧ Unclosed outer tr.reverse := by
  rw [List.reverse_cons] at h
  generalize hes : tr.reverse ++ [Entry.opened node] = es at h
  cases h with
  | @scope _ _ es inner h hi =>
      cases hlast : inner.getLast? with
      | none =>
          rw [List.getLast?_eq_none_iff.mp hlast] at hes
          obtain ⟨hbefore, hnode⟩ := List.append_inj' hes rfl
          cases hnode
          rw [hbefore]
          exact ⟨rfl, h⟩
      | some last =>
          -- the records inside a scope do not end with an opened one
          refine absurd ?_ (hi.getLast?_ne_opened node)
          have hboth := congrArg List.getLast? hes
          rw [List.getLast?_concat, List.getLast?_append, List.getLast?_cons, hlast] at hboth
          rw [hlast]
          exact hboth.symm

/-- Leaving the innermost `n` scopes leaves the others open. -/
theorem drop (h : Unclosed scopes tr.reverse) (n : Nat) :
    Unclosed (scopes.drop n) (tr.closing (scopes.take n)).reverse := by
  refine closing (scopes.take n) ?_
  rw [List.take_append_drop]
  exact h

end Unclosed

/-! ## What can go wrong -/

/-- Nothing goes wrong on the path of the configuration. -/
structure Config.Safe (c : Config) : Prop where
  /-- it does not look at the check that a token was taken, which is not a state by itself -/
  focus : c.focus ≠ .state .nonEmpty
  /-- the scopes of every continuation are those around the scopes of the configuration, and of the
  continuations before it -/
  nested : (c.scopes :: c.thens.map Then.scopes).Pairwise fun inner outer => outer <:+ inner
  /-- leaving scopes leads to those of a continuation, and there is always one left to leave -/
  closeTo : ∀ t ∈ c.thens, (c.closeTo t.scopes).scopes = t.scopes ∧
    ∀ n < c.scopes.length - t.scopes.length, (c.closeScopes n).scopes ≠ []
  /-- a record that is erased when a scope is left is the one of that scope: what is recorded below it
  leaves just the scopes around it open -/
  opened : ∀ n s outer node rest, (c.closeScopes n).scopes = s :: outer →
    (c.closeScopes n).trace = .opened node :: rest → node = s.node ∧ Unclosed outer rest.reverse

/-- The error is that of looking a reference up. -/
def Machine.FromLookup {ε : Type} (m : Machine ε) (error : MachineError ε) : Prop :=
  ∃ r, (error = .unresolved r ∧ m.resolve r = .ok none) ∨
    ∃ e, error = .lookup e ∧ m.resolve r = .error e

/-- Nothing goes wrong in the configuration of a machine. -/
structure Machine.Safe {ε : Type} (m : Machine ε) (c : Config) : Prop where
  here : c.Safe
  /-- nor when it goes back to an alternative, or to what was put off or an alternative below that -/
  saved : ∀ e ∈ c.elses ++ c.putOff, ∀ elses, (c.restore e elses).Safe
  /-- a failure ends the run where nothing is left to go back to, and only there -/
  reject : c.focus = .state .reject →
    (c.elses = [] ∧ (c.stash = none ∨ c.stashUsed = true) ∧ m.step c = .finished false c) ∨
      ∃ e elses c', (c.elses = e :: elses ∨ c.stash = some (e, elses)) ∧ m.step c = .next c' ∧
        c'.here = e ∧ c'.elses = elses
  /-- no step fails but by looking a reference up -/
  failed : ∀ error c', m.step c = .failed error c' → m.FromLookup error

theorem Config.safe_of_here {ts : List Token} {p : Reference → Prop} {c : Config}
    (hcoherent : c.here.Coherent ts) (hunclosed : c.here.Unclosed) (htame : c.here.Tame p) :
    c.Safe := by
  have hpairwise := hcoherent.nested.pairwise
  have houter : ∀ t ∈ c.thens, t.scopes <:+ c.scopes := fun t ht =>
    (List.pairwise_cons.mp hpairwise).1 _ (List.mem_map_of_mem ht)
  refine ⟨fun hf => ?_, hpairwise, fun t ht => ⟨?_, fun n hn => ?_⟩, ?_⟩
  · exact (htame.state hf).ne_nonEmpty rfl
  · rw [closeTo_eq]
    exact Else.leave_scopes (houter t ht)
  · rw [closeScopes_eq]
    exact List.ne_nil_of_length_pos (by rw [List.length_drop]; omega)
  · intro n s outer node rest hscopes htrace
    rw [closeScopes_eq] at hscopes htrace
    have hdrop := Unclosed.drop hunclosed n
    change Unclosed (c.scopes.drop n) (c.trace.closing (c.scopes.take n)).reverse at hdrop
    change c.scopes.drop n = _ at hscopes
    change c.trace.closing (c.scopes.take n) = _ at htrace
    rw [hscopes, htrace] at hdrop
    exact hdrop.opened

namespace Machine

variable {ε : Type} {m : Machine ε} {c : Config}

/-- **What a failure leads to**: the end of the run if nothing is left to go back to, else an
alternative or what was put off. -/
theorem step_reject_cases (hf : c.focus = .state .reject) :
    (c.elses = [] ∧ (c.stash = none ∨ c.stashUsed = true) ∧ m.step c = .finished false c) ∨
      ∃ e elses c', (c.elses = e :: elses ∨ c.stash = some (e, elses)) ∧ m.step c = .next c' ∧
        c'.here = e ∧ c'.elses = elses := by
  -- what was put off is tried unless an alternative of this place is left
  have hretry : (∀ e' ∈ c.elses.head?, e'.index < c.index) →
      ¬ (c.stash = none ∨ c.stashUsed = true) → ∃ e elses c',
        (c.elses = e :: elses ∨ c.stash = some (e, elses)) ∧ m.step c = .next c' ∧
          c'.here = e ∧ c'.elses = elses := by
    intro hd hs
    rw [not_or, Bool.not_eq_true] at hs
    obtain ⟨⟨e, elses⟩, hstash⟩ := Option.ne_none_iff_exists'.mp hs.1
    exact ⟨e, elses, _, .inr hstash, step_reject_retry hf hstash hs.2 hd, rfl, rfl⟩
  by_cases hs : c.stash = none ∨ c.stashUsed = true
  · cases he : c.elses with
    | nil => exact .inl ⟨rfl, hs, step_reject_nil hf he hs⟩
    | cons e elses =>
        have hpop : m.step c = _ := step_reject_pop hf he (or_assoc.mp (.inl hs))
        exact .inr ⟨e, elses, _, .inl rfl, hpop, rfl, rfl⟩
  · cases he : c.elses with
    | nil =>
        rw [he] at hretry
        exact .inr (hretry (by simp) hs)
    | cons e elses =>
        by_cases hle : c.index ≤ e.index
        · exact .inr ⟨e, elses, _, .inl rfl, step_reject_pop hf he (.inr (.inr hle)), rfl, rfl⟩
        · rw [he] at hretry
          refine .inr (hretry ?_ hs)
          simpa using hle

/-- **Nothing goes wrong in a run** that starts with a compiled state, where references lead to
compiled states. -/
theorem Leads.safe {root : State} (h : m.Leads (.start root) c) (hroot : root.IsCompiled)
    (hroots : ∀ r root, m.resolve r = .ok (some root) → root.IsCompiled) : m.Safe c := by
  have hcoherent := h.coherent
  have hunclosed := h.unclosed
  have htame := h.tame hroot.tame fun r root hr => (hroots r root hr).tame
  have hhere : c.Safe := by
    have hmem : c.here ∈ c.paths := List.mem_append_left _ List.mem_cons_self
    exact Config.safe_of_here (hcoherent _ hmem) (hunclosed _ hmem) (htame _ hmem)
  refine ⟨hhere, fun e he elses => ?_, step_reject_cases, fun error c' hs => ?_⟩
  · have hmem : e ∈ c.paths := by
      rcases List.mem_append.mp he with he | he
      · exact List.mem_append_left _ (List.mem_cons_of_mem _ he)
      · exact List.mem_append_right _ he
    exact Config.safe_of_here (c := c.restore e elses) (hcoherent e hmem) (hunclosed e hmem)
      (htame e hmem)
  · have hfails := step_failed hs
    generalize c'.notes = notes at hfails
    cases hfails with
    | stuck hf => exact absurd hf hhere.focus
    | @unresolved r _ _ _ hr => exact ⟨r, .inl ⟨rfl, hr⟩⟩
    | @lookup r _ _ e _ hr => exact ⟨r, .inr ⟨e, rfl, hr⟩⟩

end Machine

/-! ## Matches -/

namespace Matcher

/-- **A match of a compiled grammar never goes wrong.** Whatever the tokens, the settings and the
matcher are, and for every dictionary of grammars and generic types, nothing goes wrong in any
configuration that a run leads to, and a run that ends without an answer does so because of a
reference. -/
theorem safe_of_isCompiled {root : State} {d : Dictionary} (hroot : root.IsCompiled) (hd : d.Built)
    (m : Matcher) (settings : Settings) (tokens : List Token) :
    (∀ c, (m.machine tokens (d.roots settings)).Leads (.start root) c →
      (m.machine tokens (d.roots settings)).Safe c) ∧
    ∀ limit error, ((m.machine tokens (d.roots settings)).run limit root).outcome = .failed error →
      (m.machine tokens (d.roots settings)).FromLookup error := by
  have hsafe : ∀ c, (m.machine tokens (d.roots settings)).Leads (.start root) c →
      (m.machine tokens (d.roots settings)).Safe c :=
    fun c hc => hc.safe hroot fun _ _ hr => hd.roots hr
  refine ⟨hsafe, fun limit error hfailed => ?_⟩
  obtain ⟨c, c', hc, hs⟩ := Machine.run_failed hfailed
  exact (hsafe c hc).failed error c' hs

/-- The type `<f>` is `<custom-ident> | y`, and `<custom-ident>` is a generic type. -/
def deferringDictionary : Dictionary :=
  (Dictionary.addGeneric .empty "custom-ident" Recognizer.customIdent).put ⟨.type, "f"⟩
    ⟨.group .one [.type "custom-ident" none, .keyword "y"] false false, "<custom-ident> | y",
      .pending⟩

/-- The state of `<f> x`. -/
def deferringRoot : State :=
  (Compiler.standard true).stateOf (.row [.type "f" none, .keyword "x"])

/-- The machine that matches `y x` against `<f> x`. -/
def deferringMachine : Machine Error :=
  machine ⟨1000, true, Token.isSignificant⟩ [⟨.ident, "y", none⟩, ⟨.ident, "x", none⟩]
    (deferringDictionary.roots .standard)

/-- Inside the scope of `<f>` the type `<custom-ident>` is put off, with an alternative and a
continuation left. -/
theorem safe_of_isCompiled_deferring :
    deferringRoot.IsCompiled ∧ deferringDictionary.Built ∧
      ∃ c, deferringMachine.Leads (.start deferringRoot) c ∧ c.focus = .state .reject ∧
        c.scopes.length = 1 ∧ c.thens.length = 1 ∧ c.elses.length = 1 ∧ c.stash.isSome = true ∧
        deferringMachine.Safe c ∧
        ∀ limit error, (deferringMachine.run limit deferringRoot).outcome = .failed error →
          deferringMachine.FromLookup error := by
  have hroot : deferringRoot.IsCompiled := .inl ⟨true, .row [.type "f" none, .keyword "x"], rfl⟩
  have hparse : Grammar.parse "<custom-ident> | y" =
      .ok (.group .one [.type "custom-ident" none, .keyword "y"] false false) := rfl
  have hd : deferringDictionary.Means (fun _ => True) _ :=
    .add (.addGeneric .empty) hparse (r := ⟨.type, "f"⟩) rfl
  have hsafe := safe_of_isCompiled hroot hd.built ⟨1000, true, Token.isSignificant⟩ .standard
    [⟨.ident, "y", none⟩, ⟨.ident, "x", none⟩]
  have hleads : ∃ c, deferringMachine.Leads (.start deferringRoot) c ∧ c.focus = .state .reject ∧
      c.scopes.length = 1 ∧ c.thens.length = 1 ∧ c.elses.length = 1 ∧ c.stash.isSome = true :=
    ⟨_, .head rfl (.head rfl (.head rfl (.head rfl .refl))), rfl, rfl, rfl, rfl, rfl⟩
  obtain ⟨c, hc, hf, hscopes, hthens, helses, hstash⟩ := hleads
  exact ⟨hroot, hd.built, c, hc, hf, hscopes, hthens, helses, hstash, hsafe.1 c hc, hsafe.2⟩

end Matcher

end ValueGrammar

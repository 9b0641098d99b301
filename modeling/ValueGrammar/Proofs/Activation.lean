import ValueGrammar.Proofs.Folding
import ValueGrammar.Proofs.Furthest
import ValueGrammar.Proofs.Machine.Trials
import ValueGrammar.Proofs.Safety

/-!
# `ValueGrammar.Proofs.Activation` — the bits of a group are the terms that have matched

A group in any order is compiled if it has at most as many terms as a word has bits. In every
configuration that a run leads to, the bits that a path has for a group are just the terms that have
matched on it since the group was entered, and the bits in a continuation are these and the term that
is being matched. So no term is entered that has matched, and what the bits say about the end of a group
can be said of its terms.

## Contents
- `Grammar.Combined`, `Grammar.Oversized`, `Compiler.error_iff`: which grammars cannot be compiled.
- `Machine.Exact`, `Machine.Recorded.exact`: the groups on a path.
- `Machine.Yields`, `Machine.yields_iff`: the end of a group.
- `Machine.Tallies`, `Matcher.tallies_of_isCompiled`: every configuration of every run.
-/

namespace ValueGrammar

open Relation

/-! ## Compiling groups -/

namespace Grammar

/-- Every group in the grammar has one of the combinators that there are. -/
def Combined (g : Grammar) : Prop :=
  ∀ combinator terms b n, .group combinator terms b n ∈ g.nodes → ∀ code, combinator ≠ .other code

/-- A group in any order in the grammar has more terms than a word has bits. -/
def Oversized (g : Grammar) : Prop :=
  ∃ combinator terms b n, .group combinator terms b n ∈ g.nodes ∧
    (combinator = .all ∨ combinator = .any) ∧ 64 < terms.length

end Grammar

namespace Compiler

variable {c : Compiler} {terms : List Grammar} {combinator : Combinator} {b n : Bool} {t : Grammar}

theorem compileAll_error_iff :
    (∃ e, c.compileAll terms = .error e) ↔ ∃ t ∈ terms, ∃ e, c.compile t = .error e := by
  constructor
  · rintro ⟨e, h⟩
    obtain ⟨t, ht, he⟩ := exists_of_compileAll_error h
    exact ⟨t, ht, e, he⟩
  · rintro ⟨t, ht, e, he⟩
    cases hts : c.compileAll terms with
    | error e' => exact ⟨e', rfl⟩
    | ok pairs =>
        rw [(compileAll_ok hts).2 t ht] at he
        cases he

theorem grouped_error_iff {node : Grammar} {pairs : List (Grammar × State)}
    (hc : ∀ code, combinator ≠ .other code) :
    (∃ e, c.grouped node combinator pairs = .error e) ↔
      (combinator = .all ∨ combinator = .any) ∧ 64 < pairs.length := by
  have hlength : (pairs.map (·.2)).length = pairs.length := List.length_map _
  cases combinator with
  | juxtapose | one =>
      constructor
      · rintro ⟨e, he⟩
        cases he
      · rintro ⟨h | h, -⟩
        · cases h
        · cases h
  | other code => exact absurd rfl (hc code)
  | all | any =>
      constructor
      · rintro ⟨e, he⟩
        simp only [grouped] at he
        split at he
        · cases he
        · split at he
          · rename_i hlt
            exact ⟨by simp, hlength ▸ hlt⟩
          · cases he
      · rintro ⟨-, hlt⟩
        rw [← hlength] at hlt
        simp only [grouped]
        split
        · rename_i term hterm
          rw [hterm, List.length_singleton] at hlt
          omega
        · exact ⟨_, if_pos hlt⟩

theorem compile_group_error_iff (hc : ∀ code, combinator ≠ .other code) :
    (∃ e, c.compile (.group combinator terms b n) = .error e) ↔
      (∃ t ∈ terms, ∃ e, c.compile t = .error e) ∨
        (combinator = .all ∨ combinator = .any) ∧ 64 < terms.length := by
  rw [← compileAll_error_iff, compile]
  cases hts : c.compileAll terms with
  | error e =>
      constructor
      · rintro -
        exact .inl ⟨e, rfl⟩
      · rintro -
        exact ⟨e, rfl⟩
  | ok pairs =>
      have hlength : pairs.length = terms.length := by
        rw [(compileAll_ok hts).1, List.length_map]
      have hgrouped : (∃ e, c.grouped (.group combinator terms b n) combinator pairs = .error e) ↔ _ :=
        grouped_error_iff hc
      rw [← hlength, ← hgrouped]
      cases hs : c.grouped (.group combinator terms b n) combinator pairs with
      | error e => simp [bind, Except.bind, hs]
      | ok state => simp [bind, Except.bind, hs, pure, Except.pure]

theorem compile_multiplier_error_iff {min : Int} {max : Option Int} {separated : Bool} :
    (∃ e, c.compile (.multiplier t min max separated) = .error e) ↔ ∃ e, c.compile t = .error e := by
  rw [compile]
  cases ht : c.compile t with
  | error e =>
      constructor
      · rintro -
        exact ⟨e, rfl⟩
      · rintro -
        exact ⟨e, rfl⟩
  | ok s =>
      constructor
      · rintro ⟨e, he⟩
        cases he
      · rintro ⟨e, he⟩
        cases he

/-- **A grammar cannot be compiled if and only if a group in any order has too many terms.** The
induction is on the grammar. -/
theorem error_iff {g : Grammar} (hg : g.Combined) :
    (∃ e, c.compile g = .error e) ↔ g.Oversized := by
  induction g using Grammar.nodeInduction with
  | group combinator terms b n ih =>
      have hself := Grammar.self_mem_nodes (.group combinator terms b n)
      rw [compile_group_error_iff (hg combinator terms b n hself)]
      constructor
      · rintro (⟨t, ht, he⟩ | ⟨hc, hlt⟩)
        · obtain ⟨c', ts, b', n', hmem, hover⟩ :=
            (ih t ht fun c' ts b' n' hmem => hg c' ts b' n' (Grammar.mem_nodes_group ht hmem)).mp he
          exact ⟨c', ts, b', n', Grammar.mem_nodes_group ht hmem, hover⟩
        · exact ⟨combinator, terms, b, n, hself, hc, hlt⟩
      · rintro ⟨c', ts, b', n', hmem, hover⟩
        rw [Grammar.nodes_group] at hmem
        rcases List.mem_cons.mp hmem with heq | hmem
        · cases heq
          exact .inr hover
        · obtain ⟨t, ht, hmem⟩ := List.mem_flatMap.mp hmem
          refine .inl ⟨t, ht, (ih t ht fun c' ts b' n' hmem => ?_).mpr ⟨c', ts, b', n', hmem, hover⟩⟩
          exact hg c' ts b' n' (Grammar.mem_nodes_group ht hmem)
  | multiplier t min max separated ih =>
      have hmem_iff : ∀ c' ts b' n', Grammar.group c' ts b' n' ∈
          (Grammar.multiplier t min max separated).nodes ↔ .group c' ts b' n' ∈ t.nodes := by
        intro c' ts b' n'
        rw [Grammar.nodes_multiplier, List.mem_cons]
        exact ⟨fun h => h.resolve_left (by simp), .inr⟩
      rw [compile_multiplier_error_iff, ih fun c' ts b' n' hmem =>
        hg c' ts b' n' ((hmem_iff c' ts b' n').mpr hmem)]
      unfold Grammar.Oversized
      simp only [hmem_iff]
  | leaf g hgroup hmultiplier =>
      have hnone : ∀ c' ts b' n', .group c' ts b' n' ∉ g.nodes := by
        intro c' ts b' n' hmem
        cases g with
        | group c'' ts' b'' n'' => exact hgroup c'' ts' b'' n'' rfl
        | multiplier t min max separated => exact hmultiplier t min max separated rfl
        | _ => cases List.mem_singleton.mp hmem
      constructor
      · rintro ⟨e, he⟩
        cases g with
        | group c'' ts' b'' n'' => exact absurd rfl (hgroup c'' ts' b'' n'')
        | multiplier t min max separated => exact absurd rfl (hmultiplier t min max separated)
        | _ =>
            rw [compile] at he
            cases he
      · rintro ⟨c', ts, b', n', hmem, -⟩
        exact absurd hmem (hnone c' ts b' n')

end Compiler

namespace Machine

variable {ε : Type} {m : Machine ε} {root : State} {c c' : Config} {g : Group} {p : Else}

/-! ## The groups on a path -/

/-- The path remembers of the groups in any order that it is in what has happened in them. -/
structure Exact (m : Machine ε) (start p : Else) : Prop where
  group : ∀ g taken, p.At g taken → g.terms.length ≤ 64 ∧
    (∃ entry matched tried,
      ReflTransGen m.Becomes start entry ∧ m.Activation g entry matched tried p) ∧
    ∀ entry matched tried, m.Activation g entry matched tried p → Remembers g matched tried taken p
  /-- the bits of a continuation are the terms that had matched and the one that is being matched -/
  thens : ∀ g taken t rest, t :: rest <:+ p.thens → t.next = Group.resume g taken →
    g.terms.length ≤ 64 ∧ (∃ matched n, m.Awaits start g (t :: rest) matched n p) ∧
    ∀ matched n, m.Awaits start g (t :: rest) matched n p → Counts g (matched ++ [n]) taken
  /-- a continuation goes back to a group only after a term -/
  plain : ∀ t ∈ p.thens, ∀ g index taken, t.next ≠ Group.choose g index taken

variable {entry body start : Else} {matched tried : List Nat} {n index : Nat} {taken : TermSet}

/-- What a path remembers is what has happened, whatever way it has happened in. -/
theorem Activation.remembers_of_at (h : m.Activation g entry matched tried p)
    (hlen : g.terms.length ≤ 64) (hat : p.At g taken) : Remembers g matched tried taken p := by
  obtain ⟨taken', hr⟩ := h.remembers hlen
  rwa [hr.isAt.taken_eq hat] at hr

/-- Where a term of a group is being matched, the bits that are put off are the terms that have matched
and this one. -/
theorem Awaits.counts {t : Then} {rest : List Then} (h : m.Awaits start g (t :: rest) matched n p)
    (hlen : g.terms.length ≤ 64) (ht : t.next = g.resume taken) : Counts g (matched ++ [n]) taken := by
  obtain ⟨entry, tried, e, body, other, -, ha, he, hb, -⟩ := h
  have he' := he
  obtain ⟨hf, -, -, -⟩ := he
  have hr := ha.remembers_of_at hlen (.inl ⟨_, hf⟩)
  obtain ⟨hlt, hn, -, -, hthens⟩ := hr.enters he'
  rw [hb] at hthens
  obtain ⟨rfl, -⟩ := List.cons.inj hthens
  obtain ⟨-, rfl⟩ := Group.resume_inj ht
  exact hr.toCounts.insert hlen hlt hn

/-- A path of states that are compiled remembers what has happened. -/
theorem Recorded.exact (h : m.Recorded start p) (hregular : p.Regular) : m.Exact start p where
  group := by
    intro g taken hat
    have hfits := hregular.next
    have hlen : g.terms.length ≤ 64 := by
      rcases hat with ⟨index, hn⟩ | hn
      · rw [hn] at hfits
        exact hfits.1
      · rw [hn] at hfits
        exact hfits.1
    exact ⟨hlen, h.group g taken hat, fun _ _ _ ha => ha.remembers_of_at hlen hat⟩
  thens := by
    intro g taken t rest hs hn
    have hfits := hregular.thens t (hs.subset List.mem_cons_self)
    rw [hn] at hfits
    exact ⟨hfits.1, h.thens g taken t rest hs hn, fun _ _ ha => ha.counts hfits.1 hn⟩
  plain := h.plain

/-! ## The end of a group -/

/-- The group succeeds where the machine is: at once, or as soon as it has seen that no term is
left. -/
def Yields (m : Machine ε) (g : Group) (c : Config) : Prop :=
  m.step c = .next (c.goto .accept) ∨
    ∃ c', m.step c = .next c' ∧ g.Skips c.here c'.here ∧ m.step c' = .next (c'.goto .accept)

/-- What has happened in a group suffices for it: all of its terms have matched; or it needs only some,
one has matched, and the others were tried after the last one that has. -/
def Suffices (g : Group) (matched tried : List Nat) : Prop :=
  g.terms ≠ [] ∧ ((∀ i < g.terms.length, i ∈ matched) ∨
    g.all = false ∧ matched ≠ [] ∧ ∀ i < g.terms.length, i ∉ matched → i ∈ tried)

theorem Counts.eq_empty_iff (h : Counts g matched taken) : taken = .empty ↔ matched = [] := by
  constructor
  · rintro rfl
    refine List.eq_nil_iff_forall_not_mem.mpr fun i hi => ?_
    have hhas := (h.has_iff i).mpr hi
    rw [TermSet.has_empty] at hhas
    cases hhas
  · rintro rfl
    refine TermSet.ext_has fun i _ => ?_
    rw [TermSet.has_empty]
    exact Bool.eq_false_iff.mpr fun hi => List.not_mem_nil ((h.has_iff i).mp hi)

theorem Counts.eq_full_iff (h : Counts g matched taken) (hlen : g.terms.length ≤ 64) :
    taken = .full g.terms.length ↔ ∀ i < g.terms.length, i ∈ matched := by
  constructor
  · rintro rfl i hi
    rw [← h.has_iff, TermSet.has_full hlen, decide_eq_true_eq]
    exact hi
  · intro hall
    have hbelow : taken.Below g.terms.length := fun i hi => h.lt i ((h.has_iff i).mp hi)
    exact hbelow.eq_full hlen fun i hi => (h.has_iff i).mpr (hall i hi)

section yields

variable (hf : c.focus = g.choose index taken)

include hf

theorem step_last_accepts_iff (hi : index = g.terms.length) :
    m.step c = .next (c.goto .accept) ↔ taken ≠ .empty ∧ g.all = false := by
  rw [step_choose_last hf hi]
  by_cases hreject : (taken = TermSet.empty || g.all) = true
  · rw [if_pos hreject]
    constructor
    · intro h
      cases congrArg Config.focus (Step.next.inj h)
    · rintro ⟨hne, hall⟩
      simp [hne, hall] at hreject
  · rw [if_neg hreject]
    simpa using hreject

/-- Where every term was tried, a group succeeds if it needs only some and one has matched. -/
theorem yields_last_iff (hi : index = g.terms.length) :
    m.Yields g c ↔ taken ≠ .empty ∧ g.all = false := by
  rw [← step_last_accepts_iff (m := m) hf hi]
  constructor
  · rintro (h | ⟨c', -, hskip, -⟩)
    · exact h
    · generalize c'.here = p at hskip
      obtain ⟨hf', hi', -, -⟩ := hskip
      obtain ⟨-, rfl, -⟩ := Group.choose_inj (hf.symm.trans hf')
      exact absurd hi hi'
  · exact .inl

theorem yields_full (hi : index ≠ g.terms.length) (ht : taken = .full g.terms.length) :
    m.Yields g c :=
  .inl (step_choose_full hf hi ht)

theorem yields_skip_iff (hi : index ≠ g.terms.length) (ht : taken ≠ .full g.terms.length)
    (hn : nextTerm? taken index (g.terms.drop index) = none) :
    m.Yields g c ↔ taken ≠ .empty ∧ g.all = false := by
  have hskip := step_choose_skip (m := m) hf hi ht hn
  rw [← step_last_accepts_iff (c := { c with focus := g.choose g.terms.length taken }) (m := m)
    rfl rfl]
  constructor
  · rintro (h | ⟨c', hs, -, h⟩)
    · rw [hskip] at h
      cases congrArg Config.focus (Step.next.inj h)
    · rw [hskip] at hs
      rw [← Step.next.inj hs] at h
      exact h
  · exact fun h => .inr ⟨_, hskip, .skip hf hi ht hn, h⟩

/-- Where a term is left, it is entered. -/
theorem not_yields_pick {s : State} (hi : index ≠ g.terms.length) (ht : taken ≠ .full g.terms.length)
    (hn : nextTerm? taken index (g.terms.drop index) = some (n, s)) : ¬ m.Yields g c := by
  rintro (h | ⟨c', -, hskip, -⟩)
  · rw [step_choose_pick hf hi ht hn] at h
    have hlength := congrArg (fun a : Config => a.elses.length) (Step.next.inj h)
    exact absurd hlength (Nat.succ_ne_self _)
  · generalize c'.here = p at hskip
    obtain ⟨hf', -, -, hn'⟩ := hskip
    obtain ⟨-, rfl, rfl⟩ := Group.choose_inj (hf.symm.trans hf')
    rw [hn] at hn'
    cases hn'

/-- **A group succeeds if and only if what has happened in it suffices.** -/
theorem yields_iff (hr : Remembers g matched tried taken c.here) (hfits : c.focus.Fits) :
    m.Yields g c ↔ Suffices g matched tried := by
  rw [hf] at hfits
  obtain ⟨hlen, -, hle, hstart⟩ := hfits
  have hempty := hr.eq_empty_iff
  have hfull := hr.eq_full_iff hlen
  have htried : ∀ i, i ∈ tried ↔ i < index ∧ i ∉ matched := by
    rcases hr.next with ⟨index', hnext, -, htried⟩ | ⟨hnext, -⟩
    · obtain ⟨-, rfl, -⟩ := Group.choose_inj (hf.symm.trans hnext)
      exact htried
    · cases hf.symm.trans hnext
  -- a group of which not all terms have matched and all that have not were tried
  have hrest : g.terms ≠ [] → taken ≠ .full g.terms.length →
      (∀ i < g.terms.length, i ∉ matched → i ∈ tried) →
      (taken ≠ .empty ∧ g.all = false ↔ Suffices g matched tried) := by
    intro hne hnot hall
    unfold Suffices
    rw [← hfull, Ne, hempty]
    constructor
    · rintro ⟨hmatched, hg⟩
      exact ⟨hne, .inr ⟨hg, hmatched, hall⟩⟩
    · rintro ⟨-, h | ⟨hg, hmatched, -⟩⟩
      · exact absurd h hnot
      · exact ⟨hmatched, hg⟩
  by_cases hi : index = g.terms.length
  · rw [yields_last_iff hf hi]
    by_cases hne : g.terms = []
    · -- a group without terms has no bits
      have hnil : matched = [] := List.eq_nil_iff_forall_not_mem.mpr fun i hmem => by
        have hlt := hr.lt i hmem
        rw [hne] at hlt
        exact Nat.not_lt_zero i hlt
      constructor
      · exact fun h => absurd (hempty.mpr hnil) h.1
      · exact fun h => absurd hne h.1
    · have hpos := List.length_pos_iff.mpr hne
      have hnot : taken ≠ .full g.terms.length := by
        refine hstart.resolve_left ?_
        omega
      exact hrest hne hnot fun i hlt hmem => (htried i).mpr ⟨hi ▸ hlt, hmem⟩
  · have hne : g.terms ≠ [] := by
      rintro hnil
      rw [hnil] at hle hi
      exact hi (Nat.le_zero.mp hle)
    by_cases ht : taken = .full g.terms.length
    · exact ⟨fun _ => ⟨hne, .inl (hfull.mp ht)⟩, fun _ => yields_full hf hi ht⟩
    · cases hn : nextTerm? taken index (g.terms.drop index) with
      | none =>
          rw [yields_skip_iff hf hi ht hn]
          refine hrest hne ht fun i hlt hmem => (htried i).mpr ⟨?_, hmem⟩
          by_contra hge
          refine hmem ((hr.has_iff i).mp (nextTerm?_none hn i (Nat.le_of_not_lt hge) ?_))
          rw [List.length_drop]
          omega
      | some found =>
          obtain ⟨n, s⟩ := found
          obtain ⟨hbefore, -, hfree, -⟩ := nextTerm?_some hn
          have hlt := lt_length_of_nextTerm? hn
          have hmem : n ∉ matched := fun hmem => by
            rw [(hr.has_iff n).mpr hmem] at hfree
            cases hfree
          constructor
          · exact fun h => absurd h (not_yields_pick hf hi ht hn)
          · rintro ⟨-, h | ⟨-, -, h⟩⟩
            · exact absurd (h n hlt) hmem
            · have hindex := ((htried n).mp (h n hlt hmem)).1
              omega

/-- Where a continuation is put off, a term is entered, and it has not matched. -/
theorem enters_of_step (hs : m.step c = .next c') (ht : c'.thens ≠ c.thens) :
    ∃ n other, g.Enters c.here n c'.here other ∧ c'.elses = other :: c.elses ∧
      taken.has n = false := by
  by_cases hi : index = g.terms.length
  · rw [step_choose_last hf hi] at hs
    rw [← Step.next.inj hs] at ht
    exact absurd rfl ht
  by_cases hfull : taken = .full g.terms.length
  · rw [step_choose_full hf hi hfull] at hs
    rw [← Step.next.inj hs] at ht
    exact absurd rfl ht
  cases hn : nextTerm? taken index (g.terms.drop index) with
  | none =>
      rw [step_choose_skip hf hi hfull hn] at hs
      rw [← Step.next.inj hs] at ht
      exact absurd rfl ht
  | some found =>
      obtain ⟨n, s⟩ := found
      rw [step_choose_pick hf hi hfull hn] at hs
      rw [← Step.next.inj hs]
      exact ⟨n, _, .pick hf hi hfull hn, rfl, (nextTerm?_some hn).2.2.1⟩

end yields

/-! ## Runs -/

/-- In a configuration that a run leads to all groups in any order are in good order: on the path the
machine is on, and on those that it may go back to. -/
structure Tallies (m : Machine ε) (root : State) (c : Config) : Prop where
  paths : ∀ p ∈ c.paths, m.Exact (Config.start root).here p
  /-- a term is entered only while its bit is not set -/
  enters : ∀ g index taken c', c.focus = Group.choose g index taken → m.step c = .next c' →
    c'.thens ≠ c.thens →
      ∃ n other, g.Enters c.here n c'.here other ∧ c'.elses = other :: c.elses ∧ taken.has n = false
  yields : ∀ g index taken, c.focus = Group.choose g index taken →
    ∀ entry matched tried, m.Activation g entry matched tried c.here →
      (m.Yields g c ↔ Suffices g matched tried)
  /-- the terms that were tried were entered where the machine is, and have failed -/
  tried : ∀ g index taken, c.focus = Group.choose g index taken →
    ∀ entry matched tried, m.Activation g entry matched tried c.here → ∀ i ∈ tried,
      m.Backtracked root c g i (c.here.goto (g.choose (i + 1) taken))

/-- **All groups in any order are in good order in every configuration of a run** that starts with a
compiled state, where references lead to compiled states. -/
theorem Leads.tallies (h : m.Leads (.start root) c) (hroot : root.Tame fun _ => True)
    (hroots : ∀ r root, m.resolve r = .ok (some root) → root.Tame fun _ => True) :
    m.Tallies root c := by
  have hwalked := h.walked hroots hroot
  have hregular : c.here.Regular :=
    (hwalked.paths c.here (List.mem_append_left _ List.mem_cons_self)).1
  have hremembers : ∀ g index taken, c.focus = Group.choose g index taken →
      ∀ entry matched tried, m.Activation g entry matched tried c.here →
        Remembers g matched tried taken c.here := by
    intro g index taken hf entry matched tried ha
    have hfits : c.focus.Fits := hregular.next
    rw [hf] at hfits
    exact ha.remembers_of_at hfits.1 (.inl ⟨index, hf⟩)
  refine ⟨fun p hp => (h.recorded p hp).exact (hwalked.paths p hp).1, ?_, ?_, ?_⟩
  · exact fun g index taken c' hf => enters_of_step hf
  · intro g index taken hf entry matched tried ha
    exact yields_iff hf (hremembers g index taken hf entry matched tried ha) hregular.next
  · intro g index taken hf entry matched tried ha i hi
    have hr := hremembers g index taken hf entry matched tried ha
    rcases hr.next with ⟨index', hnext, -, htried⟩ | ⟨hnext, -⟩
    · obtain ⟨-, rfl, -⟩ := Group.choose_inj (hf.symm.trans hnext)
      obtain ⟨hlt, hmem⟩ := (htried i).mp hi
      refine h.tried.here g index taken hf i hlt (Bool.eq_false_iff.mpr fun hhas => ?_)
      exact hmem ((hr.has_iff i).mp hhas)
    · cases hf.symm.trans hnext

end Machine

/-! ## Matches -/

namespace Matcher

/-- **The bits of a group in any order are an exact set.** A grammar cannot be compiled just if such a
group has too many terms. Whatever the tokens, the settings and the matcher are, and for every
dictionary of grammars and generic types, all groups are in good order in every configuration that a
run of a compiled grammar leads to. -/
theorem tallies_of_isCompiled {root : State} {d : Dictionary} (hroot : root.IsCompiled) (hd : d.Built)
    (m : Matcher) (settings : Settings) (tokens : List Token) :
    (∀ fold g, Grammar.Combined g →
      ((∃ e, (Compiler.standard fold).compile g = .error e) ↔ g.Oversized)) ∧
    ∀ c, (m.machine tokens (d.roots settings)).Leads (.start root) c →
      (m.machine tokens (d.roots settings)).Tallies root c :=
  ⟨fun _ _ hg => Compiler.error_iff hg,
    fun _ hc => hc.tallies hroot.tame fun _ _ hr => (hd.roots hr).tame⟩

/-- A group in any order of one term more than a word has bits. -/
def crowdedGrammar : Grammar := .group .all (List.replicate 65 (.keyword "a")) false false

theorem combined_crowded : crowdedGrammar.Combined := by
  intro combinator terms b n hmem code
  rw [crowdedGrammar, Grammar.nodes_group] at hmem
  rcases List.mem_cons.mp hmem with heq | hmem
  · cases heq
    nofun
  · obtain ⟨t, ht, hmem⟩ := List.mem_flatMap.mp hmem
    rw [List.eq_of_mem_replicate ht] at hmem
    cases List.mem_singleton.mp hmem

/-- `a || b` -/
def eitherGrammar : Grammar := .group .any [.keyword "a", .keyword "b"] false false

/-- The group that `a || b` is compiled to. -/
def eitherGroup : Group :=
  ⟨[.leaf (.keyword "a") (.keyword "a"), .leaf (.keyword "b") (.keyword "b")], false, eitherGrammar⟩

/-- The machine that matches `b` against it. -/
def eitherMachine : Machine Error :=
  machine ⟨1000, true, Token.isSignificant⟩ [⟨.ident, "b", none⟩] (Dictionary.empty.roots .standard)

/-- The path before the group. -/
def eitherEntry : Else := (Config.start eitherGroup.state).here

/-- The path in the second term. -/
def eitherBody : Else :=
  (eitherEntry.await (eitherGroup.resume (TermSet.empty.insert 1))).goto
    (.state (.leaf (.keyword "b") (.keyword "b")))

/-- A path on which `b` was taken. -/
def eitherPath (f : Focus) : Else := ⟨f, 1, [], [], [.token (.keyword "b") 0 ⟨.ident, "b", none⟩]⟩

/-- The second term has matched, and the first was tried before and after that. -/
theorem activation_either :
    eitherMachine.Activation eitherGroup eitherEntry [1] [0]
      (eitherPath (eitherGroup.choose 1 (TermSet.empty.insert 1))) := by
  have hopened : eitherMachine.Activation eitherGroup eitherEntry [] [] _ := .opened rfl
  have hfailed := hopened.failed (.pick rfl (by decide) (by decide) rfl)
  have henters : eitherGroup.Enters (eitherEntry.goto (eitherGroup.choose 1 .empty)) 1 eitherBody _ :=
    .pick rfl (by decide) (by decide) rfl
  have hfinishes :
      eitherMachine.Finishes eitherBody (eitherPath (eitherGroup.resume (TermSet.empty.insert 1))) := by
    have htake : (Leaf.keyword "b").take none none eitherMachine.tokens = (1, true) := rfl
    have hleaf : eitherMachine.Expands eitherBody ⟨0, []⟩ _ _ := .leaf rfl htake
    have hresume : eitherMachine.Expands
        { eitherPath (.state .accept) with thens := eitherBody.thens } ⟨1, []⟩ _ _ :=
      .resume rfl rfl (by nofun)
    exact ⟨_, .single ⟨.expand hleaf List.mem_cons_self, List.suffix_refl _⟩, rfl,
      .expand hresume List.mem_cons_self, rfl⟩
  have hagain := (hfailed.matched henters hfinishes).again rfl
  exact hagain.failed (.pick rfl (by decide) (by decide) rfl)

/-- A group of 65 terms cannot be compiled; and `a || b` succeeds after `b`, once `a` was tried
there. -/
theorem tallies_of_isCompiled_either :
    (∃ e, (Compiler.standard true).compile crowdedGrammar = .error e) ∧
      eitherGroup.state.IsCompiled ∧ Dictionary.empty.Built ∧
      ∃ c, eitherMachine.Leads (.start eitherGroup.state) c ∧
        eitherMachine.Activation eitherGroup eitherEntry [1] [0] c.here ∧
        eitherMachine.Tallies eitherGroup.state c ∧ eitherMachine.Yields eitherGroup c ∧
        eitherMachine.Backtracked eitherGroup.state c eitherGroup 0
          (eitherPath (eitherGroup.choose 1 (TermSet.empty.insert 1))) := by
  have hroot : eitherGroup.state.IsCompiled := .inl ⟨true, eitherGrammar, rfl⟩
  have hempty : Dictionary.empty.Means (fun _ => True) _ := .empty
  obtain ⟨herror, htallies⟩ := tallies_of_isCompiled hroot hempty.built
    ⟨1000, true, Token.isSignificant⟩ .standard [⟨.ident, "b", none⟩]
  have hover : crowdedGrammar.Oversized :=
    ⟨.all, _, false, false, Grammar.self_mem_nodes _, .inl rfl, by decide⟩
  have hleads : ∃ c, eitherMachine.Leads (.start eitherGroup.state) c ∧
      c.here = eitherPath (eitherGroup.choose 1 (TermSet.empty.insert 1)) :=
    ⟨_, .head rfl (.head rfl (.head rfl (.head rfl (.head rfl (.head rfl (.head rfl (.head rfl
      (.head rfl (.head rfl (.head rfl .refl)))))))))), rfl⟩
  obtain ⟨c, hc, hhere⟩ := hleads
  have hf : c.focus = eitherGroup.choose 1 (TermSet.empty.insert 1) := congrArg Else.next hhere
  have ha : eitherMachine.Activation eitherGroup eitherEntry [1] [0] c.here :=
    hhere ▸ activation_either
  have ht := htallies c hc
  have hsuffices : Machine.Suffices eitherGroup [1] [0] :=
    ⟨by nofun, .inr ⟨rfl, by nofun, by decide⟩⟩
  have hback := ht.tried _ _ _ hf _ _ _ ha 0 (by decide)
  rw [hhere] at hback
  exact ⟨(herror true _ combined_crowded).mpr hover, hroot, hempty.built, c, hc, ha, ht,
    (ht.yields _ _ _ hf _ _ _ ha).mpr hsuffices, hback⟩

/-- The group that `&&` without terms is compiled to. -/
def bareGroup : Group := ⟨[], true, .group .all [] false false⟩

/-- A group without terms does not succeed, though all of its terms have matched and its bits are all
set; and while a term is being matched its bit is already set in the continuation. -/
theorem not_yields_bare :
    ((Compiler.standard true).compile (.group .all [] false false) = .ok bareGroup.state ∧
      (∃ c, eitherMachine.Leads (.start bareGroup.state) c ∧
        c.focus = bareGroup.choose 0 (.full bareGroup.terms.length) ∧
        eitherMachine.Activation bareGroup (Config.start bareGroup.state).here [] [] c.here ∧
        (∀ i < bareGroup.terms.length, i ∈ ([] : List Nat)) ∧ ¬ eitherMachine.Yields bareGroup c) ∧
      (eitherMachine.run 1000 bareGroup.state).outcome = .mismatched) ∧
    ∃ c taken t, eitherMachine.Leads (.start eitherGroup.state) c ∧ c.thens = [t] ∧
      t.next = eitherGroup.resume taken ∧ taken.has 0 = true ∧
      eitherMachine.Awaits eitherEntry eitherGroup [t] [] 0 c.here := by
  have hbare : ∃ c, eitherMachine.Leads (.start bareGroup.state) c ∧
      c.focus = bareGroup.choose 0 (.full bareGroup.terms.length) ∧
      eitherMachine.Activation bareGroup (Config.start bareGroup.state).here [] [] c.here ∧
      (∀ i < bareGroup.terms.length, i ∈ ([] : List Nat)) ∧ ¬ eitherMachine.Yields bareGroup c := by
    refine ⟨_, .head rfl .refl, rfl, .opened rfl, by decide, fun h => ?_⟩
    have hne := ((Machine.yields_last_iff rfl rfl).mp h).1
    exact hne rfl
  have hawaits : ∃ c taken t, eitherMachine.Leads (.start eitherGroup.state) c ∧ c.thens = [t] ∧
      t.next = eitherGroup.resume taken ∧ taken.has 0 = true ∧
      eitherMachine.Awaits eitherEntry eitherGroup [t] [] 0 c.here := by
    refine ⟨_, TermSet.empty.insert 0, _, .head rfl (.head rfl .refl), rfl, rfl, by decide, ?_⟩
    exact ⟨eitherEntry, [], _, _, _, .refl, .opened rfl, .pick rfl (by decide) (by decide) rfl,
      rfl, .refl⟩
  exact ⟨⟨rfl, hbare, rfl⟩, hawaits⟩

end Matcher

end ValueGrammar

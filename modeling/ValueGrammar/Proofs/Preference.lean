import ValueGrammar.Proofs.Meaning

/-!
# `ValueGrammar.Proofs.Preference` — when putting a type off loses a match

Types that match too much are put off until everything else has failed. The alternative put off is
kept with the alternatives below it, but it is forgotten as soon as a token is taken. If the path that
took the token fails after all, the alternative is not tried any more, and tokens that would match
do not. This module says exactly when that happens.

## Contents
- `Machine.calls`: what references match, by what they stand for.
- `Machine.ForgetsSafely`: each time an alternative is forgotten, one of the other paths can match.
- `Machine.run_matched_iff`: a machine that puts types off finds a match that exists if and only if
  it forgets safely.
- `Matcher.matched_iff_of_matched`: the same for a list of tokens that match when nothing is put off.
- `Matcher.preference_loses_match`: tokens that match only when nothing is put off.
-/

namespace ValueGrammar

namespace Machine

variable {ε : Type} {m : Machine ε} {c c' : Config}

/-! ## References -/

/-- What references match: the least relation by which they match what they stand for. -/
def calls (m : Machine ε) : Calls := fun r o i j => ∀ calls : Calls, m.Sound calls → calls r o i j

theorem calls_sound (m : Machine ε) : m.Sound m.calls := by
  intro r root hr o i j ha calls hs
  have hle : ∀ r o i j, m.calls r o i j → calls r o i j := fun r o i j h => h calls hs
  exact hs r root hr o i j (ha.mono hle)

/-- What a reference matches is matched by what it stands for: else the relation without that match
would be smaller. -/
theorem calls_complete (m : Machine ε) : m.Complete m.calls := by
  intro r root hr o i j h
  have hsound : m.Sound fun r o i j =>
      ∃ root, m.resolve r = .ok (some root) ∧ Accepts m.calls m.tokens (.state root) o i j := by
    intro r root hr o i j ha
    refine ⟨root, hr, ha.mono ?_⟩
    rintro r o i j ⟨root, hr, ha⟩
    exact m.calls_sound r root hr o i j ha
  obtain ⟨root', hr', ha⟩ := h _ hsound
  rw [hr] at hr'
  cases hr'
  exact ha

theorem calls_forward (m : Machine ε) : m.calls.Forward m.tokens := by
  intro r o i j h
  refine h (fun _ _ i j => i ≤ j ∧ (i ≤ m.tokens.length → j ≤ m.tokens.length)) ?_
  intro r root _ o i j ha
  exact ha.forward fun _ _ _ _ h => h

/-- Each time a search takes a token while an alternative is put off, which is forgotten then, one of
the paths that are left can match. -/
def ForgetsSafely (m : Machine ε) (root : State) : Prop :=
  ∀ c c', m.Leads (.start root) c → m.step c = .next c' → Discards c c' → m.CanMatch m.calls c'

/-! ## Runs -/

/-- **Putting types off finds a match that exists if and only if alternatives are forgotten safely**:
each time one is, because a token was taken, one of the paths that are left can match. -/
theorem run_matched_iff {limit : Nat} {root : State} (hcan : m.CanMatch m.calls (.start root))
    (hend : (m.run limit root).outcome = .matched ∨ (m.run limit root).outcome = .mismatched) :
    (m.run limit root).outcome = .matched ↔ m.ForgetsSafely root := by
  obtain ⟨final, hl, he⟩ := m.run_ends limit root
  have hcoh := m.coherent_start root
  constructor
  · intro hmatched c c' hlc hstep _
    rw [Run.EndsWith, hmatched] at he
    obtain ⟨c'', hfinal, -⟩ := he
    have hlc' := hlc.tail hstep
    have hrest := hlc'.to_end hl fun c hc => by rw [hfinal] at hc; cases hc
    exact hrest.sound m.calls_sound m.calls_forward hlc'.coherent
      (canMatch_of_step_matched hfinal)
  · intro hkeep
    rcases hend with hmatched | hmismatched
    · exact hmatched
    · rw [Run.EndsWith, hmismatched] at he
      have hcov : ∀ a, m.Leads (.start root) a → m.Covered m.calls a := fun a ha =>
        ha.covered m.calls_sound m.calls_forward hcoh (covered_of_none rfl)
      have hlast := hl.complete m.calls_complete m.calls_forward hcoh hcov hkeep hcan
      exact absurd hlast (not_canMatch_of_step_mismatched (hcov final hl) he)

end Machine

namespace Matcher

variable {m : Matcher} {settings : Settings} {d : Dictionary} {tokens : List Token} {graph : Graph}
  {reason : Reason}

/-- The matcher that puts types off, or does not. -/
def deferring (m : Matcher) (lowPriority : Bool) : Matcher := { m with lowPriority }

/-- **Tokens that match when nothing is put off match when types are put off if and only if
alternatives are forgotten safely.** Neither search is cut off or fails. -/
theorem matched_iff_of_matched
    (hoff : ((m.deferring false).runWith settings d tokens graph).1.map MatchResult.reason =
      .ok .matched)
    (hon : ((m.deferring true).runWith settings d tokens graph).1.map MatchResult.reason =
      .ok reason)
    (hlimit : reason ≠ .limited) :
    reason = .matched ↔
      ((m.deferring true).machine tokens (d.roots settings)).ForgetsSafely graph.root := by
  have hreason : reason = .matched ↔
      ((m.deferring true).search settings d tokens graph).outcome = .matched := by
    rw [outcome_search hon]
    cases reason <;> simp [Reason.outcome]
  have hend : ((m.deferring true).search settings d tokens graph).outcome = .matched ∨
      ((m.deferring true).search settings d tokens graph).outcome = .mismatched := by
    rw [outcome_search hon]
    cases reason with
    | matched => exact .inl rfl
    | mismatched => exact .inr rfl
    | limited => exact absurd rfl hlimit
  have haccepts := Machine.accepts_of_run_matched
    (Machine.calls_sound ((m.deferring false).machine tokens (d.roots settings)))
    (Machine.calls_forward _) (outcome_search hoff)
  -- both machines have the same tokens and references, so what can match is the same
  have hcan : ((m.deferring true).machine tokens (d.roots settings)).CanMatch
      (Machine.calls _) (.start graph.root) :=
    Machine.canMatch_start_iff.mpr haccepts
  rw [hreason]
  exact Machine.run_matched_iff hcan hend

/-- The grammar `<custom-ident> a | b c`. -/
def takenGrammar : Grammar :=
  .group .one
    [.row [.type "custom-ident" none, .keyword "a"], .row [.keyword "b", .keyword "c"]] false false

/-- The tokens `b c`. -/
def takenTokens : List Token := [⟨.ident, "b", none⟩, ⟨.ident, "c", none⟩]

/-- The first alternative is forgotten when the second one takes `b`, and the second one matches. -/
theorem matched_iff_of_matched_taken :
    Grammar.parse "<custom-ident> a | b c" = .ok takenGrammar ∧
      Graph.ofGrammar .standard "" takenGrammar = .ok (foldedGraph "" takenGrammar) ∧
      ((deferring ⟨1000, true, Token.isSignificant⟩ true).machine takenTokens
        (Dictionary.generic.roots .standard)).ForgetsSafely (foldedGraph "" takenGrammar).root := by
  have hoff : ((deferring ⟨1000, true, Token.isSignificant⟩ false).runWith .standard .generic
      takenTokens (foldedGraph "" takenGrammar)).1.map MatchResult.reason = .ok .matched := rfl
  have hon : ((deferring ⟨1000, true, Token.isSignificant⟩ true).runWith .standard .generic
      takenTokens (foldedGraph "" takenGrammar)).1.map MatchResult.reason = .ok .matched := rfl
  exact ⟨rfl, rfl, (matched_iff_of_matched hoff hon (by decide)).mp rfl⟩

/-- The grammar `<custom-ident> | a b`. -/
def lostGrammar : Grammar :=
  .group .one [.type "custom-ident" none, .row [.keyword "a", .keyword "b"]] false false

/-- The second alternative takes `a` and does not find `b`; the first one is forgotten by then. So
`a` matches only when nothing is put off. -/
theorem preference_loses_match :
    Grammar.parse "<custom-ident> | a b" = .ok lostGrammar ∧
      Graph.ofGrammar .standard "" lostGrammar = .ok (foldedGraph "" lostGrammar) ∧
      ((deferring ⟨1000, true, Token.isSignificant⟩ false).runWith .standard .generic
        [⟨.ident, "a", none⟩] (foldedGraph "" lostGrammar)).1.map MatchResult.reason =
          .ok .matched ∧
      ((deferring ⟨1000, true, Token.isSignificant⟩ true).runWith .standard .generic
        [⟨.ident, "a", none⟩] (foldedGraph "" lostGrammar)).1.map MatchResult.reason =
          .ok .mismatched :=
  ⟨rfl, rfl, rfl, rfl⟩

end Matcher

end ValueGrammar

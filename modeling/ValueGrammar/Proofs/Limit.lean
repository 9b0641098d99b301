import ValueGrammar.Matcher
import ValueGrammar.Proofs.Machine.Coherence

/-!
# `ValueGrammar.Proofs.Limit` — a limit only cuts a run short

A run that may take more steps makes the same ones first. So a run that came to an end within its limit
is the run with any higher limit, and one that was cut off is the beginning of the longer one, with as
many steps as it was allowed. The longest match is what all paths together have reached, and no step
takes it back.

## Contents
- `Machine.Moves.longest_le`, `Machine.longest_le_runFrom`: the longest match only grows.
- `Machine.le_steps_runFrom`, `Machine.steps_runFrom_le`: the steps of a run.
- `Machine.Run.goOn`, `Machine.runFrom_add`: a longer run goes on with the shorter one.
- `Matcher.within`, `Matcher.CutsShort`, `Matcher.cutsShort_of_le`: matches under two limits.
-/

namespace ValueGrammar

namespace Notes

variable {notes : Notes}

theorem longest_le_reach (i n : Nat) : notes.longest ≤ (notes.reach i n).longest := by
  unfold reach
  split
  · exact Nat.le_refl _
  · exact Nat.le_max_left _ _

end Notes

namespace Machine

variable {ε : Type} {m : Machine ε} {c c' : Config}

/-! ## The longest match -/

theorem Expands.longest_le {e : Else} {new : List Else} {notes notes' : Notes}
    (hx : m.Expands e notes new notes') : notes.longest ≤ notes'.longest := by
  cases hx with
  | leaf => exact Notes.longest_le_reach _ _
  | _ => exact Nat.le_refl _

theorem Moves.longest_le (hm : m.Moves c c') : c.longest ≤ c'.longest := by
  cases hm with
  | expand hx => exact hx.longest_le
  | take hx => exact hx.longest_le
  | defer _ _ _ _ _ _ _ _ hn => exact Nat.le_of_eq (congrArg Notes.longest hn).symm
  | retry _ _ _ _ _ _ _ hn => exact Nat.le_of_eq (congrArg Notes.longest hn).symm

theorem Fails.longest_eq {e : Else} {notes notes' : Notes} {error : MachineError ε}
    (hx : m.Fails e notes error notes') : notes'.longest = notes.longest := by
  cases hx <;> rfl

/-- No step of a run takes back what was reached. The induction is on the steps left. -/
theorem longest_le_runFrom (fuel steps : Nat) (c : Config) :
    c.longest ≤ (m.runFrom fuel steps c).final.longest := by
  induction fuel generalizing steps c with
  | zero => exact Nat.le_refl _
  | succ fuel ih =>
      rw [runFrom]
      cases hs : m.step c with
      | next c₁ => exact Nat.le_trans (step_next hs).longest_le (ih (steps + 1) c₁)
      | finished matched c₁ =>
          cases matched with
          | true =>
              obtain ⟨rfl, -⟩ := step_matched hs
              have hclosed : (c₁.closeTo []).longest = c₁.longest := by rw [Config.closeTo_eq]
              exact Nat.le_of_eq hclosed.symm
          | false =>
              obtain ⟨rfl, -⟩ := step_mismatched hs
              exact Nat.le_refl _
      | failed error c₁ => exact Nat.le_of_eq (step_failed hs).longest_eq.symm

/-! ## Steps -/

theorem le_steps_runFrom (fuel steps : Nat) (c : Config) :
    steps ≤ (m.runFrom fuel steps c).steps := by
  induction fuel generalizing steps c with
  | zero => exact Nat.le_refl _
  | succ fuel ih =>
      rw [runFrom]
      cases m.step c with
      | next c₁ => exact Nat.le_trans (Nat.le_succ steps) (ih (steps + 1) c₁)
      | finished matched c₁ => cases matched <;> exact Nat.le_succ steps
      | failed error c₁ => exact Nat.le_succ steps

/-- A run takes no more steps than it may. -/
theorem steps_runFrom_le (fuel steps : Nat) (c : Config) :
    (m.runFrom fuel steps c).steps ≤ steps + fuel := by
  induction fuel generalizing steps c with
  | zero => exact Nat.le_refl _
  | succ fuel ih =>
      have hlast : steps + 1 ≤ steps + (fuel + 1) := by omega
      rw [runFrom]
      cases m.step c with
      | next c₁ =>
          have hle := ih (steps + 1) c₁
          change (m.runFrom fuel (steps + 1) c₁).steps ≤ _
          omega
      | finished matched c₁ => cases matched <;> exact hlast
      | failed error c₁ => exact hlast

/-- A run is cut off after exactly as many steps as it may take. -/
theorem steps_runFrom_of_limited {fuel steps : Nat} {c : Config}
    (h : (m.runFrom fuel steps c).outcome = .limited) :
    (m.runFrom fuel steps c).steps = steps + fuel := by
  induction fuel generalizing steps c with
  | zero => rfl
  | succ fuel ih =>
      rw [runFrom] at h ⊢
      cases hs : m.step c with
      | next c₁ =>
          rw [hs] at h
          rw [ih h]
          omega
      | finished matched c₁ => rw [hs] at h; cases matched <;> cases h
      | failed error c₁ => rw [hs] at h; cases h

/-! ## Longer runs -/

/-- Goes on with a run that was cut off for at most `fuel` further steps. -/
def Run.goOn (m : Machine ε) (fuel : Nat) (r : Run ε) : Run ε :=
  match r.outcome with
  | .limited => m.runFrom fuel r.steps r.final
  | _ => r

theorem Run.goOn_of_ne {r : Run ε} (h : r.outcome ≠ .limited) (fuel : Nat) : r.goOn m fuel = r := by
  unfold goOn
  split
  · rename_i ho
    exact absurd ho h
  · rfl

theorem Run.goOn_of_limited {r : Run ε} (h : r.outcome = .limited) (fuel : Nat) :
    r.goOn m fuel = m.runFrom fuel r.steps r.final := by
  rw [goOn, h]

/-- **A run that may take more steps goes on where it would have been cut off.** The induction is on the
steps of the shorter run. -/
theorem runFrom_add (fuel more steps : Nat) (c : Config) :
    m.runFrom (fuel + more) steps c = (m.runFrom fuel steps c).goOn m more := by
  induction fuel generalizing steps c with
  | zero => rw [Nat.zero_add]; rfl
  | succ fuel ih =>
      rw [Nat.succ_add, runFrom, runFrom]
      cases m.step c with
      | next c₁ => exact ih (steps + 1) c₁
      | finished matched c₁ => cases matched <;> rfl
      | failed error c₁ => rfl

theorem run_of_le {low high : Nat} (hle : low ≤ high) (root : State) :
    m.run high root = (m.run low root).goOn m (high - low) := by
  have hadd := runFrom_add (m := m) low (high - low) 0 (.start root)
  rwa [Nat.add_sub_cancel' hle] at hadd

theorem steps_run_le (limit : Nat) (root : State) : (m.run limit root).steps ≤ limit :=
  Nat.le_trans (steps_runFrom_le limit 0 _) (Nat.le_of_eq (Nat.zero_add limit))

theorem steps_run_of_limited {limit : Nat} {root : State} (h : (m.run limit root).outcome = .limited) :
    (m.run limit root).steps = limit :=
  (steps_runFrom_of_limited h).trans (Nat.zero_add limit)

end Machine

/-! ## Matches -/

namespace Matcher

variable {ε : Type}

/-- The matcher with another limit. -/
def within (m : Matcher) (limit : Int) : Matcher := { m with limit }

/-- What a match under a limit, with the references it looked up, tells of the match under a higher
one. -/
structure CutsShort (limit : Int) (short long : Except (MachineError ε) MatchResult × List Reference) :
    Prop where
  /-- a match that was not cut off, or an error, stays -/
  decided : (∀ r, short.1 = .ok r → r.reason ≠ .limited) → long = short
  /-- a match that was cut off took all the steps it was allowed, and has no trace -/
  cut : ∀ r, short.1 = .ok r → r.reason = .limited → (r.iterations : Int) = max limit 0 ∧ r.trace = none
  /-- with more steps at least as many tokens are reached, in at least as many steps -/
  grows : ∀ r r', short.1 = .ok r → r.reason = .limited → long.1 = .ok r' →
    r.longest ≤ r'.longest ∧ max limit 0 ≤ (r'.iterations : Int)

variable {m : Matcher} {tokens : List Token} {g : Graph} {resolve : Reference → Except ε (Option State)}

/-- A result has the steps and the longest match of its run, and its reason is how the run ended. -/
theorem run_of_result {g : Grammar} {run : Machine.Run ε} {r : MatchResult}
    (h : m.result tokens g run = .ok r) :
    r.iterations = run.steps ∧ r.longest = run.final.longest ∧
      (r.reason = .limited → run.outcome = .limited ∧ r.trace = none) := by
  unfold result at h
  split at h <;> rename_i ho <;> cases h <;> simp [ho]

/-- A run that was cut off has a result that says so. -/
theorem result_of_limited (m : Matcher) (tokens : List Token) (g : Grammar) {run : Machine.Run ε}
    (h : run.outcome = .limited) : ∃ r, m.result tokens g run = .ok r ∧ r.reason = .limited := by
  unfold result
  rw [h]
  exact ⟨_, rfl, rfl⟩

/-- **A limit only cuts a match short.** Under a higher limit a match that was not cut off, and an
error, stays as it is. A match that was cut off has taken exactly the steps it was allowed and has no
trace; under a higher limit no fewer tokens are reached, in no fewer steps. No run ever takes more steps
than its limit allows. -/
theorem cutsShort_of_le (m : Matcher) (tokens : List Token) (g : Graph)
    (resolve : Reference → Except ε (Option State)) {low high : Int} (hle : low ≤ high) :
    CutsShort low ((m.within low).run tokens g resolve) ((m.within high).run tokens g resolve) ∧
      ∀ limit : Int,
        (((m.within limit).machine tokens resolve).run limit.toNat g.root).steps ≤ max limit 0 := by
  -- the limit is not part of the machine, so both runs are those of one machine
  have hrun : ∀ limit : Int, (m.within limit).run tokens g resolve =
      (m.result tokens g.grammar ((m.machine tokens resolve).run limit.toNat g.root),
        ((m.machine tokens resolve).run limit.toNat g.root).final.lookups.reverse) := fun _ => rfl
  have hlong := Machine.run_of_le (m := m.machine tokens resolve) (Int.toNat_le_toNat hle) g.root
  rw [hrun low, hrun high, hlong]
  refine ⟨⟨fun hdecided => ?_, fun r hr hlimited => ?_, fun r r' hr hlimited hr' => ?_⟩,
    fun limit => ?_⟩
  · have hne : ((m.machine tokens resolve).run low.toNat g.root).outcome ≠ .limited := by
      intro ho
      obtain ⟨r, hr, hlimited⟩ := result_of_limited m tokens g.grammar ho
      exact hdecided r hr hlimited
    rw [Machine.Run.goOn_of_ne hne]
  · obtain ⟨hiterations, -, hcut⟩ := run_of_result hr
    obtain ⟨ho, htrace⟩ := hcut hlimited
    refine ⟨?_, htrace⟩
    rw [hiterations, Machine.steps_run_of_limited ho]
    exact Int.ofNat_toNat low
  · obtain ⟨-, hlongest, hcut⟩ := run_of_result hr
    obtain ⟨hiterations', hlongest', -⟩ := run_of_result hr'
    have ho := (hcut hlimited).1
    rw [Machine.Run.goOn_of_limited ho] at hiterations' hlongest'
    constructor
    · rw [hlongest, hlongest']
      exact Machine.longest_le_runFrom _ _ _
    · rw [hiterations', ← Int.ofNat_toNat]
      have hsteps := Machine.le_steps_runFrom (m := m.machine tokens resolve)
        (high.toNat - low.toNat) ((m.machine tokens resolve).run low.toNat g.root).steps
        ((m.machine tokens resolve).run low.toNat g.root).final
      rw [Machine.steps_run_of_limited ho] at hsteps ⊢
      exact Int.ofNat_le.mpr hsteps
  · rw [← Int.ofNat_toNat]
    exact Int.ofNat_le.mpr (Machine.steps_run_le _ _)

/-- The states of `x+`. -/
def someGraph : Graph :=
  ⟨"", .comma, .loop (.cond (.leaf (.keyword "x") (.keyword "x")) .nonEmpty .reject) none⟩

/-- The tokens `x x`. -/
def someTokens : List Token := [⟨.ident, "x", none⟩, ⟨.ident, "x", none⟩]

/-- A match of `x x` against `x+` without any references. -/
def someMatch (limit : Int) : Except (MachineError Empty) MatchResult × List Reference :=
  (within ⟨0, true, Token.isSignificant⟩ limit).run someTokens someGraph fun _ => .ok none

/-- The match takes fifteen steps: with one less it is cut off, and with one more nothing changes. -/
theorem cutsShort_of_le_some :
    (someMatch 14).1.map MatchResult.reason = .ok .limited ∧
      (someMatch 15).1.map MatchResult.reason = .ok .matched ∧
      CutsShort 14 (someMatch 14) (someMatch 15) ∧ CutsShort 15 (someMatch 15) (someMatch 16) :=
  ⟨rfl, rfl, (cutsShort_of_le _ _ _ _ (by decide)).1, (cutsShort_of_le _ _ _ _ (by decide)).1⟩

end Matcher

end ValueGrammar

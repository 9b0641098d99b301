import ValueGrammar.Proofs.Acceptance
import ValueGrammar.State.Compile

/-!
# `ValueGrammar.Proofs.Repetition` — what a multiplier's states match

A multiplier is written out as nested conditionals up to its upper limit, or as a loop if it has
none. Either way its states match a number of repetitions that stand in a row, with a comma between
neighbours if it separates by commas.

## Contents
- `spread`: the row that a number of repetitions make.
- `accepts_loop_spread`, `accepts_optionally_iff`, `accepts_mandatory_iff`: one construct each.
- `accepts_bounded_iff`, `accepts_unbounded_iff`: a whole multiplier.
-/

namespace ValueGrammar

variable {calls : Calls} {ts : List Token} {o : Option Range} {i j : Nat}

/-- `k` repetitions of `x` in a row, with `sep` between neighbours if there is one. -/
def spread {α : Type} (sep : Option α) (x : α) : Nat → List α
  | 0 => []
  | 1 => [x]
  | k + 2 => x :: (sep.toList ++ spread sep x (k + 1))

/-- What stands between two repetitions: a match of the separator, or nothing. -/
def Between {α : Type} (P : α → Nat → Nat → Prop) (sep : Option α) (i j : Nat) : Prop :=
  Joined P sep.toList i j

@[simp] theorem between_none {α : Type} {P : α → Nat → Nat → Prop} : Between P none i j ↔ i = j :=
  Iff.rfl

@[simp] theorem between_some {α : Type} {P : α → Nat → Nat → Prop} {x : α} :
    Between P (some x) i j ↔ P x i j := by simp [Between]

theorem joined_append {α : Type} {P : α → Nat → Nat → Prop} {xs ys : List α} :
    Joined P (xs ++ ys) i j ↔ ∃ k, Joined P xs i k ∧ Joined P ys k j := by
  induction xs generalizing i with
  | nil => simp
  | cons x xs ih =>
      simp only [List.cons_append, Joined.cons_iff, ih]
      constructor
      · rintro ⟨a, hx, b, hxs, hys⟩; exact ⟨b, ⟨a, hx, hxs⟩, hys⟩
      · rintro ⟨b, ⟨a, hx, hxs⟩, hys⟩; exact ⟨a, hx, b, hxs, hys⟩

theorem joined_spread_one {α : Type} {P : α → Nat → Nat → Prop} {sep : Option α} {x : α} :
    Joined P (spread sep x 1) i j ↔ P x i j := by simp [spread]

theorem joined_spread_succ {α : Type} {P : α → Nat → Nat → Prop} {sep : Option α} {x : α} {k : Nat} :
    Joined P (spread sep x (k + 2)) i j ↔
      ∃ a, P x i a ∧ ∃ b, Between P sep a b ∧ Joined P (spread sep x (k + 1)) b j := by
  simp only [spread, Joined.cons_iff, joined_append, Between]

/-! ## Loops -/

/-- The states a separator is matched by. -/
abbrev commaOf (sep : Option Grammar) : Option State := sep.map fun node => .leaf .comma node

theorem accepts_again_iff {body : State} {sep : Option Grammar} :
    Accepts calls ts (.state (.again body sep)) o i j ↔
      i = j ∨ ∃ k, Between (Matches calls ts o) (commaOf sep) i k ∧
        Accepts calls ts (.state (.loop body sep)) o k j := by
  cases sep with
  | none => simp [accepts_again_none_iff]
  | some node => simp [accepts_again_some_iff]

/-- Some number of repetitions is a path through the loop. -/
theorem accepts_loop_of_joined {body : State} {sep : Option Grammar} {k : Nat}
    (h : Joined (Matches calls ts o) (spread (commaOf sep) body (k + 1)) i j) :
    Accepts calls ts (.state (.loop body sep)) o i j := by
  induction k generalizing i with
  | zero =>
      rw [joined_spread_one] at h
      exact .loop h .stop
  | succ k ih =>
      obtain ⟨a, hb, b, hs, hr⟩ := joined_spread_succ.mp h
      exact .loop hb (accepts_again_iff.mpr (.inr ⟨b, hs, ih hr⟩))

/-- A path through the loop is some number of repetitions. The induction is on the path; at `again`
it either stops after the repetition before it, or goes on to a further one. -/
theorem joined_of_accepts_loop {f : Focus} (h : Accepts calls ts f o i j) :
    (∀ body sep, f = .state (.loop body sep) →
      ∃ k, Joined (Matches calls ts o) (spread (commaOf sep) body (k + 1)) i j) ∧
    (∀ body sep, f = .state (.again body sep) →
      i = j ∨ ∃ a, Between (Matches calls ts o) (commaOf sep) i a ∧
        ∃ k, Joined (Matches calls ts o) (spread (commaOf sep) body (k + 1)) a j) := by
  induction h with
  | @loop body sep o i k j hb _ _ iha =>
      refine ⟨fun body' sep' he => ?_, fun _ _ he => by (cases he)⟩
      cases he
      rcases iha.2 body sep rfl with rfl | ⟨a, hs, n, hr⟩
      · exact ⟨0, joined_spread_one.mpr hb⟩
      · exact ⟨n + 1, joined_spread_succ.mpr ⟨k, hb, a, hs, hr⟩⟩
  | stop => exact ⟨fun _ _ he => by (cases he), fun _ _ _ => .inl rfl⟩
  | @more body o i j _ ih =>
      refine ⟨fun _ _ he => by (cases he), fun body' sep' he => .inr ?_⟩
      cases he
      exact ⟨i, between_none.mpr rfl, ih.1 body none rfl⟩
  | @separated body node o i k j hc _ _ ih =>
      refine ⟨fun _ _ he => by (cases he), fun body' sep' he => .inr ?_⟩
      cases he
      exact ⟨k, between_some.mpr hc, ih.1 body (some node) rfl⟩
  | _ =>
      -- no other path starts at one of the two states
      exact ⟨fun _ _ he => by (cases he), fun _ _ he => by (cases he)⟩

/-- **A loop matches one or more repetitions of its body.** -/
theorem accepts_loop_spread {body : State} {sep : Option Grammar} :
    Accepts calls ts (.state (.loop body sep)) o i j ↔
      ∃ k, Joined (Matches calls ts o) (spread (commaOf sep) body (k + 1)) i j :=
  ⟨fun h => (joined_of_accepts_loop h).1 body sep rfl, fun ⟨_, h⟩ => accepts_loop_of_joined h⟩

/-! ## Repetitions that are written out -/

namespace Compiler

variable {fold separated : Bool} {node : Grammar} {term next : State}

@[simp] theorem standard_branch : (standard fold).branch = State.branch := rfl

/-- The node of a multiplier that separates by commas. -/
abbrev separator (node : Grammar) (separated : Bool) : Option Grammar :=
  if separated then some node else none

/-- A comma in front of a state that looks at tokens. -/
theorem accepts_afterComma_iff (h : ¬ next.IsSentinel) :
    Accepts calls ts (.state (afterComma (standard fold) node separated next)) o i j ↔
      ∃ k, Between (Matches calls ts o) (commaOf (separator node separated)) i k ∧
        Accepts calls ts (.state next) o k j := by
  have hne : next ≠ .nonEmpty := by rintro rfl; exact h trivial
  have hacc : next.isAccept = false := by
    cases next <;> first | rfl | exact absurd trivial h
  cases separated with
  | false => simp [afterComma, separator]
  | true => simp [afterComma, standard, separator, hacc, accepts_branch_iff, accepts_cond_iff,
      passes_of_ne hne]

theorem afterComma_not_isSentinel (h : ¬ next.IsSentinel) :
    ¬ (afterComma (standard fold) node separated next).IsSentinel := by
  unfold afterComma
  split
  · exact State.branch_not_isSentinel id
  · exact h

theorem optionally_not_isSentinel (h : ¬ term.IsSentinel) (n : Nat) :
    ¬ (optionally (standard fold) node separated term (n + 1)).IsSentinel :=
  State.branch_not_isSentinel h

/-- Nested optional repetitions match any number of repetitions up to the depth of the nesting. -/
theorem accepts_optionally_iff (h : ¬ term.IsSentinel) (n : Nat) :
    Accepts calls ts (.state (optionally (standard fold) node separated term (n + 1))) o i j ↔
      ∃ k, k ≤ n ∧
        Joined (Matches calls ts o) (spread (commaOf (separator node separated)) term (k + 1)) i j := by
  induction n generalizing i with
  | zero =>
      have he : optionally (standard fold) node separated term 1 = term := by
        simp [optionally, afterComma, standard, State.branch, State.isAccept, State.isReject]
      rw [he]
      constructor
      · intro ht; exact ⟨0, Nat.le_refl 0, joined_spread_one.mpr ht⟩
      · rintro ⟨k, hk, hj⟩
        obtain rfl : k = 0 := Nat.le_zero.mp hk
        rw [joined_spread_one] at hj
        exact hj
  | succ n ih =>
      have hn : ¬ (optionally (standard fold) node separated term (n + 1)).IsSentinel :=
        optionally_not_isSentinel h n
      -- one level of the nesting: a repetition, then nothing or a comma and the levels below
      have hstep : Accepts calls ts
          (.state (optionally (standard fold) node separated term (n + 2))) o i j ↔
            ∃ a, Accepts calls ts (.state term) o i a ∧
              (a = j ∨ ∃ b, Between (Matches calls ts o) (commaOf (separator node separated)) a b ∧
                Accepts calls ts
                  (.state (optionally (standard fold) node separated term (n + 1))) o b j) := by
        rw [optionally, standard_branch, accepts_branch_iff, accepts_cond_iff]
        simp only [passes_of_ne (State.branch_ne_nonEmpty (by simp : State.accept ≠ .nonEmpty)),
          accepts_optional_iff, not_accepts_reject, or_false]
        exact exists_congr fun a => and_congr_right fun _ => or_congr_right
          (accepts_afterComma_iff hn)
      rw [hstep]
      constructor
      · rintro ⟨a, ht, rfl | ⟨b, hs, hr⟩⟩
        · exact ⟨0, Nat.zero_le _, joined_spread_one.mpr ht⟩
        · obtain ⟨k, hk, hj⟩ := ih.mp hr
          exact ⟨k + 1, by omega, joined_spread_succ.mpr ⟨a, ht, b, hs, hj⟩⟩
      · rintro ⟨k, hk, hj⟩
        cases k with
        | zero =>
            rw [joined_spread_one] at hj
            exact ⟨j, hj, .inl rfl⟩
        | succ k =>
            obtain ⟨a, ht, b, hs, hr⟩ := joined_spread_succ.mp hj
            exact ⟨a, ht, .inr ⟨b, hs, ih.mpr ⟨k, by omega, hr⟩⟩⟩

theorem mandatory_not_isSentinel (ht : ¬ term.IsSentinel) (hn : ¬ next.IsSentinel) (n : Nat) :
    ¬ (mandatory (standard fold) node separated term next n).IsSentinel := by
  cases n with
  | zero => exact hn
  | succ n => exact State.branch_not_isSentinel ht

/-- Mandatory repetitions in front of a state that matches repetitions match that many more. -/
theorem accepts_mandatory_iff {p : Nat → Prop} (ht : ¬ term.IsSentinel) (hn : ¬ next.IsSentinel)
    (h : ∀ i j, Accepts calls ts (.state next) o i j ↔ ∃ k, p k ∧
      Joined (Matches calls ts o) (spread (commaOf (separator node separated)) term (k + 1)) i j)
    (n : Nat) :
    Accepts calls ts (.state (mandatory (standard fold) node separated term next n)) o i j ↔
      ∃ k, p k ∧ Joined (Matches calls ts o)
        (spread (commaOf (separator node separated)) term (n + k + 1)) i j := by
  induction n generalizing i with
  | zero => simpa [mandatory] using h i j
  | succ n ih =>
      have hm : ¬ (mandatory (standard fold) node separated term next n).IsSentinel :=
        mandatory_not_isSentinel ht hn n
      -- one link of the chain: a repetition, a comma and the rest of the chain
      have hstep : Accepts calls ts
          (.state (mandatory (standard fold) node separated term next (n + 1))) o i j ↔
            ∃ a, Accepts calls ts (.state term) o i a ∧
              ∃ b, Between (Matches calls ts o) (commaOf (separator node separated)) a b ∧
                Accepts calls ts
                  (.state (mandatory (standard fold) node separated term next n)) o b j := by
        have hc : afterComma (standard fold) node separated
            (mandatory (standard fold) node separated term next n) ≠ .nonEmpty :=
          State.ne_nonEmpty (afterComma_not_isSentinel hm)
        rw [mandatory, standard_branch, accepts_branch_iff,
          accepts_cond_iff]
        simp only [passes_of_ne hc, not_accepts_reject, or_false]
        exact exists_congr fun a => and_congr_right fun _ => accepts_afterComma_iff hm
      rw [hstep]
      constructor
      · rintro ⟨a, ha, b, hs, hr⟩
        obtain ⟨k, hk, hj⟩ := ih.mp hr
        refine ⟨k, hk, ?_⟩
        rw [show n + 1 + k + 1 = n + k + 2 by omega]
        exact joined_spread_succ.mpr ⟨a, ha, b, hs, hj⟩
      · rintro ⟨k, hk, hj⟩
        rw [show n + 1 + k + 1 = n + k + 2 by omega] at hj
        obtain ⟨a, ha, b, hs, hr⟩ := joined_spread_succ.mp hj
        exact ⟨a, ha, b, hs, ih.mpr ⟨k, hk, hr⟩⟩

/-! ## Multipliers -/

/-- **A multiplier with an upper limit** matches as many repetitions in a row as its limits
allow. -/
theorem accepts_bounded_iff {min hi : Int} (ht : ¬ term.IsSentinel) (hmin : 0 ≤ min)
    (hmax : max min 1 ≤ hi) :
    Accepts calls ts (.state (repeated (standard fold) node min (some hi) separated term)) o i j ↔
      ∃ k : Nat, min ≤ k ∧ k ≤ hi ∧
        Joined (Matches calls ts o) (spread (commaOf (separator node separated)) term k) i j := by
  -- the nesting is at least one deep, because the upper limit is not below the lower one
  obtain ⟨n, hn⟩ : ∃ n : Nat, (hi - max min 1 + 1).toNat = n + 1 :=
    ⟨(hi - max min 1).toNat, by omega⟩
  unfold repeated
  simp only [hn]
  by_cases hz : min = 0
  · subst hz
    rw [if_pos (by rfl), standard_branch, accepts_optional_iff,
      accepts_optionally_iff ht]
    constructor
    · rintro (rfl | ⟨k, hk, hj⟩)
      · exact ⟨0, by omega, by omega, rfl⟩
      · exact ⟨k + 1, by omega, by omega, hj⟩
    · rintro ⟨k, -, hk, hj⟩
      cases k with
      | zero => exact .inl hj
      | succ k => exact .inr ⟨k, by omega, hj⟩
  · rw [if_neg (by simpa using hz), accepts_mandatory_iff ht (optionally_not_isSentinel ht n)
      (fun i j => accepts_optionally_iff ht n)]
    constructor
    · rintro ⟨k, hk, hj⟩
      exact ⟨(min - 1).toNat + k + 1, by omega, by omega, hj⟩
    · rintro ⟨k, hlo, hhi, hj⟩
      refine ⟨k - min.toNat, by omega, ?_⟩
      rw [show (min - 1).toNat + (k - min.toNat) + 1 = k by omega]
      exact hj

/-- **A multiplier without an upper limit** matches repetitions in a row that each take a token,
at least as many as its lower limit says, or nothing if that is zero. -/
theorem accepts_unbounded_iff {min : Int} (ht : ¬ term.IsSentinel) (hmin : 0 ≤ min) :
    Accepts calls ts (.state (repeated (standard fold) node min none separated term)) o i j ↔
      (min = 0 ∧ i = j) ∨ ∃ k : Nat, max min 1 ≤ k ∧
        Joined (Matches calls ts o) (spread (commaOf (separator node separated))
          (State.branch term .nonEmpty .reject) k) i j := by
  have hb : ¬ (State.branch term .nonEmpty .reject).IsSentinel := State.branch_not_isSentinel ht
  unfold repeated
  by_cases hz : min = 0
  · subst hz
    simp only [beq_self_eq_true, if_true]
    rw [standard_branch, accepts_optional_iff,
      accepts_loop_spread]
    constructor
    · rintro (rfl | ⟨k, hj⟩)
      · exact .inl ⟨trivial, rfl⟩
      · exact .inr ⟨k + 1, by omega, hj⟩
    · rintro (⟨-, rfl⟩ | ⟨k, hk, hj⟩)
      · exact .inl rfl
      · obtain ⟨n, rfl⟩ : ∃ n, k = n + 1 := ⟨k - 1, by omega⟩
        exact .inr ⟨n, hj⟩
  · -- the loop stands for the last of the mandatory repetitions and all that follow
    have hloop : ∀ i j, Accepts calls ts (.state (.loop (State.branch term .nonEmpty .reject)
        (separator node separated))) o i j ↔ ∃ k, True ∧ Joined (Matches calls ts o)
          (spread (commaOf (separator node separated))
            (State.branch term .nonEmpty .reject) (k + 1)) i j := by
      intro i j
      simp only [true_and, accepts_loop_spread]
    simp only [beq_iff_eq, hz, if_false]
    rw [standard_branch,
      accepts_mandatory_iff hb id hloop]
    constructor
    · rintro ⟨k, -, hj⟩
      exact .inr ⟨(min - 1).toNat + k + 1, by omega, hj⟩
    · rintro (⟨h0, -⟩ | ⟨k, hk, hj⟩)
      · exact h0.elim
      · refine ⟨k - min.toNat, trivial, ?_⟩
        rw [show (min - 1).toNat + (k - min.toNat) + 1 = k by omega]
        exact hj

theorem repeated_not_isSentinel {min : Int} {hi : Option Int} (ht : ¬ term.IsSentinel)
    (hmax : ∀ n, hi = some n → max min 1 ≤ n) :
    ¬ (repeated (standard fold) node min hi separated term).IsSentinel := by
  have hb : ¬ (State.branch term .nonEmpty .reject).IsSentinel := State.branch_not_isSentinel ht
  unfold repeated
  cases hi with
  | none =>
      simp only [standard_branch]
      split
      · refine State.optional_not_isSentinel ?_
        exact id
      · refine mandatory_not_isSentinel hb ?_ _
        exact id
  | some n =>
      have := hmax n rfl
      have htail : ¬ (optionally (standard fold) node separated term
          (n - max min 1 + 1).toNat).IsSentinel := by
        rw [show (n - max min 1 + 1).toNat = (n - max min 1).toNat + 1 by omega]
        exact optionally_not_isSentinel ht _
      simp only [standard_branch]
      split
      · exact State.optional_not_isSentinel htail
      · exact mandatory_not_isSentinel ht htail _

end Compiler

end ValueGrammar

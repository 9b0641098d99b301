import Mathlib
import ValueGrammar.Proofs.Folding
import ValueGrammar.Proofs.Preference

/-!
# `ValueGrammar.Proofs.UpperLimit` — a multiplier without its upper limit

A multiplier with an upper limit counts every repetition, also one that takes no token. Without an upper
limit each repetition has to take one, or there would be no end of them, and this goes for the repetitions
the lower limit asks for as well. So tokens that match with an upper limit may not match without it.

## Contents
- `Divides`: repetitions in a row as stretches of tokens.
- `Divides.filter_takes`: repetitions that take nothing can be left out in front of one that does.
- `Apart`: what stands between two repetitions.
- `Machine.matchesAll_bounded_iff`, `Machine.matchesAll_unbounded_iff`: which repetitions are counted.
- `Matcher.matched_iff_matchesAll`: what a run says about the state of its grammar.
- `Matcher.matched_unbounded_iff`: exactly which tokens still match without the upper limit.
- `Matcher.unbounded_matches_less`: tokens that match with the upper limit only.
-/

namespace ValueGrammar

/-! ## Repetitions as stretches -/

/-- The stretches, each from its first place to the place behind it, are repetitions of `P` one after
the other, from place `i` to place `j`, with what `S` allows between neighbours. -/
inductive Divides (P S : Nat → Nat → Prop) : List (Nat × Nat) → Nat → Nat → Prop where
  | last {i j} (h : P i j) : Divides P S [(i, j)] i j
  | more {i k l j reps} (h : P i k) (hs : S k l) (hr : Divides P S reps l j) :
      Divides P S ((i, k) :: reps) i j

/-- Does the stretch take a token? -/
def takes (p : Nat × Nat) : Bool := p.1 < p.2

theorem takes_iff {p : Nat × Nat} : takes p = true ↔ p.1 < p.2 := by simp [takes]

variable {P P' S : Nat → Nat → Prop} {i j : Nat} {reps : List (Nat × Nat)} {ts : List Token}

/-- Where every stretch takes a token, all of them are counted, and so is the last one. -/
theorem countP_takes_of_forall (h : ∀ p ∈ reps, takes p = true) :
    reps.countP takes = reps.length ∧ ∀ p ∈ reps.getLast?, takes p = true :=
  ⟨List.countP_eq_length.mpr h, fun p hp => h p (List.mem_of_getLast? hp)⟩

namespace Divides

theorem ne_nil (h : Divides P S reps i j) : reps ≠ [] := by
  cases h <;> exact List.cons_ne_nil _ _

theorem mem (h : Divides P S reps i j) : ∀ p ∈ reps, P p.1 p.2 := by
  induction h with
  | last h => simpa using h
  | more h _ _ ih => exact List.forall_mem_cons.mpr ⟨h, ih⟩

theorem mono (h : Divides P S reps i j) (hP : ∀ p ∈ reps, P p.1 p.2 → P' p.1 p.2) :
    Divides P' S reps i j := by
  induction h with
  | last h => exact .last (hP _ List.mem_cons_self h)
  | more h hs _ ih =>
      exact .more (hP _ List.mem_cons_self h) hs (ih fun p hp => hP p (List.mem_cons_of_mem _ hp))

/-- Repetitions that take nothing can be left out, if the last one takes a token. The first one that is
kept starts where the division did, or behind what stood between the ones in front of it. -/
theorem filter_takes (h : Divides P S reps i j) (hle : ∀ i j, P i j → i ≤ j)
    (htrans : ∀ a b c, S a b → S b c → S a c) (hlast : ∀ p ∈ reps.getLast?, takes p = true) :
    ∃ k, Divides P S (reps.filter takes) k j ∧ (k = i ∨ S i k) := by
  induction h with
  | @last i j h =>
      have hij : takes (i, j) = true := hlast _ rfl
      exact ⟨i, by simpa [hij] using Divides.last h, .inl rfl⟩
  | @more i a b j reps h hs hr ih =>
      have hrest : ∀ p ∈ reps.getLast?, takes p = true := by
        obtain ⟨p, rest, rfl⟩ := List.exists_cons_of_ne_nil hr.ne_nil
        simpa [List.getLast?_cons_cons] using hlast
      obtain ⟨k, hk, hbk⟩ := ih hrest
      have hak : S a k := by
        rcases hbk with rfl | hbk
        · exact hs
        · exact htrans a b k hs hbk
      cases ht : takes (i, a) with
      | true => exact ⟨i, by simpa [ht] using Divides.more h hak hk, .inl rfl⟩
      | false =>
          -- the repetition takes nothing, and what stands around it is joined
          have hge : ¬ i < a := by simpa [takes] using ht
          obtain rfl : i = a := Nat.le_antisymm (hle i a h) (Nat.le_of_not_lt hge)
          exact ⟨k, by simpa [ht] using hk, .inr hak⟩

end Divides

/-- Repetitions in a row are stretches. -/
theorem joined_spread_iff_divides {α : Type} {Q : α → Nat → Nat → Prop} {sep : Option α} {x : α}
    {k : Nat} : Joined Q (spread sep x (k + 1)) i j ↔
      ∃ reps, reps.length = k + 1 ∧ Divides (Q x) (Between Q sep) reps i j := by
  induction k generalizing i with
  | zero =>
      rw [joined_spread_one]
      constructor
      · intro h
        exact ⟨[(i, j)], rfl, .last h⟩
      · rintro ⟨reps, hlen, hr⟩
        cases hr with
        | last h => exact h
        | more _ _ hr => exact absurd (List.eq_nil_of_length_eq_zero (by simpa using hlen)) hr.ne_nil
  | succ k ih =>
      rw [joined_spread_succ]
      constructor
      · rintro ⟨a, hx, b, hs, hr⟩
        obtain ⟨reps, hlen, hr⟩ := ih.mp hr
        exact ⟨(i, a) :: reps, by simp [hlen], .more hx hs hr⟩
      · rintro ⟨reps, hlen, hr⟩
        cases hr with
        | last _ => simp at hlen
        | more hx hs hr => exact ⟨_, hx, _, hs, ih.mpr ⟨_, by simpa using hlen, hr⟩⟩

/-! ## What stands between -/

/-- What stands between two repetitions: a comma, which may be left out next to a boundary, or
nothing. -/
def Apart (ts : List Token) (separated : Bool) (i j : Nat) : Prop :=
  Between (fun t => Derives (fun _ => none) ts t none) (Grammar.separator separated) i j

namespace Apart

variable {separated : Bool} {a b c : Nat}

@[simp] theorem false_iff : Apart ts false a b ↔ a = b := by
  simp [Apart, Grammar.separator]

theorem true_iff : Apart ts true a b ↔ Derives (fun _ => none) ts .comma none a b := by
  simp [Apart, Grammar.separator]

/-- Where nothing is between two commas only one of them is there. -/
theorem trans (hab : Apart ts separated a b) (hbc : Apart ts separated b c) :
    Apart ts separated a c := by
  cases separated with
  | false =>
      rw [false_iff] at hab hbc ⊢
      exact hab.trans hbc
  | true =>
      rw [true_iff] at hab hbc ⊢
      cases hab with
      | noComma _ _ => exact hbc
      | @comma t _ _ ht hk hs he =>
          cases hbc with
          | noComma _ _ => exact .comma ht hk hs he
          | comma _ _ hs' _ =>
              -- the second comma would come right after the first one
              have hstart : isListStart (tokenBefore ts (a + 1)) = true := by
                rw [tokenBefore, ht, isListStart, hk]
              rw [hstart] at hs'
              cases hs'

/-- At the beginning no comma is taken. -/
theorem eq_zero (h : Apart ts separated 0 b) : b = 0 := by
  cases separated with
  | false => exact (false_iff.mp h).symm
  | true =>
      cases true_iff.mp h with
      | noComma _ _ => rfl
      | comma _ _ hs _ => cases hs

end Apart

/-! ## States of a multiplier -/

/-- A multiplier that is all of a grammar. -/
theorem Compiler.compile_row_multiplier_ok {fold separated : Bool} {t : Grammar} {lo : Int}
    {limit : Option Int} {root : State}
    (h : (standard fold).compile (.row [.multiplier t lo limit separated]) = .ok root) :
    (standard fold).compile t = .ok ((standard fold).stateOf t) ∧
      root = repeated (standard fold) (.multiplier t lo limit separated) lo limit separated
        ((standard fold).stateOf t) := by
  obtain ⟨hall, state, hstate, hroot⟩ := compile_group_ok h
  obtain ⟨hterm, hmultiplier⟩ := compile_multiplier_ok (hall _ List.mem_cons_self)
  refine ⟨hterm, ?_⟩
  cases hstate
  rw [hroot, ← hmultiplier]
  simp [standard_branch, State.branch, State.isAccept, State.isReject]

namespace Machine

variable {ε : Type}

/-- The stretches of the tokens that a term matches. -/
def TermMatches (m : Machine ε) (c : Compiler) (t : Grammar) (i j : Nat) : Prop :=
  Accepts m.calls m.tokens (.state (c.stateOf t)) none i j

/-- The tokens are repetitions of a term, with a comma between neighbours if they are separated. -/
def Repeats (m : Machine ε) (c : Compiler) (t : Grammar) (separated : Bool)
    (reps : List (Nat × Nat)) : Prop :=
  ∃ j, Divides (m.TermMatches c t) (Apart m.tokens separated) reps 0 j ∧ Completes m.tokens j

/-- All of the tokens are matched by a state. -/
def MatchesAll (m : Machine ε) (root : State) : Prop :=
  ∃ j, Accepts m.calls m.tokens (.state root) none 0 j ∧ Completes m.tokens j

variable {m : Machine ε} {fold separated : Bool} {t node : Grammar} {lo hi : Int}
  {reps : List (Nat × Nat)} {i j : Nat}

theorem TermMatches.le {c : Compiler} (h : m.TermMatches c t i j) : i ≤ j :=
  (h.forward m.calls_forward).1

/-- Repetitions of a state are stretches that commas stand between. -/
theorem joined_spread_iff_apart {s : State} {k : Nat} :
    Joined (Matches m.calls m.tokens none)
        (spread (commaOf (Compiler.separator node separated)) s (k + 1)) i j ↔
      ∃ reps, reps.length = k + 1 ∧
        Divides (Matches m.calls m.tokens none s) (Apart m.tokens separated) reps i j := by
  have hapart :
      Between (Matches m.calls m.tokens none) (commaOf (Compiler.separator node separated)) =
        Apart m.tokens separated := funext₂ fun _ _ => propext between_comma_iff
  rw [joined_spread_iff_divides, hapart]

/-- With an upper limit, repetitions are counted. -/
theorem matchesAll_bounded_iff (ht : ¬ ((Compiler.standard fold).stateOf t).IsSentinel)
    (hlo : 1 ≤ lo) (hhi : lo ≤ hi) :
    m.MatchesAll (Compiler.repeated (.standard fold) node lo (some hi) separated
        ((Compiler.standard fold).stateOf t)) ↔
      ∃ reps, m.Repeats (.standard fold) t separated reps ∧ lo ≤ reps.length ∧ reps.length ≤ hi := by
  constructor
  · rintro ⟨j, ha, hend⟩
    obtain ⟨k, hk, hkhi, hj⟩ := (Compiler.accepts_bounded_iff ht (by omega) (by omega)).mp ha
    obtain ⟨n, rfl⟩ : ∃ n, k = n + 1 := ⟨k - 1, by omega⟩
    obtain ⟨reps, hlen, hreps⟩ := joined_spread_iff_apart.mp hj
    exact ⟨reps, ⟨j, hreps, hend⟩, by omega, by omega⟩
  · rintro ⟨reps, ⟨j, hreps, hend⟩, hlen, hlenhi⟩
    obtain ⟨n, hn⟩ : ∃ n, reps.length = n + 1 := ⟨reps.length - 1, by omega⟩
    refine ⟨j, (Compiler.accepts_bounded_iff ht (by omega) (by omega)).mpr ?_, hend⟩
    exact ⟨n + 1, by omega, by omega, joined_spread_iff_apart.mpr ⟨reps, hn, hreps⟩⟩

/-- Without an upper limit, only repetitions that take a token are counted. -/
theorem matchesAll_unbounded_iff (ht : ¬ ((Compiler.standard fold).stateOf t).IsSentinel)
    (hlo : 1 ≤ lo) :
    m.MatchesAll (Compiler.repeated (.standard fold) node lo none separated
        ((Compiler.standard fold).stateOf t)) ↔
      ∃ reps, m.Repeats (.standard fold) t separated reps ∧ lo ≤ reps.countP takes ∧
        ∀ p ∈ reps.getLast?, takes p = true := by
  constructor
  · rintro ⟨j, ha, hend⟩
    rcases (Compiler.accepts_unbounded_iff ht (by omega)).mp ha with ⟨hzero, -⟩ | ⟨k, hk, hj⟩
    · omega
    obtain ⟨n, rfl⟩ : ∃ n, k = n + 1 := ⟨k - 1, by omega⟩
    obtain ⟨reps, hlen, hreps⟩ := joined_spread_iff_apart.mp hj
    have htakes : ∀ p ∈ reps, takes p = true := fun p hp =>
      takes_iff.mpr (accepts_nonEmpty_iff.mp (hreps.mem p hp)).2
    obtain ⟨hcount, hlast⟩ := countP_takes_of_forall htakes
    have hterms : Divides (m.TermMatches (.standard fold) t) (Apart m.tokens separated) reps 0 j :=
      hreps.mono fun _ _ h => (accepts_nonEmpty_iff.mp h).1
    exact ⟨reps, ⟨j, hterms, hend⟩, by omega, hlast⟩
  · rintro ⟨reps, ⟨j, hreps, hend⟩, hcount, hlast⟩
    obtain ⟨k, hkept, hk⟩ := hreps.filter_takes (fun _ _ => TermMatches.le) (fun _ _ _ => Apart.trans)
      hlast
    obtain rfl : k = 0 := by
      rcases hk with rfl | hk
      · rfl
      · exact hk.eq_zero
    rw [List.countP_eq_length_filter] at hcount
    obtain ⟨n, hn⟩ : ∃ n, (reps.filter takes).length = n + 1 :=
      ⟨(reps.filter takes).length - 1, by omega⟩
    refine ⟨j, (Compiler.accepts_unbounded_iff ht (by omega)).mpr (.inr ⟨n + 1, by omega, ?_⟩), hend⟩
    refine joined_spread_iff_apart.mpr ⟨reps.filter takes, hn, hkept.mono ?_⟩
    intro p hp h
    exact accepts_nonEmpty_iff.mpr ⟨h, takes_iff.mp (List.mem_filter.mp hp).2⟩

end Machine

/-! ## Matches -/

namespace Matcher

variable {m : Matcher} {s : Settings} {d : Dictionary} {source bounded unbounded : String}
  {g t : Grammar} {tokens : List Token} {fold separated : Bool} {reason : Reason} {lo hi : Int}

/-- **A run says whether the state of its grammar matches the tokens**, if nothing is put off and the
run is not cut off. -/
theorem matched_iff_matchesAll (hlow : m.lowPriority = false)
    (hs : s.requireBool Settings.enumFolding = .ok fold) (hg : Grammar.parse source = .ok g)
    (h : (m.answer s d source tokens).map MatchResult.reason = .ok reason)
    (hlimit : reason ≠ .limited) :
    ∃ root, (Compiler.standard fold).compile g = .ok root ∧
      (reason = .matched ↔ (m.machine tokens (d.roots s)).MatchesAll root) := by
  have hle : ∀ root j, Accepts (m.machine tokens (d.roots s)).calls
      (m.machine tokens (d.roots s)).tokens (.state root) none 0 j →
        j ≤ (m.machine tokens (d.roots s)).tokens.length := fun root j ha =>
    (ha.forward (Machine.calls_forward _)).2 (Nat.zero_le _)
  cases hc : (Compiler.standard fold).compile g with
  | error e =>
      rw [answer_eq_of_compile_error hg hs hc] at h
      cases h
  | ok root =>
      rw [answer_eq_of_compile hg hs hc] at h
      have hrun := outcome_search (g := ⟨source, g, root⟩) h
      refine ⟨root, rfl, ?_⟩
      cases reason with
      | limited => exact absurd rfl hlimit
      | matched =>
          obtain ⟨j, ha, hend⟩ := Machine.accepts_of_run_matched (Machine.calls_sound _)
            (Machine.calls_forward _) hrun
          exact iff_of_true rfl ⟨j, ha, (completes_iff (hle root j ha)).mpr hend⟩
      | mismatched =>
          refine iff_of_false (by decide) ?_
          rintro ⟨j, ha, hend⟩
          exact Machine.not_accepts_of_run_mismatched hlow (Machine.calls_complete _)
            (Machine.calls_forward _) hrun ⟨j, ha, (completes_iff (hle root j ha)).mp hend⟩

/-- The limits of a multiplier that is all of a grammar, and its term. -/
theorem wellFormed_of_parse_multiplier {limit : Option Int}
    (hg : Grammar.parse source = .ok (.row [.multiplier t lo limit separated])) :
    t.WellFormed ∧ ∀ hi, limit = some hi → max lo 1 ≤ hi := by
  cases Grammar.wellFormed_of_parse hg with
  | group _ _ hterms =>
      cases hterms _ List.mem_cons_self with
      | multiplier _ hmax ht => exact ⟨ht, hmax⟩

/-- **Removing the upper limit.** Tokens that match with it are repetitions of the term, as many as the
limits allow. They match without it exactly if they are repetitions of which as many as the lower limit
asks for take a token, and the last one does. For a term that never matches nothing that is so. -/
theorem matched_unbounded_iff (hlow : m.lowPriority = false)
    (hs : s.requireBool Settings.enumFolding = .ok fold)
    (hb : Grammar.parse bounded = .ok (.row [.multiplier t lo (some hi) separated]))
    (hu : Grammar.parse unbounded = .ok (.row [.multiplier t lo none separated])) (hlo : 1 ≤ lo)
    (hbounded : (m.answer s d bounded tokens).map MatchResult.reason = .ok .matched)
    (hunbounded : (m.answer s d unbounded tokens).map MatchResult.reason = .ok reason)
    (hlimit : reason ≠ .limited) :
    (∃ reps, (m.machine tokens (d.roots s)).Repeats (.standard fold) t separated reps ∧
        lo ≤ reps.length ∧ reps.length ≤ hi) ∧
      (reason = .matched ↔
        ∃ reps, (m.machine tokens (d.roots s)).Repeats (.standard fold) t separated reps ∧
          lo ≤ reps.countP takes ∧ ∀ p ∈ reps.getLast?, takes p = true) ∧
      ((∀ i, ¬ (m.machine tokens (d.roots s)).TermMatches (.standard fold) t i i) →
        reason = .matched) := by
  obtain ⟨hterm, hmax⟩ := wellFormed_of_parse_multiplier hb
  obtain ⟨rootb, hcb, hiffb⟩ := matched_iff_matchesAll hlow hs hb hbounded (by decide)
  obtain ⟨rootu, hcu, hiffu⟩ := matched_iff_matchesAll hlow hs hu hunbounded hlimit
  obtain ⟨hct, rfl⟩ := Compiler.compile_row_multiplier_ok hcb
  obtain ⟨-, rfl⟩ := Compiler.compile_row_multiplier_ok hcu
  have hfaithful : Compiler.Faithful (fun _ => none) tokens fold t
      ((Compiler.standard fold).stateOf t) := Compiler.faithful_compile hterm hct
  have hproper := hfaithful.proper
  have hhi : lo ≤ hi := by
    have := hmax hi rfl
    omega
  obtain ⟨reps, hreps, hlen, hlenhi⟩ :=
    (Machine.matchesAll_bounded_iff hproper hlo hhi).mp (hiffb.mp rfl)
  rw [Machine.matchesAll_unbounded_iff hproper hlo] at hiffu
  refine ⟨⟨reps, hreps, hlen, hlenhi⟩, hiffu, fun hnothing => ?_⟩
  obtain ⟨j, hdivides, -⟩ := id hreps
  have htakes : ∀ p ∈ reps, takes p = true := by
    intro p hp
    have hmatch := hdivides.mem p hp
    have hne : p.1 ≠ p.2 := fun he => hnothing p.1 (by rw [← he] at hmatch; exact hmatch)
    exact takes_iff.mpr (Nat.lt_of_le_of_ne hmatch.le hne)
  obtain ⟨hcount, hlast⟩ := countP_takes_of_forall htakes
  exact hiffu.mpr ⟨reps, hreps, by omega, hlast⟩

/-- The term `[ a? ]`. -/
def maybeTerm : Grammar := .group .juxtapose [.multiplier (.keyword "a") 0 (some 1) false] true false

/-- A token that is repetition enough, with the upper limit and without. -/
theorem matched_unbounded_iff_once :
    Grammar.parse "[ a? ]{1,3}" = .ok (.row [.multiplier maybeTerm 1 (some 3) false]) ∧
      Grammar.parse "[ a? ]{1,}" = .ok (.row [.multiplier maybeTerm 1 none false]) ∧
      ((⟨1000, false, Token.isSignificant⟩ : Matcher).answer .standard .empty "[ a? ]{1,3}"
        [⟨.ident, "a", none⟩]).map MatchResult.reason = .ok .matched ∧
      ((⟨1000, false, Token.isSignificant⟩ : Matcher).answer .standard .empty "[ a? ]{1,}"
        [⟨.ident, "a", none⟩]).map MatchResult.reason = .ok .matched ∧
      ∃ reps, (machine ⟨1000, false, Token.isSignificant⟩ [⟨.ident, "a", none⟩]
          (Dictionary.empty.roots .standard)).Repeats (.standard true) maybeTerm false reps ∧
        1 ≤ (reps.countP takes : Int) ∧ ∀ p ∈ reps.getLast?, takes p = true := by
  have hb : Grammar.parse "[ a? ]{1,3}" = .ok (.row [.multiplier maybeTerm 1 (some 3) false]) :=
    by cbv
  have hu : Grammar.parse "[ a? ]{1,}" = .ok (.row [.multiplier maybeTerm 1 none false]) := by cbv
  have hbounded : ((⟨1000, false, Token.isSignificant⟩ : Matcher).answer .standard .empty
      "[ a? ]{1,3}" [⟨.ident, "a", none⟩]).map MatchResult.reason = .ok .matched := by cbv
  have hunbounded : ((⟨1000, false, Token.isSignificant⟩ : Matcher).answer .standard .empty
      "[ a? ]{1,}" [⟨.ident, "a", none⟩]).map MatchResult.reason = .ok .matched := by cbv
  have hresult := matched_unbounded_iff rfl rfl hb hu (by decide) hbounded hunbounded (by decide)
  exact ⟨hb, hu, hbounded, hunbounded, hresult.2.1.mp rfl⟩

/-- The second repetition of `[ a? ]` takes nothing, which does for `{2}` but not for `{2,}`. -/
theorem unbounded_matches_less :
    Grammar.parse "[ a? ]{2}" = .ok (.row [.multiplier maybeTerm 2 (some 2) false]) ∧
      Grammar.parse "[ a? ]{2,}" = .ok (.row [.multiplier maybeTerm 2 none false]) ∧
      ((⟨1000, false, Token.isSignificant⟩ : Matcher).answer .standard .empty "[ a? ]{2}"
        [⟨.ident, "a", none⟩]).map MatchResult.reason = .ok .matched ∧
      ((⟨1000, false, Token.isSignificant⟩ : Matcher).answer .standard .empty "[ a? ]{2,}"
        [⟨.ident, "a", none⟩]).map MatchResult.reason = .ok .mismatched :=
  ⟨by cbv, by cbv, by cbv, by cbv⟩

end Matcher

end ValueGrammar

import ValueGrammar.Proofs.Leaf

/-!
# `ValueGrammar.Proofs.Acceptance` — what a state can match

The nondeterministic reading of the states of a compiled grammar. `Accepts calls ts f o i j` says
that from place `i` among the tokens `ts`, and under the range `o`, the focus `f` can succeed at
place `j`. A conditional may go either way, and a group in any order may try any term it has not
taken; nothing is said about which way a machine tries first. What references match is a parameter,
so that the relation can be used at any depth of them.

## Contents
- `tokenBefore`, `Calls`, `Accepts`: the relation.
- `Accepts.forward`, `Accepts.mono`: places only grow, and references that match more add matches.
- `accepts_cond_iff`, `accepts_branch_iff`: leaving out conditionals that change nothing does not
  change what is matched.
- `Joined`: matches that follow each other; `accepts_row_iff`.
-/

namespace ValueGrammar

/-- The token before a place; there is none before the first place. -/
def tokenBefore (ts : List Token) : Nat → Option Token
  | 0 => none
  | i + 1 => ts[i]?

/-- Which stretches of tokens each reference matches, under which range. -/
abbrev Calls : Type := Reference → Option Range → Nat → Nat → Prop

/-- From place `i`, and under the range `o`, a focus can succeed at place `j`. -/
inductive Accepts (calls : Calls) (ts : List Token) : Focus → Option Range → Nat → Nat → Prop where
  | accept {o i} : Accepts calls ts (.state .accept) o i i
  | leaf {l node o i n} (h : l.take (tokenBefore ts i) o (ts.drop i) = (n, true)) :
      Accepts calls ts (.state (.leaf l node)) o i (i + n)
  | next {test next other o i k j} (ht : Accepts calls ts (.state test) o i k)
      (hn : Accepts calls ts (.state next) o k j) :
      Accepts calls ts (.state (.cond test next other)) o i j
  | nonEmpty {test other o i j} (ht : Accepts calls ts (.state test) o i j) (h : i < j) :
      Accepts calls ts (.state (.cond test .nonEmpty other)) o i j
  | other {test next other o i j} (h : Accepts calls ts (.state other) o i j) :
      Accepts calls ts (.state (.cond test next other)) o i j
  | loop {body sep o i k j} (hb : Accepts calls ts (.state body) o i k)
      (ha : Accepts calls ts (.state (.again body sep)) o k j) :
      Accepts calls ts (.state (.loop body sep)) o i j
  | stop {body sep o i} : Accepts calls ts (.state (.again body sep)) o i i
  | more {body o i j} (h : Accepts calls ts (.state (.loop body none)) o i j) :
      Accepts calls ts (.state (.again body none)) o i j
  | separated {body node o i k j} (hc : Accepts calls ts (.state (.leaf .comma node)) o i k)
      (hl : Accepts calls ts (.state (.loop body (some node))) o k j) :
      Accepts calls ts (.state (.again body (some node))) o i j
  | enum {table t s o i j} (ht : ts[i]? = some t)
      (hs : table.lookup (stripHack (Text.lower t.value)) = some s)
      (h : Accepts calls ts (.state s) o i j) : Accepts calls ts (.state (.enum table)) o i j
  | once {terms all node o i j} (h : Accepts calls ts (.choose terms all node 0 .empty) o i j) :
      Accepts calls ts (.state (.once terms all node)) o i j
  | call {r range node o i j} (h : calls r (range <|> o) i j) :
      Accepts calls ts (.state (.call r range node)) o i j
  | resume {terms all node taken o i j}
      (h : Accepts calls ts (.choose terms all node 0 taken) o i j) :
      Accepts calls ts (.resume terms all node taken) o i j
  /-- every term is taken -/
  | complete {terms all node index taken o i} (hi : index ≠ terms.length)
      (h : taken = .full terms.length) : Accepts calls ts (.choose terms all node index taken) o i i
  /-- no further term is tried, and one was taken -/
  | enough {terms node taken o i} (h : taken ≠ .empty) :
      Accepts calls ts (.choose terms false node terms.length taken) o i i
  | pick {terms all node index taken n s o i k j} (hi : index ≠ terms.length)
      (hf : taken ≠ .full terms.length)
      (hn : Machine.nextTerm? taken index (terms.drop index) = some (n, s))
      (hs : Accepts calls ts (.state s) o i k)
      (hr : Accepts calls ts (.resume terms all node (taken.insert n)) o k j) :
      Accepts calls ts (.choose terms all node index taken) o i j
  | pass {terms all node index taken n s o i j} (hi : index ≠ terms.length)
      (hf : taken ≠ .full terms.length)
      (hn : Machine.nextTerm? taken index (terms.drop index) = some (n, s))
      (h : Accepts calls ts (.choose terms all node (n + 1) taken) o i j) :
      Accepts calls ts (.choose terms all node index taken) o i j
  | finish {terms all node index taken o i j} (hi : index ≠ terms.length)
      (hf : taken ≠ .full terms.length)
      (hn : Machine.nextTerm? taken index (terms.drop index) = none)
      (h : Accepts calls ts (.choose terms all node terms.length taken) o i j) :
      Accepts calls ts (.choose terms all node index taken) o i j

variable {calls : Calls} {ts : List Token} {o : Option Range} {i j : Nat}

/-! ## Places -/

/-- The references match forwards, and within the tokens. -/
def Calls.Forward (calls : Calls) (ts : List Token) : Prop :=
  ∀ r o i j, calls r o i j → i ≤ j ∧ (i ≤ ts.length → j ≤ ts.length)

theorem Accepts.forward {f : Focus} (hc : calls.Forward ts) (h : Accepts calls ts f o i j) :
    i ≤ j ∧ (i ≤ ts.length → j ≤ ts.length) := by
  induction h with
  | accept | stop | complete | enough => exact ⟨Nat.le_refl _, id⟩
  | leaf h =>
      refine ⟨Nat.le_add_right _ _, fun hi => ?_⟩
      have hle := Leaf.le_length_of_take h
      rw [List.length_drop] at hle
      omega
  | next _ _ ih₁ ih₂ | loop _ _ ih₁ ih₂ | separated _ _ ih₁ ih₂ =>
      exact ⟨Nat.le_trans ih₁.1 ih₂.1, fun hi => ih₂.2 (ih₁.2 hi)⟩
  | pick _ _ _ _ _ ih₁ ih₂ => exact ⟨Nat.le_trans ih₁.1 ih₂.1, fun hi => ih₂.2 (ih₁.2 hi)⟩
  | nonEmpty _ _ ih | other _ ih | more _ ih | enum _ _ _ ih | once _ ih | resume _ ih => exact ih
  | pass _ _ _ _ ih | finish _ _ _ _ ih => exact ih
  | call h => exact hc _ _ _ _ h

/-- More is matched if references match more. -/
theorem Accepts.mono {calls' : Calls} {f : Focus} (hc : ∀ r o i j, calls r o i j → calls' r o i j)
    (h : Accepts calls ts f o i j) : Accepts calls' ts f o i j := by
  induction h with
  | accept => exact .accept
  | leaf h => exact .leaf h
  | next _ _ ih₁ ih₂ => exact .next ih₁ ih₂
  | nonEmpty _ hlt ih => exact .nonEmpty ih hlt
  | other _ ih => exact .other ih
  | loop _ _ ih₁ ih₂ => exact .loop ih₁ ih₂
  | stop => exact .stop
  | more _ ih => exact .more ih
  | separated _ _ ih₁ ih₂ => exact .separated ih₁ ih₂
  | enum ht hs _ ih => exact .enum ht hs ih
  | once _ ih => exact .once ih
  | call h => exact .call (hc _ _ _ _ h)
  | resume _ ih => exact .resume ih
  | complete hi h => exact .complete hi h
  | enough h => exact .enough h
  | pick hi hf hn _ _ ih₁ ih₂ => exact .pick hi hf hn ih₁ ih₂
  | pass hi hf hn _ ih => exact .pass hi hf hn ih
  | finish hi hf hn _ ih => exact .finish hi hf hn ih

/-! ## Conditionals -/

@[simp] theorem accepts_accept_iff : Accepts calls ts (.state .accept) o i j ↔ i = j := by
  constructor
  · intro h; cases h; rfl
  · rintro rfl; exact .accept

@[simp] theorem not_accepts_reject : ¬ Accepts calls ts (.state .reject) o i j := by
  intro h; cases h

@[simp] theorem not_accepts_nonEmpty : ¬ Accepts calls ts (.state .nonEmpty) o i j := by
  intro h; cases h

theorem accepts_leaf_iff {l : Leaf} {node : Grammar} :
    Accepts calls ts (.state (.leaf l node)) o i j ↔
      ∃ n, l.take (tokenBefore ts i) o (ts.drop i) = (n, true) ∧ j = i + n := by
  constructor
  · intro h; cases h with | leaf h => exact ⟨_, h, rfl⟩
  · rintro ⟨n, h, rfl⟩; exact .leaf h

/-- What comes after the test of a conditional that was entered at `i` and whose test succeeded
at `k`. -/
def Passes (calls : Calls) (ts : List Token) (next : State) (o : Option Range) (i k j : Nat) :
    Prop :=
  (next = .nonEmpty ∧ i < k ∧ k = j) ∨ Accepts calls ts (.state next) o k j

theorem passes_of_ne {next : State} {k : Nat} (h : next ≠ .nonEmpty) :
    Passes calls ts next o i k j ↔ Accepts calls ts (.state next) o k j := by
  simp [Passes, h]

@[simp] theorem passes_nonEmpty {k : Nat} :
    Passes calls ts .nonEmpty o i k j ↔ i < k ∧ k = j := by simp [Passes]

theorem accepts_cond_iff {test next other : State} :
    Accepts calls ts (.state (.cond test next other)) o i j ↔
      (∃ k, Accepts calls ts (.state test) o i k ∧ Passes calls ts next o i k j) ∨
        Accepts calls ts (.state other) o i j := by
  constructor
  · intro h
    cases h with
    | next ht hn => exact .inl ⟨_, ht, .inr hn⟩
    | nonEmpty ht h => exact .inl ⟨_, ht, .inl ⟨rfl, h, rfl⟩⟩
    | other h => exact .inr h
  · rintro (⟨k, ht, ⟨rfl, h, rfl⟩ | hn⟩ | h)
    · exact .nonEmpty ht h
    · exact .next ht hn
    · exact .other h

theorem accepts_loop_iff {body : State} {sep : Option Grammar} :
    Accepts calls ts (.state (.loop body sep)) o i j ↔
      ∃ k, Accepts calls ts (.state body) o i k ∧ Accepts calls ts (.state (.again body sep)) o k j := by
  constructor
  · intro h; cases h with | loop hb ha => exact ⟨_, hb, ha⟩
  · rintro ⟨k, hb, ha⟩; exact .loop hb ha

theorem accepts_again_none_iff {body : State} :
    Accepts calls ts (.state (.again body none)) o i j ↔
      i = j ∨ Accepts calls ts (.state (.loop body none)) o i j := by
  constructor
  · intro h
    cases h with
    | stop => exact .inl rfl
    | more h => exact .inr h
  · rintro (rfl | h)
    · exact .stop
    · exact .more h

theorem accepts_again_some_iff {body : State} {node : Grammar} :
    Accepts calls ts (.state (.again body (some node))) o i j ↔
      i = j ∨ ∃ k, Accepts calls ts (.state (.leaf .comma node)) o i k ∧
        Accepts calls ts (.state (.loop body (some node))) o k j := by
  constructor
  · intro h
    cases h with
    | stop => exact .inl rfl
    | separated hc hl => exact .inr ⟨_, hc, hl⟩
  · rintro (rfl | ⟨k, hc, hl⟩)
    · exact .stop
    · exact .separated hc hl

/-- A state that stands for a conditional matches what the conditional matches. -/
theorem accepts_of_branch? {s test next other : State} (h : s.branch? = some (test, next, other)) :
    Accepts calls ts (.state s) o i j ↔ Accepts calls ts (.state (.cond test next other)) o i j := by
  unfold State.branch? at h
  split at h
  · cases h; rfl
  · cases h
    rw [accepts_loop_iff, accepts_cond_iff]
    simp [passes_of_ne]
  · cases h
    rw [accepts_again_none_iff, accepts_cond_iff]
    simp [passes_of_ne]
  · cases h
    rw [accepts_again_some_iff, accepts_cond_iff, accepts_cond_iff]
    simp [passes_of_ne]
  · cases h

theorem State.eq_accept_of_isAccept {s : State} (h : s.isAccept = true) : s = .accept := by
  cases s <;> simp_all [State.isAccept]

theorem State.eq_reject_of_isReject {s : State} (h : s.isReject = true) : s = .reject := by
  cases s <;> simp_all [State.isReject]

/-- A state that ends a path instead of looking at tokens. -/
def State.IsSentinel : State → Prop
  | .accept => True
  | .reject => True
  | .nonEmpty => True
  | _ => False

/-- A conditional without the parts that change nothing is its test or a conditional. -/
theorem State.branch_eq (test next other : State) :
    State.branch test next other = test ∨ ∃ t n, State.branch test next other = .cond t n other := by
  unfold State.branch
  repeat' split
  all_goals first
    | exact .inl rfl
    | exact .inr ⟨_, _, rfl⟩

theorem State.branch_not_isSentinel {test next other : State} (h : ¬ test.IsSentinel) :
    ¬ (State.branch test next other).IsSentinel := by
  rcases State.branch_eq test next other with he | ⟨t, n, he⟩
  · rw [he]; exact h
  · rw [he]; exact id

theorem State.optional_not_isSentinel {s : State} (h : ¬ s.IsSentinel) :
    ¬ (State.branch .accept .accept s).IsSentinel := by
  cases s with
  | accept | reject | nonEmpty => exact absurd trivial h
  | _ => exact id

theorem State.ne_nonEmpty {s : State} (h : ¬ s.IsSentinel) : s ≠ .nonEmpty := by
  rintro rfl; exact h trivial

theorem State.branch_ne_nonEmpty {test next other : State} (h : test ≠ .nonEmpty) :
    State.branch test next other ≠ .nonEmpty := by
  rcases State.branch_eq test next other with he | ⟨t, n, he⟩
  · rw [he]; exact h
  · rw [he]; simp

/-- **A conditional without the parts that change nothing matches the same.** -/
theorem accepts_branch_iff {test next other : State} :
    Accepts calls ts (.state (State.branch test next other)) o i j ↔
      Accepts calls ts (.state (.cond test next other)) o i j := by
  unfold State.branch
  split
  · rename_i h
    rw [Bool.and_eq_true] at h
    rw [State.eq_accept_of_isAccept h.1, State.eq_reject_of_isReject h.2, accepts_cond_iff]
    simp [passes_of_ne]
  · split
    · rename_i h
      simp only [Bool.and_eq_true] at h
      rw [State.eq_accept_of_isAccept h.1.1, State.eq_accept_of_isAccept h.1.2,
        State.eq_accept_of_isAccept h.2, accepts_cond_iff]
      simp [passes_of_ne]
    · split
      · rename_i h
        rw [State.eq_accept_of_isAccept h]
        split
        · rename_i test' next' other' hb
          split
          · -- the test is a conditional without an alternative, which is merged into this one
            rename_i hr
            rw [State.eq_reject_of_isReject hr] at hb
            rw [accepts_cond_iff, accepts_cond_iff]
            simp [accepts_of_branch? hb, accepts_cond_iff, passes_of_ne]
          · rfl
        · rfl
      · rfl

/-- A state that may be left out. -/
theorem accepts_optional_iff {s : State} :
    Accepts calls ts (.state (State.branch .accept .accept s)) o i j ↔
      i = j ∨ Accepts calls ts (.state s) o i j := by
  rw [accepts_branch_iff, accepts_cond_iff]
  simp [passes_of_ne]

/-- A state that must not match nothing. -/
theorem accepts_nonEmpty_iff {s : State} :
    Accepts calls ts (.state (State.branch s .nonEmpty .reject)) o i j ↔
      Accepts calls ts (.state s) o i j ∧ i < j := by
  rw [accepts_branch_iff, accepts_cond_iff]
  simp only [passes_nonEmpty, not_accepts_reject, or_false]
  constructor
  · rintro ⟨k, hs, hlt, rfl⟩; exact ⟨hs, hlt⟩
  · rintro ⟨hs, hlt⟩; exact ⟨j, hs, hlt, rfl⟩

/-! ## Rows -/

/-- Matches of the members of a list, each starting where the one before it ends. -/
def Joined {α : Type} (P : α → Nat → Nat → Prop) : List α → Nat → Nat → Prop
  | [], i, j => i = j
  | x :: xs, i, j => ∃ k, P x i k ∧ Joined P xs k j

namespace Joined

variable {α β : Type} {P Q : α → Nat → Nat → Prop}

@[simp] theorem nil_iff : Joined P [] i j ↔ i = j := Iff.rfl

@[simp] theorem cons_iff {x : α} {xs : List α} :
    Joined P (x :: xs) i j ↔ ∃ k, P x i k ∧ Joined P xs k j := Iff.rfl

theorem map_iff {f : β → α} {xs : List β} :
    Joined P (xs.map f) i j ↔ Joined (fun x => P (f x)) xs i j := by
  induction xs generalizing i with
  | nil => rfl
  | cons x xs ih => simp only [List.map_cons, cons_iff, ih]

theorem mono {xs : List α} (h : ∀ x ∈ xs, ∀ i j, P x i j → Q x i j) (hj : Joined P xs i j) :
    Joined Q xs i j := by
  induction xs generalizing i with
  | nil => exact hj
  | cons x xs ih =>
      obtain ⟨k, hx, hxs⟩ := hj
      exact ⟨k, h x List.mem_cons_self i k hx,
        ih (fun y hy => h y (List.mem_cons_of_mem x hy)) hxs⟩

end Joined

/-- What states match under a range. -/
def Matches (calls : Calls) (ts : List Token) (o : Option Range) (s : State) (i j : Nat) : Prop :=
  Accepts calls ts (.state s) o i j

@[simp] theorem matches_iff {s : State} :
    Matches calls ts o s i j ↔ Accepts calls ts (.state s) o i j := Iff.rfl

/-- A row of states matches what its members match one after the other. -/
theorem accepts_row_iff {states : List State} (h : ∀ s ∈ states, ¬ s.IsSentinel) :
    Accepts calls ts (.state (states.foldr (fun s rest => State.branch s rest .reject) .accept)) o i j ↔
      Joined (Matches calls ts o) states i j := by
  induction states generalizing i with
  | nil => simp
  | cons s states ih =>
      have hs : ∀ s ∈ states, ¬ s.IsSentinel := fun t ht => h t (List.mem_cons_of_mem s ht)
      have hne : states.foldr (fun s rest => State.branch s rest .reject) .accept ≠ .nonEmpty := by
        cases states with
        | nil => simp
        | cons t states => exact State.branch_ne_nonEmpty (State.ne_nonEmpty (hs t List.mem_cons_self))
      rw [List.foldr_cons, accepts_branch_iff, accepts_cond_iff, Joined.cons_iff]
      simp [passes_of_ne hne, ih hs]

end ValueGrammar

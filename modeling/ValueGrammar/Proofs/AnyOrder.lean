import ValueGrammar.Proofs.Acceptance
import Mathlib.Data.List.Perm.Subperm

/-!
# `ValueGrammar.Proofs.AnyOrder` — what a group in any order matches

A group in any order keeps the terms it has taken as bits of a word, and goes over the others from
the first to the last. What it matches is a row of its terms in some order: all of them, or some of
them.

## Contents
- `TermSet.has_insert`, `TermSet.has_full`: the word is a set of numbers.
- `remaining`: the terms that are not in such a set.
- `exists_picks_of_accepts`, `accepts_choose_of_picks`: paths through a group and rows of its terms.
- `accepts_once_all_iff`, `accepts_once_any_iff`: the two kinds of groups.
-/

namespace ValueGrammar

/-! ## Sets of terms -/

namespace TermSet

variable {s t : TermSet} {n : Nat}

@[simp] theorem has_empty (i : Nat) : empty.has i = false := by simp [empty, has]

theorem has_insert (hn : n < 64) (i : Nat) : (s.insert n).has i = (s.has i || decide (i = n)) := by
  simp only [insert, has, BitVec.getLsbD_or, BitVec.getLsbD_twoPow]
  by_cases h : i = n
  · simp [h]; omega
  · simp [h]; omega

theorem has_full (hn : n ≤ 64) (i : Nat) : (full n).has i = decide (i < n) := by
  unfold full has
  split
  · -- 64 terms fill the word, where a power of two would not fit
    obtain rfl : n = 64 := by omega
    rw [BitVec.getLsbD_allOnes]
  · have hlt : 2 ^ n < 2 ^ 64 := Nat.pow_lt_pow_right (by decide) (by omega)
    have hnat : (BitVec.twoPow 64 n - 1#64).toNat = 2 ^ n - 1 := by
      rw [BitVec.toNat_sub_of_le, BitVec.toNat_twoPow, Nat.mod_eq_of_lt hlt]
      · rfl
      · rw [BitVec.le_def, BitVec.toNat_twoPow, Nat.mod_eq_of_lt hlt]
        exact Nat.two_pow_pos n
    rw [BitVec.getLsbD, hnat, Nat.testBit_two_pow_sub_one]

theorem ext_has (h : ∀ i, i < 64 → s.has i = t.has i) : s = t := BitVec.eq_of_getLsbD_eq h

/-- The set has only numbers of the first `n` terms. -/
def Below (s : TermSet) (n : Nat) : Prop := ∀ i, s.has i = true → i < n

theorem below_empty (n : Nat) : empty.Below n := by
  intro i h; simp at h

theorem Below.insert {k : Nat} (h : s.Below n) (hk : k < n) (hn : n ≤ 64) : (s.insert k).Below n := by
  intro i hi
  rw [has_insert (by omega), Bool.or_eq_true, decide_eq_true_eq] at hi
  rcases hi with hi | rfl
  · exact h i hi
  · exact hk

/-- A set of the first `n` terms that has them all is full. -/
theorem Below.eq_full (h : s.Below n) (hn : n ≤ 64) (hall : ∀ i, i < n → s.has i = true) :
    s = full n := by
  refine ext_has fun i _ => ?_
  rw [has_full hn]
  by_cases hi : i < n
  · simp [hi, hall i hi]
  · have : s.has i ≠ true := fun hs => hi (h i hs)
    simpa [hi] using this

theorem full_ne_empty (hn : n ≤ 64) (hpos : 0 < n) : full n ≠ empty := by
  intro h
  have h0 := has_full hn 0
  rw [h] at h0
  simp [hpos] at h0

theorem insert_ne_empty (hn : n < 64) : s.insert n ≠ empty := by
  intro h
  have hs := has_insert (s := s) hn n
  rw [h] at hs
  simp at hs

end TermSet

/-! ## The next term -/

theorem nextTerm?_some {taken : TermSet} {ss : List State} {index n : Nat} {s : State}
    (h : Machine.nextTerm? taken index ss = some (n, s)) :
    index ≤ n ∧ ss[n - index]? = some s ∧ taken.has n = false ∧
      ∀ m, index ≤ m → m < n → taken.has m = true := by
  induction ss generalizing index with
  | nil => simp [Machine.nextTerm?] at h
  | cons t ss ih =>
      rw [Machine.nextTerm?] at h
      split at h
      · rename_i ht
        obtain ⟨hle, hs, hn, hall⟩ := ih h
        refine ⟨by omega, ?_, hn, fun m hm hmn => ?_⟩
        · rw [show n - index = (n - (index + 1)) + 1 by omega, List.getElem?_cons_succ]
          exact hs
        · rcases Nat.eq_or_lt_of_le hm with rfl | hlt
          · exact ht
          · exact hall m hlt hmn
      · rename_i ht
        cases h
        exact ⟨Nat.le_refl _, by simp, by simpa using ht, fun m hm hmn => by omega⟩

theorem nextTerm?_none {taken : TermSet} {ss : List State} {index : Nat}
    (h : Machine.nextTerm? taken index ss = none) :
    ∀ m, index ≤ m → m < index + ss.length → taken.has m = true := by
  induction ss generalizing index with
  | nil => intro m hm hlt; simp only [List.length_nil] at hlt; omega
  | cons t ss ih =>
      intro m hm hlt
      rw [Machine.nextTerm?] at h
      split at h
      · rename_i ht
        rcases Nat.eq_or_lt_of_le hm with rfl | hgt
        · exact ht
        · refine ih h m hgt ?_
          rw [List.length_cons] at hlt
          omega
      · cases h

/-! ## The terms left -/

/-- The members of a list whose numbers are not in a set, where the first has the number `n`. -/
def remaining {α : Type} (taken : TermSet) : Nat → List α → List α
  | _, [] => []
  | n, x :: xs => if taken.has n then remaining taken (n + 1) xs else x :: remaining taken (n + 1) xs

section remaining

variable {α : Type} {taken : TermSet} {xs : List α} {n : Nat}

theorem remaining_empty : remaining .empty n xs = xs := by
  induction xs generalizing n with
  | nil => rfl
  | cons x xs ih => simp [remaining, ih]

/-- Nothing is left if and only if every number is in the set. -/
theorem remaining_eq_nil_iff :
    remaining taken n xs = [] ↔ ∀ m, n ≤ m → m < n + xs.length → taken.has m = true := by
  induction xs generalizing n with
  | nil => simp only [remaining, List.length_nil, true_iff]; intro m hm hlt; omega
  | cons x xs ih =>
      rw [remaining, List.length_cons]
      constructor
      · intro h m hm hlt
        split at h
        · rename_i ht
          rcases Nat.eq_or_lt_of_le hm with rfl | hgt
          · exact ht
          · exact ih.mp h m hgt (by omega)
        · cases h
      · intro h
        rw [if_pos (h n (Nat.le_refl n) (by omega))]
        exact ih.mpr fun m hm hlt => h m (by omega) (by omega)

/-- What is left has a number that is not in the set. -/
theorem exists_index_of_mem_remaining {x : α} (h : x ∈ remaining taken n xs) :
    ∃ m, xs[m]? = some x ∧ taken.has (n + m) = false := by
  induction xs generalizing n with
  | nil => simp [remaining] at h
  | cons y ys ih =>
      rw [remaining] at h
      split at h
      · obtain ⟨m, hm, ht⟩ := ih h
        exact ⟨m + 1, by simpa using hm, by rw [← ht]; congr 1; omega⟩
      · rename_i ht
        rcases List.mem_cons.mp h with rfl | h
        · exact ⟨0, rfl, by simpa using ht⟩
        · obtain ⟨m, hm, ht'⟩ := ih h
          exact ⟨m + 1, by simpa using hm, by rw [← ht']; congr 1; omega⟩

/-- Numbers before the first one do not matter. -/
theorem remaining_insert_of_lt {k : Nat} (hk : k < 64) (h : k < n) :
    remaining (taken.insert k) n xs = remaining taken n xs := by
  induction xs generalizing n with
  | nil => rfl
  | cons x xs ih =>
      have hn : (taken.insert k).has n = taken.has n := by
        rw [TermSet.has_insert hk, decide_eq_false (by omega), Bool.or_false]
      rw [remaining, remaining, hn, ih (by omega)]

/-- Taking a term leaves the others. -/
theorem remaining_perm_cons_insert {m : Nat} {x : α} (hm : n + m < 64) (hx : xs[m]? = some x)
    (ht : taken.has (n + m) = false) :
    (remaining taken n xs).Perm (x :: remaining (taken.insert (n + m)) n xs) := by
  induction xs generalizing n m with
  | nil => simp at hx
  | cons y ys ih =>
      cases m with
      | zero =>
          obtain rfl : y = x := by simpa using hx
          rw [Nat.add_zero] at ht hm ⊢
          rw [remaining, remaining, if_neg (by simp [ht]), if_pos (by simp [TermSet.has_insert hm]),
            remaining_insert_of_lt hm (Nat.lt_succ_self n)]
      | succ m =>
          have hn : (taken.insert (n + (m + 1))).has n = taken.has n := by
            rw [TermSet.has_insert hm, decide_eq_false (by omega), Bool.or_false]
          have hrec := ih (n := n + 1) (m := m) (by omega) (by simpa using hx)
            (by rw [← ht]; congr 1; omega)
          rw [show n + 1 + m = n + (m + 1) by omega] at hrec
          rw [remaining, remaining, hn]
          split
          · exact hrec
          · exact (hrec.cons y).trans (List.Perm.swap x y _)

/-- Taking a term leaves the others, counted from the first. -/
theorem remaining_perm_cons {m : Nat} {x : α} (hm : m < 64) (hx : xs[m]? = some x)
    (ht : taken.has m = false) :
    (remaining taken 0 xs).Perm (x :: remaining (taken.insert m) 0 xs) := by
  have h := remaining_perm_cons_insert (n := 0) (by omega) hx (by rw [Nat.zero_add]; exact ht)
  rwa [Nat.zero_add] at h

end remaining

/-! ## Paths through a group -/

variable {calls : Calls} {ts : List Token} {o : Option Range} {i j : Nat}
variable {α : Type} {xs : List α} {f : α → State} {all : Bool} {node : Grammar}

/-- The focus looks at a group of the terms of `xs`, of which those of `taken` are taken. -/
def Focus.Groups (F : Focus) (terms : List State) (all : Bool) (node : Grammar) (taken : TermSet) :
    Prop :=
  (∃ index, F = .choose terms all node index taken) ∨ F = .resume terms all node taken

/-- The rows a group can match when some of its terms are taken: members left in some order, all of
them if need be, and at least one if none is taken yet. -/
def Picks (picks : List α) (xs : List α) (all : Bool) (taken : TermSet) : Prop :=
  picks.Subperm (remaining taken 0 xs) ∧ (all = true → picks.Perm (remaining taken 0 xs)) ∧
    (picks = [] → taken ≠ .empty)

theorem Picks.cons {picks : List α} {taken : TermSet} {n : Nat} {x : α} (hn : n < 64)
    (hx : xs[n]? = some x) (ht : taken.has n = false) (h : Picks picks xs all (taken.insert n)) :
    Picks (x :: picks) xs all taken := by
  have hp := remaining_perm_cons hn hx ht
  refine ⟨?_, fun ha => ((h.2.1 ha).cons x).trans hp.symm, by simp⟩
  exact (hp.subperm_left.mpr ((List.subperm_cons x).mpr h.1))

/-- A path through a group is a row of terms that were left. The induction is on the path: a term
that is picked comes first in the row, and one that is passed leaves the row as it is. -/
theorem exists_picks_of_accepts {F : Focus} (hxs : xs ≠ []) (hlen : xs.length ≤ 64)
    (h : Accepts calls ts F o i j) : ∀ all node taken, F.Groups (xs.map f) all node taken →
      ∃ picks, Picks picks xs all taken ∧ Joined (fun x => Matches calls ts o (f x)) picks i j := by
  have hpos : 0 < xs.length := List.length_pos_iff.mpr hxs
  induction h with
  | resume _ ih =>
      rintro all node taken (⟨index, he⟩ | he)
      · cases he
      · cases he; exact ih _ _ _ (.inl ⟨0, rfl⟩)
  | @complete terms all node index taken o i hi hf =>
      rintro all' node' taken' (⟨index', he⟩ | he)
      · cases he
        -- a full set leaves nothing, and is not empty because there is a term
        rw [List.length_map] at hf
        have hnil : remaining taken 0 xs = [] := by
          rw [remaining_eq_nil_iff, hf]
          intro m _ hm
          rw [TermSet.has_full hlen, decide_eq_true_eq]
          omega
        refine ⟨[], ⟨List.nil_subperm, fun _ => by rw [hnil], fun _ => ?_⟩, rfl⟩
        rw [hf]
        exact TermSet.full_ne_empty hlen hpos
      · cases he
  | enough hne =>
      rintro all' node' taken' (⟨index', he⟩ | he)
      · cases he
        exact ⟨[], ⟨List.nil_subperm, by simp, fun _ => hne⟩, rfl⟩
      · cases he
  | @pick terms all node index taken n s o i k j hi hf hn hs _ _ ih =>
      rintro all' node' taken' (⟨index', he⟩ | he)
      · cases he
        obtain ⟨hle, hget, htn, -⟩ := nextTerm?_some hn
        rw [List.getElem?_drop, show index + (n - index) = n by omega, List.getElem?_map] at hget
        obtain ⟨x, hx, rfl⟩ := Option.map_eq_some_iff.mp hget
        have hnlt : n < xs.length := (List.getElem?_eq_some_iff.mp hx).1
        obtain ⟨picks, hp, hj⟩ := ih _ _ _ (.inr rfl)
        exact ⟨x :: picks, hp.cons (by omega) hx htn, k, hs, hj⟩
      · cases he
  | pass _ _ _ _ ih | finish _ _ _ _ ih =>
      rintro all' node' taken' (⟨index', he⟩ | he)
      · cases he; exact ih _ _ _ (.inl ⟨_, rfl⟩)
      · cases he
  | _ =>
      rintro all' node' taken' (⟨index', he⟩ | he) <;> cases he

/-- Once a term is taken a group that needs only some may stop, whichever terms are still to be
tried. -/
theorem accepts_choose_stop {terms : List State} {index : Nat} {taken : TermSet}
    (ht : taken ≠ .empty) (hi : index ≤ terms.length) :
    Accepts calls ts (.choose terms false node index taken) o i i := by
  induction hk : terms.length - index using Nat.strongRecOn generalizing index with
  | _ k ih =>
      by_cases he : index = terms.length
      · rw [he]; exact .enough ht
      by_cases hf : taken = .full terms.length
      · exact .complete he hf
      cases hn : Machine.nextTerm? taken index (terms.drop index) with
      | none => exact .finish he hf hn (.enough ht)
      | some p =>
          obtain ⟨n, s⟩ := p
          obtain ⟨hle, hget, -, -⟩ := nextTerm?_some hn
          have hlt : n - index < (terms.drop index).length := (List.getElem?_eq_some_iff.mp hget).1
          rw [List.length_drop] at hlt
          exact .pass he hf hn (ih (terms.length - (n + 1)) (by omega) (by omega) rfl)

/-- Every term that is not taken gets its turn. -/
theorem accepts_choose_term {terms : List State} {index n k : Nat} {taken : TermSet} {s : State}
    (hlen : terms.length ≤ 64) (hget : terms[n]? = some s) (ht : taken.has n = false)
    (hi : index ≤ n) (hs : Accepts calls ts (.state s) o i k)
    (hr : Accepts calls ts (.resume terms all node (taken.insert n)) o k j) :
    Accepts calls ts (.choose terms all node index taken) o i j := by
  have hn : n < terms.length := (List.getElem?_eq_some_iff.mp hget).1
  have hf : taken ≠ .full terms.length := by
    intro he
    rw [he, TermSet.has_full hlen] at ht
    simp [hn] at ht
  induction hd : n - index using Nat.strongRecOn generalizing index with
  | _ d ih =>
      have he : index ≠ terms.length := by omega
      cases hnext : Machine.nextTerm? taken index (terms.drop index) with
      | none =>
          have := nextTerm?_none hnext n hi (by rw [List.length_drop]; omega)
          rw [ht] at this
          cases this
      | some p =>
          obtain ⟨m, s'⟩ := p
          obtain ⟨hle, hget', htm, hall⟩ := nextTerm?_some hnext
          -- the term tried next is passed if it comes first; it cannot come later, since no term
          -- that is left is skipped
          rcases Nat.lt_trichotomy m n with hlt | rfl | hgt
          · exact .pass he hf hnext (ih (n - (m + 1)) (by omega) (by omega) rfl)
          · rw [List.getElem?_drop, show index + (m - index) = m by omega, hget] at hget'
            cases hget'
            exact .pick he hf hnext hs hr
          · have := hall n hi hgt
            rw [ht] at this
            cases this

/-- A row of terms that are left is a path through the group. -/
theorem accepts_choose_of_picks {picks : List α} {taken : TermSet} (hxs : xs ≠ [])
    (hlen : xs.length ≤ 64) (hb : taken.Below xs.length) (hp : Picks picks xs all taken)
    (hj : Joined (fun x => Matches calls ts o (f x)) picks i j) :
    Accepts calls ts (.choose (xs.map f) all node 0 taken) o i j := by
  induction picks generalizing taken i with
  | nil =>
      obtain rfl : i = j := hj
      cases all with
      | true =>
          have hnil : remaining taken 0 xs = [] := (hp.2.1 rfl).nil_eq.symm
          rw [remaining_eq_nil_iff] at hnil
          refine .complete ?_ ?_
          · simpa [eq_comm] using hxs
          · rw [List.length_map]
            exact hb.eq_full hlen fun m hm => hnil m (Nat.zero_le m) (by omega)
      | false => exact accepts_choose_stop (hp.2.2 rfl) (Nat.zero_le _)
  | cons x picks ih =>
      obtain ⟨k, hx, hrest⟩ := hj
      have hmem : x ∈ remaining taken 0 xs := hp.1.subset List.mem_cons_self
      obtain ⟨n, hget, ht⟩ := exists_index_of_mem_remaining hmem
      rw [Nat.zero_add] at ht
      have hn : n < xs.length := (List.getElem?_eq_some_iff.mp hget).1
      -- the other picks are picks from what is left after the first one
      have hperm := remaining_perm_cons (by omega) hget ht
      have hp' : Picks picks xs all (taken.insert n) := by
        refine ⟨?_, fun ha => ?_, fun _ => TermSet.insert_ne_empty (by omega)⟩
        · exact (List.subperm_cons x).mp (hperm.subperm_left.mp hp.1)
        · exact ((hp.2.1 ha).trans hperm).cons_inv
      refine accepts_choose_term (by simpa using hlen) (by simp [hget]) ht (Nat.zero_le n) hx ?_
      exact .resume (ih (hb.insert hn hlen) hp' hrest)

/-! ## The two kinds of groups -/

theorem accepts_once_iff (hxs : xs ≠ []) (hlen : xs.length ≤ 64) :
    Accepts calls ts (.state (.once (xs.map f) all node)) o i j ↔
      ∃ picks, Picks picks xs all .empty ∧ Joined (fun x => Matches calls ts o (f x)) picks i j := by
  constructor
  · intro h
    cases h with
    | once h => exact exists_picks_of_accepts hxs hlen h all node .empty (.inl ⟨0, rfl⟩)
  · rintro ⟨picks, hp, hj⟩
    exact .once (accepts_choose_of_picks hxs hlen (TermSet.below_empty _) hp hj)

/-- **A group that needs all of its terms** matches a row of them in some order. -/
theorem accepts_once_all_iff (hxs : xs ≠ []) (hlen : xs.length ≤ 64) :
    Accepts calls ts (.state (.once (xs.map f) true node)) o i j ↔
      ∃ order : List α, order.Perm xs ∧ Joined (fun x => Matches calls ts o (f x)) order i j := by
  rw [accepts_once_iff hxs hlen]
  simp only [Picks, remaining_empty, true_imp_iff, ne_eq, not_true_eq_false]
  constructor
  · rintro ⟨picks, ⟨-, hp, -⟩, hj⟩; exact ⟨picks, hp, hj⟩
  · rintro ⟨order, hp, hj⟩
    refine ⟨order, ⟨hp.subperm, hp, ?_⟩, hj⟩
    rintro rfl
    exact hxs hp.nil_eq.symm

/-- **A group that needs some of its terms** matches a row of one or more of them in some order. -/
theorem accepts_once_any_iff (hxs : xs ≠ []) (hlen : xs.length ≤ 64) :
    Accepts calls ts (.state (.once (xs.map f) false node)) o i j ↔
      ∃ order : List α, order.Subperm xs ∧ order ≠ [] ∧
        Joined (fun x => Matches calls ts o (f x)) order i j := by
  rw [accepts_once_iff hxs hlen]
  simp only [Picks, remaining_empty, Bool.false_eq_true, false_imp_iff, true_and, ne_eq,
    not_true_eq_false]
  constructor
  · rintro ⟨picks, ⟨hs, hne⟩, hj⟩; exact ⟨picks, hs, hne, hj⟩
  · rintro ⟨order, hs, hne, hj⟩; exact ⟨order, ⟨hs, hne⟩, hj⟩

end ValueGrammar

import ValueGrammar.Proofs.Folding.Table

/-!
# `ValueGrammar.Proofs.Padding.States` — conditionals that change nothing

A compiler may build every conditional as it is, or leave out the parts that do not change what matches.
The states of the first kind are those of the second kind padded with such parts: a test that only passes
its outcome on, an alternative to what succeeds at once, and a conditional as the test of another one
where its parts could stand. One step of the compiler pads its states by one of these at most, but what
is padded is padded again by the steps after it.

## Contents
- `Compiler.verbatim`: the compiler that builds every conditional as it is.
- `State.Pads`, `State.Pads.branch`: states and padded states, and how they are built.
- `Alternatives.Pads`, `Compiler.pads_grouped`, `Compiler.pads_repeated`: one construct each.
- `Compiler.pads_compile`: the states of a grammar.
-/

namespace ValueGrammar

/-- The compiler that builds every conditional as it is. -/
def Compiler.verbatim (foldEnums : Bool) : Compiler := ⟨foldEnums, State.cond⟩

/-! ## States -/

namespace State

/-- The second state is the first one with conditionals that change nothing. The check that a token was
taken is no state by itself, and stands where it stood. -/
inductive Pads : State → State → Prop where
  | accept : Pads .accept .accept
  | reject : Pads .reject .reject
  | cond {test next other test' next' other'} (ht : Pads test test') (hn : Pads next next')
      (ho : Pads other other') : Pads (.cond test next other) (.cond test' next' other')
  | checked {test other test' other'} (ht : Pads test test') (ho : Pads other other') :
      Pads (.cond test .nonEmpty other) (.cond test' .nonEmpty other')
  | loop {body body' sep} (h : Pads body body') : Pads (.loop body sep) (.loop body' sep)
  | again {body body' sep} (h : Pads body body') : Pads (.again body sep) (.again body' sep)
  | enum {table table' : List (String × State)} (hk : table.map Prod.fst = table'.map Prod.fst)
      (h : List.Forall₂ Pads (table.map Prod.snd) (table'.map Prod.snd)) :
      Pads (.enum table) (.enum table')
  | once {terms terms' all node} (h : List.Forall₂ Pads terms terms') :
      Pads (.once terms all node) (.once terms' all node)
  | leaf {l node} : Pads (.leaf l node) (.leaf l node)
  | call {r range node} : Pads (.call r range node) (.call r range node)
  /-- a conditional that only passes the outcome of its test on -/
  | passing {s test' next' other'} (ht : Pads s test') (hn : Pads .accept next')
      (ho : Pads .reject other') : Pads s (.cond test' next' other')
  /-- a conditional that succeeds whatever happens -/
  | idle {test' next' other'} (ht : Pads .accept test') (hn : Pads .accept next')
      (ho : Pads .accept other') : Pads .accept (.cond test' next' other')
  /-- a conditional whose test is a conditional without an alternative -/
  | merged {s s' test next other next' other'} (hs : Pads s s')
      (hb : s.branch? = some (test, next, .reject)) (hn : Pads .accept next')
      (ho : Pads other other') : Pads (.cond test next other) (.cond s' next' other')

/-- The check that a token was taken is no padded state, and no state is padded to it. -/
theorem Pads.ne_nonEmpty {s s' : State} : s.Pads s' → s ≠ .nonEmpty ∧ s' ≠ .nonEmpty
  | .passing ht _ _ => ⟨ht.ne_nonEmpty.1, nofun⟩
  | .accept | .reject | .cond _ _ _ | .checked _ _ | .loop _ | .again _ | .enum _ _ | .once _
  | .leaf | .call | .idle _ _ _ | .merged _ _ _ _ => ⟨nofun, nofun⟩

variable {test test' next next' other other' : State}

theorem Pads.cond_of_next (ht : test.Pads test')
    (hn : (next = .nonEmpty ∧ next' = .nonEmpty) ∨ next.Pads next') (ho : other.Pads other') :
    (State.cond test next other).Pads (.cond test' next' other') := by
  rcases hn with ⟨rfl, rfl⟩ | hn
  · exact .checked ht ho
  · exact .cond ht hn ho

theorem Pads.accept_of_next (ha : next.isAccept = true)
    (hn : (next = .nonEmpty ∧ next' = .nonEmpty) ∨ next.Pads next') : State.accept.Pads next' := by
  rcases hn with ⟨rfl, -⟩ | hn
  · cases ha
  · rwa [eq_accept_of_isAccept ha] at hn

/-- **Leaving out what changes nothing is undone by padding.** -/
theorem Pads.branch (ht : test.Pads test')
    (hn : (next = .nonEmpty ∧ next' = .nonEmpty) ∨ next.Pads next') (ho : other.Pads other') :
    (State.branch test next other).Pads (.cond test' next' other') := by
  have hcond := Pads.cond_of_next ht hn ho
  unfold State.branch
  split
  · rename_i h
    rw [Bool.and_eq_true] at h
    rw [eq_reject_of_isReject h.2] at ho
    exact .passing ht (.accept_of_next h.1 hn) ho
  · split
    · rename_i h
      rw [Bool.and_eq_true, Bool.and_eq_true] at h
      obtain rfl := eq_accept_of_isAccept h.1.1
      rw [eq_accept_of_isAccept h.2] at ho
      exact .idle ht (.accept_of_next h.1.2 hn) ho
    · split
      · rename_i ha
        split
        · rename_i hb
          split
          · rename_i hr
            rw [eq_reject_of_isReject hr] at hb
            exact .merged ht hb (.accept_of_next ha hn) ho
          · exact hcond
        · exact hcond
      · exact hcond

/-- What is found in a table is padded as the table is. -/
theorem Pads.lookup {table table' : List (String × State)}
    (hk : table.map Prod.fst = table'.map Prod.fst)
    (h : List.Forall₂ Pads (table.map Prod.snd) (table'.map Prod.snd)) (key : String) :
    Option.Rel Pads (table.lookup key) (table'.lookup key) := by
  induction table generalizing table' with
  | nil =>
      cases table' with
      | nil => exact .none
      | cons => cases h
  | cons entry table ih =>
      cases table' with
      | nil => cases h
      | cons entry' table' =>
          obtain ⟨k, s⟩ := entry
          obtain ⟨k', s'⟩ := entry'
          obtain ⟨hkey, hkeys⟩ := List.cons.inj hk
          obtain rfl : k = k' := hkey
          cases h with
          | cons hs h =>
              rw [List.lookup_cons, List.lookup_cons]
              cases key == k with
              | true => exact .some hs
              | false => exact ih hkeys h

end State

/-! ## Alternatives -/

namespace Compiler

variable {fold : Bool} {node : Grammar} {separated : Bool} {term term' next next' : State}

/-- The alternatives compiled so far: tables have the same keys. -/
structure Alternatives.Pads (a a' : Alternatives) : Prop where
  rest : a.rest.Pads a'.rest
  table : Option.Rel (fun t t' => State.Pads (.enum t) (.enum t')) a.table a'.table

namespace Alternatives

variable {a a' : Alternatives}

theorem Pads.close (h : a.Pads a') : (a.close (standard fold)).Pads (a'.close (verbatim fold)) := by
  obtain ⟨rest, table⟩ := a
  obtain ⟨rest', table'⟩ := a'
  cases h.table with
  | none => exact h.rest
  | some ht => exact ht.branch (.inr .accept) h.rest

theorem Pads.addTerm (h : a.Pads a') (ht : term.Pads term') :
    (a.addTerm (standard fold) term).Pads (a'.addTerm (verbatim fold) term') :=
  ⟨ht.branch (.inr .accept) h.close, .none⟩

theorem Pads.addKeyed (h : a.Pads a') (more : Bool) (key : String) (ht : term.Pads term') :
    (a.addKeyed (standard fold) more key term).Pads
      (a'.addKeyed (verbatim fold) more key term') := by
  have hplain : (a.addTerm (standard fold) term).Pads (a'.addTerm (verbatim fold) term') :=
    h.addTerm ht
  have hopen : ∀ t t', State.Pads (.enum t) (.enum t') →
      (if (t.lookup key).isSome then a.addTerm (standard fold) term
        else ⟨a.rest, some ((key, term) :: t)⟩ : Alternatives).Pads
      (if (t'.lookup key).isSome then a'.addTerm (verbatim fold) term'
        else ⟨a'.rest, some ((key, term') :: t')⟩) := by
    intro t t' htable
    cases htable with
    | enum hk hs =>
        have hfound := State.Pads.lookup hk hs key
        generalize t.lookup key = found, t'.lookup key = found' at hfound
        cases hfound with
        | some _ => exact hplain
        | none => exact ⟨h.rest, .some (.enum (congrArg (key :: ·) hk) (.cons ht hs))⟩
  obtain ⟨rest, table⟩ := a
  obtain ⟨rest', table'⟩ := a'
  cases h.table with
  | some htable => exact hopen _ _ htable
  | none =>
      cases more with
      | true => exact hopen [] [] (.enum rfl .nil)
      | false => exact hplain

end Alternatives

theorem pads_addAlternatives {terms : List Grammar} {f f' : Grammar → State}
    (h : ∀ t ∈ terms, (f t).Pads (f' t)) (before : Option Grammar) :
    (addAlternatives (standard fold) before (terms.map fun t => (t, f t))).Pads
      (addAlternatives (verbatim fold) before (terms.map fun t => (t, f' t))) := by
  induction terms generalizing before with
  | nil => exact ⟨.reject, .none⟩
  | cons t terms ih =>
      have hrest := ih (fun t ht => h t (List.mem_cons_of_mem _ ht)) (some t)
      have ht := h t List.mem_cons_self
      rw [List.map_cons, List.map_cons, addAlternatives, addAlternatives]
      have hkeys : (verbatim fold).keyOf = (standard fold).keyOf := rfl
      simp only [hkeys]
      cases (standard fold).keyOf t with
      | none => exact hrest.addTerm ht
      | some key => exact hrest.addKeyed _ key ht

/-! ## Groups and repetitions -/

theorem pads_row {states states' : List State} (h : List.Forall₂ State.Pads states states') :
    (states.foldr (fun term rest => (standard fold).branch term rest .reject) .accept).Pads
      (states'.foldr (fun term rest => (verbatim fold).branch term rest .reject) .accept) := by
  induction h with
  | nil => exact .accept
  | cons hterm _ ih => exact hterm.branch (.inr ih) .reject

theorem pads_grouped {combinator : Combinator} {terms : List Grammar} {f f' : Grammar → State}
    (h : ∀ t ∈ terms, (f t).Pads (f' t)) :
    Agree State.Pads (grouped (standard fold) node combinator (terms.map fun t => (t, f t)))
      (grouped (verbatim fold) node combinator (terms.map fun t => (t, f' t))) := by
  have hstates : List.Forall₂ State.Pads (terms.map f) (terms.map f') := by
    rw [List.forall₂_map_left_iff, List.forall₂_map_right_iff, List.forall₂_same]
    exact h
  have hmap : ∀ f : Grammar → State, (terms.map fun t => (t, f t)).map (·.2) = terms.map f := by
    simp
  unfold grouped
  simp only [hmap]
  cases combinator with
  | one => exact .ok (pads_addAlternatives h none).close
  | other => exact .error
  | juxtapose => exact .ok (pads_row hstates)
  | all | any =>
      generalize terms.map f = states, terms.map f' = states' at hstates
      have hlen := hstates.length_eq
      cases hstates with
      | nil => exact .ok (.once .nil)
      | cons hterm hrest =>
          cases hrest with
          | nil => exact .ok hterm
          | cons hterm' hrest =>
              simp only [hlen]
              split
              · exact .error
              · exact .ok (.once (.cons hterm (.cons hterm' hrest)))

theorem pads_afterComma (h : next.Pads next') (ha : next.isAccept = next'.isAccept) :
    (afterComma (standard fold) node separated next).Pads
      (afterComma (verbatim fold) node separated next') := by
  unfold afterComma
  rw [ha]
  split
  · exact State.Pads.leaf.branch (.inr h) .reject
  · exact h

section repeated

variable (ht : term.Pads term') (hterm : ¬ term.IsSentinel)

include ht hterm

/-- Repetitions that are all optional succeed at once for both compilers, or for none. -/
theorem pads_optionally (n : Nat) :
    (optionally (standard fold) node separated term n).Pads
        (optionally (verbatim fold) node separated term' n) ∧
      (optionally (standard fold) node separated term n).isAccept =
        (optionally (verbatim fold) node separated term' n).isAccept := by
  induction n with
  | zero => exact ⟨.accept, rfl⟩
  | succ n ih =>
      refine ⟨?_, State.isAccept_of_not_isSentinel (optionally_not_isSentinel hterm n)⟩
      exact ht.branch (.inr (State.Pads.accept.branch (.inr .accept) (pads_afterComma ih.1 ih.2)))
        .reject

theorem pads_mandatory (hn : next.Pads next') (ha : next.isAccept = next'.isAccept) (n : Nat) :
    (mandatory (standard fold) node separated term next n).Pads
        (mandatory (verbatim fold) node separated term' next' n) ∧
      (mandatory (standard fold) node separated term next n).isAccept =
        (mandatory (verbatim fold) node separated term' next' n).isAccept := by
  induction n with
  | zero => exact ⟨hn, ha⟩
  | succ n ih =>
      refine ⟨ht.branch (.inr (pads_afterComma ih.1 ih.2)) .reject, ?_⟩
      exact State.isAccept_of_not_isSentinel (State.branch_not_isSentinel hterm)

theorem pads_repeated (min : Int) (max : Option Int) :
    (repeated (standard fold) node min max separated term).Pads
      (repeated (verbatim fold) node min max separated term') := by
  have hbody := ht.branch (.inl ⟨rfl, rfl⟩) .reject
  have hsentinel : ¬ (State.branch term .nonEmpty .reject).IsSentinel :=
    State.branch_not_isSentinel hterm
  unfold repeated
  cases max with
  | none =>
      simp only
      split
      · exact State.Pads.accept.branch (.inr .accept) (.loop hbody)
      · exact (pads_mandatory hbody hsentinel (.loop hbody) rfl _).1
  | some hi =>
      simp only
      split
      · exact State.Pads.accept.branch (.inr .accept) (pads_optionally ht hterm _).1
      · obtain ⟨htail, ha⟩ := pads_optionally ht hterm (hi - Max.max min 1 + 1).toNat
        exact (pads_mandatory ht hterm htail ha _).1

end repeated

/-! ## Grammars -/

/-- **The states of a grammar are padded where conditionals are built as they are**, and a grammar that
cannot be compiled has the same error. The induction is on the grammar. -/
theorem pads_compile {g : Grammar} (hw : g.WellFormed) :
    Agree State.Pads ((standard fold).compile g) ((verbatim fold).compile g) := by
  induction hw with
  | @group combinator terms b n _ _ _ ih =>
      rw [compile, compile]
      refine (agree_compileAll ih).bind fun pairs pairs' hpairs hpairs' _ => ?_
      obtain ⟨rfl, hok⟩ := compileAll_ok hpairs
      obtain ⟨rfl, hok'⟩ := compileAll_ok hpairs'
      have hstates : ∀ t ∈ terms,
          ((standard fold).stateOf t).Pads ((verbatim fold).stateOf t) := by
        intro t ht
        have hagree := ih t ht
        rw [hok t ht, hok' t ht] at hagree
        cases hagree with
        | ok h => exact h
      refine (pads_grouped hstates).bind fun state state' _ _ hstate => ?_
      cases n with
      | false => exact .ok hstate
      | true => exact .ok (hstate.branch (.inl ⟨rfl, rfl⟩) .reject)
  | @multiplier t min max separated _ _ ht ih =>
      rw [compile, compile]
      refine ih.bind fun s s' hs _ h => .ok ?_
      have hfaithful : Faithful (fun _ => none) [] fold t s := faithful_compile ht hs
      exact pads_repeated h hfaithful.proper min max
  | type | property =>
      rw [compile, compile]
      exact .ok .call
  | _ =>
      rw [compile, compile]
      exact .ok .leaf

end Compiler

end ValueGrammar

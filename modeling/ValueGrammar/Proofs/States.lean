import ValueGrammar.Proofs.Compilation
import ValueGrammar.Proofs.Machine.Coherence

/-!
# `ValueGrammar.Proofs.States` — properties of states from the grammar to the run

Not every state is one that a grammar is compiled to, and a machine takes the states it starts with
apart. So a property that a compiler hands on to what it builds, and a machine to what it takes out of
that, holds of every state that a run ever looks at.

## Contents
- `State.Built`, `State.Built.compile`: what a compiler hands on holds of every compiled grammar.
- `State.Kept`, `Machine.Expands.keeps`, `Machine.Leads.keeps`: what a machine hands on holds of every
  path of a run.
-/

namespace ValueGrammar

/-! ## Compilers -/

/-- A node without children. -/
def Grammar.IsTerm : Grammar → Prop
  | .group _ _ _ _ => False
  | .multiplier _ _ _ _ => False
  | _ => True

/-- `P` holds of what a compiler builds of states that it holds of. The check that a token was taken
only comes after something else, repetitions without a limit make it each time, and the groups in any
order are those that fit into a set. -/
structure State.Built (P : State → Prop) : Prop where
  accept : P .accept
  reject : P .reject
  branch {test next other} (ht : P test) (hn : P next) (ho : P other) :
    P (State.branch test next other)
  checked {test} (h : P test) : P (.cond test .nonEmpty .reject)
  loop {term sep} (h : P term) : P (.loop (.cond term .nonEmpty .reject) sep)
  comma {node} : P (.leaf .comma node)
  enum {table} (h : ∀ entry ∈ table, P entry.2) : P (.enum table)
  once {terms all node} (hlen : terms.length ≤ 64) (h : ∀ s ∈ terms, P s) :
    P (.once terms all node)

theorem State.branch_nonEmpty (test : State) :
    State.branch test .nonEmpty .reject = .cond test .nonEmpty .reject := by
  simp [State.branch, State.isAccept]

namespace Compiler

variable {P : State → Prop} {fold : Bool} {node : Grammar} {separated : Bool} {term next : State}

/-- What holds of the alternatives compiled so far. -/
def Alternatives.All (P : State → Prop) (a : Alternatives) : Prop :=
  P a.rest ∧ ∀ entry ∈ a.table.getD [], P entry.2

section built

variable (hP : State.Built P)

include hP

theorem Alternatives.All.close {a : Alternatives} (h : a.All P) : P (a.close (standard fold)) := by
  obtain ⟨hrest, htable⟩ := h
  unfold Alternatives.close
  cases ht : a.table with
  | none => exact hrest
  | some table =>
      rw [ht] at htable
      exact hP.branch (hP.enum htable) hP.accept hrest

theorem Alternatives.All.addTerm {a : Alternatives} (h : a.All P) (ht : P term) :
    (a.addTerm (standard fold) term).All P :=
  ⟨hP.branch ht hP.accept (h.close hP), by simp [Alternatives.addTerm]⟩

theorem all_addAlternatives {terms : List (Grammar × State)} (h : ∀ t ∈ terms, P t.2)
    (before : Option Grammar) : (addAlternatives (standard fold) before terms).All P := by
  induction terms generalizing before with
  | nil => exact ⟨hP.reject, by simp [addAlternatives]⟩
  | cons t terms ih =>
      obtain ⟨node, term⟩ := t
      have hterm : P term := h _ List.mem_cons_self
      have hrest := ih (fun t ht => h t (List.mem_cons_of_mem _ ht)) (some node)
      rw [addAlternatives]
      split
      · rename_i key _
        rcases Alternatives.addKeyed_cases fold (addAlternatives (standard fold) (some node) terms)
          ((before.bind (standard fold).keyOf).isSome) key term with he | ⟨-, he⟩
        · rw [he]
          exact hrest.addTerm hP hterm
        · rw [he]
          refine ⟨hrest.1, fun entry hentry => ?_⟩
          rcases List.mem_cons.mp hentry with rfl | hentry
          · exact hterm
          · exact hrest.2 entry hentry
      · exact hrest.addTerm hP hterm

theorem all_grouped {combinator : Combinator} {terms : List Grammar} {f : Grammar → State}
    {state : State} (h : ∀ t ∈ terms, P (f t))
    (hs : grouped (standard fold) node combinator (terms.map fun t => (t, f t)) = .ok state) :
    P state := by
  have hone : ∀ {all : Bool}, (∃ t, terms = [t] ∧ state = f t) ∨
      (terms.length ≤ 64 ∧ state = .once (terms.map f) all node) → P state := by
    rintro all (⟨t, rfl, rfl⟩ | ⟨hlen, rfl⟩)
    · exact h t List.mem_cons_self
    · exact hP.once (by simpa using hlen) (by simpa using h)
  cases combinator with
  | juxtapose =>
      cases hs
      rw [List.map_map]
      clear hone
      induction terms with
      | nil => exact hP.accept
      | cons t terms ih =>
          refine hP.branch (h t List.mem_cons_self) ?_ hP.reject
          exact ih fun t ht => h t (List.mem_cons_of_mem _ ht)
  | one =>
      cases hs
      refine (all_addAlternatives hP ?_ none).close hP
      simpa using h
  | all => exact hone (grouped_inAnyOrder_ok (.inl ⟨rfl, rfl⟩) hs)
  | any => exact hone (grouped_inAnyOrder_ok (.inr ⟨rfl, rfl⟩) hs)
  | other => cases hs

theorem all_afterComma (h : P next) : P (afterComma (standard fold) node separated next) := by
  unfold afterComma
  split
  · exact hP.branch hP.comma h hP.reject
  · exact h

theorem all_optionally (h : P term) (n : Nat) :
    P (optionally (standard fold) node separated term n) := by
  induction n with
  | zero => exact hP.accept
  | succ n ih =>
      exact hP.branch h (hP.branch hP.accept hP.accept (all_afterComma hP ih)) hP.reject

theorem all_mandatory (h : P term) (hn : P next) (n : Nat) :
    P (mandatory (standard fold) node separated term next n) := by
  induction n with
  | zero => exact hn
  | succ n ih => exact hP.branch h (all_afterComma hP ih) hP.reject

/-- The repetitions without a limit are of a term with a check that it takes a token. -/
theorem all_repeated {min : Int} {max : Option Int} (h : P term) :
    P (repeated (standard fold) node min max separated term) := by
  unfold repeated
  cases max with
  | none =>
      simp only [standard_branch, State.branch_nonEmpty]
      split
      · exact hP.branch hP.accept hP.accept (hP.loop h)
      · exact all_mandatory hP (hP.checked h) (hP.loop h) _
  | some hi =>
      simp only
      split
      · exact hP.branch hP.accept hP.accept (all_optionally hP h _)
      · exact all_mandatory hP h (all_optionally hP h _) _

end built

end Compiler

/-- **What a compiler hands on, and the nodes without children have, every compiled grammar has**,
whether the grammar was read or made by hand. The recursion is that of the compiler. -/
theorem State.Built.compile {P : State → Prop} (hP : State.Built P) {fold : Bool} :
    ∀ (g : Grammar) {s : State},
      (∀ n ∈ g.nodes, n.IsTerm → ∀ s, (Compiler.standard fold).compile n = .ok s → P s) →
        (Compiler.standard fold).compile g = .ok s → P s
  | .group combinator terms b n, s, hg, hs => by
      obtain ⟨hall, state, hstate, rfl⟩ := Compiler.compile_group_ok hs
      have hterms : ∀ t ∈ terms, P ((Compiler.standard fold).stateOf t) := fun t ht =>
        hP.compile t (fun x hx => hg x (Grammar.mem_nodes_group ht hx)) (hall t ht)
      split
      · rw [Compiler.standard_branch, State.branch_nonEmpty]
        exact hP.checked (Compiler.all_grouped hP hterms hstate)
      · exact Compiler.all_grouped hP hterms hstate
  | .multiplier t min max separated, s, hg, hs => by
      obtain ⟨ht, rfl⟩ := Compiler.compile_multiplier_ok hs
      exact Compiler.all_repeated hP
        (hP.compile t (fun x hx => hg x (Grammar.mem_nodes_multiplier hx)) ht)
  | .keyword _, s, hg, hs | .atKeyword _, s, hg, hs | .function _, s, hg, hs | .type _ _, s, hg, hs
  | .property _, s, hg, hs | .token _, s, hg, hs | .string _, s, hg, hs | .comma, s, hg, hs =>
      hg _ (Grammar.self_mem_nodes _) trivial s hs
termination_by g => sizeOf g
decreasing_by
  · have hlt := List.sizeOf_lt_of_mem ht
    simp only [Grammar.group.sizeOf_spec]
    omega
  · simp only [Grammar.multiplier.sizeOf_spec]
    omega

/-! ## Machines -/

/-- `P` holds of what a machine takes out of a state that it holds of, but for checks that a token was
taken. -/
structure State.Kept (P : State → Prop) : Prop where
  accept : P .accept
  reject : P .reject
  parts {s test next other} (h : P s) (hb : s.branch? = some (test, next, other)) :
    P test ∧ (next = .nonEmpty ∨ P next) ∧ P other
  enum {table} (h : P (.enum table)) : ∀ entry ∈ table, P entry.2
  once {terms all node} (h : P (.once terms all node)) : ∀ s ∈ terms, P s

/-- `P` holds of what a path looks at. -/
def Focus.Keeps (P : State → Prop) : Focus → Prop
  | .state s => P s
  | .choose terms _ _ _ _ => ∀ s ∈ terms, P s
  | .resume terms _ _ _ => ∀ s ∈ terms, P s

/-- `P` holds of what a path looks at and of everything it comes back to, but for checks that a token
was taken. -/
structure Else.Keeps (P : State → Prop) (e : Else) : Prop where
  next : e.next.Keeps P
  thens : ∀ t ∈ e.thens, t.next = .state .nonEmpty ∨ t.next.Keeps P

namespace Else.Keeps

variable {P : State → Prop} {e : Else} {f : Focus}

theorem goto (h : e.Keeps P) (hf : f.Keeps P) : (e.goto f).Keeps P := ⟨hf, h.thens⟩

theorem await (h : e.Keeps P) (hf : f = .state .nonEmpty ∨ f.Keeps P) : (e.await f).Keeps P := by
  refine ⟨h.next, fun t ht => ?_⟩
  rcases List.mem_cons.mp ht with rfl | ht
  · exact hf
  · exact h.thens t ht

/-- Going on with a continuation, or after the check it stands for. -/
theorem resume {t : Then} {thens : List Then} (h : e.Keeps P) (ht : e.thens = t :: thens)
    (hf : f.Keeps P) : Else.Keeps P { e.leave t.scopes with next := f, thens } :=
  ⟨hf, fun u hu => h.thens u (by rw [ht]; exact List.mem_cons_of_mem _ hu)⟩

/-- The terms of a group in any order that a path looks at. -/
theorem terms {terms : List State} {all : Bool} {node : Grammar} {index : Nat} {taken : TermSet}
    (h : e.Keeps P) (hf : e.next = .choose terms all node index taken) : ∀ s ∈ terms, P s := by
  have hnext := h.next
  rwa [hf] at hnext

theorem state {s : State} (h : e.Keeps P) (hf : e.next = .state s) : P s := by
  have hnext := h.next
  rwa [hf] at hnext

end Else.Keeps

namespace Machine

variable {ε : Type} {m : Machine ε} {P : State → Prop}

/-- **A path hands on to the paths it leads to what a machine hands on**, if references lead to states
that have it. -/
theorem Expands.keeps (hP : State.Kept P) {e : Else} {new : List Else} {notes notes' : Notes}
    (hx : m.Expands e notes new notes') (hroots : ∀ r root, m.resolve r = .ok (some root) → P root)
    (h : e.Keeps P) : ∀ q ∈ new, q.Keeps P := by
  cases hx with
  | reject => intro q hq; cases hq
  | unfinished | empty | ended =>
      exact List.forall_mem_singleton.mpr (h.goto hP.reject)
  | nonEmpty _ ht _ _ =>
      exact List.forall_mem_singleton.mpr (h.resume ht hP.accept)
  | @resume t _ _ ht hn =>
      refine List.forall_mem_singleton.mpr ?_
      refine h.resume ht ((h.thens t ?_).resolve_left hn)
      rw [ht]
      exact List.mem_cons_self
  | @branch s test next other hf hb =>
      -- the path to the test, and the one to what is tried if the test fails
      obtain ⟨htest, hnext, hother⟩ := hP.parts (h.state hf) hb
      intro q hq
      rcases List.mem_cons.mp hq with rfl | hq
      · split
        · exact h.goto htest
        · refine (h.await ?_).goto htest
          rcases hnext with rfl | hnext
          · exact .inl rfl
          · exact .inr hnext
      · split at hq
        · cases hq
        · rw [List.mem_singleton.mp hq]
          exact h.goto hother
  | last =>
      refine List.forall_mem_singleton.mpr ?_
      split
      · exact h.goto hP.reject
      · exact h.goto hP.accept
  | full =>
      exact List.forall_mem_singleton.mpr (h.goto hP.accept)
  | pick hf _ _ hn =>
      have hterms := h.terms hf
      have hs := List.mem_of_mem_drop (List.mem_of_getElem? (nextTerm?_some hn).2.1)
      intro q hq
      rcases List.mem_cons.mp hq with rfl | hq
      · refine Else.Keeps.goto (h.await (.inr ?_)) (hterms _ hs)
        exact hterms
      · rw [List.mem_singleton.mp hq]
        exact h.goto hterms
  | skip hf =>
      exact List.forall_mem_singleton.mpr (h.goto (h.terms hf))
  | again hf =>
      have hterms := h.next
      rw [hf] at hterms
      exact List.forall_mem_singleton.mpr (h.goto hterms)
  | once hf =>
      exact List.forall_mem_singleton.mpr (h.goto (hP.once (h.state hf)))
  | @enum table t hf =>
      refine List.forall_mem_singleton.mpr ?_
      refine h.goto ?_
      cases hfound : table.lookup (stripHack (Text.lower t.value)) with
      | none => exact hP.reject
      | some s =>
          obtain ⟨before, after, rfl, -⟩ := List.lookup_eq_some_iff.mp hfound
          exact hP.enum (h.state hf) (_, s) (List.mem_append_right _ List.mem_cons_self)
  | @leaf _ _ _ ok =>
      refine List.forall_mem_singleton.mpr ?_
      refine ⟨?_, h.thens⟩
      cases ok
      · exact hP.reject
      · exact hP.accept
  | call _ hr =>
      refine List.forall_mem_singleton.mpr ?_
      exact ⟨hroots _ _ hr, h.thens⟩

/-- **Every path of a run has what a machine hands on**, if it starts with a state that has it and
references lead to such states. -/
theorem Leads.keeps (hP : State.Kept P) {root : State} {c : Config} (h : m.Leads (.start root) c)
    (hroot : P root) (hroots : ∀ r root, m.resolve r = .ok (some root) → P root) :
    ∀ q ∈ c.paths, q.Keeps P := by
  refine h.forall_paths (fun _ he => he.goto hP.reject)
    (fun _ _ _ _ hx he => hx.keeps hP hroots he) ?_
  intro q hq
  rw [mem_paths_start hq]
  exact ⟨hroot, fun t ht => by cases ht⟩

end Machine

end ValueGrammar

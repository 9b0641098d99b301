import ValueGrammar.Proofs.AnyOrder
import ValueGrammar.Proofs.Machine.Search
import Mathlib.Logic.Relation
import Mathlib.Order.WellFounded

/-!
# `ValueGrammar.Proofs.Machine.Halting` — searches that come to an end

A search comes to an end if each of its paths does. A step replaces the path on top of the stack by
finitely many paths it leads to, so that a stack of such paths is worked off. What was put off brings a
stack back that was there before, but only once, unless a token is taken; and by then the search has
gone below that stack.

Whether a path comes to an end depends on what it looks at and on what it goes on with. For each kind
of state this module says what is needed: a repetition has to take a token each time, and a group in
any order has no more terms than a set can hold.

## Contents
- `Machine.Replaces`, `Machine.Shrinks`: paths and stacks, and what a step replaces them by.
- `Machine.Ordered`, `Machine.Moves.descends`: what was put off bounds the stack.
- `Machine.acc_steps_of_start`: a search from a path that comes to an end is finite.
- `Machine.runFrom_of_acc`: a finite search has an answer, which more steps do not change.
- `Machine.Concludes`, `Machine.Settles`: going on, and looking at a state, comes to an end.
- `Machine.settles_cond`, `Machine.settles_loop`, `Machine.settles_choose`, …: one kind of state each.
-/

namespace ValueGrammar

open Relation

namespace Machine

variable {ε : Type} {m : Machine ε} {c c' : Config} {e e' : Else}

/-! ## Stacks of paths -/

/-- A coherent path is replaced by one that it leads to; a path that looks at a reference may be
given up instead. -/
def Replaces (m : Machine ε) (e' e : Else) : Prop :=
  e.Coherent m.tokens ∧
    ((∃ notes new notes', m.Expands e notes new notes' ∧ e' ∈ new) ∨
      ∃ r range node, e.next = .state (.call r range node) ∧ e' = e.goto (.state .reject))

/-- The path on top of a stack is replaced. -/
inductive Shrinks (m : Machine ε) : List Else → List Else → Prop where
  | top {e new rest} (h : ∀ e' ∈ new, m.Replaces e' e) : Shrinks m (new ++ rest) (e :: rest)

theorem acc_shrinks_nil : Acc m.Shrinks [] := ⟨_, fun _ h => by cases h⟩

theorem acc_shrinks_append {new rest : List Else}
    (hnew : ∀ e ∈ new, ∀ rest, Acc m.Shrinks rest → Acc m.Shrinks (e :: rest))
    (hrest : Acc m.Shrinks rest) : Acc m.Shrinks (new ++ rest) := by
  induction new with
  | nil => exact hrest
  | cons e new ih =>
      refine hnew e List.mem_cons_self _ (ih fun e' he' => ?_)
      exact hnew e' (List.mem_cons_of_mem e he')

/-- A stack is worked off if the path on top comes to an end and the rest is worked off. The induction
is on the path: what replaces it comes to an end over any stack. -/
theorem acc_shrinks_cons {rest : List Else} (he : Acc m.Replaces e) (hrest : Acc m.Shrinks rest) :
    Acc m.Shrinks (e :: rest) := by
  induction he generalizing rest with
  | intro e _ ih =>
      refine ⟨_, fun stack hs => ?_⟩
      cases hs with
      | top h => exact acc_shrinks_append (fun e' he' _ hrest => ih e' (h e' he') hrest) hrest

end Machine

/-- The paths that a machine goes through before it is back at what was put off, or at the
alternatives it has if nothing was. -/
def Config.reserve (c : Config) : List Else :=
  match c.stash with
  | some (e, elses) => e :: elses
  | none => c.here :: c.elses

namespace Config

variable {c : Config}

theorem reserve_none (h : c.stash = none) : c.reserve = c.here :: c.elses := by
  rw [reserve, h]

theorem reserve_some {e : Else} {elses : List Else} (h : c.stash = some (e, elses)) :
    c.reserve = e :: elses := by
  rw [reserve, h]

end Config

namespace Machine

variable {ε : Type} {m : Machine ε} {c c' : Config} {e e' : Else}

/-! ## Steps of a search -/

/-- What holds of the configurations of a run: nothing is put off after it was tried, and the search
has only gone down since something was put off. -/
structure Ordered (m : Machine ε) (c : Config) : Prop where
  coherent : m.Coherent c
  unused : c.stashUsed = true → c.stash = none
  below : ReflTransGen m.Shrinks (c.here :: c.elses) c.reserve

theorem ordered_start (m : Machine ε) (root : State) : m.Ordered (.start root) where
  coherent := m.coherent_start root
  unused h := by cases h
  below := .refl

theorem Expands.shrinks {new : List Else} (hx : m.Expands c.here c.notes new c'.notes)
    (hp : c'.here :: c'.elses = new ++ c.elses) (h : m.Coherent c) :
    m.Shrinks (c'.here :: c'.elses) (c.here :: c.elses) := by
  rw [hp]
  exact .top fun e' he' => ⟨h.here, .inl ⟨_, _, _, hx, he'⟩⟩

/-- A step goes below what bounds the search. Else it keeps the bound, and tries what was put off or
works the stack off. -/
def Descends (m : Machine ε) (c c' : Config) : Prop :=
  TransGen m.Shrinks c'.reserve c.reserve ∨
    c'.reserve = c.reserve ∧ c.stashUsed = false ∧
      (c'.stashUsed = true ∨ m.Shrinks (c'.here :: c'.elses) (c.here :: c.elses))

/-- **Every step of a search goes down.** -/
theorem Moves.descends (hm : m.Moves c c') (h : m.Ordered c) : m.Ordered c' ∧ m.Descends c c' := by
  have hcoh : m.Coherent c' := hm.coherent h.coherent
  cases hm with
  | expand hx hp hs hu =>
      have hdown := hx.shrinks hp h.coherent
      cases hstash : c.stash with
      | none =>
          rw [hstash] at hs
          refine ⟨⟨hcoh, fun _ => hs, by rw [Config.reserve_none hs]⟩, .inl ?_⟩
          rw [Config.reserve_none hs, Config.reserve_none hstash]
          exact .single hdown
      | some s =>
          have hsame : c'.reserve = c.reserve := by
            rw [Config.reserve_some (hs.trans hstash), Config.reserve_some hstash]
          have hunused : c.stashUsed = false := by
            by_contra hne
            rw [h.unused (Bool.eq_true_of_not_eq_false hne)] at hstash
            cases hstash
          refine ⟨⟨hcoh, fun hu' => ?_, ?_⟩, .inr ⟨hsame, hunused, .inr hdown⟩⟩
          · rw [hu, hunused] at hu'
            cases hu'
          · rw [hsame]
            exact .head hdown h.below
  | take hx hp _ hs hu =>
      refine ⟨⟨hcoh, fun _ => hs, by rw [Config.reserve_none hs]⟩, .inl ?_⟩
      rw [Config.reserve_none hs]
      exact TransGen.head' (hx.shrinks hp h.coherent) h.below
  | defer _ hu hh he hs hu' hf _ _ =>
      have hdown : m.Shrinks (c'.here :: c'.elses) (c.here :: c.elses) := by
        rw [hh, he, ← List.singleton_append]
        refine .top fun e' he' => ?_
        exact ⟨h.coherent.here, .inr ⟨_, _, _, hf, List.mem_singleton.mp he'⟩⟩
      -- the first path put off takes the stack with it, which so far was the bound
      have hsame : c'.reserve = c.reserve := by
        rw [Config.reserve_some hs]
        cases hstash : c.stash with
        | none => exact (Config.reserve_none hstash).symm
        | some s => exact (Config.reserve_some hstash).symm
      refine ⟨⟨hcoh, fun hu'' => ?_, ?_⟩, .inr ⟨hsame, hu, .inr hdown⟩⟩
      · rw [hu'] at hu''
        cases hu''
      · rw [hsame]
        exact .head hdown h.below
  | retry _ hs hu hh he hs' hu' _ =>
      have hsame : c'.reserve = c.reserve := by
        rw [Config.reserve_none hs', Config.reserve_some hs, hh, he]
      refine ⟨⟨hcoh, fun _ => hs', ?_⟩, .inr ⟨hsame, hu, .inl hu'⟩⟩
      rw [Config.reserve_none hs']

/-- One configuration leads to another in a step. -/
def Steps (m : Machine ε) (c' c : Config) : Prop := m.step c = .next c'

/-- A search is finite if its bound is worked off. The outer induction is on the bound. While it stays
the same what was put off is tried at most once, and before that the inner induction is on the
stack. -/
theorem acc_steps_of_acc_reserve {bound : List Else} (hacc : Acc m.Shrinks bound)
    (h : m.Ordered c) (hb : c.reserve = bound) : Acc m.Steps c := by
  induction hacc.transGen generalizing c with
  | intro bound _ ih =>
      have hbelow : ∀ {c c' : Config}, m.Ordered c' → c.reserve = bound →
          TransGen m.Shrinks c'.reserve c.reserve → Acc m.Steps c' := fun ho hb hd => by
        rw [hb] at hd
        exact ih _ hd (hacc.inv_of_transGen hd) ho rfl
      have hused : ∀ c, m.Ordered c → c.reserve = bound → c.stashUsed = true →
          Acc m.Steps c := by
        refine fun c h hb hu => ⟨_, fun c' hs => ?_⟩
        obtain ⟨ho, hd | ⟨-, hu', -⟩⟩ := (step_next hs).descends h
        · exact hbelow ho hb hd
        · rw [hu] at hu'
          cases hu'
      have hstack : Acc m.Shrinks (c.here :: c.elses) := by
        rcases reflTransGen_iff_eq_or_transGen.mp h.below with heq | hd
        · rwa [← heq, hb]
        · rw [hb] at hd
          exact hacc.inv_of_transGen hd
      generalize hst : c.here :: c.elses = stack at hstack
      induction hstack generalizing c with
      | intro stack _ ih' =>
          refine ⟨_, fun c' hs => ?_⟩
          obtain ⟨ho, hd | ⟨hsame, -, hu | hd⟩⟩ := (step_next hs).descends h
          · exact hbelow ho hb hd
          · exact hused c' ho (hsame.trans hb) hu
          · rw [hst] at hd
            exact ih' _ hd ho (hsame.trans hb) rfl

/-- **A search from a path that comes to an end is finite.** -/
theorem acc_steps_of_start {root : State} (h : Acc m.Replaces (Config.start root).here) :
    Acc m.Steps (.start root) :=
  acc_steps_of_acc_reserve (acc_shrinks_cons h acc_shrinks_nil) (m.ordered_start root) rfl

/-- A finite search has an answer after some number of steps, and more steps do not change it. -/
theorem runFrom_of_acc (h : Acc m.Steps c) :
    ∃ n, ∀ fuel, n ≤ fuel → ∀ steps, m.runFrom fuel steps c = m.runFrom n steps c ∧
      (m.runFrom n steps c).outcome ≠ .limited := by
  induction h with
  | intro c _ ih =>
      cases hs : m.step c with
      | next c' =>
          obtain ⟨n, hn⟩ := ih c' hs
          refine ⟨n + 1, fun fuel hle steps => ?_⟩
          obtain ⟨fuel, rfl⟩ : ∃ k, fuel = k + 1 := ⟨fuel - 1, by omega⟩
          simp only [runFrom, hs]
          exact hn fuel (by omega) (steps + 1)
      | finished matched c' =>
          refine ⟨1, fun fuel hle steps => ?_⟩
          obtain ⟨fuel, rfl⟩ : ∃ k, fuel = k + 1 := ⟨fuel - 1, by omega⟩
          cases matched <;> simp [runFrom, hs]
      | failed error c' =>
          refine ⟨1, fun fuel hle steps => ?_⟩
          obtain ⟨fuel, rfl⟩ : ∃ k, fuel = k + 1 := ⟨fuel - 1, by omega⟩
          simp [runFrom, hs]

/-! ## Paths -/

theorem acc_of_reject (hf : e.next = .state .reject) : Acc m.Replaces e := by
  refine ⟨_, fun e' hr => ?_⟩
  rcases hr with ⟨-, ⟨notes, new, notes', hx, hmem⟩ | ⟨r, range, node, hf', -⟩⟩
  · cases hx with
    | reject => cases hmem
    | branch hf' hb =>
        rw [hf] at hf'
        cases hf'
        cases hb
    | _ => simp_all
  · rw [hf] at hf'
    cases hf'

/-- A path comes to an end if the paths it leads to do. -/
theorem acc_of_expands (h : ∀ notes new notes', m.Expands e notes new notes' →
    e.Coherent m.tokens → ∀ e' ∈ new, e'.Coherent m.tokens → Acc m.Replaces e') :
    Acc m.Replaces e := by
  refine ⟨_, fun e' hr => ?_⟩
  rcases hr with ⟨hc, ⟨notes, new, notes', hx, hmem⟩ | ⟨r, range, node, -, rfl⟩⟩
  · exact h notes new notes' hx hc e' hmem (hx.coherent hc e' hmem)
  · exact acc_of_reject rfl

/-- Going on from place `i` or a later one comes to an end. -/
def Concludes (m : Machine ε) (thens : List Then) (i : Nat) : Prop :=
  ∀ e, e.next = .state .accept → e.thens = thens → i ≤ e.index → e.Coherent m.tokens →
    Acc m.Replaces e

/-- Looking at `f` from place `i` or a later one comes to an end, if going on afterwards does. -/
def Settles (m : Machine ε) (f : Focus) (i : Nat) : Prop :=
  ∀ e, e.next = f → i ≤ e.index → e.Coherent m.tokens → m.Concludes e.thens e.index →
    Acc m.Replaces e

theorem Concludes.mono {thens : List Then} {i j : Nat} (h : m.Concludes thens i) (hle : i ≤ j) :
    m.Concludes thens j := fun e hf ht hi hc => h e hf ht (hle.trans hi) hc

theorem Settles.mono {f : Focus} {i j : Nat} (h : m.Settles f i) (hle : i ≤ j) : m.Settles f j :=
  fun e hf hi hc hk => h e hf (hle.trans hi) hc hk

theorem Settles.goto {f : Focus} {i : Nat} (h : m.Settles f i) (hi : i ≤ e.index)
    (hc : e.Coherent m.tokens) (hk : m.Concludes e.thens e.index) : Acc m.Replaces (e.goto f) :=
  h (e.goto f) rfl hi (hc.goto f) hk

/-- There is nothing behind the last token. -/
theorem settles_of_length_lt {f : Focus} {i : Nat} (h : m.tokens.length < i) : m.Settles f i := by
  intro e _ hi hc
  have hle := hc.tracks.1
  omega

/-- Going on comes to an end if looking at the next continuation does, and going on after it. -/
theorem concludes_cons {t : Then} {thens : List Then} {i : Nat} (hn : t.next ≠ .state .nonEmpty)
    (h : m.Settles t.next i) (hk : m.Concludes thens i) : m.Concludes (t :: thens) i := by
  intro e hf ht hi hc
  refine acc_of_expands fun notes new notes' hx _ e' he' hc' => ?_
  cases hx with
  | resume hf' ht' hn' =>
      rw [ht] at ht'
      cases ht'
      cases List.mem_singleton.mp he'
      exact h _ rfl hi hc' (hk.mono hi)
  | branch hf' hb =>
      rw [hf] at hf'
      cases hf'
      cases hb
  | _ => simp_all

/-- Where a token has to be taken, it is enough if going on from a later place comes to an end. -/
theorem concludes_nonEmpty {t : Then} {thens : List Then} {i : Nat}
    (hn : t.next = .state .nonEmpty) (ht : t.trace.place = i) (hk : m.Concludes thens (i + 1)) :
    m.Concludes (t :: thens) i := by
  intro e hf hthens hi hc
  refine acc_of_expands fun notes new notes' hx _ e' he' hc' => ?_
  cases hx with
  | empty =>
      cases List.mem_singleton.mp he'
      exact acc_of_reject rfl
  | nonEmpty hf' ht' hn' hne =>
      rw [hthens] at ht'
      cases ht'
      cases List.mem_singleton.mp he'
      -- a token was taken since the check was put off
      have hplace : i ≠ e.index := by
        rw [← ht, ← hc.tracks.place_eq]
        exact fun h => hne (Trace.place_eq_place_iff.mp h)
      exact hk _ rfl rfl (by change i + 1 ≤ e.index; omega) hc'
  | branch hf' hb =>
      rw [hf] at hf'
      cases hf'
      cases hb
  | _ => simp_all

/-- With nothing to go on with, a path is at its end. -/
theorem concludes_nil {i : Nat} : m.Concludes [] i := by
  intro e hf ht _ _
  refine acc_of_expands fun notes new notes' hx _ e' he' _ => ?_
  cases hx with
  | unfinished =>
      cases List.mem_singleton.mp he'
      exact acc_of_reject rfl
  | branch hf' hb =>
      rw [hf] at hf'
      cases hf'
      cases hb
  | _ => simp_all

/-- **A search from a state is finite** if looking at the state comes to an end. -/
theorem acc_steps_of_settles {root : State} (h : m.Settles (.state root) 0) :
    Acc m.Steps (.start root) :=
  acc_steps_of_start (h _ rfl (Nat.le_refl 0) (m.coherent_start root).here concludes_nil)

/-! ## Kinds of states -/

theorem settles_accept {i : Nat} : m.Settles (.state .accept) i :=
  fun e hf _ hc hk => hk e hf rfl (Nat.le_refl _) hc

theorem settles_reject {i : Nat} : m.Settles (.state .reject) i := fun _ hf _ _ _ => acc_of_reject hf

/-- A check that is not a continuation ends the run. -/
theorem settles_nonEmpty {i : Nat} : m.Settles (.state .nonEmpty) i := by
  intro e hf _ _ _
  refine acc_of_expands fun notes new notes' hx _ e' he' _ => ?_
  cases hx with
  | branch hf' hb =>
      rw [hf] at hf'
      cases hf'
      cases hb
  | _ => simp_all

theorem settles_leaf {l : Leaf} {node : Grammar} {i : Nat} :
    m.Settles (.state (.leaf l node)) i := by
  intro e hf hi _ hk
  refine acc_of_expands fun notes new notes' hx _ e' he' hc' => ?_
  cases hx with
  | @leaf _ _ n ok _ _ =>
      cases List.mem_singleton.mp he'
      cases ok with
      | true => exact hk _ rfl rfl (Nat.le_add_right _ n) hc'
      | false => exact acc_of_reject rfl
  | branch hf' hb =>
      rw [hf] at hf'
      cases hf'
      cases hb
  | _ => simp_all

theorem settles_enum {table : List (String × State)} {i : Nat}
    (h : ∀ p ∈ table, m.Settles (.state p.2) i) : m.Settles (.state (.enum table)) i := by
  intro e hf hi hc hk
  refine acc_of_expands fun notes new notes' hx _ e' he' hc' => ?_
  cases hx with
  | ended =>
      cases List.mem_singleton.mp he'
      exact acc_of_reject rfl
  | @enum _ t hf' _ =>
      rw [hf] at hf'
      cases hf'
      cases List.mem_singleton.mp he'
      cases hs : table.lookup (stripHack (Text.lower t.value)) with
      | none => exact acc_of_reject (by rw [Option.getD_none]; rfl)
      | some s =>
          obtain ⟨before, after, hsplit, -⟩ := List.lookup_eq_some_iff.mp hs
          have hmem : (stripHack (Text.lower t.value), s) ∈ table := by rw [hsplit]; simp
          exact (h _ hmem).goto hi hc hk
  | branch hf' hb =>
      rw [hf] at hf'
      cases hf'
      cases hb
  | _ => simp_all

theorem settles_call {r : Reference} {range : Option Range} {node : Grammar} {i : Nat}
    (h : ∀ root, m.resolve r = .ok (some root) → m.Settles (.state root) i) :
    m.Settles (.state (.call r range node)) i := by
  intro e hf hi _ hk
  refine acc_of_expands fun notes new notes' hx _ e' he' hc' => ?_
  obtain ⟨root, hr, rfl⟩ := hx.of_call hf
  cases List.mem_singleton.mp he'
  exact h root hr _ rfl hi hc' hk

/-- A conditional comes to an end if its test, with what follows, and its alternative do. -/
theorem acc_of_branch {s test next other : State} (hf : e.next = .state s)
    (hb : s.branch? = some (test, next, other))
    (htest : Acc m.Replaces
      ((if next.isAccept then e else e.await (.state next)).goto (.state test)))
    (hother : Acc m.Replaces (e.goto (.state other))) : Acc m.Replaces e := by
  refine acc_of_expands fun notes new notes' hx _ e' he' hc' => ?_
  cases hx with
  | branch hf' hb' =>
      rw [hf] at hf'
      cases hf'
      rw [hb] at hb'
      cases hb'
      rcases List.mem_cons.mp he' with rfl | he'
      · exact htest
      · split at he'
        · cases he'
        · cases List.mem_singleton.mp he'
          exact hother
  | unfinished hf' | empty hf' | nonEmpty hf' | resume hf' | reject hf' | last hf' | full hf'
  | pick hf' | skip hf' | again hf' | once hf' | ended hf' | enum hf' | leaf hf' | call hf' =>
      rw [hf] at hf'
      cases hf' <;> cases hb

theorem Settles.await {f g : Focus} {i : Nat} (h : m.Settles f i) (hi : i ≤ e.index)
    (hc : e.Coherent m.tokens) (hk : m.Concludes (⟨g, e.trace, e.scopes⟩ :: e.thens) e.index) :
    Acc m.Replaces ((e.await g).goto f) :=
  h.goto hi (hc.await g) hk

theorem settles_cond {s test next other : State} {i : Nat}
    (hb : s.branch? = some (test, next, other)) (htest : m.Settles (.state test) i)
    (hnext : m.Settles (.state next) i) (hother : m.Settles (.state other) i) :
    m.Settles (.state s) i := by
  intro e hf hi hc hk
  refine acc_of_branch hf hb ?_ (hother.goto hi hc hk)
  split
  · exact htest.goto hi hc hk
  · refine htest.await hi hc ?_
    by_cases hn : next = .nonEmpty
    · subst hn
      exact concludes_nonEmpty rfl hc.tracks.place_eq (hk.mono (Nat.le_succ _))
    · exact concludes_cons (fun h => hn (Focus.state.inj h)) (hnext.mono hi) hk

/-- A repetition that takes a token comes to an end if going on from a later place does. -/
theorem acc_of_nonEmpty {term : State} {i : Nat} (hf : e.next = .state (.cond term .nonEmpty .reject))
    (hterm : m.Settles (.state term) i) (hi : i ≤ e.index) (hc : e.Coherent m.tokens)
    (hk : m.Concludes e.thens (e.index + 1)) : Acc m.Replaces e := by
  refine acc_of_branch hf rfl ?_ (acc_of_reject rfl)
  exact hterm.await hi hc (concludes_nonEmpty rfl hc.tracks.place_eq hk)

theorem settles_again {body : State} {sep : Option Grammar} {i : Nat}
    (h : m.Settles (.state (.loop body sep)) i) : m.Settles (.state (.again body sep)) i := by
  cases sep with
  | none => exact settles_cond rfl settles_accept settles_accept h
  | some node =>
      refine settles_cond rfl settles_accept settles_accept ?_
      exact settles_cond rfl settles_leaf h settles_reject

/-- Repetitions come to an end if each of them takes a token. The induction is on the tokens left. -/
theorem settles_loop {term : State} {sep : Option Grammar} {i : Nat}
    (hterm : ∀ i, m.Settles (.state term) i) :
    m.Settles (.state (.loop (.cond term .nonEmpty .reject) sep)) i := by
  generalize hn : m.tokens.length + 1 - i = n
  induction n generalizing i with
  | zero => exact settles_of_length_lt (by omega)
  | succ n ih =>
      have hagain := settles_again (ih (i := i + 1) (by omega))
      intro e hf hi hc hk
      refine acc_of_branch hf rfl ?_ (acc_of_reject rfl)
      refine acc_of_nonEmpty rfl (hterm i) hi ((hc.await _).goto _) ?_
      refine concludes_cons (by simp) (hagain.mono ?_) (hk.mono (Nat.le_succ _))
      exact Nat.succ_le_succ hi

theorem settles_resume {terms : List State} {all : Bool} {node : Grammar} {taken : TermSet} {i : Nat}
    (h : m.Settles (.choose terms all node 0 taken) i) :
    m.Settles (.resume terms all node taken) i := by
  intro e hf hi hc hk
  refine acc_of_expands fun notes new notes' hx _ e' he' hc' => ?_
  cases hx with
  | again hf' =>
      rw [hf] at hf'
      cases hf'
      cases List.mem_singleton.mp he'
      exact h.goto hi hc hk
  | _ => simp_all

theorem settles_once {terms : List State} {all : Bool} {node : Grammar} {i : Nat}
    (h : m.Settles (.choose terms all node 0 .empty) i) :
    m.Settles (.state (.once terms all node)) i := by
  intro e hf hi hc hk
  refine acc_of_expands fun notes new notes' hx _ e' he' hc' => ?_
  cases hx with
  | once hf' =>
      rw [hf] at hf'
      cases hf'
      cases List.mem_singleton.mp he'
      exact h.goto hi hc hk
  | branch hf' hb =>
      rw [hf] at hf'
      cases hf'
      cases hb
  | _ => simp_all

/-- After the last term a group succeeds or fails at once. -/
theorem settles_choose_length {terms : List State} {all : Bool} {node : Grammar} {taken : TermSet}
    {i : Nat} : m.Settles (.choose terms all node terms.length taken) i := by
  intro e hf hi hc hk
  refine acc_of_expands fun notes new notes' hx _ e' he' hc' => ?_
  cases hx with
  | last =>
      cases List.mem_singleton.mp he'
      split
      · exact acc_of_reject rfl
      · exact settles_accept.goto hi hc hk
  | _ => simp_all

/-- A group in any order comes to an end if its terms do. A term that is tried is taken from those
left before the group goes on, so the outer induction is on the terms left; the inner one is on those
that come after the one tried last. -/
theorem settles_choose {terms : List State} {all : Bool} {node : Grammar} {i : Nat}
    (hlen : terms.length ≤ 64) (hterms : ∀ s ∈ terms, m.Settles (.state s) i)
    (taken : TermSet) (index : Nat) : m.Settles (.choose terms all node index taken) i := by
  generalize hleft : (remaining taken 0 terms).length = left
  induction left using Nat.strong_induction_on generalizing taken index with
  | _ left ih =>
      generalize hafter : terms.length - index = after
      induction after using Nat.strong_induction_on generalizing index with
      | _ after ih' =>
          intro e hf hi hc hk
          refine acc_of_expands fun notes new notes' hx _ e' he' hc' => ?_
          cases hx with
          | last =>
              cases List.mem_singleton.mp he'
              split
              · exact acc_of_reject rfl
              · exact settles_accept.goto hi hc hk
          | full hf' _ _ =>
              cases List.mem_singleton.mp he'
              exact settles_accept.goto hi hc hk
          | @pick _ _ _ _ _ n s hf' _ _ hn =>
              rw [hf] at hf'
              cases hf'
              obtain ⟨hle, hget, hfree, -⟩ := nextTerm?_some hn
              rw [List.getElem?_drop, show index + (n - index) = n by omega] at hget
              have hlt : n < terms.length := (List.getElem?_eq_some_iff.mp hget).1
              rcases List.mem_pair.mp he' with rfl | rfl
              · have hfewer := (remaining_perm_cons (by omega) hget hfree).length_eq
                rw [List.length_cons, hleft] at hfewer
                have hrest := settles_resume (ih _ (by omega) (taken.insert n) 0 rfl)
                refine (hterms s (List.mem_of_getElem? hget)).await hi hc ?_
                exact concludes_cons (by simp) (hrest.mono hi) hk
              · exact (ih' _ (by omega) (n + 1) rfl).goto hi hc hk
          | skip hf' _ _ _ =>
              rw [hf] at hf'
              cases hf'
              cases List.mem_singleton.mp he'
              exact settles_choose_length.goto hi hc hk
          | _ => simp_all

end Machine

end ValueGrammar

import Mathlib.Logic.Relation
import Mathlib.Order.Bounds.Basic
import ValueGrammar.Proofs.AnyOrder
import ValueGrammar.Proofs.Limit
import ValueGrammar.Proofs.Safety

/-!
# `ValueGrammar.Proofs.Furthest` — a mismatch is reported at the furthest place

A grammar can be read without any order of search: at a conditional a path may go to either side, and
at a group in any order it may take any term that has not matched, or stop if that is allowed. The
machine tries these paths one after the other. When it has tried them all, the longest match it reports
is the furthest place that any of them gets to, so every path that exists has been walked, and no other.

A machine goes over the terms of a group from the first to the last, and keeps on a path how far it has
come. Such a path stands for the rest of the choices at the group, and may be continued as they may.

## Contents
- `Machine.Continues`, `Machine.Tries`, `Machine.CanReach`: the paths of a grammar, in no order.
- `Focus.Fits`, `Else.Regular`, `Machine.Expands.regular`: the groups in any order on a path.
- `Machine.Expands.tries`, `Machine.Tries.expands`: a step follows the paths there are, and all of them.
- `Machine.Walked`, `Machine.Leads.walked`: what a run has walked is there.
- `Machine.Leads.index_le`, `Machine.isGreatest_longest`: a run that ends has walked everything.
- `MatchResult.Points`, `Matcher.points_of_mismatched`: the place reported with a mismatch.
-/

namespace ValueGrammar

open Relation

/-! ## Paths in no order -/

namespace Machine

variable {ε : Type}

/-- What a path that looks at a focus may be continued by. -/
inductive Continues (m : Machine ε) (e : Else) : Focus → Else → Prop where
  /-- something was taken since the check that something is was put off -/
  | nonEmpty {t thens} (ht : e.thens = t :: thens) (hn : t.next = .state .nonEmpty)
      (h : t.trace.lastIndex? ≠ e.trace.lastIndex?) :
      Continues m e (.state .accept) { e.leave t.scopes with next := .state .accept, thens }
  | resume {t thens} (ht : e.thens = t :: thens) (hn : t.next ≠ .state .nonEmpty) :
      Continues m e (.state .accept) { e.leave t.scopes with next := t.next, thens }
  /-- a conditional may go on with its test, and then with what comes after -/
  | test {s test next other} (hb : s.branch? = some (test, next, other)) :
      Continues m e (.state s)
        ((if next.isAccept then e else e.await (.state next)).goto (.state test))
  /-- a conditional may go on with its alternative, whether its test succeeds or not -/
  | other {s test next other} (hb : s.branch? = some (test, next, other)) :
      Continues m e (.state s) (e.goto (.state other))
  | enum {table t} (ht : m.tokens[e.index]? = some t) :
      Continues m e (.state (.enum table))
        (e.goto (.state ((table.lookup (stripHack (Text.lower t.value))).getD .reject)))
  /-- a leaf that fails has taken what it has all the same -/
  | leaf {l node n ok}
      (hl : l.take (e.trace.lastToken?.map (·.2)) e.range (m.tokens.drop e.index) = (n, ok)) :
      Continues m e (.state (.leaf l node))
        { e with
          next := .state (if ok then .accept else .reject)
          index := e.index + n
          trace := e.trace.taking node e.index ((m.tokens.drop e.index).take n) }
  | call {r range node root} (hr : m.resolve r = .ok (some root)) :
      Continues m e (.state (.call r range node))
        { e with
          next := .state root
          scopes := ⟨node, range <|> e.range⟩ :: e.scopes
          trace := .opened node :: e.trace }
  | once {terms all node} :
      Continues m e (.state (.once terms all node)) (e.goto (.choose terms all node 0 .empty))
  /-- a group in any order may take any term that has not matched, where a group is entered with the
  number zero -/
  | term {terms all node index taken n s} (hle : index ≤ n) (hs : terms[n]? = some s)
      (hn : taken.has n = false) :
      Continues m e (.choose terms all node index taken)
        ((e.await (.resume terms all node (taken.insert n))).goto (.state s))
  /-- a group in any order may stop when a term has matched, if it does not need the others -/
  | stop {terms all node index taken} (hne : taken ≠ TermSet.empty)
      (h : all = false ∨ taken = TermSet.full terms.length) :
      Continues m e (.choose terms all node index taken) (e.goto (.state .accept))
  | again {terms all node taken} :
      Continues m e (.resume terms all node taken) (e.goto (.choose terms all node 0 taken))

/-- A path may be continued by another one. -/
def Tries (m : Machine ε) (e e' : Else) : Prop := m.Continues e e.next e'

/-- Some path from a state takes just `n` tokens. -/
def CanReach (m : Machine ε) (root : State) (n : Nat) : Prop :=
  ∃ e, ReflTransGen m.Tries (Config.start root).here e ∧ e.index = n

variable {m : Machine ε} {e q : Else} {f g : Focus}

theorem tries_iff (hf : e.next = f) : m.Tries e q ↔ m.Continues e f q := by rw [Tries, hf]

theorem Continues.of_goto (h : m.Continues (e.goto g) f q) : m.Continues e f q := by
  cases h with
  | nonEmpty ht hn h => exact .nonEmpty ht hn h
  | resume ht hn => exact .resume ht hn
  | @test s test next other hb =>
      have htest := Continues.test (m := m) (e := e) hb
      revert htest
      cases next.isAccept <;> exact id
  | other hb => exact .other hb
  | enum ht => exact .enum ht
  | leaf hl => exact .leaf hl
  | call hr => exact .call hr
  | once => exact .once
  | term hle hs hn => exact .term hle hs hn
  | stop hne h => exact .stop hne h
  | again => exact .again

/-- What a path may be continued by does not depend on what it looked at before. -/
theorem tries_goto_iff : m.Tries (e.goto f) q ↔ m.Continues e f q :=
  ⟨Continues.of_goto, fun h => Continues.of_goto (g := e.next) h⟩

theorem not_tries_reject : ¬ m.Tries (e.goto (.state .reject)) q := by
  intro h
  cases tries_goto_iff.mp h with
  | test hb | other hb => cases hb

end Machine

/-! ## Groups in any order on a path -/

theorem State.Tame.length_le {p : Reference → Prop} {terms : List State} {all : Bool} {node : Grammar}
    (h : (State.once terms all node).Tame p) : terms.length ≤ 64 := by
  cases h with
  | once hlen _ => exact hlen

/-- What is remembered of a group in any order fits to its terms: those that have matched are among
them, and where some were tried before there is one left that has not matched. -/
def Focus.Fits : Focus → Prop
  | .state _ => True
  | .choose terms _ _ index taken =>
    terms.length ≤ 64 ∧ taken.Below terms.length ∧ index ≤ terms.length ∧
      (index = 0 ∨ taken ≠ TermSet.full terms.length)
  | .resume terms _ _ taken => terms.length ≤ 64 ∧ taken.Below terms.length

/-- What a path remembers of groups in any order fits to their terms, and its states are those of
compiled grammars. -/
structure Else.Regular (e : Else) : Prop where
  keeps : e.Keeps (State.Tame fun _ => True)
  next : e.next.Fits
  thens : ∀ t ∈ e.thens, t.next.Fits

theorem Else.regular_start {root : State} (h : root.Tame fun _ => True) :
    (Config.start root).here.Regular :=
  ⟨⟨h, List.forall_mem_nil _⟩, trivial, List.forall_mem_nil _⟩

theorem Else.Regular.reject {e : Else} (h : e.Regular) : (e.goto (.state .reject)).Regular :=
  ⟨h.keeps.goto .reject, trivial, h.thens⟩

namespace Machine

variable {ε : Type} {m : Machine ε} {e q : Else} {c c' final : Config} {new : List Else}
  {notes notes' : Notes}

theorem getElem?_of_nextTerm? {taken : TermSet} {index n : Nat} {terms : List State} {s : State}
    (h : nextTerm? taken index (terms.drop index) = some (n, s)) : terms[n]? = some s := by
  obtain ⟨hle, hs, -⟩ := nextTerm?_some h
  rwa [List.getElem?_drop, Nat.add_sub_cancel' hle] at hs

theorem lt_length_of_nextTerm? {taken : TermSet} {index n : Nat} {terms : List State} {s : State}
    (h : nextTerm? taken index (terms.drop index) = some (n, s)) : n < terms.length :=
  (List.getElem?_eq_some_iff.mp (getElem?_of_nextTerm? h)).1

/-- A group in any order leads to groups that fit as well, or out of it. -/
theorem Expands.fits (hx : m.Expands e notes new notes') (h : e.Regular) :
    ∀ p ∈ new, p.next.Fits ∧ ∀ t ∈ p.thens, t.next.Fits := by
  have hnext := h.next
  have hrest : ∀ t thens, e.thens = t :: thens → t.next.Fits ∧ ∀ u ∈ thens, u.next.Fits := by
    intro t thens ht
    have hthens := h.thens
    rw [ht] at hthens
    exact List.forall_mem_cons.mp hthens
  cases hx with
  | unfinished | empty | last | full | ended | enum | leaf | call =>
      exact List.forall_mem_singleton.mpr ⟨trivial, h.thens⟩
  | reject => exact List.forall_mem_nil _
  | nonEmpty _ ht => exact List.forall_mem_singleton.mpr ⟨trivial, (hrest _ _ ht).2⟩
  | resume _ ht => exact List.forall_mem_singleton.mpr (hrest _ _ ht)
  | @branch s test next other =>
      intro p hp
      rcases List.mem_cons.mp hp with rfl | hp
      · refine ⟨trivial, fun t ht => ?_⟩
        split at ht
        · exact h.thens t ht
        · rcases List.mem_cons.mp ht with rfl | ht
          · trivial
          · exact h.thens t ht
      · split at hp
        · cases hp
        · rw [List.mem_singleton.mp hp]
          exact ⟨trivial, h.thens⟩
  | pick hf _ ht hn =>
      rw [hf] at hnext
      obtain ⟨hlen, hbelow, -, -⟩ := hnext
      have hlt := lt_length_of_nextTerm? hn
      intro p hp
      rcases List.mem_cons.mp hp with rfl | hp
      · exact ⟨trivial, List.forall_mem_cons.mpr ⟨⟨hlen, hbelow.insert hlt hlen⟩, h.thens⟩⟩
      · rw [List.mem_singleton.mp hp]
        exact ⟨⟨hlen, hbelow, hlt, .inr ht⟩, h.thens⟩
  | skip hf _ ht =>
      rw [hf] at hnext
      obtain ⟨hlen, hbelow, -, -⟩ := hnext
      exact List.forall_mem_singleton.mpr ⟨⟨hlen, hbelow, Nat.le_refl _, .inr ht⟩, h.thens⟩
  | again hf =>
      rw [hf] at hnext
      exact List.forall_mem_singleton.mpr ⟨⟨hnext.1, hnext.2, Nat.zero_le _, .inl rfl⟩, h.thens⟩
  | once hf =>
      have hlen := (h.keeps.state hf).length_le
      exact List.forall_mem_singleton.mpr
        ⟨⟨hlen, TermSet.below_empty _, Nat.zero_le _, .inl rfl⟩, h.thens⟩

theorem Expands.regular (hx : m.Expands e notes new notes')
    (hroots : ∀ r root, m.resolve r = .ok (some root) → root.Tame fun _ => True) (h : e.Regular) :
    ∀ p ∈ new, p.Regular := fun p hp =>
  ⟨hx.keeps State.kept_tame hroots h.keeps p hp, (hx.fits h p hp).1, (hx.fits h p hp).2⟩

/-! ## Steps and paths -/

section choose

variable {terms : List State} {all : Bool} {node : Grammar} {index : Nat} {taken : TermSet}

/-- Where fewer terms are left to be tried, a group may be continued in fewer ways. -/
theorem Continues.of_later {later : Nat} (hle : index ≤ later)
    (h : m.Continues e (.choose terms all node later taken) q) :
    m.Continues e (.choose terms all node index taken) q := by
  cases h with
  | term hn hs ht => exact .term (hle.trans hn) hs ht
  | stop hne h => exact .stop hne h

/-- Where every term has matched, a group is not at its end, or it has no terms. -/
theorem eq_empty_of_full (h : (Focus.choose terms all node index taken).Fits)
    (hi : index = terms.length) (ht : taken = TermSet.full terms.length) : taken = TermSet.empty := by
  obtain ⟨-, -, -, h⟩ := h
  have hzero : terms.length = 0 := hi.symm.trans (h.resolve_right (not_not_intro ht))
  rw [ht, hzero]
  rfl

end choose

/-- **A step follows paths that there are.** A path that a step leads to is one that its path may be
continued by, or it stands at the same place for some of the ways in which its path may be continued. -/
theorem Expands.tries (hx : m.Expands e notes new notes') (h : e.Regular) :
    ∀ p ∈ new, m.Tries e p ∨ (p.index = e.index ∧ ∀ q, m.Tries p q → m.Tries e q) := by
  have hnext := h.next
  cases hx with
  | unfinished | empty | ended =>
      exact List.forall_mem_singleton.mpr (.inr ⟨rfl, fun q hq => absurd hq not_tries_reject⟩)
  | reject => exact List.forall_mem_nil _
  | nonEmpty hf ht hn hi =>
      exact List.forall_mem_singleton.mpr (.inl ((tries_iff hf).mpr (.nonEmpty ht hn hi)))
  | resume hf ht hn => exact List.forall_mem_singleton.mpr (.inl ((tries_iff hf).mpr (.resume ht hn)))
  | branch hf hb =>
      intro p hp
      refine .inl ((tries_iff hf).mpr ?_)
      rcases List.mem_cons.mp hp with rfl | hp
      · exact .test hb
      · split at hp
        · cases hp
        · rw [List.mem_singleton.mp hp]
          exact .other hb
  | last hf =>
      refine List.forall_mem_singleton.mpr ?_
      split
      · exact .inr ⟨rfl, fun q hq => absurd hq not_tries_reject⟩
      · rename_i hstop
        rw [Bool.not_eq_true, Bool.or_eq_false_iff, decide_eq_false_iff_not] at hstop
        exact .inl ((tries_iff hf).mpr (.stop hstop.1 (.inl hstop.2)))
  | @full terms _ _ _ _ hf hi ht =>
      rw [hf] at hnext
      obtain ⟨hlen, -, hle, -⟩ := hnext
      have hne := TermSet.full_ne_empty hlen (Nat.zero_lt_of_lt (Nat.lt_of_le_of_ne hle hi))
      rw [← ht] at hne
      exact List.forall_mem_singleton.mpr (.inl ((tries_iff hf).mpr (.stop hne (.inr ht))))
  | pick hf _ _ hn =>
      obtain ⟨hle, -, hfree, -⟩ := nextTerm?_some hn
      intro p hp
      rcases List.mem_cons.mp hp with rfl | hp
      · exact .inl ((tries_iff hf).mpr (.term hle (getElem?_of_nextTerm? hn) hfree))
      · -- the terms that are left are tried from here
        rw [List.mem_singleton.mp hp]
        refine .inr ⟨rfl, fun q hq => (tries_iff hf).mpr ?_⟩
        exact (tries_goto_iff.mp hq).of_later (hle.trans (Nat.le_succ _))
  | skip hf =>
      rw [hf] at hnext
      refine List.forall_mem_singleton.mpr (.inr ⟨rfl, fun q hq => (tries_iff hf).mpr ?_⟩)
      exact (tries_goto_iff.mp hq).of_later hnext.2.2.1
  | again hf => exact List.forall_mem_singleton.mpr (.inl ((tries_iff hf).mpr .again))
  | once hf => exact List.forall_mem_singleton.mpr (.inl ((tries_iff hf).mpr .once))
  | enum hf ht => exact List.forall_mem_singleton.mpr (.inl ((tries_iff hf).mpr (.enum ht)))
  | leaf hf hl => exact List.forall_mem_singleton.mpr (.inl ((tries_iff hf).mpr (.leaf hl)))
  | call hf hr => exact List.forall_mem_singleton.mpr (.inl ((tries_iff hf).mpr (.call hr)))

/-- **A step follows every path there is.** What a path may be continued by is among the paths that a
step leads to, or one of these may be continued by it; but for an alternative that fails at once, which
is left out. -/
theorem Tries.expands (hq : m.Tries e q) (hx : m.Expands e notes new notes') (h : e.Regular) :
    q ∈ new ∨ (∃ p ∈ new, m.Tries p q) ∨ (q.index = e.index ∧ ∀ q', ¬ m.Tries q q') := by
  have hnext := h.next
  cases hx with
  | unfinished hf ht =>
      cases (tries_iff hf).mp hq with
      | nonEmpty ht' | resume ht' => rw [ht] at ht'; cases ht'
      | test hb | other hb => cases hb
  | empty hf ht hn hi =>
      cases (tries_iff hf).mp hq with
      | nonEmpty ht' _ hi' => rw [ht] at ht'; cases ht'; exact absurd hi hi'
      | resume ht' hn' => rw [ht] at ht'; cases ht'; exact absurd hn hn'
      | test hb | other hb => cases hb
  | nonEmpty hf ht hn hi =>
      cases (tries_iff hf).mp hq with
      | nonEmpty ht' _ hi' => rw [ht] at ht'; cases ht'; exact .inl List.mem_cons_self
      | resume ht' hn' => rw [ht] at ht'; cases ht'; exact absurd hn hn'
      | test hb | other hb => cases hb
  | resume hf ht hn =>
      cases (tries_iff hf).mp hq with
      | nonEmpty ht' hn' => rw [ht] at ht'; cases ht'; exact absurd hn' hn
      | resume ht' => rw [ht] at ht'; cases ht'; exact .inl List.mem_cons_self
      | test hb | other hb => cases hb
  | reject hf =>
      cases (tries_iff hf).mp hq with
      | test hb | other hb => cases hb
  | @branch s test next other hf hb =>
      cases (tries_iff hf).mp hq with
      | test hb' =>
          rw [hb] at hb'
          cases hb'
          exact .inl List.mem_cons_self
      | other hb' =>
          rw [hb] at hb'
          cases hb'
          cases other with
          | reject => exact .inr (.inr ⟨rfl, fun q' => not_tries_reject⟩)
          | _ => exact .inl (List.mem_cons_of_mem _ List.mem_cons_self)
      | _ => cases hb
  | last hf hi =>
      rw [hf] at hnext
      cases (tries_iff hf).mp hq with
      | term hle hs =>
          have hlt := (List.getElem?_eq_some_iff.mp hs).1
          omega
      | stop hne hall =>
          refine .inl (List.mem_singleton.mpr ?_)
          rcases hall with rfl | hfull
          · rw [if_neg (by simp [hne])]
          · exact absurd (eq_empty_of_full hnext hi hfull) hne
  | full hf hi ht =>
      rw [hf] at hnext
      cases (tries_iff hf).mp hq with
      | term hle hs hfree =>
          have hlt := (List.getElem?_eq_some_iff.mp hs).1
          rw [ht, TermSet.has_full hnext.1, decide_eq_true hlt] at hfree
          cases hfree
      | stop => exact .inl List.mem_cons_self
  | @pick terms all node index taken n s hf _ _ hn =>
      obtain ⟨-, -, hfree, hbefore⟩ := nextTerm?_some hn
      cases (tries_iff hf).mp hq with
      | @term _ _ _ _ _ k u hle hs hfree' =>
          rcases Nat.lt_trichotomy k n with hlt | rfl | hgt
          · rw [hbefore k hle hlt] at hfree'
            cases hfree'
          · rw [getElem?_of_nextTerm? hn] at hs
            cases hs
            exact .inl List.mem_cons_self
          · exact .inr (.inl ⟨_, List.mem_cons_of_mem _ List.mem_cons_self,
              tries_goto_iff.mpr (.term hgt hs hfree')⟩)
      | stop hne hall =>
          exact .inr (.inl ⟨_, List.mem_cons_of_mem _ List.mem_cons_self,
            tries_goto_iff.mpr (.stop hne hall)⟩)
  | skip hf _ _ hn =>
      refine .inr (.inl ⟨_, List.mem_cons_self, tries_goto_iff.mpr ?_⟩)
      cases (tries_iff hf).mp hq with
      | term hle hs hfree =>
          have hlt := (List.getElem?_eq_some_iff.mp hs).1
          rw [nextTerm?_none hn _ hle (by rw [List.length_drop]; omega)] at hfree
          cases hfree
      | stop hne hall => exact .stop hne hall
  | again hf =>
      cases (tries_iff hf).mp hq
      exact .inl List.mem_cons_self
  | once hf =>
      cases (tries_iff hf).mp hq with
      | once => exact .inl List.mem_cons_self
      | test hb | other hb => cases hb
  | ended hf ht =>
      cases (tries_iff hf).mp hq with
      | enum ht' => rw [ht] at ht'; cases ht'
      | test hb | other hb => cases hb
  | enum hf ht =>
      cases (tries_iff hf).mp hq with
      | enum ht' => rw [ht] at ht'; cases ht'; exact .inl List.mem_cons_self
      | test hb | other hb => cases hb
  | leaf hf hl =>
      cases (tries_iff hf).mp hq with
      | leaf hl' => rw [hl] at hl'; cases hl'; exact .inl List.mem_cons_self
      | test hb | other hb => cases hb
  | call hf hr =>
      cases (tries_iff hf).mp hq with
      | call hr' => rw [hr] at hr'; cases hr'; exact .inl List.mem_cons_self
      | test hb | other hb => cases hb

/-! ## Runs -/

/-- A step that reaches further than any before leads to a path that is there. -/
theorem Expands.longest_eq (hx : m.Expands e notes new notes') :
    notes'.longest = notes.longest ∨ ∃ p ∈ new, p.index = notes'.longest := by
  cases hx with
  | @leaf l node n ok =>
      rcases Nat.eq_zero_or_pos n with rfl | hpos
      · exact .inl rfl
      · have hreach : (notes.reach e.index n).longest = max notes.longest (e.index + n) := by
          rw [Notes.reach, if_neg (Nat.ne_of_gt hpos)]
        rw [hreach]
        rcases Nat.le_total (e.index + n) notes.longest with hle | hle
        · exact .inl (Nat.max_eq_left hle)
        · exact .inr ⟨_, List.mem_cons_self, (Nat.max_eq_right hle).symm⟩
  | _ => exact .inl rfl

theorem Expands.index_le (hx : m.Expands e notes new notes') (h : e.index ≤ notes.longest) :
    ∀ p ∈ new, p.index ≤ notes'.longest := by
  cases hx with
  | reject => exact List.forall_mem_nil _
  | branch =>
      intro p hp
      rcases List.mem_cons.mp hp with rfl | hp
      · split <;> exact h
      · split at hp
        · cases hp
        · rw [List.mem_singleton.mp hp]
          exact h
  | pick => exact List.forall_mem_cons.mpr ⟨h, List.forall_mem_singleton.mpr h⟩
  | @leaf l node n ok =>
      refine List.forall_mem_singleton.mpr ?_
      change e.index + n ≤ (notes.reach e.index n).longest
      unfold Notes.reach
      split
      · rename_i hzero
        rw [hzero]
        exact h
      · exact Nat.le_max_right _ _
  | _ => exact List.forall_mem_singleton.mpr h

variable {root : State}

/-- Some path from the state stands at the same place, and may be continued as this one may. -/
def Reached (m : Machine ε) (root : State) (e : Else) : Prop :=
  ∃ q, ReflTransGen m.Tries (Config.start root).here q ∧ q.index = e.index ∧
    ∀ q', m.Tries e q' → m.Tries q q'

theorem Reached.reject (h : m.Reached root e) : m.Reached root (e.goto (.state .reject)) := by
  obtain ⟨q, hq, hi, -⟩ := h
  exact ⟨q, hq, hi, fun q' hq' => absurd hq' not_tries_reject⟩

theorem Reached.canReach (h : m.Reached root e) : m.CanReach root e.index := by
  obtain ⟨q, hq, hi, -⟩ := h
  exact ⟨q, hq, hi⟩

theorem Expands.reached (hx : m.Expands e notes new notes') (h : e.Regular)
    (hr : m.Reached root e) : ∀ p ∈ new, m.Reached root p := by
  obtain ⟨q, hq, hi, htries⟩ := hr
  intro p hp
  rcases hx.tries h p hp with hep | ⟨hpi, hpe⟩
  · exact ⟨p, hq.tail (htries p hep), rfl, fun _ h => h⟩
  · exact ⟨q, hq, hi.trans hpi.symm, fun q' hq' => htries q' (hpe q' hq')⟩

/-- What a run has walked is there: its paths, up to the choices made at a group before, and one that
took as many tokens as its longest match has. -/
structure Walked (m : Machine ε) (root : State) (c : Config) : Prop where
  paths : ∀ p ∈ c.paths, p.Regular ∧ m.Reached root p
  longest : m.CanReach root c.notes.longest

variable (hroots : ∀ r root, m.resolve r = .ok (some root) → root.Tame fun _ => True)

include hroots

theorem Moves.walked (hm : m.Moves c c') (h : m.Walked root c) : m.Walked root c' := by
  have hpaths : ∀ p ∈ c'.paths, p.Regular ∧ m.Reached root p := by
    refine hm.forall_paths (fun e he => ⟨he.1.reject, he.2.reject⟩) ?_ h.paths
    exact fun e _ _ _ hx he p hp => ⟨hx.regular hroots he.1 p hp, hx.reached he.1 he.2 p hp⟩
  have hlocal : ∀ new, m.Expands c.here c.notes new c'.notes →
      c'.here :: c'.elses = new ++ c.elses → m.CanReach root c'.notes.longest := by
    intro new hx hp
    rcases hx.longest_eq with heq | ⟨p, hmem, hpi⟩
    · rw [heq]
      exact h.longest
    · have hpath : p ∈ c'.here :: c'.elses := by
        rw [hp]
        exact List.mem_append_left _ hmem
      rw [← hpi]
      exact (hpaths p (List.mem_append_left _ hpath)).2.canReach
  refine ⟨hpaths, ?_⟩
  cases hm with
  | expand hx hp => exact hlocal _ hx hp
  | take hx hp => exact hlocal _ hx hp
  | defer _ _ _ _ _ _ _ _ hn => rw [hn]; exact h.longest
  | retry _ _ _ _ _ _ _ hn => rw [hn]; exact h.longest

/-- **What a run has walked is there when the grammar is read in no order.** -/
theorem Leads.walked (hl : m.Leads (.start root) c) (hroot : root.Tame fun _ => True) :
    m.Walked root c := by
  have hstart : m.Walked root (.start root) := by
    refine ⟨fun p hp => ?_, _, .refl, rfl⟩
    rw [mem_paths_start hp]
    exact ⟨Else.regular_start hroot, _, .refl, rfl, fun _ h => h⟩
  exact hl.invariant (fun _ _ hs hc => (step_next hs).walked hroots hc) hstart

omit hroots in
/-- Where nothing can be put off, a step replaces the path it is on. -/
theorem Moves.expands (hm : m.Moves c c') (hlow : m.lowPriority = false) (hs : c.stash = none) :
    ∃ new, m.Expands c.here c.notes new c'.notes ∧ c'.here :: c'.elses = new ++ c.elses := by
  cases hm with
  | expand hx hp => exact ⟨_, hx, hp⟩
  | take hx hp => exact ⟨_, hx, hp⟩
  | defer hl => rw [hlow] at hl; cases hl
  | retry _ hs' => rw [hs] at hs'; cases hs'

omit hroots in
theorem Leads.longest_le (hl : m.Leads c c') : c.notes.longest ≤ c'.notes.longest :=
  hl.invariant (P := fun a => c.notes.longest ≤ a.notes.longest)
    (fun _ _ hs ha => ha.trans (step_next hs).longest_le) (Nat.le_refl _)

omit hroots in
/-- What bounds the paths that a step leads to bounds those of its path. -/
theorem Expands.bounds {bound : Nat} (hx : m.Expands e notes new notes') (h : e.Regular)
    (he : e.index ≤ bound)
    (hnew : ∀ p ∈ new, ∀ q, ReflTransGen m.Tries p q → q.index ≤ bound) :
    ∀ q, ReflTransGen m.Tries e q → q.index ≤ bound := by
  intro q hq
  rcases hq.cases_head with rfl | ⟨p, hep, hpq⟩
  · exact he
  · rcases hep.expands hx h with hmem | ⟨p', hmem, hp'⟩ | ⟨hi, hno⟩
    · exact hnew p hmem q hpq
    · exact hnew p' hmem q (.head hp' hpq)
    · rcases hpq.cases_head with rfl | ⟨q', hq', -⟩
      · exact hi ▸ he
      · exact absurd hq' (hno q')

/-- **A run that has tried everything has been as far as every path.** The induction is on the run, from
its end. No path is left there; a step before, what a path may be continued by is among the paths that
the step led to. -/
theorem Leads.index_le (hl : m.Leads c final) (hlow : m.lowPriority = false) (hs : c.stash = none)
    (hf : final.focus = .state .reject) (he : final.elses = [])
    (h : ∀ p ∈ c.here :: c.elses, p.Regular ∧ p.index ≤ c.notes.longest) :
    ∀ p ∈ c.here :: c.elses, ∀ q, ReflTransGen m.Tries p q → q.index ≤ final.notes.longest := by
  induction hl with
  | @refl c =>
      have hx : m.Expands c.here c.notes [] c.notes := .reject hf
      rw [he] at h ⊢
      intro p hp
      obtain rfl := List.mem_singleton.mp hp
      exact hx.bounds (h _ hp).1 (h _ hp).2 (List.forall_mem_nil _)
  | @head c c₁ final hstep hl ih =>
      have hm := step_next hstep
      obtain ⟨new, hx, hpaths⟩ := hm.expands hlow hs
      have hhere := h c.here List.mem_cons_self
      have hnew : ∀ p ∈ new ++ c.elses, p.Regular ∧ p.index ≤ c₁.notes.longest := by
        intro p hp
        rcases List.mem_append.mp hp with hp | hp
        · exact ⟨hx.regular hroots hhere.1 p hp, hx.index_le hhere.2 p hp⟩
        · have hold := h p (List.mem_cons_of_mem _ hp)
          exact ⟨hold.1, hold.2.trans hm.longest_le⟩
      rw [hpaths] at ih
      have hbound := ih (hm.stash_none hlow hs) hf he hnew
      refine List.forall_mem_cons.mpr ⟨?_, fun p hp => hbound p (List.mem_append_right _ hp)⟩
      have hle : c.here.index ≤ final.notes.longest :=
        hhere.2.trans ((Leads.head hstep hl).longest_le)
      exact hx.bounds hhere.1 hle fun p hp => hbound p (List.mem_append_left _ hp)

/-- **The longest match of a run that has tried everything is the furthest place of all paths.** -/
theorem isGreatest_longest (hroot : root.Tame fun _ => True) (hlow : m.lowPriority = false)
    {limit : Nat} (h : (m.run limit root).outcome = .mismatched) :
    IsGreatest {n | m.CanReach root n} (m.run limit root).final.longest := by
  obtain ⟨c, hl, hend⟩ := m.run_ends limit root
  rw [Run.EndsWith, h] at hend
  obtain ⟨hfinal, hf, he, -⟩ := step_mismatched hend
  rw [hfinal]
  have hwalked := hl.walked hroots hroot
  refine ⟨hwalked.longest, ?_⟩
  rintro n ⟨q, hq, rfl⟩
  refine hl.index_le hroots hlow rfl hf he ?_ _ List.mem_cons_self q hq
  exact List.forall_mem_singleton.mpr ⟨Else.regular_start hroot, Nat.le_refl _⟩

end Machine

/-! ## Matches -/

theorem Token.length_joined_cons (t : Token) (ts : List Token) :
    (Token.joined (t :: ts)).length = t.value.length + (Token.joined ts).length := by
  rw [joined, List.map_cons, String.join_cons, String.length_append]
  rfl

section offset

variable {sees : Token → Bool} {n : Nat} {tokens : List Token}

/-- The offset of a token that is seen is the length of the text before it. The induction is on the
tokens before. -/
theorem offsetOf_append {before after : List Token} {t : Token} (ht : sees t = true)
    (hn : (before.filter sees).length = n) :
    offsetOf sees n (before ++ t :: after) = (Token.joined before).length := by
  induction before generalizing n with
  | nil =>
      obtain rfl : 0 = n := hn
      simp only [List.nil_append, offsetOf, ht, if_true]
      rfl
  | cons u before ih =>
      rw [Token.length_joined_cons, List.cons_append]
      unfold offsetOf
      cases hu : sees u with
      | true =>
          rw [List.filter_cons_of_pos hu, List.length_cons] at hn
          subst hn
          exact congrArg (u.value.length + ·) (ih rfl)
      | false =>
          rw [List.filter_cons_of_neg (by simp [hu])] at hn
          exact congrArg (u.value.length + ·) (ih hn)

/-- Where there are no more tokens that are seen, the offset is the length of the whole text. -/
theorem offsetOf_of_length_le (hn : (tokens.filter sees).length ≤ n) :
    offsetOf sees n tokens = (Token.joined tokens).length := by
  induction tokens generalizing n with
  | nil => rfl
  | cons u tokens ih =>
      rw [Token.length_joined_cons]
      unfold offsetOf
      cases hu : sees u with
      | true =>
          rw [List.filter_cons_of_pos hu, List.length_cons] at hn
          cases n with
          | zero => exact absurd hn (Nat.not_succ_le_zero _)
          | succ k => exact congrArg (u.value.length + ·) (ih (Nat.le_of_succ_le_succ hn))
      | false =>
          rw [List.filter_cons_of_neg (by simp [hu])] at hn
          exact congrArg (u.value.length + ·) (ih hn)

end offset

/-- The offset of a result is the length of the text before the significant token that its longest match
ends at, in characters, or of the whole text if there is none. -/
structure MatchResult.Points (r : MatchResult) (sees : Token → Bool) (tokens : List Token) : Prop where
  before : ∀ before t after, tokens = before ++ t :: after → sees t = true →
    (before.filter sees).length = r.longest → r.offset = (Token.joined before).length
  whole : (tokens.filter sees).length ≤ r.longest → r.offset = (Token.joined tokens).length

namespace Matcher

/-- **A mismatch is reported at the furthest place.** Where a match of a compiled grammar ends in a
mismatch and nothing was put off, its longest match is the largest number of tokens that any path of the
grammar takes, whatever order the paths are tried in, and some path takes just as many. Its offset is the
length of the text before the token with that number. -/
theorem points_of_mismatched {m : Matcher} {settings : Settings} {d : Dictionary} {graph : Graph}
    {tokens : List Token} {r : MatchResult} (hroot : graph.root.IsCompiled) (hd : d.Built)
    (hlow : m.lowPriority = false) (h : (m.runWith settings d tokens graph).1 = .ok r)
    (hr : r.reason = .mismatched) :
    IsGreatest {n | (m.machine tokens (d.roots settings)).CanReach graph.root n} r.longest ∧
      r.Points m.sees tokens := by
  have hresult : m.result tokens graph.grammar (m.search settings d tokens graph) = .ok r :=
    run_of_runWith h
  have houtcome : (m.search settings d tokens graph).outcome = .mismatched := by
    have hreason : (m.runWith settings d tokens graph).1.map MatchResult.reason = .ok .mismatched := by
      rw [h, ← hr]
      rfl
    exact outcome_search hreason
  have hgreatest := Machine.isGreatest_longest (fun r root hr => (hd.roots hr).tame) hroot.tame hlow
    houtcome
  obtain ⟨-, hlongest, -⟩ := run_of_result hresult
  have hoffset : r.offset = offsetOf m.sees r.longest tokens := by
    unfold result at hresult
    rw [houtcome] at hresult
    cases hresult
    rfl
  refine ⟨hlongest ▸ hgreatest, fun before t after htokens ht hn => ?_, fun hn => ?_⟩
  · rw [hoffset, htokens, offsetOf_append ht hn]
  · rw [hoffset, offsetOf_of_length_le hn]

/-- The grammar `a || b c`. -/
def stoppedGrammar : Grammar :=
  .group .any [.keyword "a", .row [.keyword "b", .keyword "c"]] false false

/-- The tokens of `a b d` with the space between them. -/
def stoppedTokens : List Token :=
  [⟨.ident, "a", none⟩, ⟨.whitespace, " ", none⟩, ⟨.ident, "b", none⟩, ⟨.whitespace, " ", none⟩,
    ⟨.ident, "d", none⟩]

/-- A path that stops after `a` gets less far than one that takes the second term, which fails at
`d`. -/
theorem points_of_mismatched_stopped :
    Grammar.parse "a || b c" = .ok stoppedGrammar ∧
      Graph.ofGrammar .standard "" stoppedGrammar = .ok (foldedGraph "" stoppedGrammar) ∧
      ∃ r, ((⟨1000, false, Token.isSignificant⟩ : Matcher).runWith .standard .empty stoppedTokens
          (foldedGraph "" stoppedGrammar)).1 = .ok r ∧
        r.longest = 2 ∧ r.offset = 4 ∧
        IsGreatest {n | (machine ⟨1000, false, Token.isSignificant⟩ stoppedTokens
          (Dictionary.empty.roots .standard)).CanReach (foldedGraph "" stoppedGrammar).root n} 2 ∧
        r.Points Token.isSignificant stoppedTokens := by
  have hroot : (foldedGraph "" stoppedGrammar).root.IsCompiled := .inl ⟨true, stoppedGrammar, rfl⟩
  have hempty : Dictionary.empty.Means (fun _ => True) _ := .empty
  have hrun : ∃ r, ((⟨1000, false, Token.isSignificant⟩ : Matcher).runWith .standard .empty
      stoppedTokens (foldedGraph "" stoppedGrammar)).1 = .ok r ∧
      r.reason = .mismatched ∧ r.longest = 2 ∧ r.offset = 4 := ⟨_, rfl, rfl, rfl, rfl⟩
  obtain ⟨r, hr, hreason, hlongest, hoffset⟩ := hrun
  obtain ⟨hgreatest, hpoints⟩ := points_of_mismatched hroot hempty.built rfl hr hreason
  exact ⟨rfl, rfl, r, hr, hlongest, hoffset, hlongest ▸ hgreatest, hpoints⟩

end Matcher

end ValueGrammar

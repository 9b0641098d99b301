import ValueGrammar.Proofs.Machine.Coherence

/-!
# `ValueGrammar.Proofs.Machine.Steps` — what each kind of step does

One equation for each thing that a step can do, with the condition under which it does it. A proof that
follows two machines side by side rewrites with these and does not look into a step.

## Contents
- `Machine.Leads.single`, `Machine.Leads.trans`: steps one after the other.
- `Machine.step_accept_nil`, `Machine.step_accept_nonEmpty`, `Machine.step_accept_resume`: success.
- `Machine.step_reject_pop`, `Machine.step_reject_retry`, `Machine.step_reject_nil`: failure.
- `Machine.step_branch`, `Machine.step_leaf`, `Machine.step_enum`: conditionals, leaves and tables.
- `Machine.step_choose_last`, `Machine.step_choose_pick`, …: groups in any order.
- `Machine.later`, `Machine.step_call_open`, `Machine.step_call_later`: references.
-/

namespace ValueGrammar

namespace Machine

variable {ε : Type} {m : Machine ε} {c c' c'' : Config}

theorem Leads.single (hs : m.step c = .next c') : m.Leads c c' := .head hs .refl

theorem Leads.trans (h : m.Leads c c') (h' : m.Leads c' c'') : m.Leads c c'' := by
  induction h with
  | refl => exact h'
  | head hs _ ih => exact .head hs (ih h')

/-! ## Success -/

theorem step_accept (hf : c.focus = .state .accept) : m.step c = m.onAccept c := by
  simp only [step, hf]

theorem step_accept_nil (hf : c.focus = .state .accept) (ht : c.thens = []) :
    m.step c = if m.atEnd c then .finished true c else .next (c.goto .reject) := by
  rw [step_accept hf, onAccept, ht]

theorem step_accept_nonEmpty {t : Then} {thens : List Then} (hf : c.focus = .state .accept)
    (ht : c.thens = t :: thens) (hn : t.next = .state .nonEmpty) :
    m.step c = if t.trace.lastIndex? = c.trace.lastIndex? then .next (c.goto .reject)
      else .next { c.closeTo t.scopes with focus := .state .accept, thens } := by
  rw [step_accept hf, onAccept, ht]
  simp only [hn]

theorem step_accept_resume {t : Then} {thens : List Then} (hf : c.focus = .state .accept)
    (ht : c.thens = t :: thens) (hn : t.next ≠ .state .nonEmpty) :
    m.step c = .next { c.closeTo t.scopes with focus := t.next, thens } := by
  rw [step_accept hf, onAccept, ht]
  simp only

/-! ## Failure -/

theorem step_reject (hf : c.focus = .state .reject) : m.step c = onReject c := by
  simp only [step, hf]

/-- An alternative is tried at once if nothing was put off, or if it is of the place the search is
at. -/
theorem step_reject_pop {e : Else} {elses : List Else} (hf : c.focus = .state .reject)
    (he : c.elses = e :: elses)
    (hs : c.stash = none ∨ c.stashUsed = true ∨ c.index ≤ e.index) :
    m.step c = .next (c.restore e elses) := by
  rw [step_reject hf, onReject]
  simp only [he]
  split
  · rename_i hstash hused
    have hle : ¬ e.index < c.index := by simp_all
    simp [hle]
  · rfl

theorem step_reject_retry {e : Else} {elses : List Else} (hf : c.focus = .state .reject)
    (hs : c.stash = some (e, elses)) (hu : c.stashUsed = false)
    (hd : ∀ e' ∈ c.elses.head?, e'.index < c.index) :
    m.step c = .next { c.restore e elses with stash := none, stashUsed := true } := by
  rw [step_reject hf, onReject]
  simp only [hs, hu]
  cases he : c.elses with
  | nil => rfl
  | cons e' elses' =>
      rw [he] at hd
      simp [hd e' rfl]

theorem step_reject_nil (hf : c.focus = .state .reject) (he : c.elses = [])
    (hs : c.stash = none ∨ c.stashUsed = true) : m.step c = .finished false c := by
  rw [step_reject hf, onReject]
  simp only [he]
  split
  · simp_all
  · rfl

/-! ## Conditionals, leaves and tables -/

theorem step_branch {s test next other : State} (hf : c.focus = .state s)
    (hb : s.branch? = some (test, next, other)) : m.step c = onBranch c test next other := by
  cases s with
  | cond | loop =>
      cases hb
      simp only [step, hf]
  | again body sep =>
      cases sep with
      | none => cases hb; simp only [step, hf]
      | some => cases hb; simp only [step, hf]
  | _ => cases hb

theorem step_leaf {l : Leaf} {node : Grammar} {n : Nat} {ok : Bool}
    (hf : c.focus = .state (.leaf l node))
    (hl : l.take (c.trace.lastToken?.map (·.2)) c.here.range (m.tokens.drop c.index) = (n, ok)) :
    m.step c = .next ((c.takeTokens node ((m.tokens.drop c.index).take n)).goto
      (if ok then .accept else .reject)) := by
  have hstep : m.step c = m.onLeaf c l node := by simp only [step, hf]
  rw [hstep]
  change l.take _ (c.scopes.head?.bind (·.range)) (m.ahead c) = _ at hl
  simp only [onLeaf, hl]
  rfl

/-- A table leads to what is found under the value of the token. -/
theorem step_enum {table : List (String × State)} {t : Token} (ht : m.tokens[c.index]? = some t) :
    m.step (c.goto (.enum table)) =
      .next (c.goto ((table.lookup (stripHack (Text.lower t.value))).getD .reject)) := by
  change m.onEnum (c.goto (.enum table)) table = _
  have hcurrent : m.current? (c.goto (.enum table)) = some t := by
    rw [current?, ahead, List.head?_drop]
    exact ht
  rw [onEnum, hcurrent]
  rfl

theorem step_enum_end {table : List (String × State)} (ht : m.tokens[c.index]? = none) :
    m.step (c.goto (.enum table)) = .next (c.goto .reject) := by
  change m.onEnum (c.goto (.enum table)) table = _
  have hcurrent : m.current? (c.goto (.enum table)) = none := by
    rw [current?, ahead, List.head?_drop]
    exact ht
  rw [onEnum, hcurrent]
  rfl

/-! ## Groups in any order -/

section choose

variable {terms : List State} {all : Bool} {node : Grammar} {index : Nat} {taken : TermSet}
  (hf : c.focus = .choose terms all node index taken)

include hf

theorem step_choose : m.step c = onChoose c terms all node index taken := by
  simp only [step, hf]

theorem step_choose_last (hi : index = terms.length) :
    m.step c = .next (c.goto (if taken = TermSet.empty || all then .reject else .accept)) := by
  rw [step_choose hf, onChoose, if_pos hi]

theorem step_choose_full (hi : index ≠ terms.length) (ht : taken = TermSet.full terms.length) :
    m.step c = .next (c.goto .accept) := by
  rw [step_choose hf, onChoose, if_neg hi, if_pos ht]

theorem step_choose_skip (hi : index ≠ terms.length) (ht : taken ≠ TermSet.full terms.length)
    (hn : nextTerm? taken index (terms.drop index) = none) :
    m.step c = .next { c with focus := .choose terms all node terms.length taken } := by
  rw [step_choose hf, onChoose, if_neg hi, if_neg ht, hn]

/-- The other terms stay behind as an alternative, and the group goes on after the one picked. -/
theorem step_choose_pick {n : Nat} {s : State} (hi : index ≠ terms.length)
    (ht : taken ≠ TermSet.full terms.length)
    (hn : nextTerm? taken index (terms.drop index) = some (n, s)) :
    m.step c = .next (((c.pushElse (.choose terms all node (n + 1) taken)).pushThen
      (.resume terms all node (taken.insert n))).goto s) := by
  rw [step_choose hf, onChoose, if_neg hi, if_neg ht, hn]

end choose

/-! ## References -/

theorem step_call {r : Reference} {range : Option Range} {node : Grammar}
    (hf : c.focus = .state (.call r range node)) : m.step c = m.onCall c r range node := by
  simp only [step, hf]

/-- A reference is put off, where its type is. -/
def later (m : Machine ε) (c : Config) (r : Reference) : Bool :=
  m.lowPriority && !c.stashUsed && (m.current? c).any (isLowPriority r)

theorem step_call_open {r : Reference} {range : Option Range} {node : Grammar} {root : State}
    (hf : c.focus = .state (.call r range node)) (hr : m.resolve r = .ok (some root))
    (hl : m.later c r = false) :
    m.step c = .next ((Config.openScope { c with lookups := r :: c.lookups } node range).goto root) := by
  rw [step_call hf, onCall]
  simp only [hr]
  exact if_neg (Bool.eq_false_iff.mp hl)

theorem step_call_later {r : Reference} {range : Option Range} {node : Grammar} {root : State}
    (hf : c.focus = .state (.call r range node)) (hr : m.resolve r = .ok (some root))
    (hl : m.later c r = true) :
    m.step c = .next { c with
      focus := .state .reject, lookups := r :: c.lookups
      stash := some (c.stash.getD (c.snapshot (.state (.call r range node)), c.elses)) } := by
  rw [step_call hf, onCall]
  simp only [hr]
  refine (if_pos hl).trans ?_
  cases c.stash <;> rfl

end Machine

end ValueGrammar

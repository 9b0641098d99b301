import ValueGrammar.Proofs.Leaf

/-!
# `ValueGrammar.Proofs.Machine.Path` — what a step does to the paths of a search

A machine searches along paths: the one it is on, and the snapshots it may go back to. Without the
types that are put off a step is local to the path it is on. It replaces that path by the ones it
leads to, and leaves the snapshots below alone. This module says once what every step can do; all
that is proved about runs starts from here.

## Contents
- `Trace.closing`, `Trace.taking`: what leaving scopes and taking tokens adds to a trace.
- `Notes`: what a run records about all paths together.
- `Config.here`, `Machine.Expands`: the path a machine is on, and the paths it leads to.
- `Machine.Fails`: the steps that end a run without an answer.
- `Machine.Moves`, `Machine.Explains`, `Machine.explains_step`: every step.
-/

namespace ValueGrammar

/-! ## Records -/

namespace Trace

/-- The trace after leaving scopes, the innermost first. A scope in which nothing was taken leaves
no record. -/
def closing : List Scope → Trace → Trace
  | [], tr => tr
  | s :: outer, tr =>
    closing outer (match tr with
      | .opened _ :: rest => rest
      | tr => .closed s.node :: tr)

/-- The trace after taking tokens, of which the first is at place `i`. -/
def taking (node : Grammar) : Nat → List Token → Trace → Trace
  | _, [], tr => tr
  | i, t :: ts, tr => taking node (i + 1) ts (.token node i t :: tr)

end Trace

/-- What a run records about all of its paths: the most tokens taken, and the references looked up
with the latest first. -/
structure Notes where
  longest : Nat
  lookups : List Reference

namespace Notes

/-- The notes after taking `n` tokens from place `i` on. -/
def reach (notes : Notes) (i n : Nat) : Notes :=
  if n = 0 then notes else { notes with longest := max notes.longest (i + n) }

/-- The notes after looking a reference up. -/
def look (notes : Notes) (r : Reference) : Notes := { notes with lookups := r :: notes.lookups }

end Notes

/-- Every token before the end is taken, or all but a last one that is a suffix of its own. -/
def endsAt (ts : List Token) (i : Nat) : Bool :=
  match ts.drop i with
  | [] => true
  | [t] => t.value == "\\0" || t.value == "\\9"
  | _ => false

/-! ## Paths -/

namespace Else

/-- The range that holds on a path. -/
def range (e : Else) : Option Range := e.scopes.head?.bind (·.range)

/-- The path with another focus. -/
def goto (e : Else) (f : Focus) : Else := { e with next := f }

/-- The path after leaving the scopes entered since there were only the given ones. -/
def leave (e : Else) (scopes : List Scope) : Else :=
  { e with
    scopes := e.scopes.drop (e.scopes.length - scopes.length)
    trace := e.trace.closing (e.scopes.take (e.scopes.length - scopes.length)) }

/-- The path that comes back to `next` when its focus succeeds. -/
def await (e : Else) (next : Focus) : Else :=
  { e with thens := ⟨next, e.trace, e.scopes⟩ :: e.thens }

end Else

/-- The path a machine is on. -/
def Config.here (c : Config) : Else := c.snapshot c.focus

/-- What the run of a machine has recorded. -/
def Config.notes (c : Config) : Notes := ⟨c.longest, c.lookups⟩

namespace Machine

variable {ε : Type}

/-- The paths that a path leads to in one step, the first of which is tried first, and the notes
before and after. -/
inductive Expands (m : Machine ε) (e : Else) (notes : Notes) : List Else → Notes → Prop where
  /-- there is nothing left to do, but tokens are left -/
  | unfinished (hf : e.next = .state .accept) (ht : e.thens = [])
      (h : endsAt m.tokens e.index = false) : Expands m e notes [e.goto (.state .reject)] notes
  /-- nothing was taken since a check that something is was put off -/
  | empty {t thens} (hf : e.next = .state .accept) (ht : e.thens = t :: thens)
      (hn : t.next = .state .nonEmpty) (h : t.trace.lastIndex? = e.trace.lastIndex?) :
      Expands m e notes [e.goto (.state .reject)] notes
  | nonEmpty {t thens} (hf : e.next = .state .accept) (ht : e.thens = t :: thens)
      (hn : t.next = .state .nonEmpty) (h : t.trace.lastIndex? ≠ e.trace.lastIndex?) :
      Expands m e notes [{ e.leave t.scopes with next := .state .accept, thens }] notes
  | resume {t thens} (hf : e.next = .state .accept) (ht : e.thens = t :: thens)
      (hn : t.next ≠ .state .nonEmpty) :
      Expands m e notes [{ e.leave t.scopes with next := t.next, thens }] notes
  | reject (hf : e.next = .state .reject) : Expands m e notes [] notes
  | branch {s test next other} (hf : e.next = .state s)
      (hb : s.branch? = some (test, next, other)) :
      Expands m e notes
        ((if next.isAccept then e else e.await (.state next)).goto (.state test) ::
          if other.isReject then [] else [e.goto (.state other)]) notes
  /-- every term was tried: a group that needs only some is done if it has one -/
  | last {terms all node index taken} (hf : e.next = .choose terms all node index taken)
      (hi : index = terms.length) :
      Expands m e notes
        [e.goto (.state (if taken = TermSet.empty || all then .reject else .accept))] notes
  /-- every term is taken -/
  | full {terms all node index taken} (hf : e.next = .choose terms all node index taken)
      (hi : index ≠ terms.length) (ht : taken = TermSet.full terms.length) :
      Expands m e notes [e.goto (.state .accept)] notes
  | pick {terms all node index taken n s} (hf : e.next = .choose terms all node index taken)
      (hi : index ≠ terms.length) (ht : taken ≠ TermSet.full terms.length)
      (hn : nextTerm? taken index (terms.drop index) = some (n, s)) :
      Expands m e notes [(e.await (.resume terms all node (taken.insert n))).goto (.state s),
        e.goto (.choose terms all node (n + 1) taken)] notes
  | skip {terms all node index taken} (hf : e.next = .choose terms all node index taken)
      (hi : index ≠ terms.length) (ht : taken ≠ TermSet.full terms.length)
      (hn : nextTerm? taken index (terms.drop index) = none) :
      Expands m e notes [e.goto (.choose terms all node terms.length taken)] notes
  | again {terms all node taken} (hf : e.next = .resume terms all node taken) :
      Expands m e notes [e.goto (.choose terms all node 0 taken)] notes
  | once {terms all node} (hf : e.next = .state (.once terms all node)) :
      Expands m e notes [e.goto (.choose terms all node 0 TermSet.empty)] notes
  | ended {table} (hf : e.next = .state (.enum table)) (ht : m.tokens[e.index]? = none) :
      Expands m e notes [e.goto (.state .reject)] notes
  | enum {table t} (hf : e.next = .state (.enum table)) (ht : m.tokens[e.index]? = some t) :
      Expands m e notes
        [e.goto (.state ((table.lookup (stripHack (Text.lower t.value))).getD .reject))] notes
  | leaf {l node n ok} (hf : e.next = .state (.leaf l node))
      (hl : l.take (e.trace.lastToken?.map (·.2)) e.range (m.tokens.drop e.index) = (n, ok)) :
      Expands m e notes
        [{ e with
            next := .state (if ok then .accept else .reject)
            index := e.index + n
            trace := e.trace.taking node e.index ((m.tokens.drop e.index).take n) }]
        (notes.reach e.index n)
  | call {r range node root} (hf : e.next = .state (.call r range node))
      (hr : m.resolve r = .ok (some root)) :
      Expands m e notes
        [{ e with
            next := .state root
            scopes := ⟨node, range <|> e.range⟩ :: e.scopes
            trace := .opened node :: e.trace }] (notes.look r)

/-- The paths that end a run without an answer, the error, and the notes before and after. -/
inductive Fails (m : Machine ε) (e : Else) (notes : Notes) : MachineError ε → Notes → Prop where
  | stuck (hf : e.next = .state .nonEmpty) : Fails m e notes .stuck notes
  | unresolved {r range node} (hf : e.next = .state (.call r range node))
      (hr : m.resolve r = .ok none) : Fails m e notes (.unresolved r) (notes.look r)
  | lookup {r range node error} (hf : e.next = .state (.call r range node))
      (hr : m.resolve r = .error error) : Fails m e notes (.lookup error) (notes.look r)

/-- How a configuration leads to the next one. -/
inductive Moves (m : Machine ε) (c c' : Config) : Prop where
  /-- the path is replaced by those it leads to, and no token is taken -/
  | expand {new} (hx : m.Expands c.here c.notes new c'.notes)
      (hp : c'.here :: c'.elses = new ++ c.elses) (hs : c'.stash = c.stash)
      (hu : c'.stashUsed = c.stashUsed)
  /-- tokens are taken, and what was put off is forgotten -/
  | take {new} (hx : m.Expands c.here c.notes new c'.notes)
      (hp : c'.here :: c'.elses = new ++ c.elses) (hlt : c.index < c'.index)
      (hs : c'.stash = none) (hu : c'.stashUsed = false)
  /-- the path looks at a reference and is put off, if none was since the last token -/
  | defer {r range node root} (hl : m.lowPriority = true) (hu : c.stashUsed = false)
      (hh : c'.here = c.here.goto (.state .reject)) (he : c'.elses = c.elses)
      (hs : c'.stash = some (c.stash.getD (c.here, c.elses))) (hu' : c'.stashUsed = false)
      (hf : c.focus = .state (.call r range node)) (hr : m.resolve r = .ok (some root))
      (hn : c'.notes = c.notes.look r)
  /-- what was put off is tried instead of the alternatives that are left -/
  | retry {e elses} (hf : c.focus = .state .reject) (hs : c.stash = some (e, elses))
      (hu : c.stashUsed = false) (hh : c'.here = e) (he : c'.elses = elses)
      (hs' : c'.stash = none) (hu' : c'.stashUsed = true) (hn : c'.notes = c.notes)

end Machine

/-! ## Changes of a configuration -/

namespace Config

theorem closeScopes_eq (c : Config) (n : Nat) :
    c.closeScopes n =
      { c with scopes := c.scopes.drop n, trace := c.trace.closing (c.scopes.take n) } := by
  induction n generalizing c with
  | zero => simp [closeScopes, Trace.closing]
  | succ n ih =>
      rw [closeScopes, ih]
      unfold closeScope
      cases hs : c.scopes with
      | nil => simp [hs, Trace.closing]
      | cons s outer =>
          rcases c.trace with _ | ⟨entry, rest⟩
          · rfl
          · cases entry <;> rfl

theorem closeTo_eq (c : Config) (scopes : List Scope) :
    c.closeTo scopes =
      { c with scopes := (c.here.leave scopes).scopes, trace := (c.here.leave scopes).trace } :=
  closeScopes_eq c _

theorem notes_takeTokens (c : Config) (node : Grammar) (ts : List Token) :
    (c.takeTokens node ts).notes = c.notes.reach c.index ts.length := by
  induction ts generalizing c with
  | nil => rfl
  | cons t ts ih =>
      rw [takeTokens, ih]
      cases ts with
      | nil => simp [Notes.reach, takeToken, notes]
      | cons u ts =>
          simp only [Notes.reach, takeToken, notes, List.length_cons, Nat.add_eq_zero_iff,
            Nat.succ_ne_self, and_false, if_false, Notes.mk.injEq, and_true]
          omega

theorem takeTokens_eq (c : Config) (node : Grammar) (ts : List Token) :
    c.takeTokens node ts =
      { c with
        trace := c.trace.taking node c.index ts
        index := c.index + ts.length
        stash := if ts.isEmpty then c.stash else none
        stashUsed := if ts.isEmpty then c.stashUsed else false
        longest := (c.notes.reach c.index ts.length).longest } := by
  have hnotes := notes_takeTokens c node ts
  have hrest : ∀ (c : Config) (ts : List Token), c.takeTokens node ts =
      { c with
        trace := c.trace.taking node c.index ts
        index := c.index + ts.length
        stash := if ts.isEmpty then c.stash else none
        stashUsed := if ts.isEmpty then c.stashUsed else false
        longest := (c.takeTokens node ts).longest } := by
    intro c ts
    induction ts generalizing c with
    | nil => rfl
    | cons t ts ih =>
        rw [takeTokens, ih]
        simp only [takeToken, Trace.taking, List.length_cons, List.isEmpty_cons, Config.mk.injEq,
          true_and, and_true, Bool.false_eq_true, if_false, ite_self]
        omega
  rw [hrest c ts, ← hnotes]
  rfl

end Config

namespace Machine

variable {ε : Type} {m : Machine ε} {c c' : Config}

theorem current?_eq (m : Machine ε) (c : Config) : m.current? c = m.tokens[c.index]? := by
  rw [current?, ahead, List.head?_drop]

/-! ## Steps -/

/-- What each kind of step says about the configuration it was made from. -/
def Explains (m : Machine ε) (c : Config) : Step ε → Prop
  | .next c' => m.Moves c c'
  | .finished true c' =>
    c' = c ∧ c.focus = .state .accept ∧ c.thens = [] ∧ endsAt m.tokens c.index = true
  | .finished false c' =>
    c' = c ∧ c.focus = .state .reject ∧ c.elses = [] ∧ (c.stash = none ∨ c.stashUsed = true)
  | .failed error c' => m.Fails c.here c.notes error c'.notes

theorem explains_onAccept (hf : c.focus = .state .accept) : m.Explains c (m.onAccept c) := by
  unfold onAccept
  split
  · rename_i ht
    split
    · rename_i hend
      exact ⟨rfl, hf, ht, hend⟩
    · rename_i hend
      exact Moves.expand (.unfinished hf ht (Bool.eq_false_iff.mpr hend)) rfl rfl rfl
  · rename_i t thens ht
    rw [Config.closeTo_eq]
    extract_lets resumed
    split
    · rename_i hn
      split
      · rename_i hi
        exact Moves.expand (.empty hf ht hn hi) rfl rfl rfl
      · rename_i hi
        exact Moves.expand (.nonEmpty hf ht hn hi) rfl rfl rfl
    · rename_i hn
      exact Moves.expand (.resume hf ht hn) rfl rfl rfl

theorem explains_onReject (hf : c.focus = .state .reject) :
    m.Explains c (onReject (ε := ε) c) := by
  have hpop : ∀ e elses, c.elses = e :: elses → m.Moves c (c.restore e elses) :=
    fun e elses he => .expand (.reject hf) (by rw [he]; rfl) rfl rfl
  unfold onReject
  extract_lets deeper
  split
  · -- something was put off: it is tried before the alternatives of an earlier place
    rename_i e elses hs hu
    by_cases hd : deeper c.index c.elses = true
    · rw [if_pos hd]
      exact Moves.retry hf hs hu rfl rfl rfl rfl rfl
    · rw [if_neg hd]
      split
      · rename_i e' elses' he
        exact hpop e' elses' he
      · -- without alternatives what was put off is tried
        rename_i he
        rw [he] at hd
        exact absurd rfl hd
  · rename_i hstash
    split
    · rename_i e elses he
      exact hpop e elses he
    · rename_i he
      refine ⟨rfl, hf, he, ?_⟩
      cases hs : c.stash with
      | none => exact .inl rfl
      | some s =>
          cases hu : c.stashUsed with
          | true => exact .inr rfl
          | false => exact absurd hu (hstash s.1 s.2 hs)

theorem explains_onBranch {s test next other : State} (hf : c.focus = .state s)
    (hb : s.branch? = some (test, next, other)) :
    m.Explains c (onBranch (ε := ε) c test next other) := by
  have hx : m.Expands c.here c.notes _ c.notes := .branch hf hb
  unfold onBranch
  revert hx
  cases next.isAccept <;> cases other.isReject
  all_goals
    intro hx
    exact Moves.expand hx rfl rfl rfl

theorem explains_onChoose {terms : List State} {all : Bool} {node : Grammar} {index : Nat}
    {taken : TermSet} (hf : c.focus = .choose terms all node index taken) :
    m.Explains c (onChoose (ε := ε) c terms all node index taken) := by
  unfold onChoose
  split
  · rename_i hi
    exact Moves.expand (.last hf hi) rfl rfl rfl
  · rename_i hi
    split
    · rename_i ht
      exact Moves.expand (.full hf hi ht) rfl rfl rfl
    · rename_i ht
      split
      · rename_i n s hn
        exact Moves.expand (.pick hf hi ht hn) rfl rfl rfl
      · rename_i hn
        exact Moves.expand (.skip hf hi ht hn) rfl rfl rfl

theorem explains_onEnum {table : List (String × State)} (hf : c.focus = .state (.enum table)) :
    m.Explains c (m.onEnum c table) := by
  unfold onEnum
  rw [current?_eq]
  split
  · rename_i ht
    exact Moves.expand (.ended hf ht) rfl rfl rfl
  · rename_i t ht
    exact Moves.expand (.enum hf ht) rfl rfl rfl

theorem explains_onLeaf {l : Leaf} {node : Grammar} (hf : c.focus = .state (.leaf l node)) :
    m.Explains c (m.onLeaf c l node) := by
  unfold onLeaf ahead
  cases hl : l.take (c.trace.lastToken?.map (·.2)) c.here.range (m.tokens.drop c.index) with
  | mk n ok =>
      have hlen : ((m.tokens.drop c.index).take n).length = n :=
        List.length_take_of_le (Leaf.le_length_of_take hl)
      have hx : m.Expands c.here c.notes _ _ := .leaf hf hl
      change l.take _ (c.scopes.head?.bind (·.range)) _ = _ at hl
      simp only [hl, Config.takeTokens_eq, hlen]
      -- only a leaf that takes tokens makes the machine forget what was put off
      cases n with
      | zero => exact Moves.expand hx rfl rfl rfl
      | succ k =>
          have hne : ((m.tokens.drop c.index).take (k + 1)).isEmpty = false := by
            rw [List.isEmpty_eq_false_iff, ← List.length_pos_iff, hlen]
            exact Nat.succ_pos k
          refine Moves.take hx rfl (Nat.lt_add_of_pos_right (Nat.succ_pos k)) ?_ ?_
          · simp [Config.goto, hne]
          · simp [Config.goto, hne]

theorem explains_onCall {r : Reference} {range : Option Range} {node : Grammar}
    (hf : c.focus = .state (.call r range node)) : m.Explains c (m.onCall c r range node) := by
  unfold onCall
  extract_lets c₁ later stash
  split
  · rename_i hr
    exact Fails.lookup hf hr
  · rename_i hr
    exact Fails.unresolved hf hr
  · rename_i root hr
    split
    · rename_i hlater
      have hl : (m.lowPriority = true ∧ c.stashUsed = false) ∧
          (m.current? c₁).any (isLowPriority r) = true := by
        simpa [later, c₁] using hlater
      have hh : c.snapshot (.state (.call r range node)) = c.here := by rw [Config.here, hf]
      refine Moves.defer hl.1.1 hl.1.2 rfl rfl ?_ hl.1.2 hf hr rfl
      cases hs : c.stash with
      | none => simp [Config.goto, ← hh, Config.snapshot, hs, stash, c₁]
      | some s => simp [Config.goto, hs, stash, c₁]
    · exact Moves.expand (.call hf hr) rfl rfl rfl

/-- **Every step**: one that goes on replaces the path it is on, puts it off, or tries what was put
off; one that ends the run does so on a path with nothing left to do. -/
theorem explains_step (m : Machine ε) (c : Config) : m.Explains c (m.step c) := by
  unfold step
  split
  · rename_i hf; exact explains_onChoose hf
  · rename_i hf
    exact Moves.expand (.again hf) rfl rfl rfl
  · rename_i s hf
    split
    · exact explains_onAccept hf
    · exact explains_onReject hf
    · exact Fails.stuck hf
    · exact explains_onBranch hf rfl
    · exact explains_onBranch hf rfl
    · split
      · exact explains_onBranch hf rfl
      · exact explains_onBranch hf rfl
    · exact explains_onEnum hf
    · exact Moves.expand (.once hf) rfl rfl rfl
    · exact explains_onLeaf hf
    · exact explains_onCall hf

theorem step_next (h : m.step c = .next c') : m.Moves c c' := by
  have hstep := m.explains_step c
  rwa [h] at hstep

theorem step_matched (h : m.step c = .finished true c') :
    c' = c ∧ c.focus = .state .accept ∧ c.thens = [] ∧ endsAt m.tokens c.index = true := by
  have hstep := m.explains_step c
  rwa [h] at hstep

theorem step_mismatched (h : m.step c = .finished false c') :
    c' = c ∧ c.focus = .state .reject ∧ c.elses = [] ∧ (c.stash = none ∨ c.stashUsed = true) := by
  have hstep := m.explains_step c
  rwa [h] at hstep

theorem step_failed {error : MachineError ε} (h : m.step c = .failed error c') :
    m.Fails c.here c.notes error c'.notes := by
  have hstep := m.explains_step c
  rwa [h] at hstep

end Machine

end ValueGrammar

import ValueGrammar.Proofs.Machine.Coherence

/-!
# `ValueGrammar.Proofs.Machine.Backtracking` — the machine is recursive backtracking

`Machine.interpret` matches states by plain recursion: it is given what to do after a success, and a
failure comes back to where an alternative is left. It has no stacks, leaves a scope as soon as what
the reference stands for has succeeded, and asks whether a token was taken by comparing places. The
machine keeps both kinds of continuations on explicit stacks, leaves scopes late and leaves out
frames that do nothing. The two give the same answer, with the same trace and the same notes.

## Contents
- `Point`, `Answer`, `Machine.interpret`: the recursive search.
- `Answer.Le`, `Machine.stays_of_le`: with more fuel the answer stays.
- `Machine.continueWith`, `Machine.searchWith`: what the two stacks stand for.
- `Machine.Expands.searchWith_le`: a step of the machine is a step of the recursion.
- `Machine.interpret_eq_run`: the machine refines the recursion.
-/

namespace ValueGrammar

/-! ## The recursive search -/

/-- How far a search has got. -/
structure Point where
  /-- how many tokens have been taken -/
  index : Nat
  scopes : List Scope
  trace : Trace

namespace Point

/-- The start of a search. -/
def start : Point := ⟨0, [], []⟩

/-- The range that holds. -/
def range (p : Point) : Option Range := p.scopes.head?.bind (·.range)

/-- Takes tokens for a node of the grammar. -/
def take (p : Point) (node : Grammar) (ts : List Token) : Point :=
  { p with index := p.index + ts.length, trace := p.trace.taking node p.index ts }

/-- Enters a scope; without a range of its own it keeps the one around it. -/
def enter (p : Point) (node : Grammar) (range : Option Range) : Point :=
  { p with scopes := ⟨node, range <|> p.range⟩ :: p.scopes, trace := .opened node :: p.trace }

/-- Leaves the innermost scope. -/
def exit (p : Point) : Point :=
  { p with scopes := p.scopes.tail, trace := p.trace.closing (p.scopes.take 1) }

end Point

/-- How a search ends; `exhausted` if it was not given enough fuel. -/
inductive Answer (ε : Type) where
  | matched (trace : Trace) (notes : Notes)
  | mismatched (notes : Notes)
  | failed (error : MachineError ε) (notes : Notes)
  | exhausted

namespace Answer

variable {ε : Type}

/-- Goes on with an alternative after a failure. -/
def orElse (v : Answer ε) (other : Notes → Answer ε) : Answer ε :=
  match v with
  | .mismatched notes => other notes
  | v => v

end Answer

/-- What to do after a success. -/
abbrev Continuation (ε : Type) : Type := Point → Notes → Answer ε

namespace Machine

variable {ε : Type}

/-- What comes after the test of a conditional that was entered at `p`: a check that a token was
taken, or a state. `run` looks at a state. -/
def afterTest (run : Focus → Point → Notes → Continuation ε → Answer ε) (next : State) (p : Point)
    (k : Continuation ε) : Continuation ε := fun q notes =>
  match next with
  | .nonEmpty => if q.index = p.index then .mismatched notes else k q notes
  | next => run (.state next) q notes k

/-- Looks at `f` from the point `p` on, and goes on with `k` if it succeeds. -/
def interpret (m : Machine ε) : Nat → Focus → Point → Notes → Continuation ε → Answer ε
  | 0, _, _, _, _ => .exhausted
  | fuel + 1, f, p, notes, k =>
    match f with
    | .choose terms all node index taken =>
      if index = terms.length then
        if taken = TermSet.empty || all then .mismatched notes else k p notes
      else if taken = TermSet.full terms.length then k p notes
      else
        match nextTerm? taken index (terms.drop index) with
        | some (n, s) =>
          (interpret m fuel (.state s) p notes fun q notes =>
            interpret m fuel (.resume terms all node (taken.insert n)) q notes k).orElse fun notes =>
              interpret m fuel (.choose terms all node (n + 1) taken) p notes k
        | none => interpret m fuel (.choose terms all node terms.length taken) p notes k
    | .resume terms all node taken => interpret m fuel (.choose terms all node 0 taken) p notes k
    | .state s =>
      match s with
      | .accept => k p notes
      | .reject => .mismatched notes
      | .nonEmpty => .failed .stuck notes
      | .enum table =>
        match m.tokens[p.index]? with
        | some t =>
          let found := (table.lookup (stripHack (Text.lower t.value))).getD .reject
          interpret m fuel (.state found) p notes k
        | none => .mismatched notes
      | .once terms all node =>
        interpret m fuel (.choose terms all node 0 TermSet.empty) p notes k
      | .leaf l node =>
        let ahead := m.tokens.drop p.index
        let (n, ok) := l.take (p.trace.lastToken?.map (·.2)) p.range ahead
        let notes := notes.reach p.index n
        if ok then k (p.take node (ahead.take n)) notes else .mismatched notes
      | .call r range node =>
        let notes := notes.look r
        match m.resolve r with
        | .error e => .failed (.lookup e) notes
        | .ok none => .failed (.unresolved r) notes
        | .ok (some root) =>
          interpret m fuel (.state root) (p.enter node range) notes fun q notes => k q.exit notes
      | s =>
        match s.branch? with
        | some (test, next, other) =>
          (interpret m fuel (.state test) p notes
            (afterTest (interpret m fuel) next p k)).orElse fun notes =>
              interpret m fuel (.state other) p notes k
        | none => .failed .stuck notes

/-- The end of a search: every token is taken, or all but a last one that is a suffix for old
browsers. -/
def finish (m : Machine ε) : Continuation ε := fun p notes =>
  if endsAt m.tokens p.index then .matched p.trace notes else .mismatched notes

/-- What a run found out. -/
def Run.answer (r : Run ε) : Answer ε :=
  match r.outcome with
  | .matched => .matched r.final.trace r.final.notes
  | .mismatched => .mismatched r.final.notes
  | .failed e => .failed e r.final.notes
  | .limited => .exhausted

theorem Run.answer_ne_exhausted {r : Run ε} (h : r.outcome ≠ .limited) : r.answer ≠ .exhausted := by
  unfold Run.answer
  cases ho : r.outcome with
  | limited => exact absurd ho h
  | matched | mismatched | failed => simp

/-! ### One step of the recursion -/

variable {m : Machine ε} {fuel fuel' : Nat} {p q : Point} {notes : Notes} {k k' : Continuation ε}

theorem interpret_branch {s test next other : State} (hb : s.branch? = some (test, next, other)) :
    m.interpret (fuel + 1) (.state s) p notes k =
      (m.interpret fuel (.state test) p notes
        (afterTest (m.interpret fuel) next p k)).orElse fun notes =>
          m.interpret fuel (.state other) p notes k := by
  unfold State.branch? at hb
  split at hb <;> cases hb <;> rfl

theorem interpret_choose {terms : List State} {all : Bool} {node : Grammar} {index : Nat}
    {taken : TermSet} :
    m.interpret (fuel + 1) (.choose terms all node index taken) p notes k =
      if index = terms.length then
        if taken = TermSet.empty || all then .mismatched notes else k p notes
      else if taken = TermSet.full terms.length then k p notes
      else
        match nextTerm? taken index (terms.drop index) with
        | some (n, s) =>
          (m.interpret fuel (.state s) p notes fun q notes =>
            m.interpret fuel (.resume terms all node (taken.insert n)) q notes k).orElse fun notes =>
              m.interpret fuel (.choose terms all node (n + 1) taken) p notes k
        | none => m.interpret fuel (.choose terms all node terms.length taken) p notes k := rfl

theorem interpret_pick {terms : List State} {all : Bool} {node : Grammar} {index n : Nat}
    {taken : TermSet} {s : State} (hi : index ≠ terms.length)
    (ht : taken ≠ TermSet.full terms.length)
    (hn : nextTerm? taken index (terms.drop index) = some (n, s)) :
    m.interpret (fuel + 1) (.choose terms all node index taken) p notes k =
      (m.interpret fuel (.state s) p notes fun q notes =>
        m.interpret fuel (.resume terms all node (taken.insert n)) q notes k).orElse fun notes =>
          m.interpret fuel (.choose terms all node (n + 1) taken) p notes k := by
  rw [interpret_choose, if_neg hi, if_neg ht, hn]

theorem interpret_skip {terms : List State} {all : Bool} {node : Grammar} {index : Nat}
    {taken : TermSet} (hi : index ≠ terms.length) (ht : taken ≠ TermSet.full terms.length)
    (hn : nextTerm? taken index (terms.drop index) = none) :
    m.interpret (fuel + 1) (.choose terms all node index taken) p notes k =
      m.interpret fuel (.choose terms all node terms.length taken) p notes k := by
  rw [interpret_choose, if_neg hi, if_neg ht, hn]

theorem interpret_last {terms : List State} {all : Bool} {node : Grammar} {taken : TermSet} :
    m.interpret (fuel + 1) (.choose terms all node terms.length taken) p notes k =
      if taken = TermSet.empty || all then .mismatched notes else k p notes := by
  rw [interpret_choose, if_pos rfl]

theorem interpret_full {terms : List State} {all : Bool} {node : Grammar} {index : Nat}
    {taken : TermSet} (hi : index ≠ terms.length) (ht : taken = TermSet.full terms.length) :
    m.interpret (fuel + 1) (.choose terms all node index taken) p notes k = k p notes := by
  rw [interpret_choose, if_neg hi, if_pos ht]

theorem interpret_leaf {l : Leaf} {node : Grammar} {n : Nat} {ok : Bool}
    (hl : l.take (p.trace.lastToken?.map (·.2)) p.range (m.tokens.drop p.index) = (n, ok)) :
    m.interpret (fuel + 1) (.state (.leaf l node)) p notes k =
      if ok then k (p.take node ((m.tokens.drop p.index).take n)) (notes.reach p.index n)
      else .mismatched (notes.reach p.index n) := by
  change (match l.take _ _ _ with
    | (n, ok) =>
      if ok then k (p.take node ((m.tokens.drop p.index).take n)) (notes.reach p.index n)
      else .mismatched (notes.reach p.index n)) = _
  rw [hl]

theorem interpret_reference {r : Reference} {range : Option Range} {node : Grammar} :
    m.interpret (fuel + 1) (.state (.call r range node)) p notes k =
      match m.resolve r with
      | .error e => .failed (.lookup e) (notes.look r)
      | .ok none => .failed (.unresolved r) (notes.look r)
      | .ok (some root) => m.interpret fuel (.state root) (p.enter node range) (notes.look r)
          fun q notes => k q.exit notes := rfl

theorem interpret_call {r : Reference} {range : Option Range} {node : Grammar} {root : State}
    (hr : m.resolve r = .ok (some root)) :
    m.interpret (fuel + 1) (.state (.call r range node)) p notes k =
      m.interpret fuel (.state root) (p.enter node range) (notes.look r)
        fun q notes => k q.exit notes := by
  rw [interpret_reference, hr]

theorem interpret_table {table : List (String × State)} :
    m.interpret (fuel + 1) (.state (.enum table)) p notes k =
      match m.tokens[p.index]? with
      | some t => m.interpret fuel
          (.state ((table.lookup (stripHack (Text.lower t.value))).getD .reject)) p notes k
      | none => .mismatched notes := rfl

theorem interpret_enum {table : List (String × State)} {t : Token}
    (ht : m.tokens[p.index]? = some t) :
    m.interpret (fuel + 1) (.state (.enum table)) p notes k =
      m.interpret fuel
        (.state ((table.lookup (stripHack (Text.lower t.value))).getD .reject)) p notes k := by
  rw [interpret_table, ht]

theorem interpret_ended {table : List (String × State)} (ht : m.tokens[p.index]? = none) :
    m.interpret (fuel + 1) (.state (.enum table)) p notes k = .mismatched notes := by
  rw [interpret_table, ht]

end Machine

/-! ## More fuel -/

namespace Answer

variable {ε : Type} {v v' w w' : Answer ε} {f f' : Notes → Answer ε}

/-- The answers are the same, unless there was not enough fuel for the first. -/
def Le (v v' : Answer ε) : Prop := v = .exhausted ∨ v = v'

theorem Le.refl (v : Answer ε) : v.Le v := .inr rfl

theorem Le.of_eq (h : v = v') : v.Le v' := .inr h

theorem exhausted_le (v : Answer ε) : exhausted.Le v := .inl rfl

theorem Le.trans (h : v.Le w) (h' : w.Le w') : v.Le w' := by
  rcases h with rfl | rfl
  · exact exhausted_le w'
  · exact h'

theorem Le.orElse (hv : v.Le v') (hf : ∀ notes, (f notes).Le (f' notes)) :
    (v.orElse f).Le (v'.orElse f') := by
  rcases hv with rfl | rfl
  · exact exhausted_le _
  · cases v with
    | mismatched notes => exact hf notes
    | matched | failed | exhausted => exact .refl _

@[simp] theorem orElse_mismatched (v : Answer ε) : v.orElse .mismatched = v := by
  cases v <;> rfl

theorem orElse_assoc (v : Answer ε) (f g : Notes → Answer ε) :
    (v.orElse f).orElse g = v.orElse fun notes => (f notes).orElse g := by
  cases v <;> rfl

end Answer

namespace Point

variable {ts : List Token} {p q : Point}

/-- The last token recorded is the one before the point. -/
def Tracked (ts : List Token) (p : Point) : Prop := p.trace.Tracks ts p.index

/-- The points at which something looked at from `p` on can succeed. -/
def Beyond (ts : List Token) (p q : Point) : Prop := q.scopes = p.scopes ∧ q.Tracked ts

theorem Beyond.trans {p' : Point} (h : p.Beyond ts q) (h' : q.Beyond ts p') : p.Beyond ts p' :=
  ⟨h'.1.trans h.1, h'.2⟩

theorem beyond_self (h : p.Tracked ts) : p.Beyond ts p := ⟨rfl, h⟩

theorem beyond_take {node : Grammar} {n : Nat} (h : p.Tracked ts)
    (hn : n ≤ (ts.drop p.index).length) :
    p.Beyond ts (p.take node ((ts.drop p.index).take n)) := by
  refine ⟨rfl, ?_⟩
  change Trace.Tracks ts _ (p.index + _)
  rw [List.length_take_of_le hn]
  exact Trace.Tracks.taking h hn

theorem Tracked.enter (h : p.Tracked ts) (node : Grammar) (range : Option Range) :
    (p.enter node range).Tracked ts := Trace.Tracks.congr h rfl

theorem Tracked.exit (h : p.Tracked ts) : p.exit.Tracked ts :=
  Trace.Tracks.congr h (Trace.lastToken?_closing _ _)

/-- What succeeds inside a scope leads out of it. -/
theorem Beyond.exit {node : Grammar} {range : Option Range} (h : (p.enter node range).Beyond ts q) :
    p.Beyond ts q.exit := by
  refine ⟨?_, h.2.exit⟩
  change q.scopes.tail = p.scopes
  rw [h.1]
  rfl

end Point

namespace Machine

variable {ε : Type} {m : Machine ε} {fuel fuel' : Nat} {p q : Point} {notes : Notes}
  {k k' : Continuation ε} {f : Focus}

/-- The second continuation answers as the first does, unless that had not enough fuel. -/
def Extends (m : Machine ε) (p : Point) (k k' : Continuation ε) : Prop :=
  ∀ q notes, p.Beyond m.tokens q → (k q notes).Le (k' q notes)

theorem Extends.weaken {p' : Point} (h : m.Extends p k k') (hp : p.Beyond m.tokens p') :
    m.Extends p' k k' := fun q notes hq => h q notes (hp.trans hq)

/-- Whatever is looked at, the answer with `fuel` is the answer with `fuel'`, unless it was not
enough. -/
def Stays (m : Machine ε) (fuel fuel' : Nat) : Prop :=
  ∀ ⦃f : Focus⦄ ⦃p : Point⦄ ⦃notes : Notes⦄ ⦃k k' : Continuation ε⦄, p.Tracked m.tokens →
    m.Extends p k k' → (m.interpret fuel f p notes k).Le (m.interpret fuel' f p notes k')

theorem Stays.choose {terms : List State} {all : Bool} {node : Grammar} {index : Nat}
    {taken : TermSet} (h : m.Stays fuel fuel') (hp : p.Tracked m.tokens) (hk : m.Extends p k k') :
    (m.interpret (fuel + 1) (.choose terms all node index taken) p notes k).Le
      (m.interpret (fuel' + 1) (.choose terms all node index taken) p notes k') := by
  have hself := hk p notes (Point.beyond_self hp)
  by_cases hi : index = terms.length
  · subst hi
    rw [interpret_last, interpret_last]
    split
    · exact .refl _
    · exact hself
  by_cases ht : taken = TermSet.full terms.length
  · rw [interpret_full hi ht, interpret_full hi ht]
    exact hself
  cases hn : nextTerm? taken index (terms.drop index) with
  | none =>
      rw [interpret_skip hi ht hn, interpret_skip hi ht hn]
      exact h hp hk
  | some ns =>
      rw [interpret_pick hi ht hn, interpret_pick hi ht hn]
      refine .orElse (h hp fun q notes hq => ?_) fun notes => h hp hk
      exact h hq.2 (hk.weaken hq)

theorem Stays.branch {s test next other : State} (h : m.Stays fuel fuel')
    (hb : s.branch? = some (test, next, other)) (hp : p.Tracked m.tokens)
    (hk : m.Extends p k k') :
    (m.interpret (fuel + 1) (.state s) p notes k).Le
      (m.interpret (fuel' + 1) (.state s) p notes k') := by
  rw [interpret_branch hb, interpret_branch hb]
  refine .orElse (h hp fun q notes hq => ?_) fun notes => h hp hk
  unfold afterTest
  split
  · split
    · exact .refl _
    · exact hk q notes hq
  · exact h hq.2 (hk.weaken hq)

theorem interpret_leaf_le {l : Leaf} {node : Grammar} (hp : p.Tracked m.tokens)
    (hk : m.Extends p k k') :
    (m.interpret (fuel + 1) (.state (.leaf l node)) p notes k).Le
      (m.interpret (fuel' + 1) (.state (.leaf l node)) p notes k') := by
  cases hl : l.take (p.trace.lastToken?.map (·.2)) p.range (m.tokens.drop p.index) with
  | mk n ok =>
      rw [interpret_leaf hl, interpret_leaf hl]
      split
      · exact hk _ _ (Point.beyond_take hp (Leaf.le_length_of_take hl))
      · exact .refl _

theorem Stays.call {r : Reference} {range : Option Range} {node : Grammar}
    (h : m.Stays fuel fuel') (hp : p.Tracked m.tokens) (hk : m.Extends p k k') :
    (m.interpret (fuel + 1) (.state (.call r range node)) p notes k).Le
      (m.interpret (fuel' + 1) (.state (.call r range node)) p notes k') := by
  cases hr : m.resolve r with
  | error e => rw [interpret_reference, interpret_reference, hr]; exact .refl _
  | ok found =>
      cases found with
      | none => rw [interpret_reference, interpret_reference, hr]; exact .refl _
      | some root =>
          -- inside the scope the continuation is called at points that lead out of it
          rw [interpret_call hr, interpret_call hr]
          exact h (hp.enter node range) fun q notes hq => hk q.exit notes hq.exit

/-- One more unit of fuel on both sides. -/
theorem Stays.succ (h : m.Stays fuel fuel') : m.Stays (fuel + 1) (fuel' + 1) := by
  intro f p notes k k' hp hk
  cases f with
  | choose terms all node index taken => exact h.choose hp hk
  | resume terms all node taken => exact h hp hk
  | state s =>
      cases hb : s.branch? with
      | some tno => exact h.branch hb hp hk
      | none =>
          cases s with
          | cond | loop => cases hb
          | again body sep => cases sep <;> cases hb
          | accept => exact hk p notes (Point.beyond_self hp)
          | reject | nonEmpty => exact .refl _
          | enum table =>
              cases ht : m.tokens[p.index]? with
              | none => rw [interpret_ended ht, interpret_ended ht]; exact .refl _
              | some t => rw [interpret_enum ht, interpret_enum ht]; exact h hp hk
          | once terms all node => exact h hp hk
          | leaf l node => exact interpret_leaf_le hp hk
          | call r range node => exact h.call hp hk

/-- **With more fuel the answer stays**, also if the continuation is given more. The induction is on
the fuel; a continuation is only called at points that keep the scopes of the point it started
from. -/
theorem stays_of_le (hle : fuel ≤ fuel') : m.Stays fuel fuel' := by
  induction fuel generalizing fuel' with
  | zero => exact fun _ _ _ _ _ _ _ => Answer.exhausted_le _
  | succ fuel ih =>
      obtain ⟨fuel', rfl⟩ : ∃ n, fuel' = n + 1 := ⟨fuel' - 1, by omega⟩
      exact (ih (by omega)).succ

theorem interpret_le (hle : fuel ≤ fuel') (hp : p.Tracked m.tokens) (hk : m.Extends p k k') :
    (m.interpret fuel f p notes k).Le (m.interpret fuel' f p notes k') :=
  stays_of_le hle hp hk

end Machine

/-! ## What the stacks stand for -/

namespace Point

variable {ts : List Token} {p q : Point}

/-- Leaves the scopes entered since there were only the given ones. -/
def leave (p : Point) (scopes : List Scope) : Point :=
  { p with
    scopes := p.scopes.drop (p.scopes.length - scopes.length)
    trace := p.trace.closing (p.scopes.take (p.scopes.length - scopes.length)) }

theorem Tracked.leave (h : p.Tracked ts) (scopes : List Scope) : (p.leave scopes).Tracked ts :=
  Trace.Tracks.congr h (Trace.lastToken?_closing _ _)

theorem leave_self (p : Point) : p.leave p.scopes = p := by
  simp [leave, Trace.closing]

/-- Leaving scopes late leads to the same point as leaving the innermost one first. -/
theorem leave_exit {s : Scope} {around scopes : List Scope} (hq : q.scopes = s :: around)
    (h : scopes <:+ around) : q.exit.leave scopes = q.leave scopes := by
  have hlen : (s :: around).length - scopes.length = around.length - scopes.length + 1 := by
    have := h.length_le
    rw [List.length_cons]
    omega
  unfold leave exit
  simp only [hq, List.tail_cons, hlen, List.drop_succ_cons, List.take_succ_cons, List.take_zero,
    Trace.closing]

end Point

/-- The point a path has got to. -/
def Else.point (e : Else) : Point := ⟨e.index, e.scopes, e.trace⟩

theorem Else.Coherent.tracked {e : Else} {ts : List Token} (h : e.Coherent ts) :
    e.point.Tracked ts := h.tracks

namespace Machine

variable {ε : Type} {m : Machine ε} {fuel fuel' : Nat} {p q : Point} {notes notes' : Notes}

/-- What a stack of continuations stands for. -/
def continueWith (m : Machine ε) (fuel : Nat) : List Then → Continuation ε
  | [] => fun p notes =>
    if endsAt m.tokens p.index then .matched (p.leave []).trace notes else .mismatched notes
  | t :: thens => fun p notes =>
    match t.next with
    | .state .nonEmpty =>
      if t.trace.lastIndex? = p.trace.lastIndex? then .mismatched notes
      else continueWith m fuel thens (p.leave t.scopes) notes
    | next => m.interpret fuel next (p.leave t.scopes) notes (continueWith m fuel thens)

/-- What a path stands for. -/
def followWith (m : Machine ε) (fuel : Nat) (e : Else) (notes : Notes) : Answer ε :=
  m.interpret fuel e.next e.point notes (m.continueWith fuel e.thens)

/-- What a stack of alternatives stands for: they are tried one after the other. -/
def searchWith (m : Machine ε) (fuel : Nat) : List Else → Notes → Answer ε
  | [], notes => .mismatched notes
  | e :: elses, notes => (m.followWith fuel e notes).orElse (searchWith m fuel elses)

theorem searchWith_append (fuel : Nat) (new elses : List Else) (notes : Notes) :
    m.searchWith fuel (new ++ elses) notes =
      (m.searchWith fuel new notes).orElse (m.searchWith fuel elses) := by
  induction new generalizing notes with
  | nil => rfl
  | cons e new ih =>
      rw [List.cons_append, searchWith, searchWith, Answer.orElse_assoc]
      exact congrArg _ (funext ih)

@[simp] theorem searchWith_singleton (fuel : Nat) (e : Else) (notes : Notes) :
    m.searchWith fuel [e] notes = m.followWith fuel e notes :=
  Answer.orElse_mismatched _

theorem continueWith_nonEmpty {t : Then} {thens : List Then} (hn : t.next = .state .nonEmpty) :
    m.continueWith fuel (t :: thens) p notes =
      if t.trace.lastIndex? = p.trace.lastIndex? then .mismatched notes
      else m.continueWith fuel thens (p.leave t.scopes) notes := by
  rw [continueWith, hn]

theorem continueWith_resume {t : Then} {thens : List Then} (hn : t.next ≠ .state .nonEmpty) :
    m.continueWith fuel (t :: thens) p notes =
      m.interpret fuel t.next (p.leave t.scopes) notes (m.continueWith fuel thens) := by
  rw [continueWith]
  split
  · rename_i h; exact absurd h hn
  · rfl

/-- With more fuel a stack of continuations answers the same. -/
theorem continueWith_le (hle : fuel ≤ fuel') (thens : List Then) (hp : p.Tracked m.tokens) :
    (m.continueWith fuel thens p notes).Le (m.continueWith fuel' thens p notes) := by
  induction thens generalizing p notes with
  | nil => exact .refl _
  | cons t thens ih =>
      by_cases hn : t.next = .state .nonEmpty
      · rw [continueWith_nonEmpty hn, continueWith_nonEmpty hn]
        split
        · exact .refl _
        · exact ih (hp.leave _)
      · rw [continueWith_resume hn, continueWith_resume hn]
        exact interpret_le hle (hp.leave _) fun q notes hq => ih hq.2

theorem extends_continueWith (hle : fuel ≤ fuel') (thens : List Then) :
    m.Extends p (m.continueWith fuel thens) (m.continueWith fuel' thens) :=
  fun _ _ hq => continueWith_le hle thens hq.2

theorem followWith_le {e : Else} (hle : fuel ≤ fuel') (h : e.Coherent m.tokens) :
    (m.followWith fuel e notes).Le (m.followWith fuel' e notes) :=
  interpret_le hle h.tracked (extends_continueWith hle e.thens)

theorem searchWith_le {elses : List Else} (hle : fuel ≤ fuel')
    (h : ∀ e ∈ elses, e.Coherent m.tokens) :
    (m.searchWith fuel elses notes).Le (m.searchWith fuel' elses notes) := by
  induction elses generalizing notes with
  | nil => exact .refl _
  | cons e elses ih =>
      refine .orElse (followWith_le hle (h e List.mem_cons_self)) fun notes => ?_
      exact ih fun e' he' => h e' (List.mem_cons_of_mem _ he')

/-- A stack of continuations that were put off outside a scope does not tell whether the scope was
left. -/
theorem continueWith_exit {thens : List Then} {s : Scope} {around : List Scope}
    (hq : q.scopes = s :: around) (h : Nested around thens) :
    m.continueWith fuel thens q.exit notes = m.continueWith fuel thens q notes := by
  cases thens with
  | nil =>
      change (if _ then Answer.matched (q.exit.leave []).trace notes else _) = _
      rw [Point.leave_exit hq (List.nil_suffix)]
      rfl
  | cons t thens =>
      have hleave := Point.leave_exit hq h.1
      by_cases hn : t.next = .state .nonEmpty
      · rw [continueWith_nonEmpty hn, continueWith_nonEmpty hn, hleave]
        have hlast : q.exit.trace.lastIndex? = q.trace.lastIndex? :=
          congrArg (Option.map Prod.fst) (Trace.lastToken?_closing (q.scopes.take 1) q.trace)
        rw [hlast]
      · rw [continueWith_resume hn, continueWith_resume hn, hleave]

/-- Where something looked at from the point of a path succeeds there is no scope to leave. -/
theorem leave_beyond {e : Else} (hq : e.point.Beyond m.tokens q) : q.leave e.scopes = q := by
  have hself := q.leave_self
  rwa [hq.1] at hself

/-- Putting off something else than a check that a token was taken. -/
theorem extends_await {e : Else} {f : Focus} (hn : f ≠ .state .nonEmpty) :
    m.Extends e.point (m.continueWith fuel (e.await f).thens)
      fun q notes => m.interpret fuel f q notes (m.continueWith (fuel + 1) e.thens) := by
  intro q notes hq
  change Answer.Le (m.continueWith fuel (⟨f, e.trace, e.scopes⟩ :: e.thens) q notes) _
  rw [continueWith_resume hn, leave_beyond hq]
  exact interpret_le (Nat.le_refl _) hq.2 (extends_continueWith (Nat.le_succ _) e.thens)

/-- Putting off what comes after the test of a conditional. -/
theorem extends_afterTest {e : Else} {next : State} (h : e.Coherent m.tokens) :
    m.Extends e.point (m.continueWith fuel (e.await (.state next)).thens)
      (afterTest (m.interpret fuel) next e.point (m.continueWith (fuel + 1) e.thens)) := by
  intro q notes hq
  by_cases hn : next = .nonEmpty
  · subst hn
    have hplace : e.trace.lastIndex? = q.trace.lastIndex? ↔ q.index = e.point.index := by
      rw [← Trace.place_eq_place_iff, h.tracks.place_eq, Trace.Tracks.place_eq hq.2]
      exact eq_comm
    change Answer.Le (m.continueWith fuel (⟨.state .nonEmpty, e.trace, e.scopes⟩ :: e.thens)
      q notes) (if q.index = e.point.index then _ else _)
    rw [continueWith_nonEmpty rfl, leave_beyond hq]
    simp only [hplace]
    split
    · exact .refl _
    · exact continueWith_le (Nat.le_succ _) e.thens hq.2
  · have hf : Focus.state next ≠ .state .nonEmpty := by simpa using hn
    unfold afterTest
    split
    · exact absurd rfl hn
    · exact extends_await hf q notes hq

/-- Inside a scope the continuations of a path answer as they do after leaving it. -/
theorem extends_exit {e : Else} {node : Grammar} {range : Option Range} (h : e.Coherent m.tokens) :
    m.Extends (e.point.enter node range) (m.continueWith fuel e.thens)
      fun q notes => m.continueWith (fuel + 1) e.thens q.exit notes := by
  intro q notes hq
  change Answer.Le _ (m.continueWith (fuel + 1) e.thens q.exit notes)
  rw [continueWith_exit hq.1 h.nested]
  exact continueWith_le (Nat.le_succ _) e.thens hq.2

/-! ## Steps -/

section steps

variable {e : Else} (h : e.Coherent m.tokens)

include h

/-- Looking at something else from the same point. -/
theorem searchWith_goto_le (f : Focus) (notes : Notes) :
    (m.searchWith fuel [e.goto f] notes).Le
      (m.interpret fuel f e.point notes (m.continueWith (fuel + 1) e.thens)) := by
  rw [searchWith_singleton]
  exact interpret_le (Nat.le_refl _) h.tracked (extends_continueWith (Nat.le_succ _) e.thens)

/-- Frames that do nothing are left out: a test that is followed by nothing, and an alternative that
fails. -/
theorem searchWith_branch_le {s test next other : State}
    (hb : s.branch? = some (test, next, other)) :
    (m.searchWith (fuel + 1)
      ((if next.isAccept then e else e.await (.state next)).goto (.state test) ::
        if other.isReject then [] else [e.goto (.state other)]) notes).Le
      (m.interpret (fuel + 2) (.state s) e.point notes (m.continueWith (fuel + 2) e.thens)) := by
  rw [interpret_branch hb, searchWith]
  refine .orElse ?_ fun notes => ?_
  · by_cases hacc : next.isAccept = true
    · rw [if_pos hacc, State.eq_accept_of_isAccept hacc]
      exact interpret_le (Nat.le_refl _) h.tracked (extends_continueWith (Nat.le_succ _) e.thens)
    · rw [if_neg hacc]
      exact interpret_le (Nat.le_refl _) h.tracked (extends_afterTest h)
  · by_cases hrej : other.isReject = true
    · rw [if_pos hrej, State.eq_reject_of_isReject hrej]
      exact .refl _
    · rw [if_neg hrej]
      exact searchWith_goto_le h _ notes

/-- Taking tokens, or finding that there are none to take. -/
theorem searchWith_leaf_le {l : Leaf} {node : Grammar} {n : Nat} {ok : Bool}
    (hl : l.take (e.trace.lastToken?.map (·.2)) e.range (m.tokens.drop e.index) = (n, ok)) :
    (m.searchWith (fuel + 1)
      [{ e with
          next := .state (if ok then .accept else .reject)
          index := e.index + n
          trace := e.trace.taking node e.index ((m.tokens.drop e.index).take n) }]
      (notes.reach e.index n)).Le
      (m.interpret (fuel + 2) (.state (.leaf l node)) e.point notes
        (m.continueWith (fuel + 2) e.thens)) := by
  have hle : n ≤ (m.tokens.drop e.index).length := Leaf.le_length_of_take hl
  have hpoint : e.point.take node ((m.tokens.drop e.index).take n) =
      ⟨e.index + n, e.scopes, e.trace.taking node e.index ((m.tokens.drop e.index).take n)⟩ := by
    simp only [Point.take, Else.point, List.length_take_of_le hle]
  have htracked : (e.point.take node ((m.tokens.drop e.index).take n)).Tracked m.tokens :=
    (Point.beyond_take h.tracked hle).2
  rw [interpret_leaf hl, searchWith_singleton]
  cases ok with
  | false => exact .refl _
  | true =>
      change Answer.Le _ (m.continueWith (fuel + 2) e.thens
        (e.point.take node ((m.tokens.drop e.index).take n)) _)
      rw [hpoint] at htracked ⊢
      exact continueWith_le (Nat.le_succ _) e.thens htracked

/-- Going on with a continuation: the scopes entered since it was put off are left then. -/
theorem searchWith_resume_le {t : Then} {thens : List Then} (hn : t.next ≠ .state .nonEmpty) :
    (m.searchWith (fuel + 1) [{ e.leave t.scopes with next := t.next, thens }] notes).Le
      (m.continueWith (fuel + 2) (t :: thens) e.point notes) := by
  rw [searchWith_singleton, continueWith_resume hn]
  exact interpret_le (Nat.le_succ _) (h.tracked.leave _)
    (extends_continueWith (Nat.le_succ _) thens)

/-- A check that a token was taken succeeds. -/
theorem searchWith_nonEmpty_le {t : Then} {thens : List Then} (hn : t.next = .state .nonEmpty)
    (hi : t.trace.lastIndex? ≠ e.point.trace.lastIndex?) :
    (m.searchWith (fuel + 1)
      [{ e.leave t.scopes with next := .state .accept, thens }] notes).Le
      (m.continueWith (fuel + 2) (t :: thens) e.point notes) := by
  rw [searchWith_singleton, continueWith_nonEmpty hn, if_neg hi]
  exact continueWith_le (Nat.le_succ _) thens (h.tracked.leave _)

end steps

/-- **A step of the machine is a step of the recursion**: what the paths it leads to stand for is
what the path stands for, with one more unit of fuel. -/
theorem Expands.searchWith_le {e : Else} {new : List Else} (hx : m.Expands e notes new notes')
    (h : e.Coherent m.tokens) (fuel : Nat) :
    (m.searchWith fuel new notes').Le (m.followWith (fuel + 1) e notes) := by
  unfold followWith
  -- without fuel there is no answer, except on the path that has failed
  cases fuel with
  | zero =>
      cases hx with
      | reject hf => rw [hf]; exact .refl _
      | _ => exact Answer.exhausted_le _
  | succ fuel =>
      cases hx with
      | unfinished hf ht hend =>
          rw [hf, ht]
          refine (searchWith_goto_le h _ _).trans (.of_eq ?_)
          change Answer.mismatched notes = if endsAt m.tokens e.index = true then _ else _
          rw [hend]
          rfl
      | empty hf ht hn hi =>
          rw [hf, ht]
          refine (searchWith_goto_le h _ _).trans (.of_eq ?_)
          change _ = m.continueWith (fuel + 2) _ e.point notes
          rw [continueWith_nonEmpty hn]
          exact (if_pos hi).symm
      | nonEmpty hf ht hn hi =>
          rw [hf, ht]
          exact searchWith_nonEmpty_le h hn hi
      | resume hf ht hn =>
          rw [hf, ht]
          exact searchWith_resume_le h hn
      | reject hf => rw [hf]; exact .refl _
      | branch hf hb =>
          rw [hf]
          exact searchWith_branch_le h hb
      | last hf hi =>
          subst hi
          rw [hf, interpret_last]
          refine (searchWith_goto_le h _ _).trans (.of_eq ?_)
          split <;> rfl
      | full hf hi ht =>
          rw [hf, interpret_full hi ht]
          exact searchWith_goto_le h _ _
      | @pick terms all node index taken n s hf hi ht hn =>
          have hresume : Focus.resume terms all node (taken.insert n) ≠ .state .nonEmpty :=
            fun he => by cases he
          rw [hf, interpret_pick hi ht hn, searchWith]
          refine .orElse ?_ fun notes => searchWith_goto_le h _ notes
          exact interpret_le (Nat.le_refl _) h.tracked (extends_await (e := e) hresume)
      | skip hf hi ht hn =>
          rw [hf, interpret_skip hi ht hn]
          exact searchWith_goto_le h _ _
      | again hf => rw [hf]; exact searchWith_goto_le h _ _
      | once hf => rw [hf]; exact searchWith_goto_le h _ _
      | ended hf ht =>
          rw [hf, interpret_ended ht]
          exact searchWith_goto_le h _ _
      | enum hf ht =>
          rw [hf, interpret_enum ht]
          exact searchWith_goto_le h _ _
      | leaf hf hl =>
          rw [hf]
          exact searchWith_leaf_le h hl
      | call hf hr =>
          -- the scope is left late, by whatever was put off outside of it
          rw [hf, interpret_call hr, searchWith_singleton]
          exact interpret_le (Nat.le_refl _) (h.tracked.enter _ _) (extends_exit h)

/-! ## Runs -/

/-- The recursive search behind a configuration. -/
def search (m : Machine ε) (fuel : Nat) (c : Config) : Answer ε :=
  m.searchWith fuel (c.here :: c.elses) c.notes

variable {c c' : Config}

theorem Moves.search_le (hm : m.Moves c c') (hl : m.lowPriority = false) (hs : c.stash = none)
    (h : m.Coherent c) (fuel : Nat) : (m.search fuel c').Le (m.search (fuel + 1) c) := by
  have hlocal : ∀ new, m.Expands c.here c.notes new c'.notes →
      c'.here :: c'.elses = new ++ c.elses → (m.search fuel c').Le (m.search (fuel + 1) c) := by
    intro new hx hp
    have helses : ∀ e ∈ c.elses, e.Coherent m.tokens := fun e he =>
      h e (List.mem_append_left _ (List.mem_cons_of_mem _ he))
    rw [search, hp, searchWith_append]
    exact .orElse (hx.searchWith_le h.here fuel) fun notes =>
      searchWith_le (Nat.le_succ _) helses
  cases hm with
  | expand hx hp _ _ => exact hlocal _ hx hp
  | take hx hp _ _ _ => exact hlocal _ hx hp
  | defer hl' => rw [hl] at hl'; cases hl'
  | retry _ hs' => rw [hs] at hs'; cases hs'

/-- A run that puts nothing off is a search by recursion. The induction is on the run, from its
end. -/
theorem Leads.search_le (hl : m.Leads c c') (hlow : m.lowPriority = false) (h : m.Coherent c)
    (hs : c.stash = none) (fuel : Nat) :
    ∃ fuel', (m.search fuel c').Le (m.search fuel' c) := by
  induction hl with
  | refl => exact ⟨fuel, .refl _⟩
  | head hstep _ ih =>
      have hm := step_next hstep
      obtain ⟨fuel', hle⟩ := ih (hm.coherent h) (hm.stash_none hlow hs)
      exact ⟨fuel' + 1, hle.trans (hm.search_le hlow hs h fuel')⟩

theorem Fails.followWith_eq {e : Else} {error : MachineError ε} (hx : m.Fails e notes error notes')
    (fuel : Nat) : m.followWith (fuel + 1) e notes = .failed error notes' := by
  unfold followWith
  cases hx with
  | stuck hf => rw [hf]; rfl
  | unresolved hf hr => rw [hf, interpret_reference, hr]
  | lookup hf hr => rw [hf, interpret_reference, hr]

/-- The last step of a run is the answer of the search. -/
theorem search_of_endsWith {r : Run ε} (hr : r.outcome ≠ .limited) (h : r.EndsWith m c) :
    m.search 1 c = r.answer := by
  unfold Run.EndsWith at h
  unfold Run.answer
  cases ho : r.outcome with
  | matched =>
      rw [ho] at h
      obtain ⟨c', hstep, hfinal⟩ := h
      obtain ⟨rfl, hf, ht, hend⟩ := step_matched hstep
      have hfollow : m.followWith 1 c'.here c'.notes =
          .matched (c'.here.leave []).trace c'.notes := by
        change m.interpret 1 c'.focus c'.here.point c'.notes (m.continueWith 1 c'.thens) = _
        rw [hf, ht]
        exact if_pos hend
      rw [search, searchWith, hfollow, hfinal, Config.closeTo_eq]
      rfl
  | mismatched =>
      rw [ho] at h
      obtain ⟨hc, hf, he, -⟩ := step_mismatched h
      have hfollow : m.followWith 1 c.here c.notes = .mismatched c.notes := by
        change m.interpret 1 c.focus c.here.point c.notes _ = _
        rw [hf]
        rfl
      rw [search, searchWith, hfollow, hc, he]
      rfl
  | failed e =>
      rw [ho] at h
      rw [search, searchWith, (step_failed h).followWith_eq 0]
      rfl
  | limited => exact absurd ho hr

/-- At the outermost level there is no scope to leave. -/
theorem extends_finish : m.Extends Point.start (m.continueWith fuel []) m.finish := by
  intro q notes hq
  have hleave : q.leave [] = q := by
    have hself := q.leave_self
    rwa [hq.1] at hself
  change Answer.Le (if _ then Answer.matched (q.leave []).trace notes else _) _
  rw [hleave]
  exact .refl _

/-- **The machine refines recursive backtracking.** Where types are not put off, every run that is
not cut off gives the answer of the recursive search, once that has enough fuel: a match with the
same trace, a mismatch or the same error, and in each case the same longest path and the same
references looked up in the same order. -/
theorem interpret_eq_run {limit : Nat} {root : State} (hlow : m.lowPriority = false)
    (h : (m.run limit root).outcome ≠ .limited) :
    ∃ enough, ∀ fuel, enough ≤ fuel →
      m.interpret fuel (.state root) .start ⟨0, []⟩ m.finish = (m.run limit root).answer := by
  obtain ⟨c, hl, he⟩ := m.run_ends limit root
  obtain ⟨enough, hle⟩ := hl.search_le hlow (m.coherent_start root) rfl 1
  refine ⟨enough, fun fuel hfuel => ?_⟩
  have hstart : (m.search enough (.start root)).Le
      (m.interpret fuel (.state root) .start ⟨0, []⟩ m.finish) := by
    change Answer.Le ((m.followWith enough (Config.start root).here ⟨0, []⟩).orElse .mismatched) _
    rw [Answer.orElse_mismatched]
    exact interpret_le hfuel Trace.tracks_nil extends_finish
  have hall := hle.trans hstart
  rw [search_of_endsWith h he] at hall
  rcases hall with hex | heq
  · exact absurd hex (Run.answer_ne_exhausted h)
  · exact heq.symm

/-- A machine for the tokens `x, x` where every reference stands for `x`. -/
def listMachine : Machine Empty where
  tokens := [⟨.ident, "x", none⟩, ⟨.comma, ",", none⟩, ⟨.ident, "x", none⟩]
  resolve _ := .ok (some (.leaf (.keyword "x") (.keyword "x")))
  lowPriority := false

/-- The states of `x | <f>#`. -/
def listState : State :=
  .cond (.leaf (.keyword "x") (.keyword "x")) .accept
    (.loop (.call ⟨.type, "f"⟩ none (.type "f" none)) (some .comma))

/-- The first alternative takes a token and is given up; the second one goes round its loop twice. -/
theorem interpret_eq_run_list :
    (listMachine.run 100 listState).outcome = .matched ∧
      ∃ enough, ∀ fuel, enough ≤ fuel →
        listMachine.interpret fuel (.state listState) .start ⟨0, []⟩ listMachine.finish =
          (listMachine.run 100 listState).answer := by
  have hmatched : (listMachine.run 100 listState).outcome = .matched := rfl
  refine ⟨hmatched, interpret_eq_run rfl ?_⟩
  rw [hmatched]
  exact nofun

end Machine

end ValueGrammar

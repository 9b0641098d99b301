import ValueGrammar.Proofs.Machine.Coherence

/-!
# `ValueGrammar.Proofs.Machine.Search` — a run neither gains nor loses a match

A path can match if what it looks at can succeed somewhere from which its continuations lead to the
end of the tokens. A step replaces a path by others of which one can match exactly if the path could.
So a run that finds a match shows that there was one from the start, and a run that ends without one
has tried every path there was.

## Contents
- `Follows`, `Else.CanMatch`: a path can match.
- `Machine.Expands.canMatch_iff`: so can one of the paths it leads to.
- `Machine.Sound`, `Machine.Complete`: what references match against what they stand for.
- `Machine.CanMatch`: a configuration has a path that can match.
- `Machine.Leads.sound`, `Machine.accepts_of_run_matched`: runs that match.
- `Machine.Covered`, `Machine.Discards`, `Machine.Moves.complete`: when a step can lose a match.
- `Machine.Leads.complete`: a run loses no match if none of its steps does.
- `Machine.not_accepts_of_run_mismatched`: runs that put nothing off.
-/

namespace ValueGrammar

/-- The range that holds where a continuation was put off. -/
def Then.range (t : Then) : Option Range := t.scopes.head?.bind (·.range)

/-- A continuation taken up at place `k` can succeed at place `l`. -/
def Then.Continues (calls : Calls) (ts : List Token) (t : Then) (k l : Nat) : Prop :=
  (t.next = .state .nonEmpty ∧ t.trace.place ≠ k ∧ k = l) ∨ Accepts calls ts t.next t.range k l

/-- Continuations taken up one after the other from place `k` on can lead to the end. -/
def Follows (calls : Calls) (ts : List Token) : List Then → Nat → Prop
  | [], k => endsAt ts k = true
  | t :: thens, k => ∃ l, t.Continues calls ts k l ∧ Follows calls ts thens l

/-- A path can match. -/
def Else.CanMatch (calls : Calls) (ts : List Token) (e : Else) : Prop :=
  ∃ k, Accepts calls ts e.next e.range e.index k ∧ Follows calls ts e.thens k

variable {calls : Calls} {ts : List Token} {e : Else}

/-! ## One path -/

theorem not_canMatch_reject : ¬ (e.goto (.state .reject)).CanMatch calls ts := by
  rintro ⟨k, h, -⟩
  exact not_accepts_reject h

/-- Looking at something else that can succeed at the same places. -/
theorem canMatch_goto_iff {f : Focus}
    (h : ∀ k, Accepts calls ts e.next e.range e.index k ↔ Accepts calls ts f e.range e.index k) :
    e.CanMatch calls ts ↔ ∃ p ∈ [e.goto f], p.CanMatch calls ts := by
  simp only [List.mem_singleton, exists_eq_left]
  exact exists_congr fun k => and_congr_left fun _ => h k

theorem canMatch_of_accept (hf : e.next = .state .accept) :
    e.CanMatch calls ts ↔ Follows calls ts e.thens e.index := by
  unfold Else.CanMatch
  rw [hf]
  constructor
  · rintro ⟨k, ha, hk⟩
    obtain rfl := accepts_accept_iff.mp ha
    exact hk
  · intro h; exact ⟨e.index, .accept, h⟩

theorem Else.leave_range {t : Then} (h : t.scopes <:+ e.scopes) : (e.leave t.scopes).range = t.range := by
  unfold Else.range Then.range
  rw [Else.leave_scopes h]

/-- Going on with a check that a token was taken. -/
theorem canMatch_nonEmpty {t : Then} {thens : List Then} (h : e.Coherent ts)
    (hf : e.next = .state .accept) (ht : e.thens = t :: thens) (hn : t.next = .state .nonEmpty)
    (hi : t.trace.lastIndex? ≠ e.trace.lastIndex?) :
    e.CanMatch calls ts ↔
      Else.CanMatch calls ts { e.leave t.scopes with next := .state .accept, thens } := by
  have hplace : t.trace.place ≠ e.index := by
    rw [← h.tracks.place_eq]
    exact fun he => hi (Trace.place_eq_place_iff.mp he)
  rw [canMatch_of_accept hf, canMatch_of_accept rfl, ht]
  change (∃ l, _ ∧ _) ↔ Follows calls ts thens e.index
  constructor
  · rintro ⟨l, ⟨-, -, rfl⟩ | ha, hl⟩
    · exact hl
    · rw [hn] at ha
      exact absurd ha not_accepts_nonEmpty
  · intro hl
    exact ⟨e.index, .inl ⟨hn, hplace, rfl⟩, hl⟩

/-- A check that a token was taken fails if none was. -/
theorem not_canMatch_empty {t : Then} {thens : List Then} (h : e.Coherent ts)
    (hf : e.next = .state .accept) (ht : e.thens = t :: thens) (hn : t.next = .state .nonEmpty)
    (hi : t.trace.lastIndex? = e.trace.lastIndex?) : ¬ e.CanMatch calls ts := by
  rw [canMatch_of_accept hf, ht]
  rintro ⟨l, ⟨-, hplace, -⟩ | ha, -⟩
  · exact hplace ((Trace.place_eq_place_iff.mpr hi).trans h.tracks.place_eq)
  · rw [hn] at ha
    exact not_accepts_nonEmpty ha

theorem canMatch_resume {t : Then} {thens : List Then} (h : e.Coherent ts)
    (hf : e.next = .state .accept) (ht : e.thens = t :: thens) (hn : t.next ≠ .state .nonEmpty) :
    e.CanMatch calls ts ↔
      Else.CanMatch calls ts { e.leave t.scopes with next := t.next, thens } := by
  have hnest := h.nested
  rw [ht] at hnest
  have hrange : (e.leave t.scopes).range = t.range := Else.leave_range hnest.1
  rw [canMatch_of_accept hf, ht]
  change (∃ l, _ ∧ _) ↔ ∃ l, Accepts calls ts t.next (e.leave t.scopes).range e.index l ∧ _
  rw [hrange]
  refine exists_congr fun l => and_congr_left fun _ => ?_
  constructor
  · rintro (⟨he, -⟩ | ha)
    · exact absurd he hn
    · exact ha
  · exact .inr

/-- What comes after the test of a conditional is put off as a continuation. -/
theorem continues_await_iff {next : State} {k l : Nat} (h : e.Coherent ts) (hle : e.index ≤ k) :
    Then.Continues calls ts ⟨.state next, e.trace, e.scopes⟩ k l ↔
      Passes calls ts next e.range e.index k l := by
  unfold Then.Continues Passes
  simp only [h.tracks.place_eq, Focus.state.injEq]
  refine or_congr (and_congr_right fun _ => and_congr_left fun _ => ?_) Iff.rfl
  omega

theorem canMatch_branch {s test next other : State} (hfwd : calls.Forward ts) (h : e.Coherent ts)
    (hf : e.next = .state s) (hb : s.branch? = some (test, next, other)) :
    e.CanMatch calls ts ↔
      ((if next.isAccept then e else e.await (.state next)).goto (.state test)).CanMatch calls ts ∨
        (e.goto (.state other)).CanMatch calls ts := by
  -- whether a trivial continuation is put off or not, the test has to lead through `next`
  have htest : ((if next.isAccept then e else e.await (.state next)).goto (.state test)).CanMatch
        calls ts ↔ ∃ k, Accepts calls ts (.state test) e.range e.index k ∧
          ∃ l, Passes calls ts next e.range e.index k l ∧ Follows calls ts e.thens l := by
    by_cases hacc : next.isAccept = true
    · rw [if_pos hacc, State.eq_accept_of_isAccept hacc]
      simp [Else.CanMatch, Else.goto, Else.range, passes_of_ne]
    · rw [if_neg hacc]
      refine exists_congr fun k => and_congr_right fun ha => exists_congr fun l => ?_
      exact and_congr_left fun _ => continues_await_iff h (ha.forward hfwd).1
  rw [htest]
  unfold Else.CanMatch
  simp only [hf, accepts_of_branch? hb, accepts_cond_iff]
  constructor
  · rintro ⟨l, ⟨k, ha, hp⟩ | ho, hl⟩
    · exact .inl ⟨k, ha, l, hp, hl⟩
    · exact .inr ⟨l, ho, hl⟩
  · rintro (⟨k, ha, l, hp, hl⟩ | ⟨l, ho, hl⟩)
    · exact ⟨l, .inl ⟨k, ha, hp⟩, hl⟩
    · exact ⟨l, .inr ho, hl⟩

/-- A group that tries one more term matches with the term, or without it. -/
theorem canMatch_pick {terms : List State} {all : Bool} {node : Grammar} {index n : Nat}
    {taken : TermSet} {s : State} (hf : e.next = .choose terms all node index taken)
    (hi : index ≠ terms.length) (ht : taken ≠ TermSet.full terms.length)
    (hn : Machine.nextTerm? taken index (terms.drop index) = some (n, s)) :
    e.CanMatch calls ts ↔
      ((e.await (.resume terms all node (taken.insert n))).goto (.state s)).CanMatch calls ts ∨
        (e.goto (.choose terms all node (n + 1) taken)).CanMatch calls ts := by
  constructor
  · rintro ⟨l, ha, hl⟩
    rw [hf] at ha
    cases ha with
    | complete _ h => exact absurd h ht
    | enough => exact absurd rfl hi
    | pick _ _ hn' hs hr =>
        rw [hn] at hn'
        cases hn'
        exact .inl ⟨_, hs, l, .inr hr, hl⟩
    | pass _ _ hn' h =>
        rw [hn] at hn'
        cases hn'
        exact .inr ⟨l, h, hl⟩
    | finish _ _ hn' _ =>
        rw [hn] at hn'
        cases hn'
  · rintro (⟨k, hs, l, ⟨he, -⟩ | hr, hl⟩ | ⟨l, h, hl⟩)
    · cases he
    · refine ⟨l, ?_, hl⟩
      rw [hf]
      exact .pick hi ht hn hs hr
    · refine ⟨l, ?_, hl⟩
      rw [hf]
      exact .pass hi ht hn h

/-- When every term was tried a group is done if it needs only some and has one. -/
theorem accepts_choose_last_iff {terms : List State} {all : Bool} {node : Grammar}
    {taken : TermSet} {o : Option Range} {i k : Nat} :
    Accepts calls ts (.choose terms all node terms.length taken) o i k ↔
      Accepts calls ts (.state (if taken = TermSet.empty || all then .reject else .accept)) o i k := by
  constructor
  · intro h
    cases h with
    | complete hi _ | pick hi _ _ _ _ | pass hi _ _ _ | finish hi _ _ _ => exact absurd rfl hi
    | enough ht => simp [ht]
  · intro h
    split at h
    · exact absurd h not_accepts_reject
    · rename_i hc
      simp only [Bool.or_eq_true, decide_eq_true_eq, not_or, Bool.not_eq_true] at hc
      obtain rfl := accepts_accept_iff.mp h
      rw [hc.2]
      exact .enough hc.1

theorem accepts_choose_full_iff {terms : List State} {all : Bool} {node : Grammar} {index : Nat}
    {taken : TermSet} {o : Option Range} {i k : Nat} (hi : index ≠ terms.length)
    (ht : taken = TermSet.full terms.length) :
    Accepts calls ts (.choose terms all node index taken) o i k ↔
      Accepts calls ts (.state .accept) o i k := by
  rw [accepts_accept_iff]
  constructor
  · intro h
    cases h with
    | complete => rfl
    | enough => rfl
    | pick _ hf _ _ _ | pass _ hf _ _ | finish _ hf _ _ => exact absurd ht hf
  · rintro rfl
    exact .complete hi ht

theorem accepts_choose_skip_iff {terms : List State} {all : Bool} {node : Grammar} {index : Nat}
    {taken : TermSet} {o : Option Range} {i k : Nat} (hi : index ≠ terms.length)
    (ht : taken ≠ TermSet.full terms.length)
    (hn : Machine.nextTerm? taken index (terms.drop index) = none) :
    Accepts calls ts (.choose terms all node index taken) o i k ↔
      Accepts calls ts (.choose terms all node terms.length taken) o i k := by
  constructor
  · intro h
    cases h with
    | complete _ h => exact absurd h ht
    | enough => exact absurd rfl hi
    | pick _ _ hn' _ _ | pass _ _ hn' _ => rw [hn] at hn'; cases hn'
    | finish _ _ _ h => exact h
  · exact .finish hi ht hn

theorem accepts_enum_at_iff {table : List (String × State)} {t : Token} {o : Option Range}
    {i k : Nat} (ht : ts[i]? = some t) :
    Accepts calls ts (.state (.enum table)) o i k ↔
      Accepts calls ts
        (.state ((table.lookup (stripHack (Text.lower t.value))).getD .reject)) o i k := by
  constructor
  · intro h
    cases h with
    | enum ht' hs h =>
        rw [ht] at ht'
        cases ht'
        rw [hs]
        exact h
  · intro h
    cases hs : table.lookup (stripHack (Text.lower t.value)) with
    | none =>
        rw [hs] at h
        exact absurd h not_accepts_reject
    | some s =>
        rw [hs] at h
        exact .enum ht hs h

/-- A leaf takes tokens before it succeeds or fails. -/
theorem canMatch_leaf {l : Leaf} {node : Grammar} {n : Nat} {ok : Bool} {tr : Trace}
    (h : e.Coherent ts) (hf : e.next = .state (.leaf l node))
    (hl : l.take (e.trace.lastToken?.map (·.2)) e.range (ts.drop e.index) = (n, ok)) :
    e.CanMatch calls ts ↔ Else.CanMatch calls ts
      { e with
        next := .state (if ok then .accept else .reject), index := e.index + n, trace := tr } := by
  rw [h.tracks.last] at hl
  unfold Else.CanMatch
  rw [hf]
  refine exists_congr fun k => and_congr_left fun _ => ?_
  rw [accepts_leaf_iff, hl]
  cases ok with
  | false => simp
  | true => simp [eq_comm]

namespace Machine

variable {ε : Type} {m : Machine ε}

/-- A path that looks at a reference leads to what the reference stands for. -/
theorem Expands.of_call {new : List Else} {notes notes' : Notes} {r : Reference}
    {range : Option Range} {node : Grammar} (hx : m.Expands e notes new notes')
    (hf : e.next = .state (.call r range node)) :
    ∃ root, m.resolve r = .ok (some root) ∧ new =
      [{ e with
          next := .state root
          scopes := ⟨node, range <|> e.range⟩ :: e.scopes
          trace := .opened node :: e.trace }] := by
  cases hx with
  | call hf' hr =>
      rw [hf] at hf'
      cases hf'
      exact ⟨_, hr, rfl⟩
  | branch hf' hb =>
      rw [hf] at hf'
      cases hf'
      cases hb
  | unfinished hf' | empty hf' | nonEmpty hf' | resume hf' | reject hf' | last hf' | full hf'
  | pick hf' | skip hf' | again hf' | once hf' | ended hf' | enum hf' | leaf hf' =>
      rw [hf] at hf'
      cases hf'

/-- A path that looks at a reference can match if what the reference matches leads to the end. -/
theorem canMatch_call {r : Reference} {range : Option Range} {node : Grammar}
    (hf : e.next = .state (.call r range node)) :
    e.CanMatch calls ts ↔
      ∃ k, calls r (range <|> e.range) e.index k ∧ Follows calls ts e.thens k := by
  unfold Else.CanMatch
  rw [hf]
  refine exists_congr fun k => and_congr_left fun _ => ?_
  exact ⟨fun ha => by cases ha; assumption, .call⟩

/-- A path that does not look at a reference can match exactly if one of the paths it leads to
can. -/
theorem Expands.canMatch_iff {new : List Else} {notes notes' : Notes}
    (hx : m.Expands e notes new notes') (hfwd : calls.Forward m.tokens) (h : e.Coherent m.tokens)
    (hcall : ∀ r range node, e.next ≠ .state (.call r range node)) :
    e.CanMatch calls m.tokens ↔ ∃ p ∈ new, p.CanMatch calls m.tokens := by
  cases hx with
  | unfinished hf ht hend =>
      simp [canMatch_of_accept hf, ht, Follows, hend, not_canMatch_reject]
  | empty hf ht hn hi => simp [not_canMatch_empty h hf ht hn hi, not_canMatch_reject]
  | nonEmpty hf ht hn hi => simpa using canMatch_nonEmpty h hf ht hn hi
  | resume hf ht hn => simpa using canMatch_resume h hf ht hn
  | reject hf => simp [Else.CanMatch, hf]
  | @branch s test next other hf hb =>
      rw [canMatch_branch hfwd h hf hb]
      cases hrej : other.isReject with
      | false => simp
      | true => simp [State.eq_reject_of_isReject hrej, not_canMatch_reject]
  | last hf hi =>
      subst hi
      exact canMatch_goto_iff fun k => by rw [hf]; exact accepts_choose_last_iff
  | full hf hi ht =>
      exact canMatch_goto_iff fun k => by rw [hf]; exact accepts_choose_full_iff hi ht
  | pick hf hi ht hn => simpa using canMatch_pick hf hi ht hn
  | skip hf hi ht hn =>
      exact canMatch_goto_iff fun k => by rw [hf]; exact accepts_choose_skip_iff hi ht hn
  | again hf =>
      refine canMatch_goto_iff fun k => ?_
      rw [hf]
      exact ⟨fun ha => by cases ha; assumption, .resume⟩
  | once hf =>
      refine canMatch_goto_iff fun k => ?_
      rw [hf]
      exact ⟨fun ha => by cases ha; assumption, .once⟩
  | ended hf ht =>
      have hno : ¬ e.CanMatch calls m.tokens := by
        rintro ⟨k, ha, -⟩
        rw [hf] at ha
        cases ha with
        | enum ht' _ _ => rw [ht] at ht'; cases ht'
      simp [hno, not_canMatch_reject]
  | enum hf ht =>
      exact canMatch_goto_iff fun k => by rw [hf]; exact accepts_enum_at_iff ht
  | leaf hf hl => simpa using canMatch_leaf h hf hl
  | call hf hr => exact absurd hf (hcall _ _ _)

/-! ## Runs -/

/-- Whatever a reference stands for, it matches what that matches. -/
def Sound (m : Machine ε) (calls : Calls) : Prop :=
  ∀ r root, m.resolve r = .ok (some root) → ∀ o i j,
    Accepts calls m.tokens (.state root) o i j → calls r o i j

/-- Whatever a reference matches is matched by what it stands for. -/
def Complete (m : Machine ε) (calls : Calls) : Prop :=
  ∀ r root, m.resolve r = .ok (some root) → ∀ o i j,
    calls r o i j → Accepts calls m.tokens (.state root) o i j

theorem Expands.sound {new : List Else} {notes notes' : Notes} {p : Else}
    (hx : m.Expands e notes new notes') (hs : m.Sound calls) (hfwd : calls.Forward m.tokens)
    (h : e.Coherent m.tokens) (hp : p ∈ new) (hm : p.CanMatch calls m.tokens) :
    e.CanMatch calls m.tokens := by
  -- only at a reference does it matter how `calls` and `resolve` are related
  by_cases hc : ∃ r range node, e.next = .state (.call r range node)
  · obtain ⟨r, range, node, hf⟩ := hc
    obtain ⟨root, hr, rfl⟩ := hx.of_call hf
    rw [List.mem_singleton.mp hp] at hm
    obtain ⟨k, ha, hk⟩ := hm
    exact (canMatch_call hf).mpr ⟨k, hs r root hr _ _ _ ha, hk⟩
  · refine (hx.canMatch_iff hfwd h fun r range node hf => hc ⟨r, range, node, hf⟩).mpr ?_
    exact ⟨p, hp, hm⟩

theorem Expands.complete {new : List Else} {notes notes' : Notes}
    (hx : m.Expands e notes new notes') (hc : m.Complete calls) (hfwd : calls.Forward m.tokens)
    (h : e.Coherent m.tokens) (hm : e.CanMatch calls m.tokens) :
    ∃ p ∈ new, p.CanMatch calls m.tokens := by
  by_cases hf : ∃ r range node, e.next = .state (.call r range node)
  · obtain ⟨r, range, node, hf⟩ := hf
    obtain ⟨root, hr, rfl⟩ := hx.of_call hf
    obtain ⟨k, ha, hk⟩ := (canMatch_call hf).mp hm
    exact ⟨_, List.mem_singleton_self _, k, hc r root hr _ _ _ ha, hk⟩
  · exact (hx.canMatch_iff hfwd h fun r range node hf' => hf ⟨r, range, node, hf'⟩).mp hm

/-- A machine may still match: one of its paths can. -/
def CanMatch (m : Machine ε) (calls : Calls) (c : Config) : Prop :=
  ∃ p ∈ c.paths, p.CanMatch calls m.tokens

variable {c c' : Config}

theorem canMatch_start_iff {root : State} :
    m.CanMatch calls (.start root) ↔
      ∃ k, Accepts calls m.tokens (.state root) none 0 k ∧ endsAt m.tokens k = true := by
  simp [CanMatch, Config.paths, Config.putOff, Config.start, Config.here, Config.snapshot,
    Else.CanMatch, Else.range, Follows]

/-- **A step finds no match that was not there**, whatever is put off. -/
theorem Moves.sound (hm : m.Moves c c') (hs : m.Sound calls) (hfwd : calls.Forward m.tokens)
    (h : m.Coherent c) (hc : m.CanMatch calls c') : m.CanMatch calls c := by
  obtain ⟨p, hp, hpm⟩ := hc
  rcases hm.mem_paths hp with hp | rfl | ⟨new, hx, hp⟩
  · exact ⟨p, hp, hpm⟩
  · exact absurd hpm not_canMatch_reject
  · exact ⟨c.here, List.mem_append_left _ List.mem_cons_self, hx.sound hs hfwd h.here hp hpm⟩

/-- **A run finds no match that was not there.** The induction is on the run, from its end. -/
theorem Leads.sound (hl : m.Leads c c') (hs : m.Sound calls) (hfwd : calls.Forward m.tokens)
    (h : m.Coherent c) (hc : m.CanMatch calls c') : m.CanMatch calls c := by
  induction hl with
  | refl => exact hc
  | head hstep _ ih =>
      have hm := step_next hstep
      exact hm.sound hs hfwd h (ih (hm.coherent h) hc)

/-- A machine that ends with a match was on a path that can match. -/
theorem canMatch_of_step_matched (h : m.step c = .finished true c') : m.CanMatch calls c := by
  obtain ⟨-, hf, ht, hend⟩ := step_matched h
  refine ⟨c.here, List.mem_append_left _ List.mem_cons_self, (canMatch_of_accept hf).mpr ?_⟩
  change Follows calls m.tokens c.thens c.index
  rw [ht]
  exact hend

/-- **A run that matches shows that the root can match.** -/
theorem accepts_of_run_matched {limit : Nat} {root : State} (hs : m.Sound calls)
    (hfwd : calls.Forward m.tokens) (h : (m.run limit root).outcome = .matched) :
    ∃ k, Accepts calls m.tokens (.state root) none 0 k ∧ endsAt m.tokens k = true := by
  obtain ⟨c, hl, he⟩ := m.run_ends limit root
  rw [Run.EndsWith, h] at he
  obtain ⟨c', hstep, -⟩ := he
  exact canMatch_start_iff.mp
    (hl.sound hs hfwd (m.coherent_start root) (canMatch_of_step_matched hstep))

/-! ## What is put off -/

/-- While an alternative is put off it has not been tried, and every path followed meanwhile is one
that can be followed again from below it. -/
structure Covered (m : Machine ε) (calls : Calls) (c : Config) : Prop where
  unused : c.stash ≠ none → c.stashUsed = false
  covers : c.stash ≠ none → (∃ p ∈ c.here :: c.elses, p.CanMatch calls m.tokens) →
    ∃ p ∈ c.putOff, p.CanMatch calls m.tokens

/-- What can match at all can match from what is put off. -/
theorem Covered.exists_putOff (hc : m.Covered calls c) (hn : c.stash ≠ none)
    (hcan : m.CanMatch calls c) : ∃ p ∈ c.putOff, p.CanMatch calls m.tokens := by
  obtain ⟨p, hmem, hpm⟩ := hcan
  rcases List.mem_append.mp hmem with hmem | hmem
  · exact hc.covers hn ⟨p, hmem, hpm⟩
  · exact ⟨p, hmem, hpm⟩

theorem covered_of_none (h : c.stash = none) : m.Covered calls c :=
  ⟨fun hn => absurd h hn, fun hn => absurd h hn⟩

/-- A token is taken while an alternative is put off, which is forgotten. -/
def Discards (c c' : Config) : Prop := c.stash ≠ none ∧ c.index < c'.index

/-- The paths put off after a step that puts one off: those put off before, or all there are. -/
theorem putOff_defer (hs : c'.stash = some (c.stash.getD (c.here, c.elses))) :
    (c.stash = none ∧ c'.putOff = c.here :: c.elses) ∨ (c.stash ≠ none ∧ c'.putOff = c.putOff) := by
  cases hstash : c.stash with
  | none =>
      rw [hstash] at hs
      exact .inl ⟨rfl, Config.putOff_some hs⟩
  | some s =>
      rw [hstash] at hs
      exact .inr ⟨by simp, by rw [Config.putOff_some hs, Config.putOff_some hstash]⟩

theorem Moves.covered (hm : m.Moves c c') (hs : m.Sound calls) (hfwd : calls.Forward m.tokens)
    (h : m.Coherent c) (hc : m.Covered calls c) : m.Covered calls c' := by
  cases hm with
  | expand hx hp hst hu =>
      refine ⟨fun hn => hu.trans (hc.unused (hst ▸ hn)), fun hn hex => ?_⟩
      rw [Config.putOff_congr hst]
      refine hc.covers (hst ▸ hn) ?_
      obtain ⟨p, hmem, hpm⟩ := hex
      rw [hp, List.mem_append] at hmem
      rcases hmem with hmem | hmem
      · exact ⟨c.here, List.mem_cons_self, hx.sound hs hfwd h.here hmem hpm⟩
      · exact ⟨p, List.mem_cons_of_mem _ hmem, hpm⟩
  | take _ _ _ hst _ =>
      -- nothing is put off any more, so nothing has to be covered
      exact covered_of_none hst
  | retry _ _ _ _ _ hst _ => exact covered_of_none hst
  | defer _ _ hh he hst hu' =>
      refine ⟨fun _ => hu', fun _ hex => ?_⟩
      obtain ⟨p, hmem, hpm⟩ := hex
      rw [hh, he] at hmem
      rcases List.mem_cons.mp hmem with rfl | hmem
      · exact absurd hpm not_canMatch_reject
      · rcases putOff_defer hst with ⟨-, hput⟩ | ⟨hn, hput⟩
        · rw [hput]
          exact ⟨p, List.mem_cons_of_mem _ hmem, hpm⟩
        · rw [hput]
          exact hc.covers hn ⟨p, List.mem_cons_of_mem _ hmem, hpm⟩

/-- **A step loses no match, unless it forgets an alternative that was put off.** -/
theorem Moves.complete (hm : m.Moves c c') (hcomp : m.Complete calls)
    (hfwd : calls.Forward m.tokens) (h : m.Coherent c) (hc : m.Covered calls c)
    (hd : ¬ Discards c c') (hcan : m.CanMatch calls c) : m.CanMatch calls c' := by
  -- a path that is replaced can match through one of those it leads to, and the others are kept
  have hlocal : ∀ new, m.Expands c.here c.notes new c'.notes →
      c'.here :: c'.elses = new ++ c.elses → c'.putOff = c.putOff → m.CanMatch calls c' := by
    intro new hx hp hput
    obtain ⟨p, hmem, hpm⟩ := hcan
    unfold CanMatch Config.paths
    rw [hp, hput]
    rcases List.mem_append.mp hmem with hmem | hmem
    · rcases List.mem_cons.mp hmem with rfl | hmem
      · obtain ⟨q, hq, hqm⟩ := hx.complete hcomp hfwd h.here hpm
        exact ⟨q, List.mem_append_left _ (List.mem_append_left _ hq), hqm⟩
      · exact ⟨p, List.mem_append_left _ (List.mem_append_right _ hmem), hpm⟩
    · exact ⟨p, List.mem_append_right _ hmem, hpm⟩
  cases hm with
  | expand hx hp hst _ => exact hlocal _ hx hp (Config.putOff_congr hst)
  | take hx hp hlt hst _ =>
      have hnone : c.stash = none := Classical.byContradiction fun hn => hd ⟨hn, hlt⟩
      exact hlocal _ hx hp (by rw [Config.putOff_none hst, Config.putOff_none hnone])
  | retry _ hst _ hh he _ _ =>
      -- the alternatives that are dropped are below what was put off as well
      obtain ⟨p, hmem, hpm⟩ := hc.exists_putOff (by simp [hst]) hcan
      rw [Config.putOff_some hst, ← hh, ← he] at hmem
      exact ⟨p, List.mem_append_left _ hmem, hpm⟩
  | defer _ _ _ he hst _ =>
      rcases putOff_defer hst with ⟨hnone, hput⟩ | ⟨hn, hput⟩
      · obtain ⟨p, hmem, hpm⟩ := hcan
        rw [Config.paths, Config.putOff_none hnone, List.append_nil, ← hput] at hmem
        exact ⟨p, List.mem_append_right _ hmem, hpm⟩
      · -- the path put off now is given up, but one put off before it covers it
        obtain ⟨p, hmem, hpm⟩ := hc.exists_putOff hn hcan
        rw [← hput] at hmem
        exact ⟨p, List.mem_append_right _ hmem, hpm⟩

/-- A machine that ends without a match has no path left that can. -/
theorem not_canMatch_of_step_mismatched (hc : m.Covered calls c)
    (h : m.step c = .finished false c') : ¬ m.CanMatch calls c := by
  obtain ⟨-, hf, he, hst⟩ := step_mismatched h
  -- an alternative that is put off has not been used, so the machine would have tried it
  have hnone : c.stash = none := by
    rcases hst with hst | hu
    · exact hst
    · refine Classical.byContradiction fun hn => ?_
      rw [hc.unused hn] at hu
      cases hu
  rintro ⟨p, hmem, hpm⟩
  rw [Config.paths, he, Config.putOff_none hnone] at hmem
  obtain rfl : p = c.here := by simpa using hmem
  obtain ⟨k, ha, -⟩ := hpm
  change Accepts calls m.tokens c.focus _ _ _ at ha
  rw [hf] at ha
  exact not_accepts_reject ha

/-! ## Runs that lose no match -/

theorem Leads.covered (hl : m.Leads c c') (hs : m.Sound calls) (hfwd : calls.Forward m.tokens)
    (h : m.Coherent c) (hc : m.Covered calls c) : m.Covered calls c' := by
  have hstep : ∀ a b, m.step a = .next b → m.Coherent a ∧ m.Covered calls a →
      m.Coherent b ∧ m.Covered calls b := by
    intro a b hs' ⟨ha, hc⟩
    have hm := step_next hs'
    exact ⟨hm.coherent ha, hm.covered hs hfwd ha hc⟩
  exact (hl.invariant hstep ⟨h, hc⟩).2

/-- **A run loses no match**, if what it puts off stays covered and every step that forgets an
alternative leaves a path that can match. The induction is on the run, from its start. -/
theorem Leads.complete (hl : m.Leads c c') (hcomp : m.Complete calls)
    (hfwd : calls.Forward m.tokens) (h : m.Coherent c)
    (hcov : ∀ a, m.Leads c a → m.Covered calls a)
    (hkeep : ∀ a b, m.Leads c a → m.step a = .next b → Discards a b → m.CanMatch calls b)
    (hcan : m.CanMatch calls c) : m.CanMatch calls c' := by
  induction hl with
  | refl => exact hcan
  | @head c₀ c₁ c₂ hstep _ ih =>
      have hm := step_next hstep
      have hcan₁ : m.CanMatch calls c₁ := by
        by_cases hd : Discards c₀ c₁
        · exact hkeep c₀ c₁ .refl hstep hd
        · exact hm.complete hcomp hfwd h (hcov c₀ .refl) hd hcan
      exact ih (hm.coherent h) (fun a ha => hcov a (.head hstep ha))
        (fun a b ha => hkeep a b (.head hstep ha)) hcan₁

/-- **A run that ends without a match shows that the root cannot match**, if nothing is put off. -/
theorem not_accepts_of_run_mismatched {limit : Nat} {root : State} (hlow : m.lowPriority = false)
    (hcomp : m.Complete calls) (hfwd : calls.Forward m.tokens)
    (h : (m.run limit root).outcome = .mismatched) :
    ¬ ∃ k, Accepts calls m.tokens (.state root) none 0 k ∧ endsAt m.tokens k = true := by
  rw [← canMatch_start_iff]
  intro hstart
  obtain ⟨c, hl, he⟩ := m.run_ends limit root
  rw [Run.EndsWith, h] at he
  have hnone : ∀ a, m.Leads (.start root) a → a.stash = none := fun a ha => ha.stash_none hlow rfl
  have hcan := hl.complete hcomp hfwd (m.coherent_start root)
    (fun a ha => covered_of_none (hnone a ha)) (fun a b ha _ hd => absurd (hnone a ha) hd.1) hstart
  exact not_canMatch_of_step_mismatched (covered_of_none (hnone c hl)) he hcan

end Machine

end ValueGrammar

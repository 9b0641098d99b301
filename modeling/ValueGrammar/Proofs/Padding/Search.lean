import ValueGrammar.Proofs.Folding.Simulation
import ValueGrammar.Proofs.Machine.Backtracking
import ValueGrammar.Proofs.Padding.States

/-!
# `ValueGrammar.Proofs.Padding.Search` — searching states with padding

The recursive search answers the same for a state and for a padded one. It comes to an answer for the
padded state with more fuel, so the two are compared where there is enough for that one. A conditional
that only passes the outcome of its test on, and one whose test is merged into it, make no difference to
the search at once. An alternative to what succeeds at once does make one: what comes after is searched
again when it has failed. It fails again then, and goes no further than before, since what a search finds
does not depend on what was noted before it.

## Contents
- `Notes.add`, `Answer.addTo`, `Steady`: what a search finds is added to the notes before it.
- `Machine.steady_interpret`: every search is steady.
- `Answer.Similar`, `Machine.Resembles`: answers that differ in what was looked up only.
- `Machine.Pads`, `Machine.Answers`: machines with the same tokens, and that they answer alike.
- `Machine.Answers.passing`, `Machine.Answers.idle`, `Machine.Answers.merged`: one kind of padding each.
- `Machine.Pads.answers`: the search for padded states.
-/

namespace ValueGrammar

/-! ## What a search adds to the notes -/

namespace Notes

/-- The notes of a search after those from before. -/
def add (notes more : Notes) : Notes :=
  ⟨max notes.longest more.longest, more.lookups ++ notes.lookups⟩

variable {notes more : Notes}

@[simp] theorem longest_add : (notes.add more).longest = max notes.longest more.longest := rfl

theorem add_nothing : notes.add ⟨0, []⟩ = notes := by
  simp [add]

theorem reach_add (i n : Nat) : (notes.add more).reach i n = notes.add (more.reach i n) := by
  unfold reach
  split
  · rfl
  · simp [add, Nat.max_assoc]

theorem look_add (r : Reference) : (notes.add more).look r = notes.add (more.look r) := rfl

end Notes

namespace Answer

variable {ε : Type}

/-- The answer of a search, with the notes from before it. -/
def addTo (notes : Notes) : Answer ε → Answer ε
  | .matched trace more => .matched trace (notes.add more)
  | .mismatched more => .mismatched (notes.add more)
  | .failed error more => .failed error (notes.add more)
  | .exhausted => .exhausted

theorem orElse_addTo {notes : Notes} {v w : Answer ε} {f : Notes → Answer ε} (hv : v = w.addTo notes)
    (hf : ∀ more, f (notes.add more) = (f more).addTo notes) :
    v.orElse f = (w.orElse f).addTo notes := by
  subst hv
  cases w with
  | mismatched more => exact hf more
  | _ => rfl

end Answer

/-- What is found does not depend on what was noted before. -/
def Steady {ε : Type} (k : Continuation ε) : Prop :=
  ∀ p notes more, k p (notes.add more) = (k p more).addTo notes

/-- What has failed fails again, and goes no further. -/
theorem Steady.again {ε : Type} {k : Continuation ε} (hk : Steady k) {p : Point} {notes notes' : Notes}
    (h : k p notes = .mismatched notes') :
    ∃ again, k p notes' = .mismatched again ∧ again.longest = notes'.longest := by
  have hbase := hk p notes ⟨0, []⟩
  have hagain := hk p notes' ⟨0, []⟩
  rw [Notes.add_nothing] at hbase hagain
  rw [h] at hbase
  cases hfound : k p ⟨0, []⟩ with
  | mismatched more =>
      rw [hfound] at hbase hagain
      cases hbase
      exact ⟨_, hagain, by simp⟩
  | _ => rw [hfound] at hbase; cases hbase

namespace Machine

variable {ε : Type} {m m' : Machine ε} {fuel : Nat} {p q : Point} {notes notes' more : Notes}
  {k k' : Continuation ε} {f : Focus}

theorem steady_finish (m : Machine ε) : Steady m.finish := by
  intro p notes more
  unfold finish
  split <;> rfl

theorem steady_afterTest {run : Focus → Point → Notes → Continuation ε → Answer ε} (next : State)
    (p : Point) (hrun : ∀ f, Steady fun q notes => run f q notes k) (hk : Steady k) :
    Steady (afterTest run next p k) := by
  intro q notes more
  unfold afterTest
  split
  · split
    · rfl
    · exact hk q notes more
  · exact hrun _ q notes more

/-- **Every search is steady.** The induction is on the fuel. -/
theorem steady_interpret (fuel : Nat) (f : Focus) (hk : Steady k) :
    Steady fun p notes => m.interpret fuel f p notes k := by
  induction fuel generalizing f k with
  | zero => exact fun _ _ _ => rfl
  | succ fuel ih =>
      intro p notes more
      change m.interpret _ _ _ _ _ = (m.interpret _ _ _ _ _).addTo _
      cases f with
      | resume terms all node taken => exact ih _ hk p notes more
      | choose terms all node index taken =>
          by_cases hi : index = terms.length
          · subst hi
            rw [interpret_last, interpret_last]
            split
            · rfl
            · exact hk p notes more
          by_cases ht : taken = TermSet.full terms.length
          · rw [interpret_full hi ht, interpret_full hi ht]
            exact hk p notes more
          cases hn : nextTerm? taken index (terms.drop index) with
          | none =>
              rw [interpret_skip hi ht hn, interpret_skip hi ht hn]
              exact ih _ hk p notes more
          | some ns =>
              rw [interpret_pick hi ht hn, interpret_pick hi ht hn]
              exact Answer.orElse_addTo (ih _ (ih _ hk) p notes more) (ih _ hk p notes)
      | state s =>
          cases hb : s.branch? with
          | some tno =>
              have hafter := steady_afterTest tno.2.1 p (fun f => ih f hk) hk
              rw [interpret_branch hb, interpret_branch hb]
              exact Answer.orElse_addTo (ih _ hafter p notes more) (ih _ hk p notes)
          | none =>
              cases s with
              | cond | loop => cases hb
              | again body sep => cases sep <;> cases hb
              | accept => exact hk p notes more
              | reject | nonEmpty => rfl
              | enum table =>
                  cases ht : m.tokens[p.index]? with
                  | none => rw [interpret_ended ht, interpret_ended ht]; rfl
                  | some t => rw [interpret_enum ht, interpret_enum ht]; exact ih _ hk p notes more
              | once terms all node => exact ih _ hk p notes more
              | leaf l node =>
                  cases hl : l.take (p.trace.lastToken?.map (·.2)) p.range (m.tokens.drop p.index) with
                  | mk n ok =>
                      rw [interpret_leaf hl, interpret_leaf hl, Notes.reach_add]
                      split
                      · exact hk _ notes _
                      · rfl
              | call r range node =>
                  rw [interpret_reference, interpret_reference, Notes.look_add]
                  split
                  · rfl
                  · rfl
                  · exact ih _ (fun q => hk q.exit) _ notes _

end Machine

/-! ## Answers that are alike -/

/-- The answers are the same up to what was looked up, unless there was not enough fuel for the
second. -/
inductive Answer.Similar {ε : Type} : Answer ε → Answer ε → Prop where
  | exhausted {v} : Similar v .exhausted
  | matched {trace notes notes'} (h : notes'.longest = notes.longest) :
      Similar (.matched trace notes) (.matched trace notes')
  | mismatched {notes notes'} (h : notes'.longest = notes.longest) :
      Similar (.mismatched notes) (.mismatched notes')
  | failed {error notes notes'} (h : notes'.longest = notes.longest) :
      Similar (.failed error notes) (.failed error notes')

namespace Answer

variable {ε : Type} {v v' w : Answer ε} {f f' : Notes → Answer ε}

theorem Similar.of_le (h : v.Similar v') (hle : v.Le w) : w.Similar v' := by
  rcases hle with rfl | rfl
  · cases h
    exact .exhausted
  · exact h

theorem Similar.of_matched {trace trace' : Trace} {notes notes' : Notes}
    (h : (Answer.matched trace notes : Answer ε).Similar (.matched trace' notes')) :
    trace' = trace ∧ notes'.longest = notes.longest := by
  cases h with
  | matched h => exact ⟨rfl, h⟩

/-- A failure that went just as far is alike. -/
theorem Similar.of_mismatched {notes again : Notes} (h : (Answer.mismatched again).Similar v')
    (hlongest : again.longest = notes.longest) : (Answer.mismatched notes).Similar v' := by
  cases h with
  | exhausted => exact .exhausted
  | mismatched h => exact .mismatched (h.trans hlongest)

theorem Similar.orElse (h : v.Similar v')
    (hf : ∀ notes notes', notes'.longest = notes.longest → (f notes).Similar (f' notes')) :
    (v.orElse f).Similar (v'.orElse f') := by
  cases h with
  | exhausted => exact .exhausted
  | mismatched h => exact hf _ _ h
  | matched h => exact .matched h
  | failed h => exact .failed h

end Answer

namespace Machine

variable {ε : Type} {m m' : Machine ε} {fuel : Nat} {p q : Point} {notes notes' : Notes}
  {k k' : Continuation ε} {f : Focus}

/-- The second continuation answers as the first does, wherever something looked at from the point can
succeed. -/
def Resembles (m : Machine ε) (p : Point) (k k' : Continuation ε) : Prop :=
  ∀ q notes notes', p.Beyond m.tokens q → notes'.longest = notes.longest →
    (k q notes).Similar (k' q notes')

theorem Resembles.weaken (h : m.Resembles p k k') (hp : p.Beyond m.tokens q) :
    m.Resembles q k k' := fun q' notes notes' hq => h q' notes notes' (hp.trans hq)

/-- The machines have the same tokens, and the second one is for padded states. -/
structure Pads (m m' : Machine ε) : Prop where
  tokens : m'.tokens = m.tokens
  resolve : ∀ r, Agree (Option.Rel State.Pads) (m.resolve r) (m'.resolve r)

end Machine

/-- What is looked at is the same but for padding. -/
inductive Focus.Pads : Focus → Focus → Prop where
  | state {s s'} (h : s.Pads s') : Pads (.state s) (.state s')
  | choose {terms terms' all node index taken} (h : List.Forall₂ State.Pads terms terms') :
      Pads (.choose terms all node index taken) (.choose terms' all node index taken)
  | resume {terms terms' all node taken} (h : List.Forall₂ State.Pads terms terms') :
      Pads (.resume terms all node taken) (.resume terms' all node taken)

namespace Machine

variable {ε : Type} {m m' : Machine ε} {fuel : Nat} {p q : Point} {notes notes' : Notes}
  {k k' : Continuation ε}

/-- The second machine answers as the first one does, with the same fuel for what is padded. -/
def Answers (m m' : Machine ε) (fuel : Nat) : Prop :=
  ∀ ⦃f f' : Focus⦄ ⦃p : Point⦄ ⦃notes notes' : Notes⦄ ⦃k k' : Continuation ε⦄, f.Pads f' →
    p.Tracked m.tokens → notes'.longest = notes.longest → Steady k → m.Resembles p k k' →
      (m.interpret fuel f p notes k).Similar (m'.interpret fuel f' p notes' k')

/-! ### Padding -/

theorem extends_refl (m : Machine ε) (p : Point) (k : Continuation ε) : m.Extends p k k :=
  fun _ _ _ => .refl _

/-- A state that succeeds at once comes to what is after it. -/
theorem interpret_accept_le : (m.interpret fuel (.state .accept) p notes k).Le (k p notes) := by
  cases fuel with
  | zero => exact Answer.exhausted_le _
  | succ fuel => exact .refl _

theorem interpret_reject_le : (m.interpret fuel (.state .reject) p notes k).Le (.mismatched notes) := by
  cases fuel with
  | zero => exact Answer.exhausted_le _
  | succ fuel => exact .refl _

theorem afterTest_state {run : Focus → Point → Notes → Continuation ε → Answer ε} {next : State}
    (hn : next ≠ .nonEmpty) : afterTest run next p k q notes = run (.state next) q notes k := by
  unfold afterTest
  split
  · exact absurd rfl hn
  · rfl

/-- The test of a conditional is searched as the test of the conditional that it is merged into. -/
theorem interpret_le_test {s test next : State} (hb : s.branch? = some (test, next, .reject))
    (hp : p.Tracked m.tokens) :
    (m.interpret fuel (.state s) p notes k).Le
      (m.interpret fuel (.state test) p notes (afterTest (m.interpret fuel) next p k)) := by
  -- the state is searched as the conditional is that it stands for
  have hcond : m.interpret fuel (.state s) p notes k =
      m.interpret fuel (.state (.cond test next .reject)) p notes k := by
    cases fuel with
    | zero => rfl
    | succ fuel => rw [interpret_branch hb, interpret_branch rfl]
  have hmore : (m.interpret fuel (.state (.cond test next .reject)) p notes k).Le
      (m.interpret (fuel + 1) (.state (.cond test next .reject)) p notes k) :=
    interpret_le (Nat.le_succ fuel) hp (m.extends_refl p k)
  rw [hcond, ← Answer.orElse_mismatched (m.interpret fuel (.state test) p notes _)]
  rw [interpret_branch rfl] at hmore
  exact hmore.trans (.orElse (.refl _) fun _ => interpret_reject_le)

section answers

variable (h : m.Answers m' fuel) (hp : p.Tracked m.tokens) (hnotes : notes'.longest = notes.longest)
  (hk : Steady k) (hkk' : m.Resembles p k k')

include h hk hkk'

/-- Going on with what succeeds at once is going on. -/
theorem Answers.after {next' : State} (hn : State.accept.Pads next') :
    m.Resembles p k (afterTest (m'.interpret fuel) next' p k') := by
  intro q notes notes' hq hnotes
  rw [afterTest_state hn.ne_nonEmpty.2]
  exact (h (.state hn) hq.2 hnotes hk (hkk'.weaken hq)).of_le interpret_accept_le

include hp hnotes

/-- A conditional that only passes the outcome of its test on. -/
theorem Answers.passing {s test' next' other' : State} (ht : s.Pads test')
    (hn : State.accept.Pads next') (ho : State.reject.Pads other') :
    (m.interpret (fuel + 1) (.state s) p notes k).Similar
      (m'.interpret (fuel + 1) (.state (.cond test' next' other')) p notes' k') := by
  have htest := h (.state ht) hp hnotes hk (h.after hk hkk' hn)
  have hmore : (m.interpret fuel (.state s) p notes k).Le
      (m.interpret (fuel + 1) (.state s) p notes k) :=
    interpret_le (Nat.le_succ fuel) hp (m.extends_refl p k)
  refine Answer.Similar.of_le ?_ hmore
  rw [interpret_branch (m := m') rfl, ← Answer.orElse_mismatched (m.interpret fuel (.state s) p notes k)]
  exact htest.orElse fun notes notes' hnotes =>
    (h (.state ho) hp hnotes hk hkk').of_le interpret_reject_le

/-- A conditional that succeeds whatever happens: what comes after it is searched again. -/
theorem Answers.idle {test' next' other' : State} (ht : State.accept.Pads test')
    (hn : State.accept.Pads next') (ho : State.accept.Pads other') :
    (m.interpret (fuel + 1) (.state .accept) p notes k).Similar
      (m'.interpret (fuel + 1) (.state (.cond test' next' other')) p notes' k') := by
  have htest := (h (.state ht) hp hnotes hk (h.after hk hkk' hn)).of_le interpret_accept_le
  rw [interpret_branch (m := m') rfl]
  change (k p notes).Similar _
  generalize hv : k p notes = v, m'.interpret fuel (.state test') p notes' _ = v' at htest ⊢
  cases htest with
  | exhausted => exact .exhausted
  | matched h => exact .matched h
  | failed h => exact .failed h
  | mismatched hlongest =>
      obtain ⟨again, hagain, hsame⟩ := hk.again hv
      have hother := (h (.state ho) hp hlongest hk hkk').of_le interpret_accept_le
      rw [hagain] at hother
      exact hother.of_mismatched hsame

/-- A conditional whose test is merged into it. -/
theorem Answers.merged {s s' test next other next' other' : State} (hs : s.Pads s')
    (hb : s.branch? = some (test, next, .reject)) (hn : State.accept.Pads next')
    (ho : other.Pads other') :
    (m.interpret (fuel + 1) (.state (.cond test next other)) p notes k).Similar
      (m'.interpret (fuel + 1) (.state (.cond s' next' other')) p notes' k') := by
  have htest := h (.state hs) hp hnotes hk (h.after hk hkk' hn)
  rw [interpret_branch rfl, interpret_branch rfl]
  exact (htest.of_le (interpret_le_test hb hp)).orElse fun _ _ hnotes =>
    h (.state ho) hp hnotes hk hkk'

/-! ### What is the same -/

theorem Answers.branch {s s' test next other test' next' other' : State}
    (hb : s.branch? = some (test, next, other)) (hb' : s'.branch? = some (test', next', other'))
    (ht : test.Pads test') (hn : (next = .nonEmpty ∧ next' = .nonEmpty) ∨ next.Pads next')
    (ho : other.Pads other') :
    (m.interpret (fuel + 1) (.state s) p notes k).Similar
      (m'.interpret (fuel + 1) (.state s') p notes' k') := by
  have hafter : m.Resembles p (afterTest (m.interpret fuel) next p k)
      (afterTest (m'.interpret fuel) next' p k') := by
    intro q notes notes' hq hnotes
    rcases hn with ⟨rfl, rfl⟩ | hn
    · change (if _ then _ else _ : Answer ε).Similar (if _ then _ else _)
      split
      · exact .mismatched hnotes
      · exact hkk' q notes notes' hq hnotes
    · rw [afterTest_state hn.ne_nonEmpty.1, afterTest_state hn.ne_nonEmpty.2]
      exact h (.state hn) hq.2 hnotes hk (hkk'.weaken hq)
  have hsteady : Steady (afterTest (m.interpret fuel) next p k) :=
    steady_afterTest next p (fun f => steady_interpret fuel f hk) hk
  rw [interpret_branch hb, interpret_branch hb']
  exact (h (.state ht) hp hnotes hsteady hafter).orElse fun _ _ hnotes =>
    h (.state ho) hp hnotes hk hkk'

theorem Answers.choose {terms terms' : List State} {all : Bool} {node : Grammar} {index : Nat}
    {taken : TermSet} (hterms : List.Forall₂ State.Pads terms terms') :
    (m.interpret (fuel + 1) (.choose terms all node index taken) p notes k).Similar
      (m'.interpret (fuel + 1) (.choose terms' all node index taken) p notes' k') := by
  have hself := hkk' p notes notes' (Point.beyond_self hp) hnotes
  have hlen := hterms.length_eq
  by_cases hi : index = terms.length
  · obtain rfl : index = terms'.length := hi.trans hlen
    rw [interpret_last, hi, interpret_last]
    split
    · exact .mismatched hnotes
    · exact hself
  have hi' : index ≠ terms'.length := fun he => hi (he.trans hlen.symm)
  by_cases ht : taken = TermSet.full terms.length
  · rw [interpret_full hi ht, interpret_full hi' (hlen ▸ ht)]
    exact hself
  have ht' : taken ≠ TermSet.full terms'.length := hlen ▸ ht
  have hnext := rel_nextTerm? (List.forall₂_drop index hterms) taken index
  generalize hn : nextTerm? taken index (terms.drop index) = next,
    hn' : nextTerm? taken index (terms'.drop index) = next' at hnext
  cases hnext with
  | none =>
      rw [interpret_skip hi ht hn, interpret_skip hi' ht' hn', ← hlen]
      exact h (.choose hterms) hp hnotes hk hkk'
  | @some t t' hpick =>
      obtain ⟨number, s⟩ := t
      obtain ⟨number', s'⟩ := t'
      obtain ⟨hnumber, hs⟩ := hpick
      obtain rfl : number' = number := hnumber
      rw [interpret_pick hi ht hn, interpret_pick hi' ht' hn']
      -- when the term has matched, the group goes on with the terms that are left
      have hresume : ∀ taken, m.Resembles p
          (fun q notes => m.interpret fuel (.resume terms all node taken) q notes k)
          (fun q notes => m'.interpret fuel (.resume terms' all node taken) q notes k') :=
        fun taken q _ _ hq hnotes => h (.resume hterms) hq.2 hnotes hk (hkk'.weaken hq)
      exact (h (.state hs) hp hnotes (steady_interpret fuel _ hk) (hresume _)).orElse
        fun _ _ hnotes => h (.choose hterms) hp hnotes hk hkk'

end answers

/-- **The search answers alike for a state and for a padded one**, where it has enough fuel for the
second. The induction is on the fuel. -/
theorem Pads.answers (hm : m.Pads m') (fuel : Nat) : m.Answers m' fuel := by
  induction fuel with
  | zero => exact fun _ _ _ _ _ _ _ _ _ _ _ _ => .exhausted
  | succ fuel ih =>
      intro f f' p notes notes' k k' hf hp hnotes hk hkk'
      cases hf with
      | choose hterms => exact ih.choose hp hnotes hk hkk' hterms
      | resume hterms => exact ih (.choose hterms) hp hnotes hk hkk'
      | state hs =>
          cases hs with
          | accept => exact hkk' p notes notes' (Point.beyond_self hp) hnotes
          | reject => exact .mismatched hnotes
          | cond ht hn ho => exact ih.branch hp hnotes hk hkk' rfl rfl ht (.inr hn) ho
          | checked ht ho => exact ih.branch hp hnotes hk hkk' rfl rfl ht (.inl ⟨rfl, rfl⟩) ho
          | loop h => exact ih.branch hp hnotes hk hkk' rfl rfl h (.inr (.again h)) .reject
          | @again body body' sep h =>
              cases sep with
              | none => exact ih.branch hp hnotes hk hkk' rfl rfl .accept (.inr .accept) (.loop h)
              | some node =>
                  exact ih.branch hp hnotes hk hkk' rfl rfl .accept (.inr .accept)
                    (.cond .leaf (.loop h) .reject)
          | @enum table table' hkeys h =>
              cases ht : m.tokens[p.index]? with
              | none =>
                  rw [interpret_ended ht, interpret_ended (hm.tokens ▸ ht)]
                  exact .mismatched hnotes
              | some t =>
                  rw [interpret_enum ht, interpret_enum (hm.tokens ▸ ht)]
                  have hfound := State.Pads.lookup hkeys h (stripHack (Text.lower t.value))
                  generalize table.lookup _ = found, table'.lookup _ = found' at hfound ⊢
                  cases hfound with
                  | none => exact ih (.state .reject) hp hnotes hk hkk'
                  | some hs => exact ih (.state hs) hp hnotes hk hkk'
          | once h => exact ih (.choose h) hp hnotes hk hkk'
          | @leaf l node =>
              cases hl : l.take (p.trace.lastToken?.map (·.2)) p.range (m.tokens.drop p.index) with
              | mk n ok =>
                  have hreach : (notes'.reach p.index n).longest = (notes.reach p.index n).longest :=
                    Notes.longest_reach hnotes
                  rw [interpret_leaf hl, interpret_leaf (hm.tokens ▸ hl), hm.tokens]
                  cases ok with
                  | true => exact hkk' _ _ _ (Point.beyond_take hp (Leaf.le_length_of_take hl)) hreach
                  | false => exact .mismatched hreach
          | @call r range node =>
              rw [interpret_reference, interpret_reference]
              have hagree := hm.resolve r
              generalize m.resolve r = found, m'.resolve r = found' at hagree
              cases hagree with
              | error => exact .failed hnotes
              | ok hfound =>
                  cases hfound with
                  | none => exact .failed hnotes
                  | some hs =>
                      exact ih (.state hs) (hp.enter node range) hnotes (fun q => hk q.exit)
                        fun q _ _ hq hnotes => hkk' q.exit _ _ hq.exit hnotes
          | passing ht hn ho => exact ih.passing hp hnotes hk hkk' ht hn ho
          | idle ht hn ho => exact ih.idle hp hnotes hk hkk' ht hn ho
          | merged hs hb hn ho => exact ih.merged hp hnotes hk hkk' hs hb hn ho

/-! ## Runs -/

/-- The answer of a run that puts nothing off is that of the search, once it has enough fuel. -/
theorem exists_answer_le (root : State) (hlow : m.lowPriority = false) (limit : Nat) :
    ∃ enough, ∀ fuel, enough ≤ fuel →
      (m.run limit root).answer.Le (m.interpret fuel (.state root) .start ⟨0, []⟩ m.finish) := by
  by_cases hlimited : (m.run limit root).outcome = .limited
  · refine ⟨0, fun fuel _ => .inl ?_⟩
    rw [Run.answer, hlimited]
  · obtain ⟨c, hl, he⟩ := m.run_ends limit root
    obtain ⟨enough, hle⟩ := hl.search_le hlow (m.coherent_start root) rfl 1
    rw [search_of_endsWith hlimited he] at hle
    refine ⟨enough, fun fuel hfuel => hle.trans ?_⟩
    change Answer.Le ((m.followWith enough (Config.start root).here ⟨0, []⟩).orElse .mismatched) _
    rw [Answer.orElse_mismatched]
    exact interpret_le hfuel Trace.tracks_nil extends_finish

theorem Pads.resembles_finish (hm : m.Pads m') (p : Point) : m.Resembles p m.finish m'.finish := by
  intro q notes notes' _ hnotes
  unfold finish
  rw [hm.tokens]
  split
  · exact .matched hnotes
  · exact .mismatched hnotes

theorem Run.alike_of_similar {r r' : Run ε} (hr' : r'.outcome ≠ .limited)
    (h : r.answer.Similar r'.answer) : r.Alike r' := by
  unfold Run.answer at h
  cases ho' : r'.outcome with
  | limited => exact absurd ho' hr'
  | matched =>
      cases ho : r.outcome with
      | matched =>
          rw [ho, ho'] at h
          obtain ⟨htrace, hlongest⟩ := h.of_matched
          exact ⟨ho'.trans ho.symm, hlongest, fun _ => htrace⟩
      | _ => rw [ho, ho'] at h; cases h
  | mismatched =>
      cases ho : r.outcome with
      | mismatched =>
          rw [ho, ho'] at h
          cases h with
          | mismatched hlongest =>
              exact ⟨ho'.trans ho.symm, hlongest, fun hm => by rw [ho] at hm; cases hm⟩
      | _ => rw [ho, ho'] at h; cases h
  | failed error =>
      cases ho : r.outcome with
      | failed error' =>
          rw [ho, ho'] at h
          cases h with
          | failed hlongest =>
              exact ⟨ho'.trans ho.symm, hlongest, fun hm => by rw [ho] at hm; cases hm⟩
      | _ => rw [ho, ho'] at h; cases h

/-- **Runs from a state and from a padded one end alike**, if nothing is put off and neither is cut
off. -/
theorem Pads.alike (hm : m.Pads m') {root root' : State} (hroot : root.Pads root')
    (hlow : m.lowPriority = false) (hlow' : m'.lowPriority = false) {limit limit' : Nat}
    (hr : (m.run limit root).outcome ≠ .limited) (hr' : (m'.run limit' root').outcome ≠ .limited) :
    (m.run limit root).Alike (m'.run limit' root') := by
  obtain ⟨enough, hsearch⟩ := exists_answer_le root hlow limit
  obtain ⟨enough', hsearch'⟩ := exists_answer_le root' hlow' limit'
  have hanswers : (m.interpret (max enough enough') (.state root) .start ⟨0, []⟩ m.finish).Similar
      (m'.interpret (max enough enough') (.state root') .start ⟨0, []⟩ m'.finish) :=
    hm.answers _ (.state hroot) Trace.tracks_nil rfl m.steady_finish (hm.resembles_finish .start)
  have hle := hsearch _ (Nat.le_max_left enough enough')
  have hle' := hsearch' _ (Nat.le_max_right enough enough')
  rw [← hle.resolve_left (Run.answer_ne_exhausted hr),
    ← hle'.resolve_left (Run.answer_ne_exhausted hr')] at hanswers
  exact Run.alike_of_similar hr' hanswers

end Machine

end ValueGrammar

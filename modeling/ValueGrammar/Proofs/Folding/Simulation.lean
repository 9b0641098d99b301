import ValueGrammar.Proofs.Folding.Passing
import ValueGrammar.Proofs.Machine.Halting

/-!
# `ValueGrammar.Proofs.Folding.Simulation` — a search with tables and one without

Two machines walk the same tokens, one through states with tables, the other through states in which
the alternatives of the tables stand in turn. The second one makes more steps and keeps more
alternatives, those that a table leaves out because they fail in place. It passes them before it goes
on to an earlier place, so that both machines try what was put off at the same time.

So one search follows the other: each step of the first is made by the second in some number of steps,
unless the second comes to a reference that leads nowhere and that the first did not look up. They end
in the same way, with the same trace.

## Contents
- `Unfolded`, `Config.Spreads`, `Machine.Spreads`: searches with tables and without.
- `Machine.reaches_top`, `Machine.reaches_level_top`: alternatives that fail in place are passed.
- `Machine.advances_reject`, `Machine.advances_table`, …: one kind of step each.
- `Machine.Spreads.advances`: one search follows the other.
- `Machine.Run.Alike`, `Machine.Spreads.alike_or_unresolved`: they end in the same way.
- `Machine.Unfolds.exists_alike`: where tables have only leaves, they always do.
-/

namespace ValueGrammar

open Relation

variable {ε : Type} {m m' : Machine ε} {p : Reference → Prop} {i : Nat}

/-! ## Searches with tables and without -/

/-- The second state is the first one with the alternatives of its tables in turn, those that fail in
place where they are not found. -/
abbrev Machine.Spread (m : Machine ε) (p : Reference → Prop) : State → State → Prop :=
  State.Spreads (m.FoundUnder p)

/-- What is looked at with tables and without. -/
inductive Focus.Spreads (m : Machine ε) (p : Reference → Prop) : Focus → Focus → Prop where
  | state {s s'} (h : m.Spread p s s') : Spreads m p (.state s) (.state s')
  | choose {terms terms' all node index taken} (h : List.Forall₂ (m.Spread p) terms terms') :
      Spreads m p (.choose terms all node index taken) (.choose terms' all node index taken)
  | resume {terms terms' all node taken} (h : List.Forall₂ (m.Spread p) terms terms') :
      Spreads m p (.resume terms all node taken) (.resume terms' all node taken)

theorem Focus.Spreads.nonEmpty_iff {f f' : Focus} (h : f.Spreads m p f') :
    f = .state .nonEmpty ↔ f' = .state .nonEmpty := by
  cases h with
  | @state s s' h =>
      rcases h.sentinel with ⟨rfl, -⟩ | ⟨hs, hs'⟩
      · rfl
      · constructor
        · intro he; cases he; exact absurd trivial hs
        · intro he; cases he; exact absurd trivial hs'
  | _ => constructor <;> intro he <;> cases he

theorem Focus.Spreads.eq_reject {f : Focus} (h : f.Spreads m p (.state .reject)) :
    f = .state .reject := by
  cases h with
  | @state s _ h =>
      rcases h.sentinel with ⟨rfl, -⟩ | ⟨-, hs'⟩
      · rfl
      · exact absurd trivial hs'

/-- Continuations differ only in what is looked at. -/
structure Then.Spreads (m : Machine ε) (p : Reference → Prop) (t t' : Then) : Prop where
  next : t.next.Spreads m p t'.next
  trace : t'.trace = t.trace
  scopes : t'.scopes = t.scopes

/-- Alternatives differ only in what is looked at; without tables there may be entries in front of it
that fail in place. -/
structure Else.Spreads (m : Machine ε) (p : Reference → Prop) (e e' : Else) : Prop where
  next : ∃ f, e.next.Spreads m p f ∧
    (e'.next = f ∨ ∃ s rest, e'.next = .state s ∧ f = .state rest ∧ s.Falls m p e.index rest)
  index : e'.index = e.index
  thens : List.Forall₂ (Then.Spreads m p) e.thens e'.thens
  scopes : e'.scopes = e.scopes
  trace : e'.trace = e.trace

/-- The alternatives of a search at place `i`, whose places only go down. Without tables there may be
further ones, which fail in place. -/
inductive Unfolded (m : Machine ε) (p : Reference → Prop) : Nat → List Else → List Else → Prop where
  | nil {i : Nat} : Unfolded m p i [] []
  | cons {i : Nat} {e e' elses elses'} (hi : e.index ≤ i) (h : e.Spreads m p e')
      (hrest : Unfolded m p e.index elses elses') : Unfolded m p i (e :: elses) (e' :: elses')
  | skip {i : Nat} {s e' elses elses'} (hi : e'.index ≤ i) (hf : e'.next = .state s)
      (h : s.Falls m p e'.index .reject) (hrest : Unfolded m p e'.index elses elses') :
      Unfolded m p i elses (e' :: elses')

/-- What was put off, with tables and without. -/
def PutOff.Spreads (m : Machine ε) (p : Reference → Prop) (s s' : Else × List Else) : Prop :=
  s.1.Spreads m p s'.1 ∧ Unfolded m p s.1.index s.2 s'.2

/-- The configurations of a search with tables and without. Where a path has failed it does not matter
which one it was. -/
structure Config.Spreads (m : Machine ε) (p : Reference → Prop) (c c' : Config) : Prop where
  focus : c.focus.Spreads m p c'.focus
  index : c'.index = c.index
  elses : Unfolded m p c.index c.elses c'.elses
  stash : Option.Rel (PutOff.Spreads m p) c.stash c'.stash
  stashUsed : c'.stashUsed = c.stashUsed
  longest : c'.longest = c.longest
  path : c'.focus ≠ .state .reject →
    List.Forall₂ (Then.Spreads m p) c.thens c'.thens ∧ c'.scopes = c.scopes ∧ c'.trace = c.trace

variable {elses elses' : List Else} {e e' : Else} {c c' c₁ c₁' : Config}

theorem Unfolded.mono {j : Nat} (h : Unfolded m p i elses elses') (hle : i ≤ j) :
    Unfolded m p j elses elses' := by
  cases h with
  | nil => exact .nil
  | cons hi h hrest => exact .cons (hi.trans hle) h hrest
  | skip hi hf h hrest => exact .skip (hi.trans hle) hf h hrest

theorem Unfolded.index_le (h : Unfolded m p i elses elses') : ∀ e ∈ elses.head?, e.index ≤ i := by
  induction h with
  | nil => simp
  | cons hi => simpa using hi
  | skip hi _ _ _ ih => exact fun e he => (ih e he).trans hi

namespace Config

theorem spreads_of {focus : Focus} {thens : List Then} {elses : List Else}
    {stash : Option (Else × List Else)} {lookups : List Reference} (hf : c.focus.Spreads m p focus)
    (ht : List.Forall₂ (Then.Spreads m p) c.thens thens) (he : Unfolded m p c.index c.elses elses)
    (hs : Option.Rel (PutOff.Spreads m p) c.stash stash) :
    c.Spreads m p { c with focus, thens, elses, stash, lookups } :=
  ⟨hf, rfl, he, hs, rfl, rfl, fun _ => ⟨ht, rfl, rfl⟩⟩

/-- What is passed in place does not matter. -/
theorem Spreads.passedTo {f : Focus} (h : c.Spreads m p { c' with focus := f })
    (h' : c'.PassedTo f c₁') : c.Spreads m p c₁' where
  focus := h'.focus ▸ h.focus
  index := h'.index.trans h.index
  elses := h'.elses ▸ h.elses
  stash := h'.stash ▸ h.stash
  stashUsed := h'.stashUsed.trans h.stashUsed
  longest := h'.longest.trans h.longest
  path hf := by
    rw [h'.focus] at hf
    obtain ⟨ht, hs, htr⟩ := h.path hf
    obtain ⟨ht', hs', htr'⟩ := h'.path hf
    rw [ht', hs', htr']
    exact ⟨ht, hs, htr⟩

end Config

theorem Notes.longest_reach {notes notes' : Notes} {n : Nat} (h : notes'.longest = notes.longest) :
    (notes'.reach i n).longest = (notes.reach i n).longest := by
  unfold reach
  split
  · exact h
  · simp only [h]

namespace Machine

/-! ## Alternatives that are passed -/

/-- An alternative that fails in place leads back to the ones below it. -/
theorem reaches_skip {s : State} (hf : c.focus = .state .reject) (he : c.elses = e' :: elses')
    (hs : c.stash = none ∨ c.stashUsed = true ∨ c.index ≤ e'.index) (hnext : e'.next = .state s)
    (h : s.Falls m p e'.index .reject) :
    m.Reaches p c ((c.restore e' elses').PassedTo (.state .reject)) :=
  .of_step (step_reject_pop hf he hs) (reaches_of_falls (c := c.restore e' elses') h rfl hnext)

/-- The same alternative is on top with tables and without. -/
def SameTop (m : Machine ε) (p : Reference → Prop) (elses elses' : List Else) : Prop :=
  ∃ e rest e' rest', elses = e :: rest ∧ elses' = e' :: rest' ∧ e.Spreads m p e' ∧
    Unfolded m p e.index rest rest'

/-- Where nothing was put off the alternatives that fail in place are passed, until the same one is on
top with tables and without, or none is left. The induction is on the alternatives. -/
theorem reaches_top (h : Unfolded m p i elses elses') (hf : c.focus = .state .reject)
    (he : c.elses = elses') (hs : c.stash = none ∨ c.stashUsed = true) :
    m.Reaches p c fun c₁ => ∃ j elses₁,
      Config.PassedTo { c with index := j, elses := elses₁ } (.state .reject) c₁ ∧
        (elses = [] ∧ elses₁ = [] ∨ m.SameTop p elses elses₁) := by
  induction h generalizing c with
  | nil => exact .here ⟨c.index, c.elses, Config.passedTo_self hf, .inl ⟨rfl, he⟩⟩
  | cons _ h hrest =>
      exact .here ⟨c.index, c.elses, Config.passedTo_self hf,
        .inr ⟨_, _, _, _, rfl, he, h, hrest⟩⟩
  | @skip i s e' elses elses' _ hnext hfalls _ ih =>
      refine (reaches_skip hf he (hs.imp_right .inl) hnext hfalls).bind fun c₁ h₁ => ?_
      have hs₁ : c₁.stash = none ∨ c₁.stashUsed = true := by rwa [h₁.stash, h₁.stashUsed]
      refine (ih h₁.focus h₁.elses hs₁).bind fun c₂ ⟨j, elses₁, h₂, htop⟩ => ?_
      have hlevel : Config.Level { c with index := j, elses := elses₁ }
          { c₁ with index := j, elses := elses₁ } := ⟨rfl, rfl, h₁.stash, h₁.stashUsed, h₁.longest⟩
      exact .here ⟨j, elses₁, hlevel.rejected h₂, htop⟩

/-- The alternatives of this place that fail are passed, until the same one of this place is on top, or
only earlier places are left. The induction is on the alternatives. -/
theorem reaches_level_top (h : Unfolded m p i elses elses') (hi : c.index = i)
    (hf : c.focus = .state .reject) (he : c.elses = elses') :
    m.Reaches p c fun c₁ => ∃ elses₁,
      Config.PassedTo { c with elses := elses₁ } (.state .reject) c₁ ∧
        ((∀ e ∈ elses.head?, e.index < i) ∧ (∀ e ∈ elses₁.head?, e.index < i) ∨
          m.SameTop p elses elses₁ ∧ (∀ e ∈ elses.head?, i ≤ e.index)) := by
  induction h generalizing c with
  | nil =>
      exact .here ⟨c.elses, Config.passedTo_self hf, .inl ⟨by simp, by simp [he]⟩⟩
  | @cons i e e' elses elses' hle h hrest =>
      refine .here ⟨c.elses, Config.passedTo_self hf, ?_⟩
      by_cases hlt : e.index < i
      · exact .inl ⟨by simpa using hlt, by simpa [he, h.index] using hlt⟩
      · exact .inr ⟨⟨_, _, _, _, rfl, he, h, hrest⟩, by simpa using Nat.le_of_not_lt hlt⟩
  | @skip i s e' elses elses' hle hnext hfalls hrest ih =>
      by_cases hlt : e'.index < i
      · -- the alternatives below it are of earlier places as well
        refine .here ⟨c.elses, Config.passedTo_self hf, .inl ⟨fun e he => ?_, by simpa [he] using hlt⟩⟩
        exact Nat.lt_of_le_of_lt (hrest.index_le e he) hlt
      · obtain rfl : e'.index = i := Nat.le_antisymm hle (Nat.le_of_not_lt hlt)
        refine (reaches_skip hf he (.inr (.inr hi.le)) hnext hfalls).bind fun c₁ h₁ => ?_
        refine (ih h₁.index h₁.focus h₁.elses).bind fun c₂ ⟨elses₁, h₂, htop⟩ => ?_
        have hlevel : Config.Level { c with elses := elses₁ } { c₁ with elses := elses₁ } :=
          ⟨h₁.index.trans hi.symm, rfl, h₁.stash, h₁.stashUsed, h₁.longest⟩
        exact .here ⟨elses₁, hlevel.rejected h₂, htop⟩

/-! ## One search follows the other -/

/-- The references of the second machine stand for the states of the first with the alternatives of
their tables in turn. -/
structure Spreads (m : Machine ε) (p : Reference → Prop) (m' : Machine ε) : Prop where
  tokens : m'.tokens = m.tokens
  lowPriority : m'.lowPriority = m.lowPriority
  resolve : ∀ r, Agree (Option.Rel (m'.Spread p)) (m.resolve r) (m'.resolve r)

end Machine

/-- Both steps end a search, in the same way. -/
inductive Step.EndsAlike {ε : Type} : Step ε → Step ε → Prop where
  | matched {c c' : Config} (hscopes : c'.scopes = c.scopes) (htrace : c'.trace = c.trace)
      (hlongest : c'.longest = c.longest) : EndsAlike (.finished true c) (.finished true c')
  | mismatched {c c' : Config} (hlongest : c'.longest = c.longest) :
      EndsAlike (.finished false c) (.finished false c')
  | failed {error : MachineError ε} {c c' : Config} (hlongest : c'.longest = c.longest) :
      EndsAlike (.failed error c) (.failed error c')

theorem Step.EndsAlike.ne_next {ε : Type} {s s' : Step ε} (h : s.EndsAlike s') :
    (∀ c, s ≠ .next c) ∧ ∀ c, s' ≠ .next c := by
  cases h <;> exact ⟨fun _ he => (by cases he), fun _ he => (by cases he)⟩

namespace Machine

/-- The first search makes steps that the second one follows, or both end. -/
def Advances (m : Machine ε) (p : Reference → Prop) (m' : Machine ε) (c c' : Config) : Prop :=
  (∃ c₀ c₁, m.step c = .next c₀ ∧ m.Leads c₀ c₁ ∧ m'.Reaches p c' (c₁.Spreads m' p)) ∨
    m'.Reaches p c' fun c₁' => (m.step c).EndsAlike (m'.step c₁')

theorem advances_of_step (hs : m.step c = .next c₁) (hs' : m'.step c' = .next c₁')
    (h : c₁.Spreads m' p c₁') : m.Advances p m' c c' :=
  .inl ⟨c₁, c₁, hs, .refl, .of_step hs' (.here h)⟩

theorem advances_of_leads {c₂ c₃ : Config} (h : m.Leads c c₁) (hs : m.step c₁ = .next c₂)
    (h' : m.Leads c₂ c₃) (hr : m'.Reaches p c' (c₃.Spreads m' p)) : m.Advances p m' c c' := by
  cases h with
  | refl => exact .inl ⟨c₂, c₃, hs, h', hr⟩
  | head hs₀ h₀ => exact .inl ⟨_, c₃, hs₀, (h₀.tail hs).trans h', hr⟩

theorem advances_of_end (h : (m.step c).EndsAlike (m'.step c')) : m.Advances p m' c c' :=
  .inr (.here h)

/-- Of terms that are related one by one, the first that is left is the same one. -/
theorem rel_nextTerm? {R : State → State → Prop} {terms terms' : List State}
    (h : List.Forall₂ R terms terms') (taken : TermSet) (n : Nat) :
    Option.Rel (fun q q' => q'.1 = q.1 ∧ R q.2 q'.2) (nextTerm? taken n terms)
      (nextTerm? taken n terms') := by
  induction h generalizing n with
  | nil => exact .none
  | cons hs _ ih =>
      rw [nextTerm?, nextTerm?]
      split
      · exact ih (n + 1)
      · exact .some ⟨rfl, hs⟩

/-- Going back to an alternative, without tables past the entries that fail. -/
theorem reaches_restore {e e' : Else} {rest rest' : List Else} (h : e.Spreads m p e')
    (hrest : Unfolded m p e.index rest rest') (hs : Option.Rel (PutOff.Spreads m p) c.stash c'.stash)
    (hu : c'.stashUsed = c.stashUsed) (hl : c'.longest = c.longest) :
    m.Reaches p (c'.restore e' rest') ((c.restore e rest).Spreads m p) := by
  obtain ⟨⟨f, hf, hnext⟩, hindex, hthens, hscopes, htrace⟩ := h
  have hspreads : (c.restore e rest).Spreads m p { c'.restore e' rest' with focus := f } :=
    ⟨hf, hindex, hrest, hs, hu, hl, fun _ => ⟨hthens, hscopes, htrace⟩⟩
  rcases hnext with rfl | ⟨s, s', hnext, rfl, hfalls⟩
  · exact .here hspreads
  · rw [← hindex] at hfalls
    have hpassed := reaches_of_falls (c := c'.restore e' rest') hfalls rfl hnext
    exact hpassed.bind fun c₁ h₁ => .here (hspreads.passedTo h₁)

theorem advances_nonEmpty {thens : List Then} {elses : List Else}
    {stash : Option (Else × List Else)} {lookups : List Reference} (hf : c.focus = .state .nonEmpty) :
    m.Advances p m' c { c with focus := .state .nonEmpty, thens, elses, stash, lookups } := by
  have hstep : m.step c = .failed .stuck c := by simp only [step, hf]
  refine advances_of_end ?_
  rw [hstep]
  exact .failed rfl

section steps

variable (hm : m.Spreads p m') {thens : List Then} {elses : List Else}
  {stash : Option (Else × List Else)} {lookups : List Reference}
  (ht : List.Forall₂ (Then.Spreads m' p) c.thens thens) (he : Unfolded m' p c.index c.elses elses)
  (hs : Option.Rel (PutOff.Spreads m' p) c.stash stash)

include ht he hs

theorem advances_choose {terms terms' : List State} {all : Bool} {node : Grammar} {index : Nat}
    {taken : TermSet} (hf : c.focus = .choose terms all node index taken)
    (h : List.Forall₂ (m'.Spread p) terms terms') :
    m.Advances p m' c
      { c with focus := .choose terms' all node index taken, thens, elses, stash, lookups } := by
  have hlen : terms'.length = terms.length := h.length_eq.symm
  by_cases hlast : index = terms.length
  · refine advances_of_step (step_choose_last hf hlast)
      (step_choose_last rfl (hlast.trans hlen.symm)) (Config.spreads_of (.state ?_) ht he hs)
    split
    · exact .reject
    · exact .accept
  have hlast' : index ≠ terms'.length := by rwa [hlen]
  by_cases hfull : taken = TermSet.full terms.length
  · have hfull' : taken = TermSet.full terms'.length := by rwa [hlen]
    exact advances_of_step (step_choose_full hf hlast hfull) (step_choose_full rfl hlast' hfull')
      (Config.spreads_of (.state .accept) ht he hs)
  have hfull' : taken ≠ TermSet.full terms'.length := by rwa [hlen]
  have hnext := rel_nextTerm? (List.forall₂_drop index h) taken index
  generalize hn : nextTerm? taken index (terms.drop index) = next,
    hn' : nextTerm? taken index (terms'.drop index) = next' at hnext
  cases hnext with
  | none =>
      refine advances_of_step (step_choose_skip hf hlast hfull hn)
        (step_choose_skip rfl hlast' hfull' hn') ?_
      rw [hlen]
      exact Config.spreads_of (.choose h) ht he hs
  | @some q q' hq =>
      obtain ⟨n, s⟩ := q
      obtain ⟨n', s'⟩ := q'
      obtain ⟨rfl, hq⟩ := hq
      refine advances_of_step (step_choose_pick hf hlast hfull hn)
        (step_choose_pick rfl hlast' hfull' hn') (Config.spreads_of (.state hq) ?_ ?_ hs)
      · exact .cons ⟨.resume h, rfl, rfl⟩ ht
      · exact .cons (Nat.le_refl _) ⟨⟨_, .choose h, .inl rfl⟩, rfl, ht, rfl, rfl⟩ he

theorem advances_resume {terms terms' : List State} {all : Bool} {node : Grammar} {taken : TermSet}
    (hf : c.focus = .resume terms all node taken) (h : List.Forall₂ (m'.Spread p) terms terms') :
    m.Advances p m' c { c with focus := .resume terms' all node taken, thens, elses, stash, lookups } := by
  have hstep : m.step c = .next { c with focus := .choose terms all node 0 taken } := by
    simp only [step, hf]
  exact advances_of_step hstep rfl (Config.spreads_of (.choose h) ht he hs)

theorem advances_once {terms terms' : List State} {all : Bool} {node : Grammar}
    (hf : c.focus = .state (.once terms all node)) (h : List.Forall₂ (m'.Spread p) terms terms') :
    m.Advances p m' c
      { c with focus := .state (.once terms' all node), thens, elses, stash, lookups } := by
  have hstep : m.step c = .next { c with focus := .choose terms all node 0 TermSet.empty } := by
    simp only [step, hf]
  exact advances_of_step hstep rfl (Config.spreads_of (.choose h) ht he hs)

theorem advances_branch {s s' test next other test' next' other' : State} (hf : c.focus = .state s)
    (hb : s.branch? = some (test, next, other)) (hb' : s'.branch? = some (test', next', other'))
    (htest : m'.Spread p test test') (hnext : m'.Spread p next next')
    (hother : m'.Spread p other other') :
    m.Advances p m' c { c with focus := .state s', thens, elses, stash, lookups } := by
  refine advances_of_step (step_branch hf hb) (step_branch rfl hb') ?_
  rw [hnext.isAccept_eq, hother.isReject_eq]
  have hpushed : Unfolded m' p c.index (c.snapshot (.state other) :: c.elses)
      (Config.snapshot { c with focus := .state s', thens, elses, stash } (.state other') :: elses) :=
    .cons (Nat.le_refl _) ⟨⟨_, .state hother, .inl rfl⟩, rfl, ht, rfl, rfl⟩ he
  have hawaited : List.Forall₂ (Then.Spreads m' p) (⟨.state next, c.trace, c.scopes⟩ :: c.thens)
      (⟨.state next', c.trace, c.scopes⟩ :: thens) := .cons ⟨.state hnext, rfl, rfl⟩ ht
  cases next.isAccept <;> cases other.isReject
  · exact Config.spreads_of (.state htest) hawaited hpushed hs
  · exact Config.spreads_of (.state htest) hawaited he hs
  · exact Config.spreads_of (.state htest) ht hpushed hs
  · exact Config.spreads_of (.state htest) ht he hs

include hm

theorem advances_accept (hf : c.focus = .state .accept) :
    m.Advances p m' c { c with focus := .state .accept, thens, elses, stash, lookups } := by
  generalize hthens : c.thens = cthens at ht
  cases ht with
  | nil =>
      have hstep := step_accept_nil (m := m) hf hthens
      have hstep' := step_accept_nil (m := m')
        (c := { c with focus := .state .accept, thens := [], elses, stash, lookups }) rfl rfl
      rw [show m'.atEnd _ = m.atEnd c by unfold atEnd ahead; rw [hm.tokens]] at hstep'
      cases hend : m.atEnd c with
      | true =>
          rw [hend] at hstep hstep'
          refine advances_of_end ?_
          rw [hstep, hstep']
          exact .matched rfl rfl rfl
      | false =>
          rw [hend] at hstep hstep'
          refine advances_of_step hstep hstep' (Config.spreads_of (.state .reject) ?_ he hs)
          change List.Forall₂ _ c.thens []
          rw [hthens]
          exact .nil
  | @cons t t' rest rest' h ht =>
      -- both machines took the same tokens, so they agree on whether the check passes
      by_cases hn : t.next = .state .nonEmpty
      · have hn' : t'.next = .state .nonEmpty := h.next.nonEmpty_iff.mp hn
        have hstep := step_accept_nonEmpty (m := m) hf hthens hn
        have hstep' := step_accept_nonEmpty (m := m') rfl
          (c := { c with focus := .state .accept, thens := t' :: rest', elses, stash, lookups }) rfl hn'
        rw [h.trace] at hstep'
        by_cases hempty : t.trace.lastIndex? = c.trace.lastIndex?
        · refine advances_of_step (hstep.trans (if_pos hempty)) (hstep'.trans (if_pos hempty))
            (Config.spreads_of (.state .reject) ?_ he hs)
          change List.Forall₂ _ c.thens (t' :: rest')
          rw [hthens]
          exact .cons h ht
        · refine advances_of_step (hstep.trans (if_neg hempty)) (hstep'.trans (if_neg hempty)) ?_
          rw [h.scopes, Config.closeTo_eq, Config.closeTo_eq]
          exact Config.spreads_of (.state .accept) ht he hs
      · have hn' : t'.next ≠ .state .nonEmpty := fun hn' => hn (h.next.nonEmpty_iff.mpr hn')
        refine advances_of_step (step_accept_resume hf hthens hn)
          (step_accept_resume rfl rfl hn') ?_
        rw [h.scopes, Config.closeTo_eq, Config.closeTo_eq]
        exact Config.spreads_of h.next ht he hs

theorem advances_leaf {l : Leaf} {node : Grammar} (hf : c.focus = .state (.leaf l node)) :
    m.Advances p m' c { c with focus := .state (.leaf l node), thens, elses, stash, lookups } := by
  cases hl : l.take (c.trace.lastToken?.map (·.2)) c.here.range (m.tokens.drop c.index) with
  | mk n ok =>
      have hl' := hl
      rw [← hm.tokens] at hl'
      refine advances_of_step (step_leaf hf hl) (step_leaf
        (c := { c with focus := .state (.leaf l node), thens, elses, stash, lookups }) rfl hl') ?_
      rw [hm.tokens, Config.takeTokens_eq, Config.takeTokens_eq]
      -- what was put off is forgotten by both if a token is taken, and by none if not
      refine ⟨.state ?_, rfl, he.mono (Nat.le_add_right _ _), ?_, rfl, Notes.longest_reach rfl,
        fun _ => ⟨ht, rfl, rfl⟩⟩
      · split
        · exact .accept
        · exact .reject
      · change Option.Rel _ (if _ then c.stash else none) (if _ then stash else none)
        split
        · exact hs
        · exact .none

/-- Both searches put a reference off, or both go on with what it leads to. -/
theorem advances_call_found {r : Reference} {range : Option Range} {node : Grammar}
    {root root' : State} (hf : c.focus = .state (.call r range node))
    (hr : m.resolve r = .ok (some root)) (hr' : m'.resolve r = .ok (some root'))
    (hroot : m'.Spread p root root') :
    m.Advances p m' c { c with focus := .state (.call r range node), thens, elses, stash, lookups } := by
  have hlater : m'.later
      { c with focus := .state (.call r range node), thens, elses, stash, lookups } r = m.later c r := by
    unfold later current? ahead
    rw [hm.lowPriority, hm.tokens]
  cases hl : m.later c r with
  | false =>
      exact advances_of_step (step_call_open hf hr hl) (step_call_open rfl hr' (hlater.trans hl))
        (Config.spreads_of (.state hroot) ht he hs)
  | true =>
      refine advances_of_step (step_call_later hf hr hl) (step_call_later rfl hr' (hlater.trans hl))
        (Config.spreads_of (.state .reject) ht he (.some ?_))
      -- what is put off first takes the alternatives with it
      generalize c.stash = st at hs ⊢
      cases hs with
      | none => exact ⟨⟨⟨_, .state .call, .inl rfl⟩, rfl, ht, rfl, rfl⟩, he⟩
      | some hs => exact hs

theorem advances_call {r : Reference} {range : Option Range} {node : Grammar}
    (hf : c.focus = .state (.call r range node)) :
    m.Advances p m' c { c with focus := .state (.call r range node), thens, elses, stash, lookups } := by
  have hresolve := hm.resolve r
  generalize hr : m.resolve r = found, hr' : m'.resolve r = found' at hresolve
  cases hresolve with
  | error =>
      refine advances_of_end ?_
      rw [step_call hf, step_call rfl]
      simp only [onCall, hr, hr']
      exact .failed rfl
  | ok h =>
      cases h with
      | none =>
          refine advances_of_end ?_
          rw [step_call hf, step_call rfl]
          simp only [onCall, hr, hr']
          exact .failed rfl
      | some hroot => exact advances_call_found hm ht he hs hf hr hr' hroot

omit hm hs in
/-- The entries left to try come after the one that is found. -/
theorem unfolded_offer {rest rest' s : State} {focus : Focus} (h : m'.Spread p rest rest')
    (hfalls : s.Falls m' p c.index rest') :
    Unfolded m' p c.index (c.offer rest).elses
      (Config.offer { c with focus, thens, elses, stash, lookups } s).elses := by
  unfold Config.offer
  cases hs : s.isReject with
  | true =>
      have hr : rest.isReject = true := by
        rw [← h.isReject_eq, hfalls.eq_reject hs]
        rfl
      rw [hr]
      exact he
  | false =>
      cases hr : rest.isReject with
      | true =>
          rw [← h.isReject_eq] at hr
          rw [State.eq_reject_of_isReject hr] at hfalls
          exact .skip (Nat.le_refl _) rfl hfalls he
      | false =>
          exact .cons (Nat.le_refl _)
            ⟨⟨_, .state h, .inr ⟨s, rest', rfl, rfl, hfalls⟩⟩, rfl, ht, rfl, rfl⟩ he

/-- Where nothing is found in the table both searches go on after it. -/
theorem advances_table_idle {table : List (String × State)} {rest rest' : State}
    (hf : c.focus = .state (.branch (.enum table) .accept rest)) (h : m'.Spread p rest rest')
    (hidle : Idle m' p c.index table) (hnone : ∀ t, m'.tokens[c.index]? = some t →
      table.lookup (stripHack (Text.lower t.value)) = none) :
    m.Advances p m' c
      { c with focus := .state (.inTurn table rest'), thens, elses, stash, lookups } := by
  have hstep : m.step ((c.offer rest).goto (.enum table)) = .next ((c.offer rest).goto .reject) := by
    refine step_enum_of_none fun t ht => hnone t ?_
    rwa [hm.tokens, ← c.offer_index rest]
  have hpassed := reaches_of_falls
    (c := { c with focus := .state (.inTurn table rest'), thens, elses, stash, lookups })
    (hidle.falls rest') rfl rfl
  have hspreads : (c.goto rest).Spreads m' p
      { c with focus := .state rest', thens, elses, stash, lookups } :=
    Config.spreads_of (.state h) ht he hs
  exact advances_of_leads (leads_enum hf) hstep leads_of_offer
    (hpassed.bind fun c₁ h₁ => .here (hspreads.passedTo h₁))

/-- Where an entry is found in the table both searches come to it. Without the table there may be
entries left to try, which fail. -/
theorem advances_table_found {before after : List (String × State)} {key : String} {s : State}
    {t : Token} {rest rest' : State}
    (hf : c.focus = .state (.branch (.enum (before ++ (key, s) :: after)) .accept rest))
    (h : m'.Spread p rest rest') (hget : m'.tokens[c.index]? = some t)
    (hlookup : (before ++ (key, s) :: after).lookup (stripHack (Text.lower t.value)) = some s)
    (hentry : s.IsEntry) (hbefore : Idle m' p c.index before) (hafter : Idle m' p c.index after) :
    m.Advances p m' c { c with
      focus := .state (.inTurn (before ++ (key, s) :: after) rest'), thens, elses, stash, lookups } := by
  have hstep : m.step ((c.offer rest).goto (.enum (before ++ (key, s) :: after))) =
      .next ((c.offer rest).goto s) := by
    rw [step_enum (t := t) (by rwa [c.offer_index, ← hm.tokens]), hlookup]
    rfl
  have hturn := reaches_inTurn (m := m') (p := p) (c := { c with
      focus := .state (.inTurn (before ++ (key, s) :: after) rest'), thens, elses, stash, lookups })
    hentry hbefore rfl
  refine advances_of_leads (leads_enum hf) hstep .refl (hturn.bind fun c₁ h₁ => .here ?_)
  refine Config.Spreads.passedTo ?_ h₁
  have hoffer : Unfolded m' p c.index (c.offer rest).elses (Config.offer { c with
      focus := .state (.inTurn (before ++ (key, s) :: after) rest'), thens, elses, stash, lookups }
      (.inTurn after rest')).elses := unfolded_offer ht he h (hafter.falls rest')
  rw [Config.offer_eq c, Config.offer_eq { c with focus := .state _, thens, elses, stash, lookups }]
  exact Config.spreads_of (.state hentry.spreads) ht hoffer hs

theorem advances_table {table : List (String × State)} {rest rest' : State}
    (hf : c.focus = .state (.branch (.enum table) .accept rest)) (h : m'.Spread p rest rest')
    (htable : Tabled (m'.FoundUnder p) table) :
    m.Advances p m' c
      { c with focus := .state (.inTurn table rest'), thens, elses, stash, lookups } := by
  rcases htable.idle_or_found c.index with ⟨hidle, hnone⟩ |
    ⟨before, after, key, s, t, rfl, hget, hlookup, hentry, hbefore, hafter⟩
  · exact advances_table_idle hm ht he hs hf h hidle hnone
  · exact advances_table_found hm ht he hs hf h hget hlookup hentry hbefore hafter

end steps

/-- Where nothing is put off both searches go back to the same alternative, or both have none left. -/
theorem advances_reject_free (h : c.Spreads m' p c')
    (hf : c.focus = .state .reject) (hf' : c'.focus = .state .reject)
    (hfree : c.stash = none ∨ c.stashUsed = true) : m.Advances p m' c c' := by
  have hfree' : c'.stash = none ∨ c'.stashUsed = true := by
    rw [h.stashUsed]
    refine hfree.imp_left fun hnone => ?_
    have hs := h.stash
    rw [hnone] at hs
    generalize c'.stash = st at hs
    cases hs
    rfl
  have htop := reaches_top h.elses hf' rfl hfree'
  -- the machine without tables may first have to give up what the one with tables never tried
  cases hc : c.elses with
  | nil =>
      have hstep : m.step c = .finished false c := step_reject_nil hf hc hfree
      refine .inr (htop.bind fun c₁ ⟨j, elses₁, h₁, htop₁⟩ => .here ?_)
      have hnil : c₁.elses = [] := by
        rcases htop₁ with ⟨-, rfl⟩ | ⟨e, rest, -, -, hcons, -⟩
        · exact h₁.elses
        · rw [hc] at hcons
          cases hcons
      rw [hstep, step_reject_nil h₁.focus hnil (by rwa [h₁.stash, h₁.stashUsed])]
      exact .mismatched (h₁.longest.trans h.longest)
  | cons e rest =>
      have hstep : m.step c = .next (c.restore e rest) :=
        step_reject_pop hf hc (hfree.imp_right .inl)
      refine .inl ⟨_, _, hstep, .refl, htop.bind fun c₁ ⟨j, elses₁, h₁, htop₁⟩ => ?_⟩
      rcases htop₁ with ⟨hnil, -⟩ | ⟨e₁, rest₁, e', rest', hcons, rfl, he, hrest⟩
      · rw [hc] at hnil
        cases hnil
      · rw [hc] at hcons
        cases hcons
        refine .of_step (step_reject_pop h₁.focus h₁.elses ?_)
          (reaches_restore he hrest ?_ (h₁.stashUsed.trans h.stashUsed) (h₁.longest.trans h.longest))
        · rw [h₁.stash, h₁.stashUsed]
          exact hfree'.imp_right .inl
        · rw [h₁.stash]
          exact h.stash

/-- Where something is put off both searches try it once the alternatives of this place have failed. -/
theorem advances_reject_putOff (h : c.Spreads m' p c') (hf : c.focus = .state .reject)
    (hf' : c'.focus = .state .reject) {put : Else × List Else} (hst : c.stash = some put)
    (hunused : c.stashUsed = false) : m.Advances p m' c c' := by
  obtain ⟨put', hst', hput⟩ : ∃ put', c'.stash = some put' ∧ PutOff.Spreads m' p put put' := by
    have hs := h.stash
    rw [hst] at hs
    generalize c'.stash = st at hs
    cases hs with
    | some hput => exact ⟨_, rfl, hput⟩
  have htop := reaches_level_top h.elses h.index hf' rfl
  -- what was put off is tried as soon as no alternative is left at this place
  by_cases hdeep : ∀ e ∈ c.elses.head?, e.index < c.index
  · have hstep := step_reject_retry (m := m) hf hst hunused hdeep
    refine .inl ⟨_, _, hstep, .refl, htop.bind fun c₁ ⟨elses₁, h₁, htop₁⟩ => ?_⟩
    rcases htop₁ with ⟨-, hdeep₁⟩ | ⟨⟨e, rest, e', rest', hcons, -⟩, hle⟩
    · have hstep₁ : m'.step c₁ = _ := step_reject_retry h₁.focus (h₁.stash.trans hst')
        (h₁.stashUsed.trans (h.stashUsed.trans hunused))
        (by rw [h₁.elses, h₁.index, h.index]; exact hdeep₁)
      have hrestored : m'.Reaches p
          (Config.restore { c₁ with stash := none, stashUsed := true } put'.1 put'.2)
          ((Config.restore { c with stash := none, stashUsed := true } put.1 put.2).Spreads m' p) :=
        reaches_restore hput.1 hput.2 .none rfl (h₁.longest.trans h.longest)
      exact .of_step hstep₁ hrestored
    · have hlt := hdeep e (by rw [hcons]; rfl)
      have hge := hle e (by rw [hcons]; rfl)
      omega
  · push Not at hdeep
    obtain ⟨e, hmem, hge⟩ := hdeep
    obtain ⟨rest, hc⟩ : ∃ rest, c.elses = e :: rest := List.head?_eq_some_iff.mp hmem
    have hstep : m.step c = .next (c.restore e rest) := step_reject_pop hf hc (.inr (.inr hge))
    refine .inl ⟨_, _, hstep, .refl, htop.bind fun c₁ ⟨elses₁, h₁, htop₁⟩ => ?_⟩
    rcases htop₁ with ⟨hdeep, -⟩ | ⟨⟨e₁, rest₁, e', rest', hcons, rfl, he, hrest⟩, -⟩
    · exact absurd (hdeep e hmem) (Nat.not_lt.mpr hge)
    · rw [hc] at hcons
      cases hcons
      refine .of_step (step_reject_pop h₁.focus h₁.elses (.inr (.inr ?_)))
        (reaches_restore he hrest ?_ (h₁.stashUsed.trans h.stashUsed) (h₁.longest.trans h.longest))
      · rw [he.index, h₁.index, h.index]
        exact hge
      · rw [h₁.stash]
        exact h.stash

theorem advances_reject (h : c.Spreads m' p c')
    (hf : c.focus = .state .reject) (hf' : c'.focus = .state .reject) : m.Advances p m' c c' := by
  by_cases hfree : c.stash = none ∨ c.stashUsed = true
  · exact advances_reject_free h hf hf' hfree
  · rw [not_or, Bool.not_eq_true] at hfree
    obtain ⟨hsome, hunused⟩ := hfree
    obtain ⟨put, hst⟩ := Option.ne_none_iff_exists'.mp hsome
    exact advances_reject_putOff h hf hf' hst hunused

/-- **A search without tables follows one with tables.** -/
theorem Spreads.advances (hm : m.Spreads p m') (h : c.Spreads m' p c') : m.Advances p m' c c' := by
  by_cases hreject : c'.focus = .state .reject
  · have hfocus := h.focus
    rw [hreject] at hfocus
    exact advances_reject h hfocus.eq_reject hreject
  -- the paths are the same but for what is looked at
  obtain ⟨hfocus, hindex, he, hs, hu, hl, hpath⟩ := h
  obtain ⟨ht, hscopes, htrace⟩ := hpath hreject
  obtain ⟨focus, index, thens, elses, scopes, trace, stash, stashUsed, longest, lookups⟩ := c'
  simp only at hfocus hindex he hs hu hl ht hscopes htrace hreject
  subst hindex hu hl hscopes htrace
  generalize hf : c.focus = f at hfocus
  cases hfocus with
  | choose h => exact advances_choose ht he hs hf h
  | resume h => exact advances_resume ht he hs hf h
  | state h =>
      cases h with
      | accept => exact advances_accept hm ht he hs hf
      | reject => exact absurd rfl hreject
      | nonEmpty => exact advances_nonEmpty hf
      | cond htest hnext hother => exact advances_branch ht he hs hf rfl rfl htest hnext hother
      | loop h => exact advances_branch ht he hs hf rfl rfl h (.again h) .reject
      | @again _ _ sep h =>
          cases sep with
          | none => exact advances_branch ht he hs hf rfl rfl .accept .accept (.loop h)
          | some node =>
              exact advances_branch ht he hs hf rfl rfl .accept .accept (.cond .leaf (.loop h) .reject)
      | once h => exact advances_once ht he hs hf h
      | leaf => exact advances_leaf hm ht he hs hf
      | call => exact advances_call hm ht he hs hf
      | table htable _ h hs₁ hs₁' =>
          subst hs₁ hs₁'
          exact advances_table hm ht he hs hf h htable

/-! ## Runs -/

theorem Leads.reflTransGen (h : m.Leads c c') : ReflTransGen m.Steps c' c := by
  induction h with
  | refl => exact .refl
  | head hs _ ih => exact ih.tail hs

theorem Leads.eq_end {c₂ : Config} (h : m.Leads c c₁) (h' : m.Leads c c₂)
    (hend : ∀ c', m.step c₁ ≠ .next c') (hend' : ∀ c', m.step c₂ ≠ .next c') : c₁ = c₂ := by
  cases h.to_end h' hend' with
  | refl => rfl
  | head hs _ => exact absurd hs (hend _)

/-- A search that ends is finite. -/
theorem Leads.acc_steps (h : m.Leads c c') (hend : ∀ c₁, m.step c' ≠ .next c₁) : Acc m.Steps c := by
  induction h with
  | refl => exact ⟨_, fun c₁ hs => absurd hs (hend c₁)⟩
  | head hs _ ih =>
      refine ⟨_, fun c₁ hs' => ?_⟩
      cases hs.symm.trans hs'
      exact ih hend

/-- A finite search with tables and the one without end in the same way. The induction is on the steps
of the first one. -/
theorem Spreads.exists_ends (hm : m.Spreads p m') (hacc : Acc m.Steps c) (h : c.Spreads m' p c') :
    ∃ c₁, m.Leads c c₁ ∧ m'.Reaches p c' fun c₁' => (m.step c₁).EndsAlike (m'.step c₁') := by
  induction hacc.transGen generalizing c' with
  | intro c _ ih =>
      rcases hm.advances h with ⟨c₀, c₁, hs, hl, c₁', hl', hu | hdangling⟩ | hend
      · have hdown : TransGen m.Steps c₁ c := TransGen.tail' hl.reflTransGen hs
        obtain ⟨c₂, hl₂, hend⟩ := ih c₁ hdown (hacc.inv_of_transGen hdown) hu
        exact ⟨c₂, (Leads.head hs hl).trans hl₂, .of_leads hl' hend⟩
      · exact ⟨c, .refl, c₁', hl', .inr hdangling⟩
      · exact ⟨c, .refl, hend⟩

/-- The step that a run ends with says how it ended, unless the run was cut off. -/
theorem Run.EndsWith.eq_of_step {r : Run ε} (h : r.EndsWith m c) (hr : r.outcome ≠ .limited) :
    match m.step c with
    | .next _ => False
    | .finished true c₁ => r.outcome = .matched ∧ r.final = c₁.closeTo []
    | .finished false c₁ => r.outcome = .mismatched ∧ r.final = c₁
    | .failed error c₁ => r.outcome = .failed error ∧ r.final = c₁ := by
  unfold EndsWith at h
  cases ho : r.outcome with
  | matched =>
      rw [ho] at h
      obtain ⟨c₁, hs, hfinal⟩ := h
      rw [hs]
      exact ⟨rfl, hfinal⟩
  | mismatched | failed =>
      rw [ho] at h
      rw [h]
      exact ⟨rfl, rfl⟩
  | limited => exact absurd ho hr

theorem Run.EndsWith.step_ne_next {r : Run ε} (h : r.EndsWith m c) (hr : r.outcome ≠ .limited) :
    ∀ c₁, m.step c ≠ .next c₁ := by
  intro c₁ hs
  have hend := h.eq_of_step hr
  rw [hs] at hend
  exact hend

/-- Two runs have the same outcome, having come as far. -/
structure Run.Alike (r r' : Run ε) : Prop where
  outcome : r'.outcome = r.outcome
  longest : r'.final.longest = r.final.longest
  trace : r.outcome = .matched → r'.final.trace = r.final.trace

theorem Run.EndsWith.alike {r r' : Run ε} (h : r.EndsWith m c) (h' : r'.EndsWith m' c')
    (hr : r.outcome ≠ .limited) (hr' : r'.outcome ≠ .limited)
    (hend : (m.step c).EndsAlike (m'.step c')) : r.Alike r' := by
  have hlast := h.eq_of_step hr
  have hlast' := h'.eq_of_step hr'
  generalize m.step c = step, m'.step c' = step' at hlast hlast' hend
  cases hend with
  | @matched c c' hscopes htrace hlongest =>
      obtain ⟨ho, hf⟩ := hlast
      obtain ⟨ho', hf'⟩ := hlast'
      rw [Config.closeTo_eq] at hf hf'
      refine ⟨ho'.trans ho.symm, by rw [hf, hf']; exact hlongest, fun _ => ?_⟩
      rw [hf, hf']
      change Trace.closing _ c'.trace = Trace.closing _ c.trace
      rw [htrace]
      change Trace.closing (c'.scopes.take (c'.scopes.length - 0)) c.trace = _
      rw [hscopes]
      rfl
  | mismatched hlongest | failed hlongest =>
      obtain ⟨ho, rfl⟩ := hlast
      obtain ⟨ho', rfl⟩ := hlast'
      refine ⟨ho'.trans ho.symm, hlongest, fun hm => ?_⟩
      rw [ho] at hm
      cases hm

section runs

variable (hm : m.Spreads p m') {root root' : State} {limit limit' : Nat}
  (h : m'.Spread p root root') (hr : (m.run limit root).outcome ≠ .limited)

include hm h hr

/-- Where a run with tables ends, and what that without tables comes to. -/
theorem Spreads.exists_last : ∃ c, (m.run limit root).EndsWith m c ∧
    m'.Reaches p (.start root') fun c' => (m.step c).EndsAlike (m'.step c') := by
  obtain ⟨c, hl, hlast⟩ := m.run_ends limit root
  have hstart : (Config.start root).Spreads m' p (.start root') :=
    Config.spreads_of (c := .start root) (.state h) .nil .nil .none
  have hacc := hl.acc_steps (hlast.step_ne_next hr)
  obtain ⟨c₁, hl₁, c₁', hl₁', hend | hdangling⟩ := hm.exists_ends hacc hstart
  · -- there is only one run from a state, so that it ends where the search does
    obtain rfl : c₁ = c := hl₁.eq_end hl hend.ne_next.1 (hlast.step_ne_next hr)
    exact ⟨c₁, hlast, c₁', hl₁', .inl hend⟩
  · exact ⟨c, hlast, c₁', hl₁', .inr hdangling⟩

/-- **A run with tables and one without end in the same way**, unless the one without is ended by a
reference that leads nowhere and that need not be looked up with tables. -/
theorem Spreads.alike_or_unresolved (hr' : (m'.run limit' root').outcome ≠ .limited) :
    (m.run limit root).Alike (m'.run limit' root') ∨
      ∃ r, p r ∧ (m'.run limit' root').outcome = .failed (.unresolved r) := by
  obtain ⟨c, hlast, c₁', hl₁', hend⟩ := hm.exists_last h hr
  obtain ⟨c', hl', hlast'⟩ := m'.run_ends limit' root'
  have hstop' := hlast'.step_ne_next hr'
  rcases hend with hend | ⟨r, c₂', hp, hfail⟩
  · obtain rfl : c₁' = c' := hl₁'.eq_end hl' hend.ne_next.2 hstop'
    exact .inl (hlast.alike hlast' hr hr' hend)
  · obtain rfl : c₁' = c' := hl₁'.eq_end hl' (by simp [hfail]) hstop'
    have hoff := hlast'.eq_of_step hr'
    rw [hfail] at hoff
    exact .inr ⟨r, hp, hoff.1⟩

end runs

/-- Runs are alike if one without tables is like both of them. -/
theorem Run.Alike.of_common {r r' r₀ : Run ε} (h : r.Alike r₀) (h' : r'.Alike r₀) : r.Alike r' where
  outcome := h'.outcome.symm.trans h.outcome
  longest := h'.longest.symm.trans h.longest
  trace hm := (h'.trace (h'.outcome.symm.trans (h.outcome.trans hm))).symm.trans (h.trace hm)

/-! ## Tables of leaves -/

/-- The references of the second machine stand for the states of the first with the leaves of their
tables in turn. -/
structure Unfolds (m m' : Machine ε) : Prop where
  tokens : m'.tokens = m.tokens
  lowPriority : m'.lowPriority = m.lowPriority
  resolve : ∀ r, Agree (Option.Rel (State.Unfolds m.tokens)) (m.resolve r) (m'.resolve r)

theorem Unfolds.foundUnder (hm : m.Unfolds m') {key : String} {s : State}
    (h : LeafUnder m.tokens key s) : m'.FoundUnder p key s := by
  rw [← hm.tokens] at h
  exact h.foundUnder

theorem Unfolds.spreads (hm : m.Unfolds m') : m.Spreads (fun _ => False) m' where
  tokens := hm.tokens
  lowPriority := hm.lowPriority
  resolve r := by
    refine (hm.resolve r).imp fun root root' h => ?_
    cases h with
    | none => exact .none
    | some h => exact .some (h.mono fun _ _ => hm.foundUnder)

/-- **A run with tables of leaves and one without end in the same way**, if the first is not cut off
and the second has steps enough. -/
theorem Unfolds.exists_alike (hm : m.Unfolds m') {root root' : State} {limit : Nat}
    (h : root.Unfolds m.tokens root') (hr : (m.run limit root).outcome ≠ .limited) :
    ∃ n, ∀ limit', n ≤ limit' → (m.run limit root).Alike (m'.run limit' root') := by
  have hroot : m'.Spread (fun _ => False) root root' := h.mono fun _ _ => hm.foundUnder
  obtain ⟨c, -, c', hl', hend⟩ := hm.spreads.exists_last hroot hr
  have hstop : ∀ c₁, m'.step c' ≠ .next c₁ := by
    rcases hend with hend | ⟨r, c₂, hp, -⟩
    · exact hend.ne_next.2
    · exact hp.elim
  obtain ⟨n, hn⟩ := runFrom_of_acc (hl'.acc_steps hstop)
  refine ⟨n, fun limit' hle => ?_⟩
  obtain ⟨hsame, hlimit⟩ := hn limit' hle 0
  have hr' : (m'.run limit' root').outcome ≠ .limited := by
    rw [run, hsame]
    exact hlimit
  rcases hm.spreads.alike_or_unresolved hroot hr hr' with halike | ⟨r, hp, -⟩
  · exact halike
  · exact hp.elim

end Machine

end ValueGrammar

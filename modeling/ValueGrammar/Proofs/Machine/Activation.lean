import Mathlib.Data.List.Nodup
import Mathlib.Logic.Relation
import ValueGrammar.Proofs.AnyOrder
import ValueGrammar.Proofs.Machine.Steps

/-!
# `ValueGrammar.Proofs.Machine.Activation` — what happens while a group in any order is matched

A machine remembers of a group in any order a word of bits and the number of a term, on every path and
in every continuation. This module says what a path has done in the group without looking at either: the
terms it has matched since the group was entered, and those that were tried since the last of them
matched and failed. A term has matched when a path through it comes to its end, that is when the
continuation that was put off for it is taken off again, however many groups the path has entered and
left in between. The bits are then shown to be the terms that have matched, and the number to tell which
terms were tried.

## Contents
- `Group`, `Group.Enters`, `Group.Skips`: a group in any order, and its steps.
- `Else.At`: the group that a path looks at.
- `Machine.Becomes`, `Expands.splits`: what a path goes on as.
- `Machine.Finishes`, `Machine.Activation`: a term has matched; what has happened in a group.
- `Machine.Counts`, `Machine.Remembers`, `Machine.Activation.remembers`: the bits and the number.
- `Machine.Recorded`, `Machine.Leads.recorded`: all groups on all paths of a run.
-/

namespace ValueGrammar

open Relation

/-! ## Groups -/

/-- A group in any order. -/
structure Group where
  terms : List State
  /-- all of the terms are needed -/
  all : Bool
  node : Grammar

namespace Group

/-- The state that enters the group. -/
def state (g : Group) : State := .once g.terms g.all g.node

/-- The group, where the terms from number `index` on are still to be tried. -/
def choose (g : Group) (index : Nat) (taken : TermSet) : Focus :=
  .choose g.terms g.all g.node index taken

/-- The group, after a term has matched. -/
def resume (g : Group) (taken : TermSet) : Focus := .resume g.terms g.all g.node taken

theorem choose_inj {g g' : Group} {index index' : Nat} {taken taken' : TermSet}
    (h : g.choose index taken = g'.choose index' taken') :
    g = g' ∧ index = index' ∧ taken = taken' := by
  cases g
  cases g'
  cases h
  exact ⟨rfl, rfl, rfl⟩

theorem resume_inj {g g' : Group} {taken taken' : TermSet}
    (h : g.resume taken = g'.resume taken') : g = g' ∧ taken = taken' := by
  cases g
  cases g'
  cases h
  exact ⟨rfl, rfl⟩

/-- Term number `n` is entered from a path in the group: `body` goes on in the term, and `other` is left
for when it fails. -/
inductive Enters (g : Group) (e : Else) : Nat → Else → Else → Prop where
  | pick {index taken n s} (hf : e.next = g.choose index taken) (hi : index ≠ g.terms.length)
      (ht : taken ≠ TermSet.full g.terms.length)
      (hn : Machine.nextTerm? taken index (g.terms.drop index) = some (n, s)) :
      Enters g e n ((e.await (g.resume (taken.insert n))).goto (.state s))
        (e.goto (g.choose (n + 1) taken))

/-- No term is left to be tried on a path in the group. -/
inductive Skips (g : Group) (e : Else) : Else → Prop where
  | skip {index taken} (hf : e.next = g.choose index taken) (hi : index ≠ g.terms.length)
      (ht : taken ≠ TermSet.full g.terms.length)
      (hn : Machine.nextTerm? taken index (g.terms.drop index) = none) :
      Skips g e (e.goto (g.choose g.terms.length taken))

end Group

/-- The path looks at a group, with these bits. -/
def Else.At (p : Else) (g : Group) (taken : TermSet) : Prop :=
  (∃ index, p.next = g.choose index taken) ∨ p.next = g.resume taken

namespace Else

variable {p : Else} {g g' : Group} {index : Nat} {taken taken' : TermSet}

theorem not_at_of_state {s : State} (hn : p.next = .state s) : ¬ p.At g taken := by
  rintro (⟨index, h⟩ | h)
  · rw [hn] at h
    cases h
  · rw [hn] at h
    cases h

/-- A path looks at one group only. -/
theorem At.eq_of_choose (h : p.At g' taken') (hn : p.next = g.choose index taken) : g' = g := by
  rcases h with ⟨_, h⟩ | h
  · exact (Group.choose_inj (h.symm.trans hn)).1
  · cases h.symm.trans hn

/-- And it remembers one word of bits for it. -/
theorem At.taken_eq (h : p.At g taken) (h' : p.At g taken') : taken = taken' := by
  rcases h with ⟨_, h⟩ | h
  · rcases h' with ⟨_, h'⟩ | h'
    · exact (Group.choose_inj (h.symm.trans h')).2.2
    · cases h.symm.trans h'
  · rcases h' with ⟨_, h'⟩ | h'
    · cases h.symm.trans h'
    · exact (Group.resume_inj (h.symm.trans h')).2

end Else

/-! ## What a path goes on as -/

namespace Machine

variable {ε : Type}

/-- A path goes on as another one: a step leads to it, or the path is given up for one that was put
off. -/
inductive Becomes (m : Machine ε) (e : Else) : Else → Prop where
  | expand {p new notes notes'} (hx : m.Expands e notes new notes') (hp : p ∈ new) : Becomes m e p
  | giveUp : Becomes m e (e.goto (.state .reject))

/-- How a path goes on where it enters no term. -/
inductive Turns (e p : Else) : Prop where
  | stays (s : State) (hn : p.next = .state s) (ht : p.thens = e.thens)
  | awaits (s s' : State) (hn : p.next = .state s)
      (ht : p.thens = ⟨.state s', e.trace, e.scopes⟩ :: e.thens)
  | opens (g : Group) (hf : e.next = .state g.state) (hp : p = e.goto (g.choose 0 .empty))
  | again (g : Group) (taken : TermSet) (hf : e.next = g.resume taken)
      (hp : p = e.goto (g.choose 0 taken))
  | skips (g : Group) (h : g.Skips e p)
  /-- a continuation is taken off, which may be the check that something was taken -/
  | returns (t : Then) (ht : e.thens = t :: p.thens)
      (hn : p.next = t.next ∨ ∃ s s', t.next = .state s ∧ p.next = .state s')

/-- The paths that a path may go on as: none, another one, two at a conditional, or two where a term is
entered. -/
inductive Splits (e : Else) : List Else → Prop where
  | ends (hf : e.next = .state .reject) : Splits e []
  | turns {p} (h : Turns e p) : Splits e [p]
  | branches {p q} {s : State} (h : Turns e p) (hn : q.next = .state s) (ht : q.thens = e.thens) :
      Splits e [p, q]
  | enters {p q} (g : Group) (n : Nat) (h : g.Enters e n p q) : Splits e [p, q]

variable {m : Machine ε} {e p : Else} {new : List Else} {notes notes' : Notes}

/-- **What a step makes of a path**, as far as groups in any order are concerned. -/
theorem Expands.splits (hx : m.Expands e notes new notes') : Splits e new := by
  cases hx with
  | reject hf => exact .ends hf
  | unfinished | empty | last | full | ended | enum | leaf | call =>
      exact .turns (.stays _ rfl rfl)
  | nonEmpty _ ht hn => exact .turns (.returns _ ht (.inr ⟨_, _, hn, rfl⟩))
  | resume _ ht => exact .turns (.returns _ ht (.inl rfl))
  | @branch s test next other =>
      have htest :
          Turns e ((if next.isAccept then e else e.await (.state next)).goto (.state test)) := by
        cases next.isAccept with
        | true => exact .stays test rfl rfl
        | false => exact .awaits test next rfl rfl
      cases other.isReject with
      | true => exact .turns htest
      | false => exact .branches htest rfl rfl
  | @pick terms all node _ _ n _ hf hi ht hn => exact .enters ⟨terms, all, node⟩ n (.pick hf hi ht hn)
  | @skip terms all node _ _ hf hi ht hn => exact .turns (.skips ⟨terms, all, node⟩ (.skip hf hi ht hn))
  | @again terms all node taken hf => exact .turns (.again ⟨terms, all, node⟩ taken hf rfl)
  | @once terms all node hf => exact .turns (.opens ⟨terms, all, node⟩ hf rfl)

/-- A path turns to another one, or it enters a term, or leaves one out. -/
theorem Becomes.cases (h : m.Becomes e p) :
    Turns e p ∨ (∃ g n other, Group.Enters g e n p other) ∨
      ∃ g n body, Group.Enters g e n body p := by
  cases h with
  | giveUp => exact .inl (.stays _ rfl rfl)
  | expand hx hp =>
      cases hx.splits with
      | ends => cases hp
      | turns h =>
          rw [List.mem_singleton.mp hp]
          exact .inl h
      | branches h hn ht =>
          rcases List.mem_pair.mp hp with rfl | rfl
          · exact .inl h
          · exact .inl (.stays _ hn ht)
      | enters g n h =>
          rcases List.mem_pair.mp hp with rfl | rfl
          · exact .inr (.inl ⟨g, n, _, h⟩)
          · exact .inr (.inr ⟨g, n, _, h⟩)

/-! ## Activations -/

/-- A path goes on as another one and does not take off the last of the continuations. -/
def Inside (m : Machine ε) (thens : List Then) (e p : Else) : Prop :=
  m.Becomes e p ∧ thens <:+ p.thens

/-- A path through a term comes to its end: it goes on from `body` and takes off the continuation that
was put off for the term only in the last step, to `p`. -/
def Finishes (m : Machine ε) (body p : Else) : Prop :=
  ∃ last, ReflTransGen (m.Inside body.thens) body last ∧ last.thens = body.thens ∧
    m.Becomes last p ∧ p.thens = body.thens.tail

/-- What has happened on a path since a group was entered from `entry`: the terms that have matched, in
order, and the terms that were tried after the last of them and failed. -/
inductive Activation (m : Machine ε) (g : Group) (entry : Else) :
    List Nat → List Nat → Else → Prop where
  | opened (hf : entry.next = .state g.state) :
      Activation m g entry [] [] (entry.goto (g.choose 0 .empty))
  /-- the path that is left for when a term fails -/
  | failed {matched tried : List Nat} {e : Else} {n : Nat} {body other : Else}
      (h : Activation m g entry matched tried e)
      (he : g.Enters e n body other) : Activation m g entry matched (tried ++ [n]) other
  | skipped {matched tried : List Nat} {e p : Else} (h : Activation m g entry matched tried e)
      (hs : g.Skips e p) : Activation m g entry matched tried p
  | matched {matched tried : List Nat} {e : Else} {n : Nat} {body other p : Else}
      (h : Activation m g entry matched tried e)
      (he : g.Enters e n body other) (hp : m.Finishes body p) :
      Activation m g entry (matched ++ [n]) [] p
  | again {matched tried : List Nat} {e : Else} {taken : TermSet}
      (h : Activation m g entry matched tried e) (hf : e.next = g.resume taken) :
      Activation m g entry matched tried (e.goto (g.choose 0 taken))

variable {g : Group} {entry body other : Else} {matched tried : List Nat} {n index : Nat}
  {taken : TermSet}

/-- Where a path through a term comes to its end, it goes on with the continuation that was put off. -/
theorem Finishes.next_eq {t : Then} {thens : List Then} (h : m.Finishes body p)
    (hb : body.thens = t :: thens) (ht : t.next = g.resume taken) :
    p.next = g.resume taken ∧ p.thens = thens := by
  obtain ⟨last, -, hlast, hbecomes, hp⟩ := h
  rw [hb, List.tail_cons] at hp
  rw [hb] at hlast
  refine ⟨?_, hp⟩
  -- every other step keeps the continuation
  have hno : ∀ u, p.thens ≠ u :: last.thens := by
    intro u hu
    have hlength := congrArg List.length hu
    rw [hp, hlast, List.length_cons, List.length_cons] at hlength
    omega
  have hsame : p.thens ≠ last.thens := by
    intro hs
    have hlength := congrArg List.length hs
    rw [hp, hlast, List.length_cons] at hlength
    omega
  rcases hbecomes.cases with hturn | ⟨_, _, _, ⟨_⟩⟩ | ⟨_, _, _, ⟨_⟩⟩
  · cases hturn with
    | stays _ _ hs => exact absurd hs hsame
    | awaits _ _ _ hs => exact absurd hs (hno _)
    | opens _ _ hs | again _ _ _ hs => exact absurd (congrArg Else.thens hs) hsame
    | skips _ hs => cases hs; exact absurd rfl hsame
    | returns u hu hn =>
        rw [hlast] at hu
        cases hu
        rcases hn with hn | ⟨s, _, hs, -⟩
        · exact hn.trans ht
        · rw [ht] at hs
          cases hs
  · exact absurd rfl (hno _)
  · exact absurd rfl hsame

/-- The bits of a word are the numbers of some terms of a group, none of them twice. -/
structure Counts (g : Group) (matched : List Nat) (taken : TermSet) : Prop where
  has_iff : ∀ i, taken.has i = true ↔ i ∈ matched
  nodup : matched.Nodup
  lt : ∀ i ∈ matched, i < g.terms.length

theorem counts_empty (g : Group) : Counts g [] .empty :=
  ⟨fun i => by simp, List.nodup_nil, List.forall_mem_nil _⟩

theorem Counts.insert (h : Counts g matched taken) (hlen : g.terms.length ≤ 64)
    (hlt : n < g.terms.length) (hn : n ∉ matched) : Counts g (matched ++ [n]) (taken.insert n) := by
  refine ⟨fun i => ?_, ?_, ?_⟩
  · rw [TermSet.has_insert (Nat.lt_of_lt_of_le hlt hlen), Bool.or_eq_true, decide_eq_true_eq,
      h.has_iff, List.mem_append, List.mem_singleton]
  · refine List.nodup_append.mpr ⟨h.nodup, List.nodup_singleton n, ?_⟩
    rintro i hi j hj rfl
    rw [List.mem_singleton.mp hj] at hi
    exact hn hi
  · exact List.forall_mem_append.mpr ⟨h.lt, List.forall_mem_singleton.mpr hlt⟩

/-- What a path remembers of a group is what has happened: its bits are the terms that have matched, and
the terms before its number that have not matched are those that were tried. -/
structure Remembers (g : Group) (matched tried : List Nat) (taken : TermSet) (p : Else) : Prop
    extends Counts g matched taken where
  next : (∃ index, p.next = g.choose index taken ∧ index ≤ g.terms.length ∧
    ∀ i, i ∈ tried ↔ i < index ∧ i ∉ matched) ∨ (p.next = g.resume taken ∧ tried = [])

theorem Remembers.isAt (h : Remembers g matched tried taken p) : p.At g taken := by
  rcases h.next with ⟨index, hnext, -⟩ | ⟨hnext, -⟩
  · exact .inl ⟨index, hnext⟩
  · exact .inr hnext

/-- The term that is entered next has not matched, and every term before it has matched or was tried. -/
theorem Remembers.enters (h : Remembers g matched tried taken e) (he : g.Enters e n body other) :
    n < g.terms.length ∧ n ∉ matched ∧ (∀ i, i ∈ tried ↔ i < n ∧ i ∉ matched) ∧
      other = e.goto (g.choose (n + 1) taken) ∧
      body.thens = ⟨g.resume (taken.insert n), e.trace, e.scopes⟩ :: e.thens := by
  obtain ⟨hf, hi, ht, hn⟩ := he
  obtain ⟨hle, hget, hfree, hbefore⟩ := nextTerm?_some hn
  rcases h.next with ⟨index, hnext, -, htried⟩ | ⟨hnext, -⟩
  · rw [hf] at hnext
    obtain ⟨-, rfl, rfl⟩ := Group.choose_inj hnext
    have hlt := (List.getElem?_eq_some_iff.mp hget).1
    rw [List.length_drop] at hlt
    refine ⟨by omega, fun hmem => ?_, fun i => ?_, rfl, rfl⟩
    · rw [(h.has_iff n).mpr hmem] at hfree
      cases hfree
    · rw [htried i]
      constructor
      · rintro ⟨hlt, hi⟩
        exact ⟨Nat.lt_of_lt_of_le hlt hle, hi⟩
      · rintro ⟨hlt, hi⟩
        refine ⟨?_, hi⟩
        by_contra hge
        exact hi ((h.has_iff i).mp (hbefore i (Nat.le_of_not_lt hge) hlt))
  · rw [hf] at hnext
    cases hnext

/-- **The bits are the terms that have matched.** The induction is on what has happened in the group. -/
theorem Activation.remembers (h : m.Activation g entry matched tried p)
    (hlen : g.terms.length ≤ 64) : ∃ taken, Remembers g matched tried taken p := by
  induction h with
  | opened =>
      refine ⟨.empty, counts_empty g, .inl ⟨0, rfl, Nat.zero_le _, fun i => ?_⟩⟩
      simp
  | @failed matched tried e n body other _ he ih =>
      obtain ⟨taken, hr⟩ := ih
      obtain ⟨hlt, hn, htried, rfl, -⟩ := hr.enters he
      refine ⟨taken, hr.toCounts, .inl ⟨n + 1, rfl, hlt, fun i => ?_⟩⟩
      rw [List.mem_append, List.mem_singleton, htried i]
      constructor
      · rintro (⟨hi, hi'⟩ | rfl)
        · exact ⟨Nat.lt_succ_of_lt hi, hi'⟩
        · exact ⟨Nat.lt_succ_self _, hn⟩
      · rintro ⟨hi, hi'⟩
        rcases Nat.lt_succ_iff_lt_or_eq.mp hi with hi | rfl
        · exact .inl ⟨hi, hi'⟩
        · exact .inr rfl
  | skipped _ hs ih =>
      obtain ⟨taken, hr⟩ := ih
      obtain ⟨hf, hi, ht, hn⟩ := hs
      rcases hr.next with ⟨index, hnext, hle, htried⟩ | ⟨hnext, -⟩
      · rw [hf] at hnext
        obtain ⟨-, rfl, rfl⟩ := Group.choose_inj hnext
        refine ⟨_, hr.toCounts, .inl ⟨_, rfl, Nat.le_refl _, fun i => ?_⟩⟩
        rw [htried i]
        constructor
        · rintro ⟨hi, hi'⟩
          exact ⟨Nat.lt_of_lt_of_le hi hle, hi'⟩
        · rintro ⟨hi, hi'⟩
          refine ⟨?_, hi'⟩
          by_contra hge
          refine hi' ((hr.has_iff i).mp (nextTerm?_none hn i (Nat.le_of_not_lt hge) ?_))
          rw [List.length_drop]
          omega
      · rw [hf] at hnext
        cases hnext
  | @matched matched tried e n body other p _ he hp ih =>
      obtain ⟨taken, hr⟩ := ih
      obtain ⟨hlt, hn, -, -, hbody⟩ := hr.enters he
      have hnext := (hp.next_eq hbody rfl).1
      exact ⟨taken.insert n, hr.toCounts.insert hlen hlt hn, .inr ⟨hnext, rfl⟩⟩
  | again _ hf ih =>
      obtain ⟨taken, hr⟩ := ih
      rcases hr.next with ⟨index, hnext, -, -⟩ | ⟨hnext, rfl⟩
      · rw [hf] at hnext
        cases hnext
      · rw [hf] at hnext
        obtain ⟨-, rfl⟩ := Group.resume_inj hnext
        refine ⟨_, hr.toCounts, .inl ⟨0, rfl, Nat.zero_le _, fun i => ?_⟩⟩
        simp

/-! ## All groups of a path -/

/-- A continuation waits for term number `n` of a group: the path has entered the term from a path in
the group on which the terms of `matched` had matched, and has not come to its end. -/
def Awaits (m : Machine ε) (start : Else) (g : Group) (thens : List Then) (matched : List Nat) (n : Nat)
    (p : Else) : Prop :=
  ∃ entry tried e body other, ReflTransGen m.Becomes start entry ∧
    m.Activation g entry matched tried e ∧ g.Enters e n body other ∧ body.thens = thens ∧
    ReflTransGen (m.Inside thens) body p

/-- Every group that a path is in was entered on it, and so was the term of every group that one of its
continuations goes back to. -/
structure Recorded (m : Machine ε) (start p : Else) : Prop where
  reached : ReflTransGen m.Becomes start p
  group : ∀ g taken, p.At g taken →
    ∃ entry matched tried, ReflTransGen m.Becomes start entry ∧ m.Activation g entry matched tried p
  thens : ∀ g taken t rest, t :: rest <:+ p.thens → t.next = g.resume taken →
    ∃ matched n, m.Awaits start g (t :: rest) matched n p
  /-- a continuation goes back to a group only after a term -/
  plain : ∀ t ∈ p.thens, ∀ g index taken, t.next ≠ Group.choose g index taken

variable {start : Else}

theorem Recorded.suffix (h : m.Recorded start e) (hf : m.Becomes e p) {g : Group} {taken : TermSet}
    {t : Then} {rest : List Then} (hs : t :: rest <:+ e.thens) (hp : t :: rest <:+ p.thens)
    (ht : t.next = g.resume taken) : ∃ matched n, m.Awaits start g (t :: rest) matched n p := by
  obtain ⟨matched, n, entry, tried, e', body, other, hentry, ha, he, hb, hin⟩ :=
    h.thens g taken t rest hs ht
  exact ⟨matched, n, entry, tried, e', body, other, hentry, ha, he, hb, hin.tail ⟨hf, hp⟩⟩

/-- A path that keeps its continuations keeps what is recorded of them. -/
theorem Recorded.of_thens_eq (h : m.Recorded start e) (hf : m.Becomes e p) (ht : p.thens = e.thens)
    (hg : ∀ g taken, p.At g taken → ∃ entry matched tried, ReflTransGen m.Becomes start entry ∧
      m.Activation g entry matched tried p) : m.Recorded start p where
  reached := h.reached.tail hf
  group := hg
  thens := fun _ _ _ _ hs hn => h.suffix hf (ht ▸ hs) hs hn
  plain := ht ▸ h.plain

/-- **What a path goes on as is recorded if the path is.** -/
theorem Recorded.becomes (h : m.Recorded start e) (hf : m.Becomes e p) : m.Recorded start p := by
  have hchoose : ∀ g index taken, p.next = Group.choose g index taken → p.thens = e.thens →
      (∃ entry matched tried, ReflTransGen m.Becomes start entry ∧
        m.Activation g entry matched tried p) → m.Recorded start p := by
    intro g index taken hn ht ha
    refine h.of_thens_eq hf ht fun g' taken' hg' => ?_
    rw [hg'.eq_of_choose hn]
    exact ha
  have hpushed : ∀ t, p.thens = t :: e.thens → (∃ s, p.next = .state s) →
      (∀ g index taken, t.next ≠ Group.choose g index taken) →
      (∀ g taken, t.next = Group.resume g taken →
        ∃ matched n, m.Awaits start g (t :: e.thens) matched n p) →
      m.Recorded start p := by
    rintro t ht ⟨s, hs⟩ hplain hnew
    refine ⟨h.reached.tail hf, fun g taken hg => absurd hg (Else.not_at_of_state hs), ?_, ?_⟩
    · intro g taken u rest hsuffix hu
      have hsuffix' := hsuffix
      rw [ht] at hsuffix
      rcases List.suffix_cons_iff.mp hsuffix with heq | hsuffix
      · cases heq
        exact hnew g taken hu
      · exact h.suffix hf hsuffix hsuffix' hu
    · rw [ht]
      exact List.forall_mem_cons.mpr ⟨hplain, h.plain⟩
  rcases hf.cases with hturn | ⟨g, n, other, he⟩ | ⟨g, n, body, he⟩
  · cases hturn with
    | stays s hn ht =>
        exact h.of_thens_eq hf ht fun g taken hg => absurd hg (Else.not_at_of_state hn)
    | awaits s s' hn ht =>
        refine hpushed _ ht ⟨s, hn⟩ (fun g index taken hne => ?_) fun g taken hne => ?_
        · cases hne
        · cases hne
    | opens g hfocus hp =>
        subst hp
        exact hchoose g 0 _ rfl rfl ⟨e, [], [], h.reached, .opened hfocus⟩
    | again g taken hfocus hp =>
        subst hp
        obtain ⟨entry, matched, tried, hentry, ha⟩ := h.group g taken (.inr hfocus)
        exact hchoose g 0 _ rfl rfl ⟨entry, matched, tried, hentry, ha.again hfocus⟩
    | skips g hs =>
        have hs' := hs
        obtain ⟨hfocus, -, -, -⟩ := hs
        obtain ⟨entry, matched, tried, hentry, ha⟩ := h.group g _ (.inl ⟨_, hfocus⟩)
        exact hchoose g _ _ rfl rfl ⟨entry, matched, tried, hentry, ha.skipped hs'⟩
    | returns t ht hn =>
        have hthens : ∀ u rest, u :: rest <:+ p.thens → u :: rest <:+ e.thens := by
          intro u rest hs
          rw [ht]
          exact hs.trans (List.suffix_cons _ _)
        refine ⟨h.reached.tail hf, fun g taken hg => ?_,
          fun g taken u rest hs hu => h.suffix hf (hthens u rest hs) hs hu, fun u hu => ?_⟩
        · rcases hn with hn | ⟨_, s', _, hn⟩
          · have hmem : t ∈ e.thens := ht ▸ List.mem_cons_self
            rcases hg with ⟨index, hg⟩ | hg
            · exact absurd (hn.symm.trans hg) (h.plain t hmem g index taken)
            · -- the term of the group that the path goes back to has matched
              obtain ⟨matched, n, entry, tried, e', body, other, hentry, ha, he, hb, hin⟩ :=
                h.thens g taken t p.thens (ht ▸ List.suffix_refl _) (hn.symm.trans hg)
              refine ⟨entry, matched ++ [n], [], hentry, ha.matched he ⟨e, hb ▸ hin, ?_, hf, ?_⟩⟩
              · rw [hb, ht]
              · rw [hb, List.tail_cons]
          · exact absurd hg (Else.not_at_of_state hn)
        · exact h.plain u (ht ▸ List.mem_cons_of_mem t hu)
  · have he' := he
    obtain ⟨hfocus, -, -, -⟩ := he
    obtain ⟨entry, matched, tried, hentry, ha⟩ := h.group g _ (.inl ⟨_, hfocus⟩)
    refine hpushed _ rfl ⟨_, rfl⟩ (fun g' index taken hne => by cases hne) fun g' taken hne => ?_
    obtain ⟨rfl, -⟩ := Group.resume_inj hne
    exact ⟨matched, n, entry, tried, e, _, _, hentry, ha, he', rfl, .refl⟩
  · have he' := he
    obtain ⟨hfocus, -, -, -⟩ := he
    obtain ⟨entry, matched, tried, hentry, ha⟩ := h.group g _ (.inl ⟨_, hfocus⟩)
    exact hchoose g _ _ rfl rfl ⟨entry, matched, tried ++ [n], hentry, ha.failed he'⟩

/-- **Every path of a run is recorded.** -/
theorem Leads.recorded {root : State} {c : Config} (h : m.Leads (.start root) c) :
    ∀ p ∈ c.paths, m.Recorded (Config.start root).here p := by
  refine h.forall_paths (fun _ he => he.becomes .giveUp)
    (fun _ _ _ _ hx he p hp => he.becomes (.expand hx hp)) fun p hp => ?_
  rw [mem_paths_start hp]
  refine ⟨.refl, fun g taken hg => absurd hg (Else.not_at_of_state rfl), ?_,
    List.forall_mem_nil _⟩
  intro g taken t rest hs
  cases List.suffix_nil.mp hs

end Machine

end ValueGrammar

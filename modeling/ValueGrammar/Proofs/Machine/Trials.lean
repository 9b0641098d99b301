import ValueGrammar.Proofs.Machine.Activation

/-!
# `ValueGrammar.Proofs.Machine.Trials` — the terms that were tried, and failed

A machine that goes over the terms of a group in any order leaves a path behind for each term it enters,
on which the group goes on after that term, and comes back to this path only after a failure. So a term
that it has passed over without its being matched was entered at the same place, with the same stacks,
and has failed. This module proves it for a whole run, in which the paths left behind are put off with
a type, taken up again and thrown away.

## Contents
- `Machine.Entered`, `Machine.Backtracked`: a term was entered in a run, and has failed.
- `Machine.PassedOver`, `Machine.Waits`: the path a machine is on, and the paths it left behind.
- `Machine.Tried`, `Machine.Tried.step`, `Machine.Leads.tried`: every path of a run.
-/

namespace ValueGrammar

namespace Machine

variable {ε : Type} {m : Machine ε} {root : State} {c c' : Config} {g : Group} {i : Nat}
  {other : Else}

/-- On the way to a configuration term number `i` of a group was entered, with `other` left for when it
fails. -/
def Entered (m : Machine ε) (root : State) (c : Config) (g : Group) (i : Nat) (other : Else) : Prop :=
  ∃ c₁ c₂, m.Leads (.start root) c₁ ∧ m.step c₁ = .next c₂ ∧ g.Enters c₁.here i c₂.here other ∧
    m.Leads c₂ c

/-- On the way to a configuration term number `i` of a group was entered and, after a failure, the
machine went back to `other`. -/
def Backtracked (m : Machine ε) (root : State) (c : Config) (g : Group) (i : Nat) (other : Else) :
    Prop :=
  ∃ c₁ c₂, m.Entered root c₁ g i other ∧ c₁.focus = .state .reject ∧ m.step c₁ = .next c₂ ∧
    c₂.here = other ∧ m.Leads c₂ c

theorem Entered.next (h : m.Entered root c g i other) (hs : m.step c = .next c') :
    m.Entered root c' g i other := by
  obtain ⟨c₁, c₂, hl, hs', he, hl'⟩ := h
  exact ⟨c₁, c₂, hl, hs', he, hl'.tail hs⟩

theorem Backtracked.next (h : m.Backtracked root c g i other) (hs : m.step c = .next c') :
    m.Backtracked root c' g i other := by
  obtain ⟨c₁, c₂, he, hf, hs', ho, hl⟩ := h
  exact ⟨c₁, c₂, he, hf, hs', ho, hl.tail hs⟩

theorem Backtracked.entered (h : m.Backtracked root c g i other) : m.Entered root c g i other := by
  obtain ⟨c₁, c₂, ⟨c₃, c₄, hl, hs, he, hl'⟩, -, hs', -, hl''⟩ := h
  exact ⟨c₃, c₄, hl, hs, he, (hl'.tail hs').trans hl''⟩

/-- Every term that the path has passed over in a group without its matching was tried and failed. -/
def PassedOver (m : Machine ε) (root : State) (c : Config) (p : Else) : Prop :=
  ∀ g index taken, p.next = Group.choose g index taken → ∀ i < index, taken.has i = false →
    m.Backtracked root c g i (p.goto (g.choose (i + 1) taken))

/-- Every term that the path has passed over in a group without its matching was tried, and all but the
last one failed. -/
def Waits (m : Machine ε) (root : State) (c : Config) (p : Else) : Prop :=
  ∀ g index taken, p.next = Group.choose g index taken → ∀ i < index, taken.has i = false →
    m.Entered root c g i (p.goto (g.choose (i + 1) taken)) ∧
      (i + 1 < index → m.Backtracked root c g i (p.goto (g.choose (i + 1) taken)))

variable {p : Else}

theorem PassedOver.next (h : m.PassedOver root c p) (hs : m.step c = .next c') :
    m.PassedOver root c' p :=
  fun g index taken hf i hi hfree => (h g index taken hf i hi hfree).next hs

theorem Waits.next (h : m.Waits root c p) (hs : m.step c = .next c') : m.Waits root c' p := by
  intro g index taken hf i hi hfree
  obtain ⟨hentered, hbefore⟩ := h g index taken hf i hi hfree
  exact ⟨hentered.next hs, fun hlt => (hbefore hlt).next hs⟩

theorem passedOver_of_state {s : State} (hn : p.next = .state s) : m.PassedOver root c p := by
  intro g index taken hf
  rw [hn] at hf
  cases hf

theorem waits_of_state {s : State} (hn : p.next = .state s) : m.Waits root c p := by
  intro g index taken hf
  rw [hn] at hf
  cases hf

/-- The path a machine is on has failed in the terms it has passed over, and so have those it may go
back to, but for the terms that they wait for. -/
structure Tried (m : Machine ε) (root : State) (c : Config) : Prop where
  here : m.PassedOver root c c.here
  waiting : ∀ p ∈ c.elses ++ c.putOff, m.Waits root c p

/-- After a failure the machine goes back to a path that waits, and what this waits for has failed. -/
theorem Waits.passedOver (h : m.Waits root c c'.here) (hs : m.step c = .next c')
    (hf : c.focus = .state .reject) : m.PassedOver root c' c'.here := by
  intro g index taken hfocus i hi hfree
  obtain ⟨hentered, hbefore⟩ := h g index taken hfocus i hi hfree
  rcases Nat.lt_or_ge (i + 1) index with hlt | hge
  · exact (hbefore hlt).next hs
  · have hlast : i + 1 = index := by omega
    have hhere : c'.here = c'.here.goto (g.choose (i + 1) taken) := by
      rw [hlast, ← hfocus]
      rfl
    exact ⟨c, c', hentered, hf, hs, hhere, .refl⟩

/-- A path that goes on in a group without entering a term passes only over terms that have matched. -/
theorem PassedOver.turns (h : m.PassedOver root c c.here) (hs : m.step c = .next c')
    (hplain : ∀ t ∈ c.thens, ∀ g index taken, t.next ≠ Group.choose g index taken)
    (hturn : Turns c.here p) : m.PassedOver root c' p := by
  cases hturn with
  | stays s hn | awaits s _ hn => exact passedOver_of_state hn
  | opens g hf hp | again g taken hf hp =>
      subst hp
      intro g' index taken' hfocus i hi
      obtain ⟨-, rfl, -⟩ := Group.choose_inj hfocus
      exact absurd hi (Nat.not_lt_zero i)
  | returns t ht hn =>
      rcases hn with hn | ⟨_, s, _, hn⟩
      · intro g index taken hfocus
        have hmem : t ∈ c.here.thens := ht ▸ List.mem_cons_self
        exact absurd (hn.symm.trans hfocus) (hplain t hmem g index taken)
      · exact passedOver_of_state hn
  | skips g hskip =>
      obtain ⟨hf, hne, hfull, hnone⟩ := hskip
      intro g' index' taken' hfocus i hi hfree
      obtain ⟨rfl, rfl, rfl⟩ := Group.choose_inj hfocus
      refine (h g _ _ hf i ?_ hfree).next hs
      by_contra hge
      have hhas := nextTerm?_none hnone i (Nat.le_of_not_lt hge) (by rw [List.length_drop]; omega)
      rw [hfree] at hhas
      cases hhas

/-- Where a term is entered, the path that is left waits for it. -/
theorem PassedOver.enters (h : m.PassedOver root c c.here) (hl : m.Leads (.start root) c)
    (hs : m.step c = .next c') {n : Nat} (he : g.Enters c.here n c'.here other) :
    m.Waits root c' other := by
  have hentered : m.Entered root c' g n other := ⟨c, c', hl, hs, he, .refl⟩
  generalize c'.here = body at he
  obtain ⟨hf, hne, hfull, hn⟩ := he
  obtain ⟨-, -, hfree, hbefore⟩ := nextTerm?_some hn
  intro g' index' taken' hfocus i hi hfree'
  obtain ⟨rfl, rfl, rfl⟩ := Group.choose_inj hfocus
  rcases Nat.lt_succ_iff_lt_or_eq.mp hi with hlt | rfl
  · have hpassed := (h g _ _ hf i (by
      by_contra hge
      rw [hbefore i (Nat.le_of_not_lt hge) hlt] at hfree'
      cases hfree') hfree').next hs
    exact ⟨hpassed.entered, fun _ => hpassed⟩
  · exact ⟨hentered, fun hlt => absurd hlt (Nat.lt_irrefl _)⟩

/-- A step that looks at the path the machine is on keeps what is known of the terms passed over. -/
theorem Tried.splits (h : m.Tried root c) (hl : m.Leads (.start root) c) (hs : m.step c = .next c')
    {new : List Else} (hsplit : Splits c.here new) (hp : c'.here :: c'.elses = new ++ c.elses)
    (hput : c'.putOff ⊆ c.putOff) : m.Tried root c' := by
  have hplain := (hl.recorded c.here (List.mem_append_left _ List.mem_cons_self)).plain
  have helse : ∀ q ∈ c.elses, m.Waits root c' q := fun q hq =>
    (h.waiting q (List.mem_append_left _ hq)).next hs
  have hputOff : ∀ q ∈ c'.putOff, m.Waits root c' q := fun q hq =>
    (h.waiting q (List.mem_append_right _ (hput hq))).next hs
  cases hsplit with
  | ends hf =>
      have hmem : c'.here :: c'.elses ⊆ c.elses := fun q hq => by rwa [hp] at hq
      refine ⟨?_, List.forall_mem_append.mpr ⟨fun q hq => ?_, hputOff⟩⟩
      · exact (h.waiting _ (List.mem_append_left _ (hmem List.mem_cons_self))).passedOver hs hf
      · exact helse q (hmem (List.mem_cons_of_mem _ hq))
  | turns hturn =>
      obtain ⟨rfl, helses⟩ := List.cons.inj hp
      change c'.elses = c.elses at helses
      exact ⟨h.here.turns hs hplain hturn,
        List.forall_mem_append.mpr ⟨helses ▸ helse, hputOff⟩⟩
  | branches hturn hn =>
      obtain ⟨rfl, helses⟩ := List.cons.inj hp
      refine ⟨h.here.turns hs hplain hturn,
        List.forall_mem_append.mpr ⟨helses ▸ List.forall_mem_cons.mpr ⟨?_, helse⟩, hputOff⟩⟩
      exact waits_of_state hn
  | enters g n he =>
      obtain ⟨rfl, helses⟩ := List.cons.inj hp
      have hother := h.here.enters hl hs he
      refine ⟨?_, List.forall_mem_append.mpr
        ⟨helses ▸ List.forall_mem_cons.mpr ⟨hother, helse⟩, hputOff⟩⟩
      generalize c'.here = body at he
      cases he
      exact passedOver_of_state rfl

/-- **The terms that a path has passed over were tried and failed**, and so it is after every step. -/
theorem Tried.step (h : m.Tried root c) (hl : m.Leads (.start root) c) (hs : m.step c = .next c') :
    m.Tried root c' := by
  cases step_next hs with
  | expand hx hp hstash =>
      refine h.splits hl hs hx.splits hp ?_
      rw [Config.putOff_congr hstash]
      exact List.Subset.refl _
  | take hx hp _ hstash =>
      refine h.splits hl hs hx.splits hp ?_
      rw [Config.putOff_none hstash]
      exact List.nil_subset _
  | defer _ _ hhere helses hstash _ hf =>
      refine ⟨hhere ▸ passedOver_of_state rfl,
        List.forall_mem_append.mpr ⟨fun q hq => ?_, fun q hq => ?_⟩⟩
      · exact (h.waiting q (List.mem_append_left _ (helses ▸ hq))).next hs
      · cases hput : c.stash with
        | some s =>
            rw [hput] at hstash
            have hsame : c'.putOff = c.putOff := Config.putOff_congr (hstash.trans hput.symm)
            exact (h.waiting q (List.mem_append_right _ (hsame ▸ hq))).next hs
        | none =>
            rw [hput] at hstash
            rw [Config.putOff_some hstash] at hq
            rcases List.mem_cons.mp hq with rfl | hq
            · exact waits_of_state hf
            · exact (h.waiting q (List.mem_append_left _ hq)).next hs
  | retry hf hstash _ hhere helses hstash' =>
      have hput := Config.putOff_some hstash
      have hwaits : ∀ q ∈ c'.here :: c'.elses, m.Waits root c q := by
        intro q hq
        rw [hhere, helses, ← hput] at hq
        exact h.waiting q (List.mem_append_right _ hq)
      refine ⟨(hwaits _ List.mem_cons_self).passedOver hs hf, fun q hq => ?_⟩
      rw [Config.putOff_none hstash', List.append_nil] at hq
      exact (hwaits q (List.mem_cons_of_mem _ hq)).next hs

theorem tried_start (root : State) : m.Tried root (.start root) :=
  ⟨passedOver_of_state (s := root) rfl, List.forall_mem_nil _⟩

/-- **Whatever a path of a run has passed over was tried and failed.** -/
theorem Leads.tried (h : m.Leads (.start root) c) : m.Tried root c := by
  have hboth : m.Leads (.start root) c ∧ m.Tried root c :=
    h.invariant (P := fun a => m.Leads (.start root) a ∧ m.Tried root a)
      (fun _ _ hs ha => ⟨ha.1.tail hs, ha.2.step ha.1 hs⟩) ⟨.refl, tried_start root⟩
  exact hboth.2

end Machine

end ValueGrammar

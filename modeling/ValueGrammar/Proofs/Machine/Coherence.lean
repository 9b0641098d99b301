import ValueGrammar.Proofs.Acceptance
import ValueGrammar.Proofs.Machine.Path

/-!
# `ValueGrammar.Proofs.Machine.Coherence` — what holds of every path of a run

The parts of a path agree with each other. The last token recorded in its trace is the one before its
place, so that what a leaf sees behind it and whether a token was taken can be read off the place
alone. The scopes a continuation was put off in are those around the scopes of the path, so that
leaving scopes leads back to them.

## Contents
- `Machine.Leads`, `Machine.Leads.to_end`, `Machine.run_ends`, `Machine.run_failed`: runs, and how
  they end.
- `Trace.place`, `Trace.Tracks`: the place a trace has got to.
- `Nested`, `Else.Coherent`: what holds of a path.
- `Machine.Leads.forall_paths`: what every path of a run keeps.
- `Machine.Expands.coherent`, `Machine.Leads.coherent`: a step keeps it, and so does a run.
- `Machine.Leads.stash_none`: nothing is put off by a machine that does not do so.
-/

namespace ValueGrammar

/-! ## Runs -/

namespace Machine

variable {ε : Type}

/-- A run leads from one configuration to another. -/
inductive Leads (m : Machine ε) : Config → Config → Prop where
  | refl {c} : Leads m c c
  | head {c c' c''} (hs : m.step c = .next c') (h : Leads m c' c'') : Leads m c c''

variable {m : Machine ε} {c c' c'' : Config}

theorem Leads.tail (h : m.Leads c c') (hs : m.step c' = .next c'') : m.Leads c c'' := by
  induction h with
  | refl => exact .head hs .refl
  | head hs' _ ih => exact .head hs' (ih hs)

/-- What a step keeps, a run keeps. -/
theorem Leads.invariant {P : Config → Prop} (hstep : ∀ c c', m.step c = .next c' → P c → P c')
    (h : m.Leads c c') (hc : P c) : P c' := by
  induction h with
  | refl => exact hc
  | head hs _ ih => exact ih (hstep _ _ hs hc)

/-- A run is the only one: what it leads to is on the way to where it ends. -/
theorem Leads.to_end {root final : Config} (h : m.Leads root c) (hf : m.Leads root final)
    (hend : ∀ c', m.step final ≠ .next c') : m.Leads c final := by
  induction h with
  | refl => exact hf
  | head hs _ ih =>
      cases hf with
      | refl => exact absurd hs (hend _)
      | head hs' hf =>
          rw [hs] at hs'
          cases hs'
          exact ih hf

/-- The last step of a run that was not cut off. -/
def Run.EndsWith (m : Machine ε) (r : Run ε) (c : Config) : Prop :=
  match r.outcome with
  | .matched => ∃ c', m.step c = .finished true c' ∧ r.final = c'.closeTo []
  | .mismatched => m.step c = .finished false r.final
  | .failed error => m.step c = .failed error r.final
  | .limited => True

/-- A run ends with a step from a configuration it leads to. The induction is on the steps left. -/
theorem runFrom_ends (m : Machine ε) (fuel steps : Nat) (c : Config) :
    ∃ c', m.Leads c c' ∧ (m.runFrom fuel steps c).EndsWith m c' := by
  induction fuel generalizing steps c with
  | zero => exact ⟨c, .refl, trivial⟩
  | succ fuel ih =>
      rw [runFrom]
      cases hs : m.step c with
      | next c₁ =>
          obtain ⟨c', hl, he⟩ := ih (steps + 1) c₁
          exact ⟨c', .head hs hl, he⟩
      | finished matched c₁ =>
          cases matched with
          | true => exact ⟨c, .refl, c₁, hs, rfl⟩
          | false => exact ⟨c, .refl, hs⟩
      | failed error c₁ => exact ⟨c, .refl, hs⟩

theorem run_ends (m : Machine ε) (limit : Nat) (root : State) :
    ∃ c, m.Leads (.start root) c ∧ (m.run limit root).EndsWith m c :=
  runFrom_ends m limit 0 (.start root)

theorem run_failed {limit : Nat} {root : State} {error : MachineError ε}
    (h : (m.run limit root).outcome = .failed error) :
    ∃ c c', m.Leads (.start root) c ∧ m.step c = .failed error c' := by
  obtain ⟨c, hc, hends⟩ := m.run_ends limit root
  rw [Run.EndsWith, h] at hends
  exact ⟨c, _, hc, hends⟩

end Machine

/-! ## Places of a trace -/

namespace Trace

variable {ts : List Token} {tr tr' : Trace} {i : Nat}

/-- The place after the last token recorded. -/
def place (tr : Trace) : Nat := tr.lastIndex?.elim 0 (· + 1)

theorem place_eq_place_iff : tr.place = tr'.place ↔ tr.lastIndex? = tr'.lastIndex? := by
  unfold place
  cases tr.lastIndex? <;> cases tr'.lastIndex? <;> simp

theorem lastToken?_closing (scopes : List Scope) (tr : Trace) :
    (closing scopes tr).lastToken? = tr.lastToken? := by
  induction scopes generalizing tr with
  | nil => rfl
  | cons s outer ih =>
      change (closing outer _).lastToken? = _
      rw [ih]
      rcases tr with _ | ⟨entry, rest⟩
      · rfl
      · cases entry <;> rfl

/-- The last token recorded is the one before the place `i`, which is within the tokens. -/
def Tracks (ts : List Token) (tr : Trace) (i : Nat) : Prop :=
  i ≤ ts.length ∧ tr.lastToken? = (tokenBefore ts i).map fun t => (i - 1, t)

theorem tracks_nil : Tracks ts [] 0 := ⟨Nat.zero_le _, rfl⟩

theorem Tracks.congr (h : tr.Tracks ts i) (he : tr'.lastToken? = tr.lastToken?) :
    tr'.Tracks ts i := ⟨h.1, he.trans h.2⟩

theorem Tracks.last (h : tr.Tracks ts i) : tr.lastToken?.map (·.2) = tokenBefore ts i := by
  rw [h.2, Option.map_map]
  exact Option.map_id'

theorem Tracks.place_eq (h : tr.Tracks ts i) : tr.place = i := by
  rw [place, lastIndex?, h.2]
  cases i with
  | zero => rfl
  | succ n =>
      have hlt : n < ts.length := h.1
      simp [tokenBefore, List.getElem?_eq_getElem hlt]

theorem Tracks.token {node : Grammar} {t : Token} (h : ts[i]? = some t) :
    Tracks ts (.token node i t :: tr) (i + 1) :=
  ⟨(List.getElem?_eq_some_iff.mp h).1, by simp [lastToken?, tokenBefore, h]⟩

/-- Taking the tokens ahead moves the place behind them. -/
theorem Tracks.taking {node : Grammar} {n : Nat} (h : tr.Tracks ts i)
    (hn : n ≤ (ts.drop i).length) :
    (tr.taking node i ((ts.drop i).take n)).Tracks ts (i + n) := by
  induction n generalizing i tr with
  | zero => simpa [Trace.taking] using h
  | succ n ih =>
      have hlt : i < ts.length := by rw [List.length_drop] at hn; omega
      rw [List.drop_eq_getElem_cons hlt, List.take_succ_cons, Trace.taking,
        show i + (n + 1) = i + 1 + n by omega]
      refine ih (.token (List.getElem?_eq_getElem hlt)) ?_
      rw [List.length_drop] at hn ⊢
      omega

end Trace

/-! ## Scopes of a path -/

/-- The scopes of every continuation are those around the scopes of the one before it. -/
def Nested : List Scope → List Then → Prop
  | _, [] => True
  | scopes, t :: thens => t.scopes <:+ scopes ∧ Nested t.scopes thens

theorem Nested.mono {scopes scopes' : List Scope} {thens : List Then} (h : Nested scopes thens)
    (hs : scopes <:+ scopes') : Nested scopes' thens := by
  cases thens with
  | nil => trivial
  | cons t thens => exact ⟨h.1.trans hs, h.2⟩

/-- The parts of a path agree with each other. -/
structure Else.Coherent (ts : List Token) (e : Else) : Prop where
  tracks : e.trace.Tracks ts e.index
  nested : Nested e.scopes e.thens

namespace Else

variable {ts : List Token} {e : Else}

theorem leave_scopes {scopes : List Scope} (h : scopes <:+ e.scopes) :
    (e.leave scopes).scopes = scopes := (List.suffix_iff_eq_drop.mp h).symm

theorem leave_lastToken? (e : Else) (scopes : List Scope) :
    (e.leave scopes).trace.lastToken? = e.trace.lastToken? :=
  Trace.lastToken?_closing _ _

theorem Coherent.goto (h : e.Coherent ts) (f : Focus) : (e.goto f).Coherent ts :=
  ⟨h.tracks, h.nested⟩

theorem Coherent.await (h : e.Coherent ts) (f : Focus) : (e.await f).Coherent ts :=
  ⟨h.tracks, List.suffix_refl _, h.nested⟩

/-- Going on with a continuation leads back to the scopes it was put off in. -/
theorem Coherent.resume {t : Then} {thens : List Then} (h : e.Coherent ts)
    (ht : e.thens = t :: thens) (f : Focus) :
    Coherent ts { e.leave t.scopes with next := f, thens } := by
  have hn := h.nested
  rw [ht] at hn
  refine ⟨h.tracks.congr (e.leave_lastToken? t.scopes), ?_⟩
  change Nested (e.leave t.scopes).scopes thens
  rw [leave_scopes hn.1]
  exact hn.2

end Else

namespace Machine

variable {ε : Type} {m : Machine ε} {c c' : Config}

/-- **The paths a coherent path leads to are coherent.** -/
theorem Expands.coherent {e : Else} {new : List Else} {notes notes' : Notes}
    (hx : m.Expands e notes new notes') (h : e.Coherent m.tokens) :
    ∀ p ∈ new, p.Coherent m.tokens := by
  cases hx with
  | unfinished | empty | last | full | skip | again | once | ended | enum =>
      intro p hp
      rw [List.mem_singleton.mp hp]
      exact h.goto _
  | nonEmpty _ ht _ _ | resume _ ht _ =>
      intro p hp
      rw [List.mem_singleton.mp hp]
      exact h.resume ht _
  | reject => intro p hp; cases hp
  | @branch s test next other _ _ =>
      intro p hp
      rcases List.mem_cons.mp hp with rfl | hp
      · split
        · exact h.goto _
        · exact (h.await _).goto _
      · split at hp
        · cases hp
        · rw [List.mem_singleton.mp hp]
          exact h.goto _
  | pick =>
      intro p hp
      rcases List.mem_cons.mp hp with rfl | hp
      · exact (h.await _).goto _
      · rw [List.mem_singleton.mp hp]
        exact h.goto _
  | leaf _ hl =>
      intro p hp
      rw [List.mem_singleton.mp hp]
      exact ⟨h.tracks.taking (Leaf.le_length_of_take hl), h.nested⟩
  | call =>
      -- entering a scope records no token, and the continuations stay in the scopes around it
      intro p hp
      rw [List.mem_singleton.mp hp]
      exact ⟨h.tracks.congr rfl, h.nested.mono (List.suffix_cons _ _)⟩

end Machine

/-! ## Paths of a configuration -/

namespace Config

/-- The path put off, and the alternatives below it. -/
def putOff (c : Config) : List Else :=
  match c.stash with
  | some (e, elses) => e :: elses
  | none => []

/-- All the paths a machine may still follow. -/
def paths (c : Config) : List Else := (c.here :: c.elses) ++ c.putOff

theorem putOff_congr {c c' : Config} (h : c'.stash = c.stash) : c'.putOff = c.putOff := by
  rw [putOff, putOff, h]

theorem putOff_none {c : Config} (h : c.stash = none) : c.putOff = [] := by
  rw [putOff, h]

theorem putOff_some {c : Config} {e : Else} {elses : List Else} (h : c.stash = some (e, elses)) :
    c.putOff = e :: elses := by
  rw [putOff, h]

end Config

namespace Machine

variable {ε : Type} {m : Machine ε} {c c' : Config}

/-- Where the paths after a step come from. -/
theorem Moves.mem_paths (h : m.Moves c c') {p : Else} (hp : p ∈ c'.paths) :
    p ∈ c.paths ∨ p = c.here.goto (.state .reject) ∨
      ∃ new, m.Expands c.here c.notes new c'.notes ∧ p ∈ new := by
  -- a step that replaces the path it is on keeps the alternatives
  have hsplit : ∀ new, m.Expands c.here c.notes new c'.notes →
      c'.here :: c'.elses = new ++ c.elses → p ∈ c'.here :: c'.elses →
        p ∈ c.paths ∨ p = c.here.goto (.state .reject) ∨
          ∃ new, m.Expands c.here c.notes new c'.notes ∧ p ∈ new := by
    intro new hx he hp
    rw [he, List.mem_append] at hp
    rcases hp with hp | hp
    · exact .inr (.inr ⟨new, hx, hp⟩)
    · exact .inl (List.mem_append_left _ (List.mem_cons_of_mem _ hp))
  rcases List.mem_append.mp hp with hp | hp
  · cases h with
    | expand hx he _ _ => exact hsplit _ hx he hp
    | take hx he _ _ _ => exact hsplit _ hx he hp
    | defer _ _ hh he _ _ =>
        rw [hh, he] at hp
        rcases List.mem_cons.mp hp with rfl | hp
        · exact .inr (.inl rfl)
        · exact .inl (List.mem_append_left _ (List.mem_cons_of_mem _ hp))
    | retry _ hs _ hh he _ _ =>
        rw [hh, he, ← Config.putOff_some hs] at hp
        exact .inl (List.mem_append_right _ hp)
  · cases h with
    | expand _ _ hs _ =>
        rw [Config.putOff_congr hs] at hp
        exact .inl (List.mem_append_right _ hp)
    | take _ _ _ hs _ => rw [Config.putOff_none hs] at hp; cases hp
    | retry _ _ _ _ _ hs _ => rw [Config.putOff_none hs] at hp; cases hp
    | defer _ _ _ _ hs _ =>
        -- the first path put off since the last token is kept with the alternatives below it
        rw [Config.putOff_some hs] at hp
        cases hstash : c.stash with
        | none =>
            rw [hstash] at hp
            exact .inl (List.mem_append_left _ hp)
        | some s =>
            rw [hstash] at hp
            refine .inl (List.mem_append_right _ ?_)
            rw [Config.putOff_some hstash]
            exact hp

/-- A machine that puts nothing off keeps nothing that was. -/
theorem Moves.stash_none (hm : m.Moves c c') (hl : m.lowPriority = false) (h : c.stash = none) :
    c'.stash = none := by
  cases hm with
  | expand _ _ hs _ => exact hs.trans h
  | take _ _ _ hs _ => exact hs
  | retry _ _ _ _ _ hs _ => exact hs
  | defer hl' => rw [hl] at hl'; cases hl'

theorem Leads.stash_none (hl : m.Leads c c') (hlow : m.lowPriority = false)
    (h : c.stash = none) : c'.stash = none :=
  hl.invariant (fun _ _ hs hc => (step_next hs).stash_none hlow hc) h

/-- What a path keeps when it is given up, and hands on to the paths it leads to, holds of every path
after a step if it held of every path before. -/
theorem Moves.forall_paths {P : Else → Prop} (hm : m.Moves c c')
    (hgoto : ∀ e, P e → P (e.goto (.state .reject)))
    (hx : ∀ e notes new notes', m.Expands e notes new notes' → P e → ∀ p ∈ new, P p)
    (h : ∀ p ∈ c.paths, P p) : ∀ p ∈ c'.paths, P p := by
  intro p hp
  have hhere : P c.here := h c.here (List.mem_append_left _ List.mem_cons_self)
  rcases hm.mem_paths hp with hp | rfl | ⟨new, hnew, hp⟩
  · exact h p hp
  · exact hgoto _ hhere
  · exact hx _ _ _ _ hnew hhere p hp

/-- What a path keeps and hands on holds of every path of a run. -/
theorem Leads.forall_paths {P : Else → Prop} (hl : m.Leads c c')
    (hgoto : ∀ e, P e → P (e.goto (.state .reject)))
    (hx : ∀ e notes new notes', m.Expands e notes new notes' → P e → ∀ p ∈ new, P p)
    (h : ∀ p ∈ c.paths, P p) : ∀ p ∈ c'.paths, P p :=
  hl.invariant (fun _ _ hs hc => (step_next hs).forall_paths hgoto hx hc) h

theorem mem_paths_start {root : State} {p : Else} (hp : p ∈ (Config.start root).paths) :
    p = (Config.start root).here := by
  simpa [Config.paths, Config.putOff, Config.start] using hp

/-- Every path of the configuration is coherent. -/
def Coherent (m : Machine ε) (c : Config) : Prop := ∀ p ∈ c.paths, p.Coherent m.tokens

theorem coherent_start (m : Machine ε) (root : State) : m.Coherent (.start root) := by
  intro p hp
  rw [mem_paths_start hp]
  exact ⟨Trace.tracks_nil, trivial⟩

theorem Coherent.here (h : m.Coherent c) : c.here.Coherent m.tokens :=
  h c.here (List.mem_append_left _ List.mem_cons_self)

theorem Moves.coherent (hm : m.Moves c c') (h : m.Coherent c) : m.Coherent c' :=
  hm.forall_paths (fun _ he => he.goto _) (fun _ _ _ _ hx he => hx.coherent he) h

/-- **Every path of a run is coherent.** -/
theorem Leads.coherent {root : State} (h : m.Leads (.start root) c) : m.Coherent c :=
  h.invariant (fun _ _ hs hc => (step_next hs).coherent hc) (m.coherent_start root)

end Machine

end ValueGrammar

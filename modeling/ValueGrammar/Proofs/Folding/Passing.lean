import ValueGrammar.Proofs.Folding.Table
import ValueGrammar.Proofs.Machine.Steps
import Mathlib.Data.List.Nodup

/-!
# `ValueGrammar.Proofs.Folding.Passing` — alternatives that fail in place

Without a table its entries are tried in turn. At any place at most one of them is found by the table;
those before it and after it fail without taking a token. A search passes them, and no more is left of
them than the references they looked up: what was put off is not tried before the alternatives of the
place the search is at.

A reference that an entry looks up may lead nowhere, which ends the search. With a table the entry need
not be tried, so that the reference is not looked up. Which references may be left alone like this is a
parameter `p`.

## Contents
- `Machine.Reaches`: a search comes to where something holds, or to a reference that leads nowhere.
- `State.Dies`: states that fail in place.
- `Config.PassedTo`, `Machine.reaches_of_dies`, `Machine.reaches_of_falls`: a search passes them.
- `Machine.FoundUnder`, `Tabled.idle_or_found`: what a table does at a place.
- `Machine.reaches_inTurn`: without the table the search comes to the entry that is found.
-/

namespace ValueGrammar

/-! ## Where a search comes to -/

namespace Machine

variable {ε : Type}

/-- The search comes to where `P` holds, or is ended by a reference that `p` holds of, which leads
nowhere. -/
def Reaches (m : Machine ε) (p : Reference → Prop) (c : Config) (P : Config → Prop) : Prop :=
  ∃ c₁, m.Leads c c₁ ∧ (P c₁ ∨ ∃ r c₂, p r ∧ m.step c₁ = .failed (.unresolved r) c₂)

variable {m : Machine ε} {p : Reference → Prop} {c c' : Config} {P Q : Config → Prop}

theorem Reaches.here (h : P c) : m.Reaches p c P := ⟨c, .refl, .inl h⟩

theorem Reaches.of_leads (hl : m.Leads c c') (h : m.Reaches p c' P) : m.Reaches p c P := by
  obtain ⟨c₁, hl', h⟩ := h
  exact ⟨c₁, hl.trans hl', h⟩

theorem Reaches.of_step (hs : m.step c = .next c') (h : m.Reaches p c' P) : m.Reaches p c P :=
  .of_leads (.single hs) h

theorem Reaches.bind (h : m.Reaches p c P) (hP : ∀ c₁, P c₁ → m.Reaches p c₁ Q) :
    m.Reaches p c Q := by
  obtain ⟨c₁, hl, h | ⟨r, c₂, hr, hs⟩⟩ := h
  · exact .of_leads hl (hP c₁ h)
  · exact ⟨c₁, hl, .inr ⟨r, c₂, hr, hs⟩⟩

end Machine

/-! ## Alternatives that fail in place -/

/-- The leaf takes nothing at place `i`, and fails. -/
def Leaf.Misses (ts : List Token) (i : Nat) (l : Leaf) : Prop :=
  ∀ last range, l.take last range (ts.drop i) = (0, false)

/-- The state fails at place `i` without taking a token or putting anything off, unless it comes to a
reference that `p` holds of, which leads nowhere. -/
inductive State.Dies {ε : Type} (m : Machine ε) (p : Reference → Prop) (i : Nat) : State → Prop where
  | reject : Dies m p i .reject
  | leaf {l node} (h : l.Misses m.tokens i) : Dies m p i (.leaf l node)
  | branch {s test next other} (hb : s.branch? = some (test, next, other)) (ht : Dies m p i test)
      (ho : Dies m p i other) : Dies m p i s
  | once {terms all node} (hlen : terms.length ≤ 64) (h : ∀ s ∈ terms, Dies m p i s) :
      Dies m p i (.once terms all node)
  | call {r range node root} (hr : m.resolve r = .ok (some root))
      (hlow : ∀ t, Machine.isLowPriority r t = false) (h : Dies m p i root) :
      Dies m p i (.call r range node)
  | missing {r range node} (hr : m.resolve r = .ok none) (hp : p r) : Dies m p i (.call r range node)

/-- Entries of a table in turn that fail at place `i`, up to the state that is looked at then. -/
inductive State.Falls {ε : Type} (m : Machine ε) (p : Reference → Prop) (i : Nat) :
    State → State → Prop where
  | refl {s} : Falls m p i s s
  | past {s next rest} (hs : s.IsEntry) (hd : s.Dies m p i) (h : Falls m p i next rest) :
      Falls m p i (.branch s .accept next) rest

theorem State.Falls.eq_reject {ε : Type} {m : Machine ε} {p : Reference → Prop} {i : Nat}
    {s rest : State} (h : Falls m p i s rest) (hs : s.isReject = true) : rest = .reject := by
  cases h with
  | refl => exact eq_reject_of_isReject hs
  | past hentry =>
      rw [isReject_of_not_isSentinel (branch_not_isSentinel hentry.not_isSentinel)] at hs
      cases hs

namespace Config

/-- Adds what comes after an alternative, if there is anything. -/
def offer (c : Config) (rest : State) : Config :=
  if rest.isReject then c else c.pushElse (.state rest)

variable {c c₁ c₂ : Config} {s : State} {f f' : Focus}

theorem goto_of_focus (h : c.focus = .state s) : c.goto s = c := by
  rw [goto, ← h]

theorem offer_eq (c : Config) (rest : State) :
    c.offer rest = { c with elses := (c.offer rest).elses } := by
  unfold offer
  split <;> rfl

theorem offer_index (c : Config) (rest : State) : (c.offer rest).index = c.index := by
  rw [offer_eq]

/-- The searches are at the same place and have the same alternatives. -/
structure Level (c c₁ : Config) : Prop where
  index : c₁.index = c.index
  elses : c₁.elses = c.elses
  stash : c₁.stash = c.stash
  stashUsed : c₁.stashUsed = c.stashUsed
  longest : c₁.longest = c.longest

theorem Level.trans (h : c.Level c₁) (h' : c₁.Level c₂) : c.Level c₂ where
  index := h'.index.trans h.index
  elses := h'.elses.trans h.elses
  stash := h'.stash.trans h.stash
  stashUsed := h'.stashUsed.trans h.stashUsed
  longest := h'.longest.trans h.longest

/-- The search `c` comes to look at something else in place. It stays on its path, unless that has
failed. -/
structure PassedTo (c : Config) (f : Focus) (c₁ : Config) : Prop extends c.Level c₁ where
  focus : c₁.focus = f
  path : f ≠ .state .reject → c₁.thens = c.thens ∧ c₁.scopes = c.scopes ∧ c₁.trace = c.trace

theorem passedTo_self (h : c.focus = f) : c.PassedTo f c where
  toLevel := ⟨rfl, rfl, rfl, rfl, rfl⟩
  focus := h
  path _ := ⟨rfl, rfl, rfl⟩

theorem passedTo_goto (c : Config) (s : State) : c.PassedTo (.state s) (c.goto s) where
  toLevel := ⟨rfl, rfl, rfl, rfl, rfl⟩
  focus := rfl
  path _ := ⟨rfl, rfl, rfl⟩

theorem PassedTo.trans (h : c.PassedTo f c₁) (hf : f ≠ .state .reject) (h' : c₁.PassedTo f' c₂) :
    c.PassedTo f' c₂ where
  toLevel := h.toLevel.trans h'.toLevel
  focus := h'.focus
  path hf' := by
    obtain ⟨ht, hs, htr⟩ := h.path hf
    obtain ⟨ht', hs', htr'⟩ := h'.path hf'
    exact ⟨ht'.trans ht, hs'.trans hs, htr'.trans htr⟩

/-- Where a path has failed it does not matter which one it was. -/
theorem Level.rejected (h : c.Level c₁) (h' : c₁.PassedTo (.state .reject) c₂) :
    c.PassedTo (.state .reject) c₂ where
  toLevel := h.trans h'.toLevel
  focus := h'.focus
  path hf := absurd rfl hf

/-- Having passed something, a search tries an alternative on its path. -/
theorem PassedTo.offer_goto (h : c.PassedTo f c₁) (hf : f ≠ .state .reject) (rest s : State) :
    (c.offer rest).PassedTo (.state s) ((c₁.offer rest).goto s) := by
  obtain ⟨ht, hs, htr⟩ := h.path hf
  have hoffer : (c₁.offer rest).elses = (c.offer rest).elses := by
    unfold offer
    cases rest.isReject with
    | true => exact h.elses
    | false =>
        simp only [Bool.false_eq_true, if_false, pushElse, snapshot, h.index, h.elses, ht, hs, htr]
  rw [offer_eq c, offer_eq c₁, hoffer]
  exact ⟨⟨h.index, rfl, h.stash, h.stashUsed, h.longest⟩, rfl, fun _ => ⟨ht, hs, htr⟩⟩

end Config

namespace Machine

variable {ε : Type} {m : Machine ε} {p : Reference → Prop} {c c₁ : Config}

theorem step_of_misses {l : Leaf} {node : Grammar} (hf : c.focus = .state (.leaf l node))
    (h : l.Misses m.tokens c.index) : m.step c = .next (c.goto .reject) :=
  step_leaf hf (h _ _)

theorem leads_offer {test rest : State}
    (h : State.branch test .accept rest = if rest.isReject then test else .cond test .accept rest) :
    m.Leads (c.goto (.branch test .accept rest)) ((c.offer rest).goto test) := by
  rw [h, Config.offer]
  cases hr : rest.isReject with
  | true => exact .refl
  | false =>
      refine .single ?_
      change onBranch _ test .accept rest = _
      rw [onBranch, hr]
      rfl

theorem leads_enum {table : List (String × State)} {rest : State}
    (hf : c.focus = .state (.branch (.enum table) .accept rest)) :
    m.Leads c ((c.offer rest).goto (.enum table)) := by
  have hleads := leads_offer (m := m) (c := c) (State.branch_enum table rest)
  rwa [Config.goto_of_focus hf] at hleads

/-- A conditional goes on with its test. -/
theorem exists_step_branch {s test next other : State} (hf : c.focus = .state s)
    (hb : s.branch? = some (test, next, other)) :
    ∃ c₁, m.step c = .next c₁ ∧ c₁.focus = .state test ∧ (c.offer other).Level c₁ := by
  rw [step_branch hf hb, onBranch, Config.offer]
  cases other.isReject <;> cases next.isAccept <;> exact ⟨_, rfl, rfl, rfl, rfl, rfl, rfl, rfl⟩

/-- After a failure what comes after an alternative is looked at, at the same place. -/
theorem leads_of_offer {rest : State} : m.Leads ((c.offer rest).goto .reject) (c.goto rest) := by
  rw [Config.offer]
  cases hr : rest.isReject with
  | true =>
      rw [State.eq_reject_of_isReject hr]
      exact .refl
  | false =>
      exact .single (step_reject_pop (c := (c.pushElse (.state rest)).goto .reject) rfl rfl
        (.inr (.inr (Nat.le_refl _))))

/-- After a failure in place the alternative on top is looked at, on the path it was left on. -/
theorem reaches_pop {f : Focus} (h : (c.pushElse f).PassedTo (.state .reject) c₁) :
    m.Reaches p c₁ (c.PassedTo f) := by
  have hpop : m.step c₁ = .next (c₁.restore (c.snapshot f) c.elses) :=
    step_reject_pop h.focus h.elses (.inr (.inr h.index.le))
  refine .of_step hpop (.here ?_)
  exact ⟨⟨rfl, rfl, h.stash, h.stashUsed, h.longest⟩, rfl, fun _ => ⟨rfl, rfl, rfl⟩⟩

/-- After a failure in place what comes after an alternative is looked at. -/
theorem reaches_of_offer {rest : State} (h : (c.offer rest).PassedTo (.state .reject) c₁) :
    m.Reaches p c₁ (c.PassedTo (.state rest)) := by
  unfold Config.offer at h
  cases hr : rest.isReject with
  | true =>
      rw [hr] at h
      rw [State.eq_reject_of_isReject hr]
      exact .here h
  | false =>
      rw [hr] at h
      exact reaches_pop h

theorem nextTerm?_empty (n : Nat) (s : State) (ss : List State) :
    nextTerm? TermSet.empty n (s :: ss) = some (n, s) := by
  rw [nextTerm?, TermSet.has_empty]
  rfl

/-- A group in any order fails in place where each of its terms does. The induction is on the terms
left to try. -/
theorem reaches_of_choose {i : Nat} {terms left : List State} {all : Bool} {node : Grammar} {k : Nat}
    (hlen : terms.length ≤ 64) (hleft : terms.drop k = left) (hk : k ≤ terms.length)
    (hfails : ∀ s ∈ left, ∀ c₁ : Config, c₁.index = i → c₁.focus = .state s →
      m.Reaches p c₁ (c₁.PassedTo (.state .reject)))
    (hi : c.index = i) (hf : c.focus = .choose terms all node k .empty) :
    m.Reaches p c (c.PassedTo (.state .reject)) := by
  induction left generalizing c k with
  | nil =>
      have hlast : k = terms.length := by
        have hdrop := congrArg List.length hleft
        rw [List.length_drop, List.length_nil] at hdrop
        omega
      exact .of_step (step_choose_last hf hlast) (.here (c.passedTo_goto .reject))
  | cons s left ih =>
      have hlt : k < terms.length := by
        have hdrop := congrArg List.length hleft
        rw [List.length_drop, List.length_cons] at hdrop
        omega
      have hrest : terms.drop (k + 1) = left := by
        rw [← List.drop_drop, hleft]
        rfl
      obtain ⟨c₁, hstep, hf₁, hlevel⟩ : ∃ c₁, m.step c = .next c₁ ∧ c₁.focus = .state s ∧
          (c.pushElse (.choose terms all node (k + 1) .empty)).Level c₁ :=
        ⟨_, step_choose_pick hf (by omega) (TermSet.full_ne_empty hlen (by omega)).symm
          (by rw [hleft, nextTerm?_empty]), rfl, rfl, rfl, rfl, rfl, rfl⟩
      -- the term fails, and the group goes on with the terms after it
      have hterm := hfails s List.mem_cons_self c₁ (hlevel.index.trans hi) hf₁
      refine .of_step hstep (hterm.bind fun c₂ h₂ => ?_)
      refine (reaches_pop (hlevel.rejected h₂)).bind fun c₃ h₃ => ?_
      have hothers := ih hrest hlt (fun s hs => hfails s (List.mem_cons_of_mem _ hs))
        (h₃.index.trans hi) h₃.focus
      exact hothers.bind fun c₄ h₄ => .here (h₃.toLevel.rejected h₄)

/-- A search passes a state that fails in place. The induction is on why it fails. -/
theorem reaches_of_dies {i : Nat} {s : State} (h : s.Dies m p i) (hi : c.index = i)
    (hf : c.focus = .state s) : m.Reaches p c (c.PassedTo (.state .reject)) := by
  induction h generalizing c with
  | reject => exact .here (Config.passedTo_self hf)
  | leaf h => exact .of_step (step_of_misses hf (hi ▸ h)) (.here (c.passedTo_goto .reject))
  | @branch s test next other hb _ _ iht iho =>
      -- the test is passed over, then what was offered in its place
      obtain ⟨c₁, hstep, hf₁, hlevel⟩ := exists_step_branch (m := m) hf hb
      have htest := iht (hlevel.index.trans ((c.offer_index other).trans hi)) hf₁
      refine .of_step hstep (htest.bind fun c₂ h₂ => ?_)
      refine (reaches_of_offer (hlevel.rejected h₂)).bind fun c₃ h₃ => ?_
      have hother := iho (h₃.index.trans hi) h₃.focus
      exact hother.bind fun c₄ h₄ => .here (h₃.toLevel.rejected h₄)
  | @once terms all node hlen _ ih =>
      obtain ⟨c₁, hstep, hf₁, hlevel⟩ : ∃ c₁, m.step c = .next c₁ ∧
          c₁.focus = .choose terms all node 0 .empty ∧ c.Level c₁ :=
        ⟨{ c with focus := _ }, by simp only [step, hf], rfl, rfl, rfl, rfl, rfl, rfl⟩
      have hterms := reaches_of_choose hlen rfl (Nat.zero_le _) (fun s hs c₁ => ih s hs)
        (hlevel.index.trans hi) hf₁
      exact .of_step hstep (hterms.bind fun c₂ h₂ => .here (hlevel.rejected h₂))
  | @call r range node root hr hlow _ ih =>
      have hlater : m.later c r = false := by
        unfold later
        rw [funext hlow]
        cases m.current? c <;> simp
      obtain ⟨c₁, hstep, hf₁, hlevel⟩ : ∃ c₁, m.step c = .next c₁ ∧ c₁.focus = .state root ∧
          c.Level c₁ := ⟨_, step_call_open hf hr hlater, rfl, rfl, rfl, rfl, rfl, rfl⟩
      have hroot := ih (hlevel.index.trans hi) hf₁
      exact .of_step hstep (hroot.bind fun c₂ h₂ => .here (hlevel.rejected h₂))
  | @missing r range node hr hp =>
      -- the run ends here, for a reference that may be missing
      have hstep : m.step c = .failed (.unresolved r) { c with lookups := r :: c.lookups } := by
        rw [step_call hf, onCall]
        simp only [hr]
      exact ⟨c, .refl, .inr ⟨r, _, hp, hstep⟩⟩

/-- An alternative in front of others is tried. -/
theorem leads_entry {s rest : State} (hs : s.IsEntry)
    (hf : c.focus = .state (.branch s .accept rest)) : m.Leads c ((c.offer rest).goto s) := by
  have hleads := leads_offer (m := m) (c := c) (hs.branch rest)
  rwa [Config.goto_of_focus hf] at hleads

/-- A search passes entries that fail in place. The induction is on the entries. -/
theorem reaches_of_falls {i : Nat} {s rest : State} (h : s.Falls m p i rest) (hi : c.index = i)
    (hf : c.focus = .state s) : m.Reaches p c (c.PassedTo (.state rest)) := by
  induction h generalizing c with
  | refl => exact .here (Config.passedTo_self hf)
  | @past s next rest hs hd hfalls ih =>
      have hentry := reaches_of_dies (m := m) (p := p) (c := (c.offer next).goto s) hd
        ((c.offer_index next).trans hi) rfl
      refine .of_leads (leads_entry hs hf) (hentry.bind fun c₁ h₁ => ?_)
      have hlevel : (c.offer next).Level ((c.offer next).goto s) := ⟨rfl, rfl, rfl, rfl, rfl⟩
      refine (reaches_of_offer (hlevel.rejected h₁)).bind fun c₂ h₂ => ?_
      refine (ih (h₂.index.trans hi) h₂.focus).bind fun c₃ h₃ => .here ?_
      by_cases hnext : next.isReject = true
      · obtain rfl := hfalls.eq_reject hnext
        exact h₂.toLevel.rejected h₃
      · exact h₂.trans (fun he => hnext (by cases he; rfl)) h₃

end Machine

/-! ## A table at a place -/

section table

variable {ε : Type} {m : Machine ε} {p : Reference → Prop} {i : Nat} {table : List (String × State)}

/-- The state fails in place where the token is not one that is found under the key. -/
def Machine.FoundUnder (m : Machine ε) (p : Reference → Prop) (key : String) (s : State) : Prop :=
  ∀ i, ¬ KeyAt m.tokens i key → s.Dies m p i

/-- A leaf with a key takes nothing where the token is not found under it. -/
theorem Leaf.Keyed.misses {l : Leaf} {key : String} (h : l.Keyed m.tokens key)
    (hkey : ¬ KeyAt m.tokens i key) : l.Misses m.tokens i := by
  obtain ⟨q, htake, hq⟩ := h
  intro last range
  rw [htake]
  cases hd : m.tokens.drop i with
  | nil => rfl
  | cons t rest =>
      have hget : m.tokens[i]? = some t := (drop_eq_cons_iff.mp hd).1
      have hmiss : q t = false :=
        Bool.eq_false_iff.mpr fun hqt => hkey ⟨t, hget, hq t (List.mem_of_getElem? hget) hqt⟩
      simp [Leaf.takeOne, hmiss]

theorem LeafUnder.foundUnder {key : String} {s : State} (h : LeafUnder m.tokens key s) :
    m.FoundUnder p key s := by
  obtain ⟨l, node, rfl, hl⟩ := h
  exact fun i hkey => .leaf (hl.misses hkey)

/-- The entries of the table fail at place `i`. -/
def Idle (m : Machine ε) (p : Reference → Prop) (i : Nat) (table : List (String × State)) : Prop :=
  ∀ entry ∈ table, entry.2.IsEntry ∧ entry.2.Dies m p i

/-- Where nothing is found in a table its entries in turn are passed. -/
theorem Idle.falls (h : Idle m p i table) (rest : State) :
    (State.inTurn table rest).Falls m p i rest := by
  induction table with
  | nil => exact .refl
  | cons entry table ih =>
      obtain ⟨hentry, hdies⟩ := h entry List.mem_cons_self
      exact .past hentry hdies (ih fun entry hentry => h entry (List.mem_cons_of_mem _ hentry))

theorem Tabled.idle (h : Tabled (m.FoundUnder p) table)
    (hkeys : ∀ entry ∈ table, ¬ KeyAt m.tokens i entry.1) : Idle m p i table :=
  fun entry hentry => ⟨(h.entries entry hentry).1, (h.entries entry hentry).2 i (hkeys entry hentry)⟩

/-- At a place nothing is found in a table, and all its entries fail, or one entry is found, and all
the others fail. -/
theorem Tabled.idle_or_found (h : Tabled (m.FoundUnder p) table) (i : Nat) :
    (Idle m p i table ∧ ∀ t, m.tokens[i]? = some t →
        table.lookup (stripHack (Text.lower t.value)) = none) ∨
      ∃ before after key s t, table = before ++ (key, s) :: after ∧ m.tokens[i]? = some t ∧
        table.lookup (stripHack (Text.lower t.value)) = some s ∧ s.IsEntry ∧ Idle m p i before ∧
        Idle m p i after := by
  cases hget : m.tokens[i]? with
  | none =>
      refine .inl ⟨h.idle fun entry _ hkey => ?_, by simp⟩
      obtain ⟨t, ht, -⟩ := hkey
      rw [hget] at ht
      cases ht
  | some t =>
      have hkey : ∀ key, KeyAt m.tokens i key ↔ stripHack (Text.lower t.value) = key := by
        intro key
        rw [KeyAt, hget]
        simp
      cases hlookup : table.lookup (stripHack (Text.lower t.value)) with
      | none =>
          refine .inl ⟨h.idle fun entry hentry => ?_, fun t' ht' => by cases ht'; exact hlookup⟩
          rw [hkey]
          simpa using List.lookup_eq_none_iff.mp hlookup entry hentry
      | some s =>
          obtain ⟨before, after, rfl, hbefore⟩ := List.lookup_eq_some_iff.mp hlookup
          -- the other keys are different, so that no other entry is for this token
          have hdistinct := h.distinct
          rw [List.map_append, List.map_cons, List.nodup_middle, List.nodup_cons, List.mem_append,
            not_or] at hdistinct
          have hother : ∀ entry ∈ before ++ (stripHack (Text.lower t.value), s) :: after,
              entry.1 ≠ stripHack (Text.lower t.value) → entry.2.IsEntry ∧ entry.2.Dies m p i :=
            fun entry hentry hne => ⟨(h.entries entry hentry).1,
              (h.entries entry hentry).2 i ((hkey entry.1).not.mpr hne.symm)⟩
          refine .inr ⟨before, after, _, s, t, rfl, rfl, hlookup,
            (h.entries _ (List.mem_append_right _ List.mem_cons_self)).1, fun entry hentry => ?_,
            fun entry hentry => ?_⟩
          · refine hother entry (List.mem_append_left _ hentry) fun he => hdistinct.1.1 ?_
            exact List.mem_map.mpr ⟨entry, hentry, he⟩
          · refine hother entry (List.mem_append_right _ (List.mem_cons_of_mem _ hentry))
              fun he => hdistinct.1.2 ?_
            exact List.mem_map.mpr ⟨entry, hentry, he⟩

theorem State.inTurn_append (before after : List (String × State)) (rest : State) :
    inTurn (before ++ after) rest = inTurn before (inTurn after rest) := List.foldr_append

namespace Machine

variable {c : Config}

/-- A table in which nothing is found fails. -/
theorem step_enum_of_none (h : ∀ t, m.tokens[c.index]? = some t →
    table.lookup (stripHack (Text.lower t.value)) = none) :
    m.step (c.goto (.enum table)) = .next (c.goto .reject) := by
  cases hget : m.tokens[c.index]? with
  | none => exact step_enum_end hget
  | some t =>
      rw [step_enum hget, h t hget]
      rfl

/-- In turn, the entry that is found comes after those before it have failed. -/
theorem reaches_inTurn {before after : List (String × State)} {key : String} {s rest : State}
    (hs : s.IsEntry) (hbefore : Idle m p c.index before)
    (hf : c.focus = .state (.inTurn (before ++ (key, s) :: after) rest)) :
    m.Reaches p c ((c.offer (.inTurn after rest)).PassedTo (.state s)) := by
  rw [State.inTurn_append] at hf
  refine (reaches_of_falls (hbefore.falls _) rfl hf).bind fun c₁ h₁ => ?_
  refine .of_leads (leads_entry hs h₁.focus) (.here ?_)
  have hbranch : ¬ (State.branch s .accept (.inTurn after rest)).IsSentinel :=
    State.branch_not_isSentinel hs.not_isSentinel
  have hfocus : Focus.state (.branch s .accept (.inTurn after rest)) ≠ .state .reject := by
    intro he
    rw [Focus.state.inj he] at hbranch
    exact hbranch trivial
  exact h₁.offer_goto hfocus (.inTurn after rest) s

end Machine

end table

end ValueGrammar

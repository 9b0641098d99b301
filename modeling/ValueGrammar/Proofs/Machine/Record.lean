import ValueGrammar.Matcher
import ValueGrammar.Proofs.Machine.Coherence

/-!
# `ValueGrammar.Proofs.Machine.Record` — a trace records the tokens before its place

A path goes back to earlier places, is put off and taken up again, takes several tokens at once, or
takes a comma and fails. Whatever it does, its trace and its place go together: the tokens recorded
are those before the place, each once and in order. So the trace of a match holds all the tokens that
were matched, and these are all there are, up to a suffix for old browsers.

## Contents
- `Trace.taken`: the tokens recorded, with their places.
- `Else.Records`, `Machine.Expands.records`, `Machine.Leads.records`: they are those before the place.
- `Machine.run_matched`, `Matcher.run_matched`: where a run that matches ends.
- `Matcher.taken_of_run`: every path of a run, and the list of a match.
-/

namespace ValueGrammar

/-- The token of a record with its place, if it has one. -/
def Entry.taken? : Entry → Option (Token × Nat)
  | .token _ i t => some (t, i)
  | .opened _ => none
  | .closed _ => none

namespace Trace

/-- The tokens recorded, in the order they were taken and with their places. -/
def taken (tr : Trace) : List (Token × Nat) := tr.reverse.filterMap Entry.taken?

@[simp] theorem taken_cons (e : Entry) (tr : Trace) :
    taken (e :: tr) = tr.taken ++ e.taken?.toList := by
  cases e <;> simp [taken, Entry.taken?]

/-- Leaving scopes records no token, and erases none. -/
theorem taken_closing (scopes : List Scope) (tr : Trace) : (tr.closing scopes).taken = tr.taken := by
  induction scopes generalizing tr with
  | nil => rfl
  | cons s outer ih =>
      change (closing outer _).taken = _
      rw [ih]
      rcases tr with _ | ⟨entry, rest⟩
      · simp [Entry.taken?]
      · cases entry <;> simp [Entry.taken?]

theorem taken_taking (node : Grammar) (i : Nat) (us : List Token) (tr : Trace) :
    (tr.taking node i us).taken = tr.taken ++ us.zipIdx i := by
  induction us generalizing i tr with
  | nil => simp [taking]
  | cons u us ih => rw [taking, ih, List.zipIdx_cons]; simp [Entry.taken?]

end Trace

/-! ## Paths -/

namespace Else

variable {ts : List Token} {e : Else}

/-- The tokens recorded on a path are those before its place. -/
structure Records (ts : List Token) (e : Else) : Prop where
  le : e.index ≤ ts.length
  taken : e.trace.taken = (ts.take e.index).zipIdx

theorem Records.goto (h : e.Records ts) (f : Focus) : (e.goto f).Records ts := ⟨h.le, h.taken⟩

theorem Records.leave (h : e.Records ts) (scopes : List Scope) : (e.leave scopes).Records ts :=
  ⟨h.le, (Trace.taken_closing _ _).trans h.taken⟩

/-- Taking the tokens ahead records them after those before the place. -/
theorem Records.take (h : e.Records ts) {node : Grammar} {n : Nat}
    (hn : n ≤ (ts.drop e.index).length) (f : Focus) :
    Records ts
      { e with
        next := f
        index := e.index + n
        trace := e.trace.taking node e.index ((ts.drop e.index).take n) } := by
  have hle := h.le
  refine ⟨?_, ?_⟩
  · rw [List.length_drop] at hn
    change e.index + n ≤ ts.length
    omega
  · change (e.trace.taking node e.index ((ts.drop e.index).take n)).taken =
      (ts.take (e.index + n)).zipIdx
    rw [Trace.taken_taking, h.taken, List.take_add, List.zipIdx_append, List.length_take_of_le hle,
      Nat.zero_add]

end Else

namespace Machine

variable {ε : Type} {m : Machine ε} {c : Config}

/-- **The paths that a path leads to record the tokens before their places**, if it does. -/
theorem Expands.records {e : Else} {new : List Else} {notes notes' : Notes}
    (hx : m.Expands e notes new notes') (h : e.Records m.tokens) :
    ∀ p ∈ new, p.Records m.tokens := by
  cases hx with
  | reject => intro p hp; cases hp
  | unfinished | empty | last | full | skip | again | once | ended | enum =>
      intro p hp
      rw [List.mem_singleton.mp hp]
      exact h.goto _
  | @nonEmpty t | @resume t =>
      intro p hp
      rw [List.mem_singleton.mp hp]
      exact ⟨h.le, (h.leave t.scopes).taken⟩
  | branch =>
      intro p hp
      rcases List.mem_cons.mp hp with rfl | hp
      · split <;> exact ⟨h.le, h.taken⟩
      · split at hp
        · cases hp
        · rw [List.mem_singleton.mp hp]
          exact h.goto _
  | pick =>
      intro p hp
      rcases List.mem_cons.mp hp with rfl | hp
      · exact ⟨h.le, h.taken⟩
      · rw [List.mem_singleton.mp hp]
        exact h.goto _
  | leaf _ hl =>
      intro p hp
      rw [List.mem_singleton.mp hp]
      exact h.take (Leaf.le_length_of_take hl) _
  | call =>
      intro p hp
      rw [List.mem_singleton.mp hp]
      exact ⟨h.le, by simpa [Entry.taken?] using h.taken⟩

/-- **Every path of a run records the tokens before its place**: the one the machine is on, the
alternatives, and what was put off with the alternatives below it. -/
theorem Leads.records {root : State} (h : m.Leads (.start root) c) :
    ∀ p ∈ c.paths, p.Records m.tokens := by
  refine h.forall_paths (fun _ he => he.goto _) (fun _ _ _ _ hx he => hx.records he) fun p hp => ?_
  rw [mem_paths_start hp]
  exact ⟨Nat.zero_le _, rfl⟩

/-! ## Runs that match -/

/-- A run that matches ends on a path without anything left to do, all of whose scopes are left. -/
theorem run_matched {limit : Nat} {root : State} (h : (m.run limit root).outcome = .matched) :
    ∃ c, m.Leads (.start root) c ∧ endsAt m.tokens c.index = true ∧
      (m.run limit root).final.trace = (c.here.leave []).trace := by
  obtain ⟨c, hl, he⟩ := m.run_ends limit root
  rw [Run.EndsWith, h] at he
  obtain ⟨c', hstep, hfinal⟩ := he
  obtain ⟨rfl, -, -, hend⟩ := step_matched hstep
  exact ⟨c', hl, hend, by rw [hfinal, Config.closeTo_eq]⟩

end Machine

/-- What the caller can tell of a token: its value and what it was read from. -/
def Token.mark (t : Token) : String × Option String := (t.value, t.origin)

/-- What a flat trace shows of the tokens in it. -/
def TraceItem.marks (items : List TraceItem) : List (String × Option String) :=
  items.filterMap fun i => if i.kind = .token then some (i.token, i.origin) else none

/-- A flat trace shows the tokens that were recorded. -/
theorem Trace.marks_items (tr : Trace) :
    TraceItem.marks tr.items = (tr.taken.map Prod.fst).map Token.mark := by
  unfold TraceItem.marks Trace.items Trace.taken
  rw [List.filterMap_map, List.map_filterMap, List.map_filterMap]
  congr 1
  funext e
  cases e <;> rfl

/-- Where all tokens are taken but for a suffix for old browsers, those taken are all or all but the
last. -/
theorem take_of_endsAt {ts : List Token} {i : Nat} (h : endsAt ts i = true) :
    ts.take i = ts ∨ ∃ last, ts = ts.take i ++ [last] ∧ (last.value = "\\0" ∨ last.value = "\\9") := by
  have hsplit : ts.take i ++ ts.drop i = ts := List.take_append_drop i ts
  unfold endsAt at h
  split at h
  · rename_i hd
    rw [hd, List.append_nil] at hsplit
    exact .inl hsplit
  · rename_i t hd
    rw [hd] at hsplit
    exact .inr ⟨t, hsplit.symm, by simpa using h⟩
  · cases h

namespace Matcher

variable {ε : Type} {m : Matcher} {tokens : List Token} {g : Graph}
  {resolve : Reference → Except ε (Option State)}

/-- A match has the trace of a path that has come to the end of the tokens. -/
theorem run_matched {r : MatchResult} (h : (m.run tokens g resolve).1 = .ok r)
    (hr : r.reason = .matched) :
    ∃ c, (m.machine tokens resolve).Leads (.start g.root) c ∧
      endsAt (tokens.filter m.sees) c.index = true ∧ r.trace = some (c.here.leave []).trace ∧
        r.grammar = g.grammar := by
  unfold run result at h
  simp only at h
  split at h
  · rename_i houtcome
    cases h
    obtain ⟨c, hl, hend, htrace⟩ := Machine.run_matched houtcome
    exact ⟨c, hl, hend, congrArg some htrace, rfl⟩
  · cases h; cases hr
  · cases h; cases hr
  · cases h

/-- **The tokens recorded are the tokens taken.** On every path of every run (the one the machine is
on, its alternatives, and what was put off) the trace records exactly the significant tokens before
the place of the path, in order. So the flat trace of a match shows all the significant tokens in
order, or all but a last one that is a suffix for old browsers. -/
theorem taken_of_run (m : Matcher) (tokens : List Token) (g : Graph)
    (resolve : Reference → Except ε (Option State)) :
    (∀ c, (m.machine tokens resolve).Leads (.start g.root) c → ∀ p ∈ c.paths,
      p.index ≤ (tokens.filter m.sees).length ∧
        p.trace.taken = ((tokens.filter m.sees).take p.index).zipIdx) ∧
    ∀ r, (m.run tokens g resolve).1 = .ok r → r.reason = .matched →
      ∃ items, r.list? = some items ∧
        (TraceItem.marks items = (tokens.filter m.sees).map Token.mark ∨
          ∃ front last, tokens.filter m.sees = front ++ [last] ∧
            (last.value = "\\0" ∨ last.value = "\\9") ∧
              TraceItem.marks items = front.map Token.mark) := by
  have hrecords : ∀ c, (m.machine tokens resolve).Leads (.start g.root) c → ∀ p ∈ c.paths,
      p.Records (tokens.filter m.sees) := fun c hl => hl.records
  refine ⟨fun c hl p hp => ⟨(hrecords c hl p hp).le, (hrecords c hl p hp).taken⟩, fun r h hr => ?_⟩
  obtain ⟨c, hl, hend, htrace, -⟩ := run_matched h hr
  have hhere := (hrecords c hl c.here (List.mem_append_left _ List.mem_cons_self)).leave []
  refine ⟨(c.here.leave []).trace.items, by rw [MatchResult.list?, htrace]; rfl, ?_⟩
  have hmarks : TraceItem.marks (c.here.leave []).trace.items =
      ((tokens.filter m.sees).take c.index).map Token.mark := by
    rw [Trace.marks_items, hhere.taken, List.zipIdx_map_fst]
    rfl
  rw [hmarks]
  rcases take_of_endsAt hend with hall | ⟨last, hfront, hlast⟩
  · exact .inl (by rw [hall])
  · exact .inr ⟨_, last, hfront, hlast, rfl⟩

/-- The tokens of `x x \9`. -/
def suffixedTokens : List Token :=
  [⟨.ident, "x", none⟩, ⟨.whitespace, " ", none⟩, ⟨.ident, "x", some "second"⟩, ⟨.ident, "\\9", none⟩]

/-- The states of `<custom-ident> y | x+`. -/
def suffixedGraph : Graph :=
  ⟨"", .comma,
    .cond (.call ⟨.type, "custom-ident"⟩ none (.type "custom-ident" none))
      (.leaf (.keyword "y") (.keyword "y"))
      (.loop (.cond (.leaf (.keyword "x") (.keyword "x")) .nonEmpty .reject) none)⟩

/-- The first alternative is put off and forgotten, and the second one takes all but the suffix. -/
theorem taken_of_run_suffixed :
    ∃ r, (run (ε := Empty) ⟨100, true, Token.isSignificant⟩ suffixedTokens suffixedGraph
          fun _ => .ok (some .accept)).1 = .ok r ∧ r.reason = .matched ∧
      ∃ items, r.list? = some items ∧
        (TraceItem.marks items = (suffixedTokens.filter Token.isSignificant).map Token.mark ∨
          ∃ front last, suffixedTokens.filter Token.isSignificant = front ++ [last] ∧
            (last.value = "\\0" ∨ last.value = "\\9") ∧
              TraceItem.marks items = front.map Token.mark) := by
  have hrun : (run (ε := Empty) ⟨100, true, Token.isSignificant⟩ suffixedTokens suffixedGraph
      fun _ => .ok (some .accept)).1.toOption.map MatchResult.reason = some .matched := by
    decide +kernel
  cases hr : (run (ε := Empty) ⟨100, true, Token.isSignificant⟩ suffixedTokens suffixedGraph
      fun _ => .ok (some .accept)).1 with
  | error e =>
      rw [hr] at hrun
      cases hrun
  | ok r =>
      rw [hr] at hrun
      have hmatched : r.reason = .matched := Option.some.inj hrun
      exact ⟨r, rfl, hmatched, (taken_of_run _ _ _ _).2 r hr hmatched⟩

end Matcher

end ValueGrammar

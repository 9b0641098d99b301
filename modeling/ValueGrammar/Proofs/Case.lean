import ValueGrammar.Proofs.Case.Leaves
import ValueGrammar.Proofs.Folding
import ValueGrammar.Proofs.Machine.Record

/-!
# `ValueGrammar.Proofs.Case` — the case of letters in a value is not seen

A machine looks at the values of tokens in its leaves, in its tables, where it puts a type off, and at
the end of the tokens. None of these tells apart values that differ in the case of ASCII letters only,
but for a string literal of one letter. So taking everything to lower case turns each step into the
step on the tokens in lower case, and a run into a run. Two lists of tokens that are the same in lower
case are then matched in the same way.

## Contents
- `Config.lowered`, `Machine.lowered`: a search with all its tokens in lower case.
- `Machine.step_lowered`, `Machine.run_lowered`: a step, and a run.
- `Token.SameButCase`, `MatchResult.SameButCase`: what is compared.
- `Matcher.answer_same_of_sameButCase`: values that differ in case are matched alike.
-/

namespace ValueGrammar

/-! ## Lower case throughout -/

/-- The record with its token in lower case. -/
def Entry.lowered : Entry → Entry
  | .token node i t => .token node i t.lowered
  | .opened node => .opened node
  | .closed node => .closed node

/-- The trace with its tokens in lower case. -/
def Trace.lowered (tr : Trace) : Trace := tr.map Entry.lowered

/-- The continuation with the tokens of its trace in lower case. -/
def Then.lowered (t : Then) : Then := { t with trace := t.trace.lowered }

/-- The snapshot with the tokens of its traces in lower case. -/
def Else.lowered (e : Else) : Else :=
  { e with thens := e.thens.map Then.lowered, trace := e.trace.lowered }

namespace Config

/-- The configuration with the tokens of all its traces in lower case. -/
def lowered (c : Config) : Config :=
  { c with
    thens := c.thens.map Then.lowered
    elses := c.elses.map Else.lowered
    trace := c.trace.lowered
    stash := c.stash.map (Prod.map Else.lowered (List.map Else.lowered)) }

end Config

namespace Machine

variable {ε : Type}

/-- The machine for the tokens in lower case. -/
def lowered (m : Machine ε) : Machine ε := { m with tokens := m.tokens.map Token.lowered }


end Machine

/-- The step with its configuration in lower case. -/
def Step.lowered {ε : Type} : Step ε → Step ε
  | .next c => .next c.lowered
  | .finished matched c => .finished matched c.lowered
  | .failed error c => .failed error c.lowered

/-! ## Configurations -/

theorem Trace.lastToken?_lowered (tr : Trace) :
    tr.lowered.lastToken? = tr.lastToken?.map (Prod.map id Token.lowered) := by
  induction tr with
  | nil => rfl
  | cons e tr ih =>
      cases e with
      | token => rfl
      | opened => exact ih
      | closed => exact ih

@[simp] theorem Trace.lastIndex?_lowered (tr : Trace) : tr.lowered.lastIndex? = tr.lastIndex? := by
  rw [lastIndex?, lastToken?_lowered, Option.map_map]
  rfl

namespace Config

variable (c : Config)

theorem lowered_takeTokens (node : Grammar) (ts : List Token) :
    (c.takeTokens node ts).lowered = c.lowered.takeTokens node (ts.map Token.lowered) := by
  induction ts generalizing c with
  | nil => rfl
  | cons t ts ih => exact ih (c.takeToken node t)

theorem lowered_closeScope : c.closeScope.lowered = c.lowered.closeScope := by
  unfold closeScope
  cases hs : c.scopes with
  | nil => simp [lowered, hs]
  | cons s scopes =>
      rcases ht : c.trace with _ | ⟨e, tr⟩
      · simp [lowered, hs, ht, Trace.lowered, Entry.lowered]
      · cases e <;> simp [lowered, hs, ht, Trace.lowered, Entry.lowered]

theorem lowered_closeScopes (n : Nat) : (c.closeScopes n).lowered = c.lowered.closeScopes n := by
  induction n generalizing c with
  | zero => rfl
  | succ n ih => rw [closeScopes, closeScopes, ih, lowered_closeScope]

theorem lowered_closeTo (scopes : List Scope) :
    (c.closeTo scopes).lowered = c.lowered.closeTo scopes :=
  c.lowered_closeScopes _

end Config

/-! ## Steps -/

namespace Machine

variable {ε : Type} (m : Machine ε) (c : Config)

theorem ahead_lowered : m.lowered.ahead c.lowered = (m.ahead c).map Token.lowered :=
  List.map_drop.symm

theorem current?_lowered : m.lowered.current? c.lowered = (m.current? c).map Token.lowered := by
  rw [current?, ahead_lowered, List.head?_map]
  rfl

theorem atEnd_lowered : m.lowered.atEnd c.lowered = m.atEnd c := by
  rw [atEnd, ahead_lowered, atEnd]
  rcases m.ahead c with _ | ⟨t, _ | ⟨u, ts⟩⟩
  · rfl
  · simp only [List.map_cons, List.map_nil, Token.value_lowered]
    -- a hack that ends a value is no letter
    rw [Text.lowerAscii_beq (by simp), Text.lowerAscii_beq (by simp)]
  · rfl

theorem step_accept_lowered (hf : c.focus = .state .accept) :
    m.lowered.step c.lowered = (m.step c).lowered := by
  have hf' : c.lowered.focus = .state .accept := hf
  cases ht : c.thens with
  | nil =>
      have ht' : c.lowered.thens = [] := by simp [Config.lowered, ht]
      rw [step_accept_nil hf ht, step_accept_nil hf' ht', atEnd_lowered]
      split <;> rfl
  | cons t thens =>
      have ht' : c.lowered.thens = t.lowered :: thens.map Then.lowered := by
        simp [Config.lowered, ht]
      -- both ways on close the scopes of what is resumed, and differ in what comes next
      have hresume : ∀ f : Focus,
          ({ c.closeTo t.scopes with focus := f, thens } : Config).lowered =
            { c.lowered.closeTo t.scopes with focus := f, thens := thens.map Then.lowered } := by
        intro f
        rw [← Config.lowered_closeTo]
        rfl
      by_cases hn : t.next = .state .nonEmpty
      · rw [step_accept_nonEmpty hf ht hn, step_accept_nonEmpty hf' ht' hn]
        have hlast : t.lowered.trace.lastIndex? = c.lowered.trace.lastIndex? ↔
            t.trace.lastIndex? = c.trace.lastIndex? := by
          rw [Then.lowered, Config.lowered, Trace.lastIndex?_lowered, Trace.lastIndex?_lowered]
        simp only [hlast]
        split
        · rfl
        · exact congrArg Step.next (hresume _).symm
      · rw [step_accept_resume hf ht hn, step_accept_resume hf' ht' hn]
        exact congrArg Step.next (hresume _).symm

theorem onReject_lowered : onReject (ε := ε) c.lowered = (onReject c).lowered := by
  obtain ⟨focus, index, thens, elses, scopes, trace, stash, used, longest, lookups⟩ := c
  rcases stash with _ | ⟨e, below⟩
  · rcases elses with _ | ⟨e', elses⟩ <;> rfl
  -- a path that was put off counts only as long as none was taken up
  · cases used with
    | true => rcases elses with _ | ⟨e', elses⟩ <;> rfl
    | false =>
        rcases elses with _ | ⟨e', elses⟩
        · rfl
        -- it comes before the alternatives that start earlier
        · simp only [onReject, Config.lowered, List.map_cons, Option.map_some, Prod.map_apply]
          change (if decide (e'.index < index) = true then _ else _) = _
          split <;> rfl

theorem onBranch_lowered (test next other : State) :
    onBranch (ε := ε) c.lowered test next other = (onBranch c test next other).lowered := by
  unfold onBranch
  cases other.isReject <;> cases next.isAccept <;> rfl

theorem onChoose_lowered (terms : List State) (all : Bool) (node : Grammar) (index : Nat)
    (taken : TermSet) :
    onChoose (ε := ε) c.lowered terms all node index taken =
      (onChoose c terms all node index taken).lowered := by
  unfold onChoose
  split
  · rfl
  · split
    · rfl
    · split <;> rfl

theorem onEnum_lowered (table : List (String × State)) :
    m.lowered.onEnum c.lowered table = (m.onEnum c table).lowered := by
  rw [onEnum, onEnum, current?_lowered]
  cases m.current? c with
  | none => rfl
  | some t =>
      simp only [Option.map_some, Token.value_lowered, Text.lower_lowerAscii]
      rfl

theorem isLowPriority_lowered (r : Reference) (t : Token) :
    isLowPriority r t.lowered = isLowPriority r t := by
  have hzero : (Text.lowerAscii t.value == "0") = (t.value == "0") :=
    Text.lowerAscii_beq (by simp) t.value
  rw [isLowPriority, isLowPriority, Token.kind_lowered, Token.value_lowered, hzero]

theorem later_lowered (r : Reference) : m.lowered.later c.lowered r = m.later c r := by
  rw [later, later, current?_lowered, Option.any_map]
  simp only [isLowPriority_lowered]
  rfl

theorem step_call_lowered {r : Reference} {range : Option Range} {node : Grammar}
    (hf : c.focus = .state (.call r range node)) :
    m.lowered.step c.lowered = (m.step c).lowered := by
  have hf' : c.lowered.focus = .state (.call r range node) := hf
  have hresolve : m.lowered.resolve r = m.resolve r := rfl
  rcases hr : m.resolve r with e | _ | root
  · simp only [step_call hf, step_call hf', onCall, hresolve, hr]
    rfl
  · simp only [step_call hf, step_call hf', onCall, hresolve, hr]
    rfl
  · have hr' : m.lowered.resolve r = .ok (some root) := hr
    have hlater := later_lowered m c r
    cases hl : m.later c r with
    | false =>
        rw [step_call_open hf hr hl, step_call_open hf' hr' (hlater.trans hl)]
        rfl
    | true =>
        rw [step_call_later hf hr hl, step_call_later hf' hr' (hlater.trans hl)]
        -- what was put off first is kept, in lower case too
        have hstash : c.lowered.stash.getD
              (c.lowered.snapshot (.state (.call r range node)), c.lowered.elses) =
            Prod.map Else.lowered (List.map Else.lowered)
              (c.stash.getD (c.snapshot (.state (.call r range node)), c.elses)) := by
          rw [show c.lowered.stash = c.stash.map _ from rfl]
          cases c.stash <;> rfl
        rw [hstash]
        rfl

theorem onLeaf_lowered {l : Leaf} (hl : l.CaseBlind) (node : Grammar) :
    m.lowered.onLeaf c.lowered l node = (m.onLeaf c l node).lowered := by
  have hlast : c.lowered.trace.lastToken?.map (·.2) =
      (c.trace.lastToken?.map (·.2)).map Token.lowered := by
    rw [Config.lowered, Trace.lastToken?_lowered, Option.map_map, Option.map_map]
    rfl
  have htake := hl (c.trace.lastToken?.map (·.2)) (c.scopes.head?.bind (·.range)) (m.ahead c)
  rw [← hlast, ← ahead_lowered] at htake
  have hscopes : c.lowered.scopes = c.scopes := rfl
  simp only [onLeaf, hscopes, htake]
  rw [ahead_lowered, ← List.map_take, ← Config.lowered_takeTokens]
  rfl

theorem step_lowered (h : c.here.Keeps State.CaseBlind) :
    m.lowered.step c.lowered = (m.step c).lowered := by
  cases hf : c.focus with
  | choose terms all node index taken =>
      have hf' : c.lowered.focus = .choose terms all node index taken := hf
      rw [step_choose hf, step_choose hf', onChoose_lowered]
  | resume terms all node taken =>
      have hf' : c.lowered.focus = .resume terms all node taken := hf
      simp only [step, hf, hf']
      rfl
  | state s =>
      have hf' : c.lowered.focus = .state s := hf
      cases s with
      | accept => exact step_accept_lowered m c hf
      | reject => rw [step_reject hf, step_reject hf', onReject_lowered]
      | nonEmpty | once =>
          simp only [step, hf, hf']
          rfl
      | cond | loop =>
          rw [step_branch hf rfl, step_branch hf' rfl, onBranch_lowered]
      | again body sep =>
          cases sep with
          | none => rw [step_branch hf rfl, step_branch hf' rfl, onBranch_lowered]
          | some node => rw [step_branch hf rfl, step_branch hf' rfl, onBranch_lowered]
      | enum table =>
          simp only [step, hf, hf']
          exact onEnum_lowered m c table
      | call r range node => exact step_call_lowered m c hf
      | leaf l node =>
          have hleaf := h.state hf
          simp only [step, hf, hf']
          cases hleaf with
          | leaf hl => exact onLeaf_lowered m c hl node

/-! ## Runs -/

/-- The run with the configuration it ends in in lower case. -/
def Run.lowered (r : Run ε) : Run ε := { r with final := r.final.lowered }

/-- The induction is on the steps left. -/
theorem runFrom_lowered {c : Config} (h : ∀ c', m.Leads c c' → c'.here.Keeps State.CaseBlind)
    (fuel steps : Nat) :
    m.lowered.runFrom fuel steps c.lowered = (m.runFrom fuel steps c).lowered := by
  induction fuel generalizing steps c with
  | zero => rfl
  | succ fuel ih =>
      rw [runFrom, runFrom, step_lowered m c (h c .refl)]
      cases hs : m.step c with
      | next c' => exact ih (fun c'' hl => h c'' (.head hs hl)) (steps + 1)
      | finished matched c' =>
          cases matched with
          | true => exact congrArg (Run.mk .matched (steps + 1)) (c'.lowered_closeTo []).symm
          | false => rfl
      | failed error c' => rfl

/-- **A run on the tokens in lower case is the run on the tokens as they are, in lower case.** -/
theorem run_lowered {root : State} (hroot : root.CaseBlind)
    (hroots : ∀ r root, m.resolve r = .ok (some root) → root.CaseBlind) (limit : Nat) :
    m.lowered.run limit root = (m.run limit root).lowered := by
  refine m.runFrom_lowered (c := .start root) (fun c hl => ?_) limit 0
  exact hl.keeps State.kept_caseBlind hroot hroots c.here
    (List.mem_append_left _ List.mem_cons_self)

end Machine

/-! ## Results -/

/-- The tokens are of the same kind, and their values differ at most in the case of ASCII letters. -/
structure Token.SameButCase (t t' : Token) : Prop where
  kind : t'.kind = t.kind
  value : Text.lowerAscii t'.value = Text.lowerAscii t.value

theorem Token.SameButCase.lowered_eq {t t' : Token} (h : t.SameButCase t') :
    t'.lowered = t.lowered := by
  rw [lowered, lowered, h.kind, h.value]

theorem Token.map_lowered_eq {ts ts' : List Token} (h : List.Forall₂ Token.SameButCase ts ts') :
    ts'.map Token.lowered = ts.map Token.lowered := by
  induction h with
  | nil => rfl
  | cons h _ ih => rw [List.map_cons, List.map_cons, h.lowered_eq, ih]

/-- The items are of the same kind and for the same node, and show the tokens at the same place of two
lists if they show tokens. -/
structure TraceItem.Counterparts (ts ts' : List Token) (i i' : TraceItem) : Prop where
  kind : i'.kind = i.kind
  node : i'.node = i.node
  token : i.kind = .token → ∃ (n : Nat) (t t' : Token), ts[n]? = some t ∧ ts'[n]? = some t' ∧
    (i.token, i.origin) = t.mark ∧ (i'.token, i'.origin) = t'.mark

/-- The results differ at most in the tokens they show: each shows those of its own list, at the same
places. -/
structure MatchResult.SameButCase (ts ts' : List Token) (r r' : MatchResult) : Prop where
  reason : r'.reason = r.reason
  iterations : r'.iterations = r.iterations
  longest : r'.longest = r.longest
  offset : r'.offset = r.offset
  list : Option.Rel (List.Forall₂ (TraceItem.Counterparts ts ts')) r.list? r'.list?

/-- A record of a token is of the token at its place. -/
def Entry.TakenFrom (ts : List Token) (e : Entry) : Prop :=
  ∀ t i, e.taken? = some (t, i) → ts[i]? = some t

theorem Entry.counterparts {ts ts' : List Token} {e e' : Entry} (h : e'.lowered = e.lowered)
    (he : e.TakenFrom ts) (he' : e'.TakenFrom ts') : e.item.Counterparts ts ts' e'.item := by
  cases e with
  | token node i t =>
      cases e' with
      | token node' i' t' =>
          obtain ⟨rfl, rfl, -⟩ := Entry.token.inj h
          exact ⟨rfl, rfl, fun _ => ⟨_, _, _, he _ _ rfl, he' _ _ rfl, rfl, rfl⟩⟩
      | opened | closed => cases h
  | opened =>
      cases e' with
      | opened => cases h; exact ⟨rfl, rfl, nofun⟩
      | token | closed => cases h
  | closed =>
      cases e' with
      | closed => cases h; exact ⟨rfl, rfl, nofun⟩
      | token | opened => cases h

theorem Trace.counterparts {ts ts' : List Token} {tr tr' : Trace} (h : tr'.lowered = tr.lowered)
    (htr : ∀ e ∈ tr, e.TakenFrom ts) (htr' : ∀ e ∈ tr', e.TakenFrom ts') :
    List.Forall₂ (TraceItem.Counterparts ts ts') tr.items tr'.items := by
  have hrecords : List.Forall₂ (fun e e' => e.item.Counterparts ts ts' e'.item) tr tr' := by
    induction tr generalizing tr' with
    | nil =>
        cases tr' with
        | nil => exact .nil
        | cons => cases h
    | cons e tr ih =>
        cases tr' with
        | nil => cases h
        | cons e' tr' =>
            obtain ⟨he, hrest⟩ := List.cons.inj h
            obtain ⟨hte, htr⟩ := List.forall_mem_cons.mp htr
            obtain ⟨hte', htr'⟩ := List.forall_mem_cons.mp htr'
            exact .cons (Entry.counterparts he hte hte') (ih hrest htr htr')
  rw [items, items, List.forall₂_map_left_iff, List.forall₂_map_right_iff]
  exact List.forall₂_reverse_iff.mpr hrecords

/-- The trace of a match records the tokens at their places. -/
theorem Machine.takenFrom_of_matched {ε : Type} {m : Machine ε} {limit : Nat} {root : State}
    (h : (m.run limit root).outcome = .matched) :
    ∀ e ∈ (m.run limit root).final.trace, e.TakenFrom m.tokens := by
  obtain ⟨c, hl, -, htrace⟩ := run_matched h
  have hhere := (hl.records c.here (List.mem_append_left _ List.mem_cons_self)).leave []
  intro e he t i ht
  rw [htrace] at he
  have hmem : (t, i) ∈ (c.here.leave []).trace.taken :=
    List.mem_filterMap.mpr ⟨e, List.mem_reverse.mpr he, ht⟩
  rw [hhere.taken, List.mk_mem_zipIdx_iff_getElem?, List.getElem?_take] at hmem
  split at hmem
  · exact hmem
  · cases hmem

/-- How many characters there are before a significant token does not depend on their case. -/
theorem offsetOf_lowered (n : Nat) (ts : List Token) :
    offsetOf Token.isSignificant n (ts.map Token.lowered) = offsetOf Token.isSignificant n ts := by
  induction ts generalizing n with
  | nil => rfl
  | cons t ts ih =>
      have hsees : t.lowered.isSignificant = t.isSignificant := rfl
      simp only [List.map_cons, offsetOf, hsees, ih, Token.value_lowered, Text.length_lowerAscii]

namespace Matcher

variable {s : Settings} {d : Dictionary} {env : Reference → Option Meaning} {source : String}
  {tokens tokens' : List Token}

/-- The machines for the tokens of two lists are the same in lower case. -/
theorem machine_lowered_eq {ε : Type} (h : List.Forall₂ Token.SameButCase tokens tokens')
    (limit : Int) (lowPriority : Bool) (resolve : Reference → Except ε (Option State)) :
    (machine ⟨limit, lowPriority, Token.isSignificant⟩ tokens' resolve).lowered =
      (machine ⟨limit, lowPriority, Token.isSignificant⟩ tokens resolve).lowered := by
  have hfilter : ∀ ts : List Token, (ts.filter Token.isSignificant).map Token.lowered =
      (ts.map Token.lowered).filter Token.isSignificant := fun ts => by
    rw [List.filter_map]
    rfl
  simp only [machine, Machine.lowered, hfilter, Token.map_lowered_eq h]

/-- Runs that are the same in lower case have the same result but for the tokens it shows. -/
theorem agree_result_of_lowered {r r' : Machine.Run Error} {limit : Int} {lowPriority : Bool}
    {g : Grammar} (ht : List.Forall₂ Token.SameButCase tokens tokens') (h : r'.lowered = r.lowered)
    (hr : r.outcome = .matched →
      ∀ e ∈ r.final.trace, e.TakenFrom (tokens.filter Token.isSignificant))
    (hr' : r'.outcome = .matched →
      ∀ e ∈ r'.final.trace, e.TakenFrom (tokens'.filter Token.isSignificant)) :
    Agree (MatchResult.SameButCase (tokens.filter Token.isSignificant)
        (tokens'.filter Token.isSignificant))
      ((result ⟨limit, lowPriority, Token.isSignificant⟩ tokens g r).mapError Error.ofMachine)
      ((result ⟨limit, lowPriority, Token.isSignificant⟩ tokens' g r').mapError
        Error.ofMachine) := by
  obtain ⟨houtcome, hsteps, hfinal⟩ := Machine.Run.mk.inj h
  obtain ⟨-, -, -, -, -, htrace, -, -, hlongest, -⟩ := Config.mk.inj hfinal
  have hoffset : offsetOf Token.isSignificant r'.final.longest tokens' =
      offsetOf Token.isSignificant r.final.longest tokens := by
    rw [hlongest, ← offsetOf_lowered, Token.map_lowered_eq ht, offsetOf_lowered]
  unfold result
  rw [houtcome]
  cases ho : r.outcome with
  | matched =>
      exact .ok ⟨rfl, hsteps, hlongest, hoffset,
        .some (Trace.counterparts htrace (hr ho) (hr' (houtcome.trans ho)))⟩
  | mismatched | limited => exact .ok ⟨rfl, hsteps, hlongest, hoffset, .none⟩
  | failed error => exact .error

/-- **Matching does not see the case of ASCII letters in a value.** For a grammar without a string
literal of one letter, or a text that is not one, and a dictionary of such grammars and of the generic
types of CSS, and for every limit and setting: two lists of tokens of the same kinds whose values differ only
in the case of ASCII letters lead to the same error, or to the same reason after the same number of
steps and with the same longest match. The traces of a match agree item by item, and each shows the
tokens of its own list. -/
theorem answer_same_of_sameButCase (hd : d.Means (fun _ => True) env)
    (henv : ∀ r g, env r = some (.grammar g) → g.NoLetters)
    (hgeneric : ∀ r count, env r = some (.recognizer count) → ∃ t : Recognizer, count = t)
    (hsource : ∀ g, Grammar.parse source = .ok g → g.NoLetters)
    (ht : List.Forall₂ Token.SameButCase tokens tokens') (limit : Int) (lowPriority : Bool)
    (s : Settings) :
    Agree (MatchResult.SameButCase (tokens.filter Token.isSignificant)
        (tokens'.filter Token.isSignificant))
      (answer ⟨limit, lowPriority, Token.isSignificant⟩ s d source tokens)
      (answer ⟨limit, lowPriority, Token.isSignificant⟩ s d source tokens') := by
  cases hg : Grammar.parse source with
  | error e =>
      rw [answer, answer, Graph.ofText, hg]
      exact .error
  | ok g =>
      cases hs : s.requireBool Settings.enumFolding with
      | error e =>
          rw [answer, answer, Graph.ofText, hg]
          simp only [Except.mapError, bind, Except.bind, Graph.ofGrammar, hs]
          exact .error
      | ok fold =>
          cases hc : (Compiler.standard fold).compile g with
          | error e =>
              rw [answer_eq_of_compile_error hg hs hc, answer_eq_of_compile_error hg hs hc]
              exact .error
          | ok root =>
              rw [answer_eq_of_compile hg hs hc, answer_eq_of_compile hg hs hc]
              have hroot := Compiler.caseBlind_compile hg (hsource g hg) hc
              have hroots : ∀ r root, d.roots s r = .ok (some root) → root.CaseBlind :=
                fun _ _ => hd.caseBlind trivial henv hgeneric
              refine agree_result_of_lowered ht ?_ (fun h => ?_) fun h => ?_
              · have hrun := fun ts => (machine ⟨limit, lowPriority, Token.isSignificant⟩ ts
                  (d.roots s)).run_lowered hroot hroots limit.toNat
                exact (hrun tokens').symm.trans
                  ((congrArg (fun m => m.run limit.toNat root)
                    (machine_lowered_eq ht limit lowPriority (d.roots s))).trans (hrun tokens))
              · exact Machine.takenFrom_of_matched h
              · exact Machine.takenFrom_of_matched h

/-- The grammar `a <f>`. -/
def spelledGrammar : Grammar := .row [.keyword "a", .type "f" none]

/-- The grammar `<dimension>`. -/
def spelledType : Grammar := .row [.type "dimension" none]

/-- The type `<f>` is `<dimension>`, and `<dimension>` is a generic type. -/
def spelledMeaning : Reference → Option Meaning :=
  Function.update (Function.update (fun _ => none) ⟨.type, "dimension"⟩
    (some (.recognizer Recognizer.dimension))) ⟨.type, "f"⟩ (some (.grammar spelledType))

/-- A dictionary with both types. -/
def spelledDictionary : Dictionary :=
  (Dictionary.addGeneric .empty "dimension" Recognizer.dimension).put ⟨.type, "f"⟩
    ⟨spelledType, "<dimension>", .pending⟩

theorem means_spelled : spelledDictionary.Means (fun _ => True) spelledMeaning :=
  .add (.addGeneric .empty) (rfl : Grammar.parse "<dimension>" = .ok spelledType)
    (r := ⟨.type, "f"⟩) rfl

theorem noLetters_spelled (r : Reference) (g : Grammar)
    (h : spelledMeaning r = some (.grammar g)) : g.NoLetters := by
  unfold spelledMeaning at h
  by_cases hf : r = ⟨.type, "f"⟩
  · subst hf
    rw [Function.update_self] at h
    cases h
    decide
  · rw [Function.update_of_ne hf] at h
    by_cases hi : r = ⟨.type, "dimension"⟩
    · subst hi
      rw [Function.update_self] at h
      cases h
    · rw [Function.update_of_ne hi] at h
      cases h

theorem generic_spelled (r : Reference) (count : Recognition)
    (h : spelledMeaning r = some (.recognizer count)) : ∃ t : Recognizer, count = t := by
  unfold spelledMeaning at h
  by_cases hf : r = ⟨.type, "f"⟩
  · subst hf
    rw [Function.update_self] at h
    cases h
  · rw [Function.update_of_ne hf] at h
    by_cases hi : r = ⟨.type, "dimension"⟩
    · subst hi
      rw [Function.update_self] at h
      cases h
      exact ⟨.dimension, rfl⟩
    · rw [Function.update_of_ne hi] at h
      cases h

/-- The tokens `A` and `1E2PX`. -/
def upperTokens : List Token := [⟨.ident, "A", none⟩, ⟨.dimension, "1E2PX", none⟩]

/-- The tokens `a` and `1e2Px`, the last of them with a mark. -/
def mixedCaseTokens : List Token := [⟨.ident, "a", none⟩, ⟨.dimension, "1e2Px", some "8:1"⟩]

/-- A number with an exponent and its unit are matched in either case. -/
theorem answer_same_of_sameButCase_spelled :
    (answer ⟨100, true, Token.isSignificant⟩ .standard spelledDictionary "a <f>"
        upperTokens).toOption.map MatchResult.reason = some .matched ∧
    Agree (MatchResult.SameButCase (upperTokens.filter Token.isSignificant)
        (mixedCaseTokens.filter Token.isSignificant))
      (answer ⟨100, true, Token.isSignificant⟩ .standard spelledDictionary "a <f>" upperTokens)
      (answer ⟨100, true, Token.isSignificant⟩ .standard spelledDictionary "a <f>"
        mixedCaseTokens) := by
  have hg : Grammar.parse "a <f>" = .ok spelledGrammar := rfl
  have hsource : ∀ g, Grammar.parse "a <f>" = .ok g → g.NoLetters := by
    intro g h
    cases hg.symm.trans h
    decide
  have hword : Text.lowerAscii "a" = Text.lowerAscii "A" := by decide +kernel
  have hsize : Text.lowerAscii "1e2Px" = Text.lowerAscii "1E2PX" := by decide +kernel
  have htokens : List.Forall₂ Token.SameButCase upperTokens mixedCaseTokens :=
    .cons ⟨rfl, hword⟩ (.cons ⟨rfl, hsize⟩ .nil)
  refine ⟨by decide +kernel, ?_⟩
  exact answer_same_of_sameButCase means_spelled noLetters_spelled generic_spelled hsource htokens
    100 true .standard

end Matcher

end ValueGrammar
